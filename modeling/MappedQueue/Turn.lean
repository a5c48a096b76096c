import MappedQueue.FreeList
import MappedQueue.MessageList
import MappedQueue.Request

/-!
# What a call does while it holds the lock

A turn is one stretch of a call between taking the lock and giving it back, or going
to sleep with it given back. A call takes its first turn when it gets the lock, another
one each time it wakes up from a wait, and a last one when it gives up waiting.
-/

namespace MappedQueue

/-- What an open handle brings into a call. -/
structure Handle where
  sizing : Sizing
  /-- Who the handle registers for notifications. -/
  identity : Nat
  nonblocking : Bool
  deriving DecidableEq, Repr

/-- How a turn ends. -/
inductive Verdict where
  /-- The call is over; somebody who waits for a condition may have to be woken. -/
  | finish (answer : Answer) (wake : Option Condition)
  | wait

/-- What a turn leaves behind besides the region. -/
structure Turn where
  verdict : Verdict
  buffer : ByteArray
  nonblocking : Bool
  delivery : Option Dispatch := none

/-- Puts a message on the queue, and yields whether the queue had been empty. The
caller has seen that there is room. -/
def enqueue (s : Sizing) (message : ByteArray) (priority : Nat) : Access Bool := do
  let slot ← FreeList.allocate s
  Slot.setPayload s slot message
  Access.set (.length slot) message.size
  Access.set (.priority slot) priority
  MessageList.insert s slot priority
  let queued ← Access.get .queued
  Access.set .queued (queued + 1)
  return queued + 1 = 1

structure Taken where
  message : ByteArray
  priority : Nat
  wasFull : Bool

/-- Takes the first message off the queue. The caller has seen that there is one. -/
def dequeue (s : Sizing) : Access Taken := do
  let slot ← MessageList.popHead s
  let length ← Access.get (.length slot)
  let priority ← Access.get (.priority slot)
  if s.messageSize < length then .fault (.oversizedMessage slot length s.messageSize)
  else
    let message ← Slot.payload s slot length
    FreeList.release s slot
    let queued ← Access.get .queued
    Access.set .queued (queued - 1)
    return ⟨message, priority, queued = s.capacity⟩

namespace Turn

/-- Overwrites the first bytes of a buffer and leaves the others as they are. -/
def overwrite (buffer message : ByteArray) : ByteArray :=
  message ++ buffer.extract message.size buffer.size

/-- Sends if there is room. -/
def trySend (h : Handle) (message : ByteArray) (priority : Nat) : Access Verdict := do
  let queued ← Access.get .queued
  if queued < h.sizing.capacity then
    let first ← enqueue h.sizing message priority
    return .finish (.ok .sent) (if first then some .notEmpty else none)
  else if h.nonblocking then return .finish (.error .wouldBlock) none
  else return .wait

/-- Receives into the buffer; there is a message. -/
def receive (h : Handle) (buffer : ByteArray) : Access Turn := do
  let taken ← dequeue h.sizing
  let wake := if taken.wasFull then some Condition.notFull else none
  return {
    verdict := .finish (.ok (.received taken.message.size taken.priority)) wake
    buffer := overwrite buffer taken.message
    nonblocking := h.nonblocking }

def stopWaiting : Access Unit := do
  let waiting ← Access.get .waiting
  Access.set .waiting (waiting - 1)

def attributes (h : Handle) : Access Attributes := do
  let queued ← Access.get .queued
  return { nonblocking := h.nonblocking, sizing := h.sizing, queued := queued }

/-- The first turn of a call. A message that finds the queue empty takes the
registration along, before anything else can fail or wait, and is sent whatever the
notifier reports. -/
def first (h : Handle) (herald : Herald) (buffer : ByteArray) : Request → Access Turn
  | .send message priority _ => do
    let queued ← Access.get .queued
    let taken ← if queued = 0 then Registration.take else pure none
    let delivery := taken.map herald.dispatch
    let verdict ← trySend h message priority
    return { verdict, buffer, nonblocking := h.nonblocking, delivery }
  | .receive _ => do
    let queued ← Access.get .queued
    if queued = 0 then
      if h.nonblocking then
        let verdict := Verdict.finish (.error .wouldBlock) none
        return { verdict, buffer, nonblocking := h.nonblocking }
      else
        let waiting ← Access.get .waiting
        Access.set .waiting (waiting + 1)
        return { verdict := .wait, buffer, nonblocking := h.nonblocking }
    else receive h buffer
  | .attributes => do
    let before ← attributes h
    let verdict := Verdict.finish (.ok (.attributes before)) none
    return { verdict, buffer, nonblocking := h.nonblocking }
  | .setNonblocking on => do
    let before ← attributes h
    let verdict := Verdict.finish (.ok (.attributes before)) none
    return { verdict, buffer, nonblocking := on }
  | .notify none => do
    Registration.withdraw h.identity
    let verdict := Verdict.finish (.ok .notified) none
    return { verdict, buffer, nonblocking := h.nonblocking }
  | .notify (some event) => do
    let registered ← Registration.register herald.alive h.identity event
    let answer : Answer := if registered then .ok .notified else .error .busy
    return { verdict := .finish answer none, buffer, nonblocking := h.nonblocking }
  | .linger _ _ _ => return { verdict := .wait, buffer, nonblocking := h.nonblocking }

/-- The turn of a call that woke up and holds the lock again. -/
def again (h : Handle) (buffer : ByteArray) : Request → Access Turn
  | .send message priority _ => do
    let verdict ← trySend h message priority
    return { verdict, buffer, nonblocking := h.nonblocking }
  | .receive _ => do
    let queued ← Access.get .queued
    if queued = 0 then return { verdict := .wait, buffer, nonblocking := h.nonblocking }
    else
      stopWaiting
      receive h buffer
  | _ =>
    let verdict := Verdict.finish (.ok (.waited none)) none
    return { verdict, buffer, nonblocking := h.nonblocking }

def giveUp (h : Handle) (buffer : ByteArray) (setback : Setback) : Request → Access Turn
  | .receive _ => do
    stopWaiting
    let verdict := Verdict.finish (.error setback.error) none
    return { verdict, buffer, nonblocking := h.nonblocking }
  | .linger _ _ _ =>
    let verdict := Verdict.finish (.ok (.waited (some setback))) none
    return { verdict, buffer, nonblocking := h.nonblocking }
  | _ =>
    let verdict := Verdict.finish (.error setback.error) none
    return { verdict, buffer, nonblocking := h.nonblocking }

/-- The turn of a call whose wait has failed below the queue. -/
def fail (h : Handle) (buffer : ByteArray) (error : SystemError) : Request → Access Turn
  | .receive _ => do
    stopWaiting
    let verdict := Verdict.finish (.error (.system error)) none
    return { verdict, buffer, nonblocking := h.nonblocking }
  | _ =>
    let verdict := Verdict.finish (.error (.system error)) none
    return { verdict, buffer, nonblocking := h.nonblocking }

/-- A turn that could not wake whom it had to. What it has done stays done, but the call
fails. -/
def unheard (error : SystemError) (t : Turn) : Turn :=
  match t.verdict with
  | .finish _ (some _) => { t with verdict := .finish (.error (.system error)) none }
  | _ => t

end Turn

end MappedQueue
