import MappedQueue.Shared
import MappedQueue.Turn

/-!
# A call, step by step

A call runs in steps. Each step looks at one thing other threads can change, or takes
one turn under the lock, so that a run of several threads is a sequence of such steps
in any order. Between two steps a call stands at a point.

A call asks for the lock, and waits for its condition, in slices of limited length. At
the end of a slice it looks whether its thread has been cancelled, whether an
interruption arrived since the slice began, and whether its deadline has passed. A call
that was woken looks at none of these, but only at the queue, and so does one that gets the
lock back from a thread that died with it.

The lock, a wait and a wake-up can fail below the queue, and then the call fails.
-/

namespace MappedQueue

/-- What a thread can see around itself at one moment. -/
structure Surroundings where
  cancelled : Bool
  interruptions : Nat
  now : Nat
  herald : Herald

/-- Where a call stands. A number of interruptions is the one seen at the beginning of
the slice. -/
inductive Point where
  /-- Nothing has been looked at yet. -/
  | arriving
  /-- The arguments are accepted. -/
  | knocking
  /-- Asks for the lock. -/
  | atDoor (interruptions : Nat)
  /-- A slice ended without the lock; looks for a cancellation. -/
  | doorCancelled (interruptions : Nat)
  /-- A slice ended without the lock; looks for interruptions. -/
  | doorInterrupted (interruptions : Nat)
  /-- Holds the lock for the first time. -/
  | inside
  /-- Holds the lock and has to wait; looks for a cancellation. -/
  | waitCancelled
  /-- Holds the lock and has to wait; counts the interruptions. -/
  | waitInterrupted
  /-- Holds the lock and has to wait; looks at the clock. -/
  | waitClock (interruptions : Nat)
  /-- Asleep, without the lock. -/
  | asleep (interruptions : Nat)
  /-- Awake, because it was woken or because the slice ended; wants the lock back. -/
  | roused (interruptions : Nat) (woken : Bool)
  /-- Holds the lock after the end of a slice; looks for a cancellation. -/
  | backCancelled (interruptions : Nat)
  /-- Holds the lock after the end of a slice; looks for interruptions. -/
  | backInterrupted (interruptions : Nat)
  /-- Holds the lock after the end of a slice; looks at the clock. -/
  | backClock
  /-- Holds the lock and looks at the queue again. -/
  | looking
  /-- Holds the lock and gives up. -/
  | quitting (setback : Setback)
  | answered (answer : Answer)
  /-- The region was found broken; the process ends. -/
  | broken (fault : Fault)

structure Call where
  request : Request
  buffer : ByteArray := ByteArray.empty
  point : Point := .arriving

/-- What one step of a call leaves behind. -/
structure Advance where
  call : Call
  shared : Shared
  nonblocking : Bool
  delivery : Option Dispatch := none

namespace Call

/-- Why the arguments of a call are refused, if they are. -/
def refusal? (h : Handle) (buffer : ByteArray) : Request → Option Error
  | .send message priority _ =>
    if priorityLimit ≤ priority then some (.invalidPriority priority)
    else if h.sizing.messageSize < message.size then
      some (.messageTooLarge message.size h.sizing.messageSize)
    else none
  | .receive _ =>
    if buffer.size < h.sizing.messageSize then
      some (.bufferTooSmall buffer.size h.sizing.messageSize)
    else none
  | _ => none

/-- The point a call reaches from its arrival: a transfer looks for a cancellation, then
at the tag, then at its arguments. -/
def arrive (h : Handle) (around : Surroundings) (q : Shared) (c : Call) : Point :=
  if !c.request.transfers then .knocking
  else if around.cancelled then .answered (.error .cancelled)
  else if !q.tagged then .answered (.error .badHandle)
  else match refusal? h c.buffer c.request with
    | some error => .answered (.error error)
    | none => .knocking

/-- Takes a turn. A call that is over gives the lock back and wakes whom it has to. -/
def takeTurn (h : Handle) (pick : Nat) (q : Shared) (c : Call) (turn : Access Turn) : Advance :=
  match turn.run q.region with
  | (.error fault, region) =>
    { call := { c with point := .broken fault }
      shared := { q with region }
      nonblocking := h.nonblocking }
  | (.ok turn, region) =>
    match turn.verdict with
    | .wait =>
      { call := { c with point := .waitCancelled, buffer := turn.buffer }
        shared := { q with region }
        nonblocking := turn.nonblocking
        delivery := turn.delivery }
    | .finish answer wake =>
      let q := { q with region, holder := none }
      { call := { c with point := .answered answer, buffer := turn.buffer }
        shared := match wake with
          | some condition => q.wake condition pick
          | none => q
        nonblocking := turn.nonblocking
        delivery := turn.delivery }

def late (now : Nat) (c : Call) : Bool :=
  match c.request.deadline with
  | some deadline => deadline ≤ now
  | none => false

/-- One step of the call of thread `me`, if it can take one: a thread that sleeps or
finds the lock taken cannot. `pick` selects whom a wake-up reaches. -/
def step (me : Nat) (h : Handle) (around : Surroundings) (pick : Nat) (q : Shared) (c : Call) :
    Option Advance :=
  let stay (point : Point) (q : Shared) : Option Advance :=
    some { call := { c with point }, shared := q, nonblocking := h.nonblocking }
  match c.point with
  | .arriving => stay (c.arrive h around q) q
  | .knocking =>
    if c.request.needsTag && !q.tagged then stay (.answered (.error .badHandle)) q
    else stay (.atDoor around.interruptions) q
  | .atDoor _ =>
    if q.holder.isNone then stay .inside (q.seize me) else none
  | .doorCancelled seen =>
    if around.cancelled then stay (.answered (.error .cancelled)) q
    else stay (.doorInterrupted seen) q
  | .doorInterrupted seen =>
    if around.interruptions ≠ seen ∧ c.request.lockPolicy = .fail then
      stay (.answered (.error .interrupted)) q
    else stay (.atDoor around.interruptions) q
  | .inside => some (c.takeTurn h pick q (Turn.first h around.herald c.buffer c.request))
  | .waitCancelled =>
    if around.cancelled then stay (.quitting .cancelled) q else stay .waitInterrupted q
  | .waitInterrupted => stay (.waitClock around.interruptions) q
  | .waitClock seen =>
    if c.late around.now then stay (.quitting .timedOut) q
    else
      let sleepers := q.sleepers ++ [(me, c.request.condition)]
      stay (.asleep seen) { q with holder := none, sleepers }
  | .asleep seen =>
    if q.sleepers.contains (me, c.request.condition) then none else stay (.roused seen true) q
  | .roused seen woken =>
    if q.holder.isNone then
      stay (if woken || q.orphaned then .looking else .backCancelled seen) (q.seize me)
    else none
  | .backCancelled seen =>
    if around.cancelled then stay (.quitting .cancelled) q else stay (.backInterrupted seen) q
  | .backInterrupted seen =>
    if around.interruptions ≠ seen ∧ c.request.waitPolicy = .fail then
      stay (.quitting .interrupted) q
    else stay .backClock q
  | .backClock =>
    if c.late around.now then stay (.quitting .timedOut) q else stay .looking q
  | .looking => some (c.takeTurn h pick q (Turn.again h c.buffer c.request))
  | .quitting setback =>
    some (c.takeTurn h pick q (Turn.giveUp h c.buffer setback c.request))
  | .answered _ | .broken _ => none

/-- The end of the slice in which thread `me` asks for the lock or sleeps. A thread that
was woken before is not concerned. -/
def expire (me : Nat) (q : Shared) (c : Call) : Option (Shared × Call) :=
  match c.point with
  | .atDoor seen =>
    if q.holder.isSome then some (q, { c with point := .doorCancelled seen }) else none
  | .asleep seen =>
    let sleeper := (me, c.request.condition)
    if q.sleepers.contains sleeper then
      some ({ q with sleepers := q.sleepers.erase sleeper },
        { c with point := .roused seen false })
    else none
  | _ => none

/-- The failure of the lock or of a wait of thread `me`, which ends the call. A wait fails
before the thread sleeps, or afterwards with the lock taken back. -/
def falter (me : Nat) (h : Handle) (error : SystemError) (q : Shared) (c : Call) :
    Option Advance :=
  let turn := Turn.fail h c.buffer error c.request
  match c.point with
  | .atDoor _ =>
    let call := { c with point := .answered (.error (.system error)) }
    some { call, shared := q, nonblocking := h.nonblocking }
  | .waitClock _ => some (c.takeTurn h 0 q turn)
  | .roused _ _ => if q.holder.isNone then some (c.takeTurn h 0 (q.seize me) turn) else none
  | _ => none

/-- A turn of a call that cannot wake whom it has to. -/
def unheard (h : Handle) (around : Surroundings) (error : SystemError) (q : Shared) (c : Call) :
    Option Advance :=
  match c.point with
  | .inside =>
    let turn := Turn.first h around.herald c.buffer c.request
    some (c.takeTurn h 0 q (Turn.unheard error <$> turn))
  | .looking =>
    let turn := Turn.again h c.buffer c.request
    some (c.takeTurn h 0 q (Turn.unheard error <$> turn))
  | _ => none

/-- How long a slice of a call lasts that begins now. -/
def sliceLength (now : Nat) (c : Call) : Nat :=
  match c.point, c.request.deadline with
  | .asleep _, some deadline => min (deadline - now) 50
  | _, _ => 50

end Call

end MappedQueue
