import MappedQueue.Call

/-!
# A call in a process with one thread

When nothing else in the process runs, a call takes its steps one after the other, and
each time it is blocked the slice runs to its end. Interruptions arrive from outside, at
moments that are given beforehand.
-/

namespace MappedQueue

/-- The time, and the interruptions. -/
structure Clock where
  now : Nat := 1
  interruptions : Nat := 0
  /-- Whether an interruption arrives in the slice that begins at a moment. -/
  arrives : Nat → Bool := fun _ => false

def Clock.pass (clock : Clock) (slice : Nat) : Clock :=
  { clock with
    now := clock.now + slice
    interruptions := clock.interruptions + if clock.arrives clock.now then 1 else 0 }

structure Alone where
  shared : Shared
  call : Call
  handle : Handle
  clock : Clock := {}
  /-- The notifications that the call has set off, latest first. -/
  deliveries : List Dispatch := []

namespace Alone

def me : Nat := 0

/-- The next step of the call. -/
def advance (herald : Herald) (a : Alone) : Option Alone :=
  let around : Surroundings := ⟨false, a.clock.interruptions, a.clock.now, herald⟩
  (a.call.step me a.handle around 0 a.shared).map fun next => {
    shared := next.shared
    call := next.call
    handle := { a.handle with nonblocking := next.nonblocking }
    clock := a.clock
    deliveries := next.delivery.toList ++ a.deliveries }

/-- A call is over or blocked after this many steps at the latest. -/
def stretch : Nat := 16

/-- Takes steps until the call is over or blocked. -/
def settle (herald : Herald) : (steps : Nat) → Alone → Alone
  | 0, a => a
  | steps + 1, a =>
    match a.advance herald with
    | some next => settle herald steps next
    | none => a

/-- The end of the slice in which the call is blocked. -/
def expire (a : Alone) : Option Alone :=
  (a.call.expire me a.shared).map fun (shared, call) =>
    { a with shared, call, clock := a.clock.pass (a.call.sliceLength a.clock.now) }

/-- Lets the call go on until it is over, or until it has been blocked for so many slices and
is blocked again. -/
def run (herald : Herald) : (slices : Nat) → Alone → Alone
  | 0, a => a.settle herald stretch
  | slices + 1, a =>
    let settled := a.settle herald stretch
    match settled.expire with
    | some next => run herald slices next
    | none => settled

end Alone

end MappedQueue
