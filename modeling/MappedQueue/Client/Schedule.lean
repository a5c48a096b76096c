import MappedQueue.Client

/-!
# Running the threads of a client

The threads take turns: each one runs until it is blocked or has nothing left to do.
When all of them are blocked, time passes until the next slice ends. A client that
waits for something waits for a limited number of slices. The main thread goes first:
the others run only while it starts one of them or has to wait, so a thread that it wakes
finds what the main thread did until then.
-/

namespace MappedQueue.Client

/-- No thread takes more steps in one turn than this. -/
def burstLimit : Nat := 65536

/-- Nobody waits for more slices than this. -/
def patience : Nat := 65536

/-- Runs one thread for at most `limit` steps, and yields whether it moved at all. -/
def burst (t : Nat) : (limit : Nat) → Bool → Client → Bool × Client
  | 0, moved, p => (moved, p)
  | limit + 1, moved, p =>
    if p.fault.isSome then (moved, p)
    else match p.step t with
      | some p => burst t limit true p
      | none => (moved, p)

/-- Gives each thread one turn, and yields whether one of them moved. -/
def sweep (p : Client) : Bool × Client :=
  (List.range p.threads.size).foldl
    (fun (moved, p) t =>
      let (more, p) := burst t burstLimit false p
      (moved || more, p))
    (false, p)

/-- Runs the threads until all of them are blocked or done. -/
def settle : (turns : Nat) → Client → Client
  | 0, p => p
  | turns + 1, p =>
    match p.sweep with
    | (true, p) => settle turns p
    | (false, p) => p

/-- When the next slice ends, if a thread is blocked in one. The slice of a thread that was
roused is over while the thread waits for the lock. -/
def nextSliceEnd (p : Client) : Option Nat :=
  (p.threads.toList.filterMap fun t =>
    if t.call.isSome ∧ p.now < t.sliceEnd then some t.sliceEnd else none).min?

/-- Lets time pass up to a moment, and ends the slices that are over by then. -/
def advanceTo (p : Client) (moment : Nat) : Client :=
  let p := { p with now := max p.now moment }
  (List.range p.threads.size).foldl
    (fun p t => if (p.thread t).call.isSome ∧ (p.thread t).sliceEnd ≤ p.now then p.expire t else p)
    p

/-- Runs the threads, and time, until a moment. -/
def passUntil (moment : Nat) : (slices : Nat) → Client → Client
  | 0, p => p
  | slices + 1, p =>
    let p := p.settle patience
    match p.nextSliceEnd with
    | some sliceEnd =>
      if sliceEnd ≤ moment then passUntil moment slices (p.advanceTo sliceEnd)
      else p.advanceTo moment
    | none => p.advanceTo moment

/-- Runs the threads, and time, until `done` holds; with `raising`, an interruption arrives
in every slice. If `done` holds already, nothing runs. -/
def await (done : Client → Bool) (raising : Bool) : (slices : Nat) → Client → Client
  | 0, p => p
  | slices + 1, p =>
    if done p || p.fault.isSome then p
    else
      let p := p.settle patience
      if done p || p.fault.isSome then p
      else
        let p := if raising then { p with interruptions := p.interruptions + 1 } else p
        match p.nextSliceEnd with
        | some sliceEnd => await done raising slices (p.advanceTo sliceEnd)
        | none => p

/-- Makes a call in the main thread, and yields its outcome if it came to an end. The
other threads run only if the call has to wait. -/
def call (p : Client) (queue : Nat) (job : Job) : Option Outcome × Client :=
  let p := p.setThread main fun t => { t with queue, jobs := [job], outcomes := [] }
  let (_, p) := burst main burstLimit false p
  let p := p.await (fun p => (p.thread main).idle) false patience
  ((p.thread main).outcomes.head?, p)

/-- Receives into a new buffer. -/
def receiveNew (p : Client) (queue : Nat) : Option Outcome × Client :=
  match p.queues[queue]? with
  | some q =>
    let (outcome, p) := p.call queue (.receiveNew q.handle.sizing)
    (outcome.map Outcome.trimmed, p)
  | none => (none, p)

/-- The answer of a call that should not yield anything but whether it succeeded. -/
def plainAnswer : Option Outcome → Except Error Unit
  | some { answer := .error error, .. } => .error error
  | _ => .ok ()

/-- Withdraws the registration of a handle, as part of giving the handle up. -/
def withdraw (p : Client) (queue : Nat) : Except Error Unit × Client :=
  let (outcome, p) := p.call queue { request := .notify none }
  (plainAnswer outcome, p)

/-- Ends the use of a handle's mapping. -/
def detach (p : Client) (queue : Nat) : Client :=
  match p.queues[queue]? with
  | some queue => { p with host := p.host.unmap queue.store.mapping }
  | none => p

/-- Gives a handle up, after one attempt to withdraw its registration. -/
def drop (p : Client) (queue : Nat) : Client := (p.withdraw queue).2.detach queue

/-- Closes a handle. If the withdrawal fails, the handle is given up all the same, after a
second attempt. -/
def close (p : Client) (queue : Nat) : Except Error Unit × Client :=
  match p.withdraw queue with
  | (.ok (), p) => (.ok (), p.detach queue)
  | (.error error, p) => (.error error, p.drop queue)

def spawn (p : Client) (queue : Nat) (jobs : List Job) : Nat × Client :=
  let t := p.threads.size
  (t, { p with threads := p.threads.push { queue, jobs } }.settle patience)

def raise (p : Client) (count : Nat) : Client :=
  { p with interruptions := p.interruptions + count }

/-- Cancels a thread, or takes that back. -/
def setCancelled (p : Client) (t : Nat) (on : Bool) : Client :=
  p.setThread t ({ · with cancelled := on })

/-- Waits for a thread to end; with `raising`, interruptions arrive until it does. Yields
the outcomes of its calls, first one first. -/
def join (p : Client) (t : Nat) (raising : Bool) : List Outcome × Client :=
  let p := p.await (fun p => (p.thread t).idle) raising patience
  ((p.thread t).outcomes.reverse, p)

/-- Waits until a number of receivers are counted as waiting. -/
def awaitReceivers (p : Client) (queue : Queue) (count : Nat) : Client :=
  p.await (fun p => decide (count ≤ (p.shared queue).region.read .waiting)) false patience

/-- Whether a thread still has something to do after some time. -/
def busyAfter (p : Client) (t duration : Nat) : Bool × Client :=
  let moment := p.now + duration
  let p := passUntil moment (duration + 1) p
  (!(p.thread t).idle, p)

/-- Takes the lock of a queue, whatever its tag, in a new thread that does nothing else,
and yields the thread. -/
def hold (p : Client) (queue : Queue) : Nat × Client :=
  let t := p.threads.size
  let p := { p with threads := p.threads.push {} }
  let p := p.await (fun p => (p.shared queue).holder.isNone) false patience
  let (_, p) := p.access queue fun q =>
    ((), if q.holder.isNone then q.seize t else q)
  (t, p)

/-- Gives back a lock that a thread holds. -/
def letGo (p : Client) (queue : Queue) (t : Nat) : Client :=
  let (_, p) := p.access queue fun q =>
    ((), if q.holder = some t then { q with holder := none } else q)
  p.settle patience

/-- Lets a thread die that holds a lock. The lock is free then, and the next one to take it
puts it in order. -/
def perish (p : Client) (queue : Queue) (t : Nat) : Client :=
  let (_, p) := p.access queue fun q =>
    ((), if q.holder = some t then { q with holder := none, orphaned := true } else q)
  p.settle patience

end MappedQueue.Client
