import Mathlib.Logic.Function.Basic
import MappedQueue.Proofs.Calls
import MappedQueue.Store

/-!
# Many users of one queue

Any number of threads make calls through any number of handles on one queue. A run of the
system is a sequence of steps of single threads in any order. What a thread sees around
itself when it takes a step, the time, interruptions, cancellation, who is alive and what the
notifier reports, is whatever it may be at that moment, and so is the thread that a wake-up
reaches. A slice can end at any moment, a sleeper can wake up for no reason, and the lock and a
wait can fail. Whoever fails to open a handle has only looked, and that is no step.

Giving a handle up is a call like the others: the registration of the identity is
withdrawn. Closing tries again if that fails, and then the handle is gone in any case.
-/

namespace MappedQueue

/-- What a thread makes a call for. -/
inductive Purpose where
  | request
  | close
  | drop
  deriving DecidableEq, Repr

structure Worker where
  number : Nat
  purpose : Purpose
  call : Call

/-- A notifier that knows everybody alive and always succeeds. -/
def Herald.smooth : Herald := ⟨fun _ => true, fun _ => .ok ()⟩

/-- One queue and its users. -/
structure System where
  shared : Shared
  handles : Nat → Option Handle := fun _ => none
  workers : Nat → Option Worker := fun _ => none

/-- What can be seen from outside. -/
inductive Happening where
  /-- A thread hands a delivery to the notifier, which reports how that went. -/
  | delivered (thread : Nat) (delivery : Delivery) (report : Except SystemError Unit)
  /-- A call through a handle of `identity` is over and leaves the caller's buffer like this. -/
  | answered (thread identity : Nat) (request : Request) (answer : Answer) (buffer : ByteArray)

namespace System

/-- A queue that nobody uses. -/
def idle (q : Shared) : System := { shared := q }

def setHandle (S : System) (number : Nat) (handle : Option Handle) : System :=
  { S with handles := Function.update S.handles number handle }

def setWorker (S : System) (thread : Nat) (worker : Option Worker) : System :=
  { S with workers := Function.update S.workers thread worker }

def news (thread : Nat) (h : Handle) (next : Advance) : List Happening :=
  (next.delivery.map fun d => Happening.delivered thread d.toDelivery d.report).toList ++
    match next.call.point with
    | .answered answer =>
      [.answered thread h.identity next.call.request answer next.call.buffer]
    | _ => []

/-- The withdrawal that giving up a handle begins with. -/
def withdrawal (number : Nat) (purpose : Purpose) : Worker :=
  ⟨number, purpose, { request := .notify none }⟩

/-- What a worker becomes by a step of its call. -/
def onward (w : Worker) (next : Advance) : Option Worker :=
  match next.call.point with
  | .answered answer =>
    match w.purpose, answer with
    | .close, .error _ => some (withdrawal w.number .drop)
    | _, _ => none
  | _ => some { w with call := next.call }

/-- What a handle becomes by a step of a call on it. -/
def handleAfter (w : Worker) (h : Handle) (next : Advance) : Option Handle :=
  match next.call.point, w.purpose with
  | .answered (.ok _), .close | .answered _, .drop => none
  | _, _ => some { h with nonblocking := next.nonblocking }

def advance (S : System) (thread : Nat) (w : Worker) (h : Handle) (next : Advance) : System :=
  { (S.setHandle w.number (handleAfter w h next)).setWorker thread (onward w next) with
    shared := next.shared }

/-- One step of the system, and what it shows. -/
inductive Step (S : System) : List Happening → System → Prop
  /-- A handle is opened on the file as it is. -/
  | attach {number identity : Nat} {nonblocking : Bool} {sizing : Sizing}
      (hunused : S.handles number = none) (hidentity : 0 < identity ∧ identity < 2 ^ 32)
      (hpreamble : (Store.preamble S.shared.region.size).run S.shared.region =
        (.ok (.ok sizing), S.shared.region)) :
      Step S [] (S.setHandle number (some ⟨sizing, identity, nonblocking⟩))
  | call {thread number : Nat} {request : Request} {buffer : ByteArray}
      (hidle : S.workers thread = none) (hopen : S.handles number ≠ none)
      (hkept : ∀ t w, S.workers t = some w → w.number = number → w.purpose = .request)
      (hfits : request.Fits) :
      Step S [] (S.setWorker thread (some ⟨number, .request, { request, buffer }⟩))
  /-- A thread begins to give up a handle that nobody uses. -/
  | leave {thread number : Nat} {purpose : Purpose}
      (hidle : S.workers thread = none) (hopen : S.handles number ≠ none)
      (hunused : ∀ t w, S.workers t = some w → w.number ≠ number) (hpurpose : purpose ≠ .request) :
      Step S [] (S.setWorker thread (some (withdrawal number purpose)))
  /-- A thread takes a step of its call. -/
  | act {thread pick : Nat} {w : Worker} {h : Handle} {around : Surroundings} {next : Advance}
      (hworker : S.workers thread = some w) (hhandle : S.handles w.number = some h)
      (hstep : w.call.step thread h around pick S.shared = some next) :
      Step S (news thread h next) (S.advance thread w h next)
  /-- The lock or a wait fails, and with it the call. -/
  | falter {thread : Nat} {w : Worker} {h : Handle} {error : SystemError} {next : Advance}
      (hworker : S.workers thread = some w) (hhandle : S.handles w.number = some h)
      (hfalter : w.call.falter thread h error S.shared = some next) :
      Step S (news thread h next) (S.advance thread w h next)
  | expire {thread : Nat} {w : Worker} {q : Shared} {c : Call}
      (hworker : S.workers thread = some w)
      (hexpire : w.call.expire thread S.shared = some (q, c)) :
      Step S [] { S.setWorker thread (some { w with call := c }) with shared := q }
  /-- A sleeper wakes up for no reason. -/
  | stir (sleeper : Nat × Condition) :
      Step S [] { S with shared := { S.shared with sleepers := S.shared.sleepers.erase sleeper } }

/-- A step of the system, or a turn of a call that does what it has to but fails to wake whom it
has to, and with that the call fails. -/
inductive Motion (S : System) : List Happening → System → Prop
  | step {shown : List Happening} {S' : System} (hstep : Step S shown S') : Motion S shown S'
  | unheard {thread : Nat} {w : Worker} {h : Handle} {around : Surroundings} {error : SystemError}
      {next : Advance} (hworker : S.workers thread = some w)
      (hhandle : S.handles w.number = some h)
      (hunheard : w.call.unheard h around error S.shared = some next) :
      Motion S (news thread h next) (S.advance thread w h next)

/-- A run of the system, and all that could be seen of it, first things first. -/
inductive Run (S₀ : System) : List Happening → System → Prop
  | start : Run S₀ [] S₀
  | step {history shown : List Happening} {S S' : System} (hrun : Run S₀ history S)
      (hstep : Step S shown S') : Run S₀ (history ++ shown) S'

end System

end MappedQueue
