import MappedQueue.Error
import MappedQueue.Event

/-!
# Delivering notifications

A notifier delivers events to registered identities and knows which of them are alive.
The usual notifier takes identities for process numbers and sends signals. A signal to
the process it runs in is seen there; one to another process is lost from sight. A
recorder delivers nothing but keeps a record, and is told who is alive.
-/

namespace MappedQueue

/-- How the notifications of a handle are delivered. -/
inductive Notifier where
  | signals
  | records
  deriving DecidableEq, Repr

/-- A signal that the process received. -/
structure Signal where
  number : Int
  value : Nat
  deriving DecidableEq, Repr

/-- What a recorder knows and has recorded. -/
structure Recorder where
  /-- The identities that are not alive. -/
  dead : List Nat := []
  failing : Bool := false
  /-- All deliveries, the failed ones included, latest first. -/
  record : List Delivery := []
  deriving DecidableEq, Repr

/-- The number of the process that a system starts first and that never ends. -/
def Notices.firstProcess : Nat := 1

/-- What notifiers know and leave behind. -/
structure Notices where
  self : Nat
  /-- The numbers of the other processes there are. -/
  others : List Nat := [Notices.firstProcess]
  /-- The signals received, latest first. -/
  received : List Signal := []
  recorder : Recorder := {}
  deriving DecidableEq, Repr

namespace Notices

/-- The numbers that stand for several processes, of which some are always there: those
the process was started with, and all that it may send signals to. No signal with a value
can be sent to them. -/
def groups : List Nat := [0, 0xffffffff]

/-- Signals have numbers below this one. -/
def signalLimit : Int := 65

def runs (n : Notices) (process : Nat) : Bool :=
  process == n.self || n.others.contains process

/-- Sends a signal to a process. Number 0 stands for none: it is sent in vain, but it
can fail. -/
def send (n : Notices) (process : Nat) (signal : Signal) : Except SystemError Unit × Notices :=
  if !n.runs process then (.error (.code Errno.noProcess), n)
  else if signal.number < 0 ∨ signalLimit ≤ signal.number then (.error (.code Errno.invalid), n)
  else if signal.number = 0 ∨ process ≠ n.self then (.ok (), n)
  else (.ok (), { n with received := signal :: n.received })

end Notices

namespace Recorder

def note (r : Recorder) (delivery : Delivery) : Except SystemError Unit × Recorder :=
  (if r.failing then .error (.described "delivery failed") else .ok (),
    { r with record := delivery :: r.record })

end Recorder

namespace Notifier

def alive (notifier : Notifier) (n : Notices) (identity : Nat) : Bool :=
  match notifier with
  | signals => Notices.groups.contains identity || n.runs identity
  | records => !n.recorder.dead.contains identity

def deliver (notifier : Notifier) (n : Notices) (delivery : Delivery) :
    Except SystemError Unit × Notices :=
  match notifier, delivery.event.kind with
  | signals, .quiet => (.ok (), n)
  | signals, .signal => n.send delivery.owner ⟨delivery.event.signal, delivery.event.value⟩
  | records, _ =>
    let (outcome, recorder) := n.recorder.note delivery
    (outcome, { n with recorder })

def herald (notifier : Notifier) (n : Notices) : Herald where
  alive := notifier.alive n
  deliver delivery := (notifier.deliver n delivery).1

end Notifier

end MappedQueue
