import MappedQueue.Access
import MappedQueue.Error

/-!
# Notifications

One identity can be registered with a queue to be told, once, that a message arrived on
the empty queue. The event it registers says how: by a signal with a value, or not at
all. The event stays in the region after it was delivered; only the owner is cleared.
-/

namespace MappedQueue

/-- How the registered identity wants to be told. -/
inductive EventKind where
  /-- The registration counts, but nothing is delivered. -/
  | quiet
  | signal
  deriving DecidableEq, Repr

/-- What is delivered to the registered identity. -/
structure Event where
  kind : EventKind
  signal : Int
  value : Nat
  deriving DecidableEq, Repr

/-- An event on its way to the identity that registered it. -/
structure Delivery where
  owner : Nat
  event : Event
  deriving DecidableEq, Repr

/-- A delivery that was handed to a notifier, and what the notifier reported of it. -/
structure Dispatch extends Delivery where
  report : Except SystemError Unit

/-- What a notifier says when it is asked: who is alive, and how a delivery went. -/
structure Herald where
  alive : Nat → Bool
  deliver : Delivery → Except SystemError Unit

namespace Herald

def dispatch (herald : Herald) (delivery : Delivery) : Dispatch :=
  ⟨delivery, herald.deliver delivery⟩

theorem map_dispatch (herald : Herald) (delivery : Option Delivery) :
    (delivery.map herald.dispatch).map (·.toDelivery) = delivery := by
  cases delivery <;> rfl

end Herald

namespace EventKind

/-- How a kind is stored. -/
def code : EventKind → Nat
  | quiet => 0
  | signal => 1

/-- The kind that is stored as `n`; every number but one means nothing is sent. -/
def ofCode (n : Nat) : EventKind := if n = 1 then signal else quiet

end EventKind

namespace Event

/-- The event that asks for nothing. -/
def nothing : Event := ⟨.quiet, 0, 0⟩

def encodeSigned (n : Int) : Nat := (n % 0x100000000).toNat

/-- The signed number that is stored as `n`. -/
def decodeSigned (n : Nat) : Int := Int.bmod n 0x100000000

def load : Access Event := do
  let kind ← Access.get .eventKind
  let signal ← Access.get .eventSignal
  let value ← Access.get .eventValue
  return ⟨.ofCode kind, decodeSigned signal, value⟩

def store (event : Event) : Access Unit := do
  Access.set .eventKind event.kind.code
  Access.set .eventSignal (encodeSigned event.signal)
  Access.set .eventValue event.value

end Event

namespace Registration

/-- Takes the registration for a delivery: if somebody is registered and no receiver is
waiting for the message, the registration ends and its event is to be delivered. -/
def take : Access (Option Delivery) := do
  let owner ← Access.get .owner
  let waiting ← Access.get .waiting
  if owner = 0 ∨ waiting ≠ 0 then return none
  else
    let event ← Event.load
    Access.set .owner 0
    return some ⟨owner, event⟩

/-- Ends the registration of `identity`, if it is the one registered. -/
def withdraw (identity : Nat) : Access Unit := do
  let owner ← Access.get .owner
  if owner = identity then Access.set .owner 0

/-- Registers `identity`, and yields whether that was possible: it is not while another
identity that is still alive is registered. -/
def register (alive : Nat → Bool) (identity : Nat) (event : Event) : Access Bool := do
  let owner ← Access.get .owner
  if owner ≠ 0 ∧ owner ≠ identity ∧ alive owner then return false
  else
    Access.set .owner identity
    event.store
    return true

end Registration

end MappedQueue
