import MappedQueue.Access

/-!
# Slots

Every slot is on one of two lists: free slots hold no message, the others hold one.
Whoever follows a link checks first that a slot starts where it leads, so a damaged
link ends in a fault and never in an access outside the slots.
-/

namespace MappedQueue

structure SlotHeader where
  next : Nat
  length : Nat
  priority : Nat
  deriving DecidableEq, Repr

namespace Slot

/-- Goes on only if a slot starts at `link`. -/
def check (s : Sizing) (link : Nat) : Access Unit :=
  if s.isSlot link then pure () else .fault (.strayLink link)

def header (s : Sizing) (link : Nat) : Access SlotHeader := do
  check s link
  let next ← Access.get (.next link)
  let length ← Access.get (.length link)
  let priority ← Access.get (.priority link)
  return ⟨next, length, priority⟩

def setPriority (s : Sizing) (link priority : Nat) : Access Unit := do
  check s link
  Access.set (.priority link) priority

/-- Writes the bytes of a message into the slot at `link`. -/
def setPayload (s : Sizing) (link : Nat) (bytes : ByteArray) : Access Unit := do
  check s link
  Access.setBytes (Layout.payload link) bytes

/-- The first `count` of the bytes for the message in the slot at `link`. -/
def payload (s : Sizing) (link count : Nat) : Access ByteArray := do
  check s link
  Access.getBytes (Layout.payload link) count

end Slot

end MappedQueue
