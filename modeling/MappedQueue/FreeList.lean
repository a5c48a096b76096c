import MappedQueue.Slot

/-!
# The list of free slots

Free slots are chained through their links, and the list is used as a stack: the slot
released last is allocated next.
-/

namespace MappedQueue.FreeList

/-- Takes the first free slot off the list. An empty list is a fault: whoever asks has
found fewer messages counted than there are slots. -/
def allocate (s : Sizing) : Access Nat := do
  let slot ← Access.get .free
  if slot = Layout.nil then
    let queued ← Access.get .queued
    .fault (.noFreeSlot queued)
  else
    Slot.check s slot
    let next ← Access.get (.next slot)
    Access.set .free next
    return slot

/-- Puts a slot at the front of the list. -/
def release (s : Sizing) (slot : Nat) : Access Unit := do
  let first ← Access.get .free
  Slot.check s slot
  Access.set (.next slot) first
  Access.set .free slot

end MappedQueue.FreeList
