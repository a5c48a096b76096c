import MappedQueue.Event
import MappedQueue.Slot

/-!
# Looking over a queue

A survey reads the whole state of a region and follows both lists, whatever the region
holds. It stops at a link that leads to no slot, and when a list goes on beyond the
number of slots; it shows the first slots of each list only.
-/

namespace MappedQueue

/-- What a walk along a list came across. -/
inductive Sight where
  | slot (index priority length : Nat)
  /-- A link that leads to no slot; the walk ended there. -/
  | stray (link : Nat)
  /-- More slots than there are; the walk ended there. -/
  | endless
  deriving DecidableEq, Repr

/-- A list as a walk found it. -/
structure Trail where
  sights : List Sight
  count : Nat
  deriving DecidableEq, Repr

structure Survey where
  queued : Nat
  waiting : Nat
  owner : Nat
  event : Event
  head : Nat
  free : Nat
  messages : Trail
  freeSlots : Trail
  deriving DecidableEq, Repr

namespace Survey

/-- No more slots of a list are shown than this. -/
def shown : Nat := 64

/-- Follows a list from `link`, passing at most `left` more slots after those it passed
already: `count` in number, with what it shows of them, latest first, in `seen`. -/
def follow (s : Sizing) : (left count link : Nat) → (seen : List Sight) → Access Trail
  | left, count, link, seen =>
    if link = Layout.nil then pure ⟨seen.reverse, count⟩
    else if !s.isSlot link then pure ⟨(.stray link :: seen).reverse, count⟩
    else match left with
      | 0 => pure ⟨(.endless :: seen).reverse, count⟩
      | left + 1 => do
        let header ← Slot.header s link
        let sight := Sight.slot (s.slotIndex link) header.priority header.length
        follow s left (count + 1) header.next (if count < shown then sight :: seen else seen)

def take (s : Sizing) : Access Survey := do
  let queued ← Access.get .queued
  let waiting ← Access.get .waiting
  let owner ← Access.get .owner
  let event ← Event.load
  let head ← Access.get .head
  let free ← Access.get .free
  let messages ← follow s (s.capacity + 1) 0 head []
  let freeSlots ← follow s (s.capacity + 1) 0 free []
  return { queued, waiting, owner, event, head, free, messages, freeSlots }

end Survey

end MappedQueue
