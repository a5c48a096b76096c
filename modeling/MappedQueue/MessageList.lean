import MappedQueue.Slot

/-!
# The list of queued messages

Queued messages are chained from the highest priority to the lowest, and among equal
priorities from the oldest to the newest. A new message goes in front of the first one
whose priority is strictly lower. The walk to that place gives up after as many
messages as the queue can hold, so it ends on a damaged list as well.
-/

namespace MappedQueue.MessageList

/-- Where a message is put into the list: behind `previous` and in front of `following`,
either of which can be missing. -/
structure Place where
  previous : Nat
  following : Nat
  deriving DecidableEq, Repr

/-- One step of the walk: stops in front of `current` if the list ends there or the
message there has a lower priority, and goes on with `further` otherwise. -/
def visit (s : Sizing) (priority : Nat) (further : (previous current : Nat) → Access Place)
    (previous current : Nat) : Access Place :=
  if current = Layout.nil then pure ⟨previous, current⟩
  else do
    Slot.check s current
    let there ← Access.get (.priority current)
    if there < priority then pure ⟨previous, current⟩
    else do
      let next ← Access.get (.next current)
      further current next

/-- Walks from `current`, passing at most `budget` messages. -/
def walk (s : Sizing) (priority : Nat) : (budget previous current : Nat) → Access Place
  | 0 => visit s priority fun _ _ => .fault (.endlessList s.capacity)
  | budget + 1 => visit s priority (walk s priority budget)

/-- Links the slot at `slot` into the list as a message of the given priority. -/
def insert (s : Sizing) (slot priority : Nat) : Access Unit := do
  let head ← Access.get .head
  let place ← walk s priority s.capacity Layout.nil head
  Slot.check s slot
  Access.set (.next slot) place.following
  if place.previous = Layout.nil then Access.set .head slot
  else do
    Slot.check s place.previous
    Access.set (.next place.previous) slot

/-- Takes the first message off the list and yields its slot. An empty list is a fault:
whoever asks has found messages counted. -/
def popHead (s : Sizing) : Access Nat := do
  let slot ← Access.get .head
  if slot = Layout.nil then
    let queued ← Access.get .queued
    .fault (.noMessage queued)
  else
    Slot.check s slot
    let next ← Access.get (.next slot)
    Access.set .head next
    return slot

end MappedQueue.MessageList
