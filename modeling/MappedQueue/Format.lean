import MappedQueue.Event
import MappedQueue.Slot

/-!
# Making a region a queue

A new queue is laid out in three parts: the sizing, an empty state with every slot on
the free list, and the lock objects, which the system prepares. The tag is written last,
so whoever finds the tag finds a finished queue.
-/

namespace MappedQueue.Format

/-- Clears the headers of `left` slots from slot number `i` on and chains them in
order; the last slot of the queue ends the chain. -/
def chain (s : Sizing) : (left i : Nat) → Access Unit
  | 0, _ => pure ()
  | left + 1, i => do
    let slot := s.slotOffset i
    Slot.check s slot
    Access.set (.next slot) (if i + 1 < s.capacity then s.slotOffset (i + 1) else Layout.nil)
    Access.set (.length slot) 0
    Access.set (.priority slot) 0
    chain s left (i + 1)

/-- Makes the queue empty: nothing counted, nobody registered, and every slot free. -/
def empty (s : Sizing) : Access Unit := do
  Access.set .queued 0
  Access.set .waiting 0
  Access.set .owner 0
  Access.set .reserved 0
  Access.set .head Layout.nil
  Access.set .free (s.slotOffset 0)
  Event.nothing.store
  chain s s.capacity 0

/-- Writes everything that comes before the lock objects are prepared. -/
def layOut (s : Sizing) : Access Unit := do
  Access.set .capacity s.capacity
  Access.set .messageSize s.messageSize
  empty s

/-- Declares the region a finished queue. -/
def publish : Access Unit := Access.set .tag Layout.validTag

end MappedQueue.Format
