import MappedQueue.Sizing

/-!
# Where things are in a queue file

A queue file is a header of 200 bytes followed by one slot per message. The header
holds the validity tag and the sizing, the lock objects, and the state: counters, the
registration, and the heads of the two lists. A slot is a header of 16 bytes (link,
length, priority) and room for one message, rounded up to whole words.

Links are offsets from the start of the file, so that every process can map the file
where it likes. Offset 0 is the header itself, so 0 serves as the null link.
-/

namespace MappedQueue

/-- A little-endian number in the file: where it starts and how many bytes it takes. -/
structure Field where
  offset : Nat
  width : Nat
  deriving DecidableEq, Repr

namespace Layout

/-- The lock objects start right after the tag and the sizing. -/
def lockOffset : Nat := 16

def lockSize : Nat := 136

/-- The state follows the lock objects. -/
def stateOffset : Nat := lockOffset + lockSize

def stateSize : Nat := 48

/-- Everything before the first slot. -/
def headerSize : Nat := stateOffset + stateSize

def slotHeaderSize : Nat := 16

/-- What the tag of a finished queue reads. -/
def validTag : Nat := 0x6d716864

def nil : Nat := 0

/-- The least multiple of eight that is not below `n`. -/
def roundUp (n : Nat) : Nat := (n + 7) / 8 * 8

end Layout

namespace Field

open Layout (stateOffset)

/-- Written last when a queue is created; nobody attaches to a file without it. -/
def tag : Field := ⟨0, 4⟩
def capacity : Field := ⟨4, 4⟩
def messageSize : Field := ⟨8, 4⟩

def queued : Field := ⟨stateOffset, 4⟩
def waiting : Field := ⟨stateOffset + 4, 4⟩
/-- Who is registered for a notification; 0 is nobody. -/
def owner : Field := ⟨stateOffset + 8, 4⟩
/-- Unused, kept zero. -/
def reserved : Field := ⟨stateOffset + 12, 4⟩
def head : Field := ⟨stateOffset + 16, 8⟩
def free : Field := ⟨stateOffset + 24, 8⟩
def eventKind : Field := ⟨stateOffset + 32, 4⟩
def eventSignal : Field := ⟨stateOffset + 36, 4⟩
def eventValue : Field := ⟨stateOffset + 40, 8⟩

/-- The link of the slot at `slot`: the next slot of whichever list it is on. -/
def next (slot : Nat) : Field := ⟨slot, 8⟩
def length (slot : Nat) : Field := ⟨slot + 8, 4⟩
def priority (slot : Nat) : Field := ⟨slot + 12, 4⟩

end Field

namespace Layout

/-- Where the bytes of the message in the slot at `slot` start. -/
def payload (slot : Nat) : Nat := slot + slotHeaderSize

end Layout

namespace Sizing

open Layout (headerSize slotHeaderSize roundUp)

/-- The distance from one slot to the next. -/
def stride (s : Sizing) : Nat := slotHeaderSize + roundUp s.messageSize

/-- Where slot number `i` starts, whether or not the queue has that many. -/
def slotOffset (s : Sizing) (i : Nat) : Nat := headerSize + i * s.stride

/-- The length of the whole file. It means something for a valid sizing only. -/
def fileSize (s : Sizing) : Nat := headerSize + s.capacity * s.stride

/-- `n`, unless it does not fit into a machine word. -/
def word? (n : Nat) : Option Nat := if n < 0x10000000000000000 then some n else none

/-- The length of the whole file, worked out by one operation on machine words after the
other, and for a sizing within the limits only. There is no result at all if one of the numbers
does not fit into a word. -/
def measure (s : Sizing) : Option (Option Nat) :=
  if s.Valid then do
    let raised ← word? (s.messageSize + 8)
    let rounded ← word? ((raised - 1) / 8 * 8)
    let stride ← word? (rounded + slotHeaderSize)
    let slots ← word? (s.capacity * stride)
    let length ← word? (slots + headerSize)
    return some length
  else
    return none

/-- The length of the whole file, or nothing when the sizing is outside the limits or
a step of the computation does not fit into a machine word. -/
def fileSize? (s : Sizing) : Option Nat := s.measure.join

def isSlot (s : Sizing) (offset : Nat) : Bool :=
  headerSize ≤ offset && offset < s.fileSize && (offset - headerSize) % s.stride == 0

/-- Which slot starts at `offset`, if one does. -/
def slotIndex (s : Sizing) (offset : Nat) : Nat := (offset - headerSize) / s.stride

end Sizing

end MappedQueue
