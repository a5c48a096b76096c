import MappedQueue.Layout

/-!
# The bytes of a queue file

A region is the content of a file as everybody sees it who has mapped it. It is read
and written byte by byte, as little-endian numbers, or in runs of bytes. Reading
beyond the end gives zeros and writing beyond the end does nothing, so that every
operation is defined for every content; the layout keeps the queue's own accesses
inside.
-/

namespace MappedQueue

structure Region where
  bytes : ByteArray

namespace Region

instance : Inhabited Region := ⟨⟨ByteArray.empty⟩⟩

/-- `count` zeros, as a run of bytes. -/
def zeroBytes (count : Nat) : ByteArray := ⟨Array.replicate count 0⟩

def zeros (size : Nat) : Region := ⟨zeroBytes size⟩

def size (r : Region) : Nat := r.bytes.size

/-- The byte at `i`; zero beyond the end. -/
def byte (r : Region) (i : Nat) : UInt8 :=
  if h : i < r.bytes.size then r.bytes[i] else 0

/-- Puts one byte; nothing happens beyond the end. -/
def setByte (r : Region) (i : Nat) (b : UInt8) : Region :=
  if h : i < r.bytes.size then ⟨r.bytes.set i b h⟩ else r

/-- The little-endian number in the `width` bytes from `offset`. -/
def word (r : Region) : (width offset : Nat) → Nat
  | 0, _ => 0
  | width + 1, offset => (r.byte offset).toNat + 256 * r.word width (offset + 1)

/-- Writes the low `width` bytes of `value` from `offset`, least significant first. -/
def setWord (r : Region) : (width offset value : Nat) → Region
  | 0, _, _ => r
  | width + 1, offset, value =>
    (r.setByte offset value.toUInt8).setWord width (offset + 1) (value / 256)

def read (r : Region) (f : Field) : Nat := r.word f.width f.offset

/-- Writes a field; what does not fit into its width is dropped. -/
def write (r : Region) (f : Field) (value : Nat) : Region := r.setWord f.width f.offset value

/-- The `count` bytes from `offset`, with zeros for those beyond the end. -/
def slice (r : Region) (offset count : Nat) : ByteArray :=
  let inside := r.bytes.extract offset (offset + count)
  inside ++ zeroBytes (count - inside.size)

/-- Writes the bytes from number `i` on, one after the other. -/
def setEach (bytes : ByteArray) : (i offset left : Nat) → (r : Region) → Region
  | _, _, 0, r => r
  | i, offset, left + 1, r =>
    setEach bytes (i + 1) (offset + 1) left (r.setByte offset (bytes.get! i))

/-- Writes a run of bytes from `offset`; those beyond the end are dropped. -/
def setSlice (r : Region) (offset : Nat) (bytes : ByteArray) : Region :=
  if offset + bytes.size ≤ r.bytes.size then
    ⟨bytes.copySlice 0 r.bytes offset bytes.size⟩
  else setEach bytes 0 offset bytes.size r

/-- The same bytes, cut or continued with zeros to a length of `size`. -/
def resize (r : Region) (size : Nat) : Region := ⟨r.slice 0 size⟩

end Region

end MappedQueue
