import MappedQueue.Proofs.Creation

/-!
# How a queue file is divided

The header comes first, with the tag and the sizing, the lock objects and the state in
three parts of their own. The slots divide the rest of the file among themselves: every
byte behind the header belongs to exactly one of them, and every one of them has its own
fields and the longest message inside its bytes. That an offset was recognised as a slot is
therefore all that has to be known about it before the slot is read or written.

The length of the file is worked out in machine words, one sum or product after the other.
Within the limits each of them fits, and outside the limits none is worked out, so the
length that is compared with a file is never the remainder of a larger number.
-/

namespace MappedQueue

open Layout (headerSize lockOffset lockSize stateOffset stateSize slotHeaderSize roundUp payload)

/-- The bytes of a number lie from `first` on and end at `last` or before. -/
def Field.Within (f : Field) (first last : Nat) : Prop :=
  first ≤ f.offset ∧ f.offset + f.width ≤ last

instance (f : Field) (first last : Nat) : Decidable (f.Within first last) :=
  inferInstanceAs (Decidable (_ ∧ _))

namespace Sizing

variable {s : Sizing} {i j byte : Nat}

/-- The bytes of slot number `i`. -/
def InSlot (s : Sizing) (i byte : Nat) : Prop :=
  s.slotOffset i ≤ byte ∧ byte < s.slotOffset i + s.stride

theorem InSlot.headerSize_le (h : s.InSlot i byte) : headerSize ≤ byte :=
  Nat.le_trans (Nat.le_add_right _ _) h.1

/-- No byte belongs to two slots. -/
theorem InSlot.unique (hi : s.InSlot i byte) (hj : s.InSlot j byte) : i = j :=
  s.index_unique hi hj

/-- A byte behind the header is in the slot that its distance from the header names. -/
theorem inSlot_slotIndex (h : headerSize ≤ byte) : s.InSlot (s.slotIndex byte) byte := by
  have hdiv := Nat.div_add_mod (byte - headerSize) s.stride
  have hmod := Nat.mod_lt (byte - headerSize) (stride_pos s)
  rw [Nat.mul_comm] at hdiv
  unfold InSlot slotOffset slotIndex
  omega

/-- The slots fill the file from the header to its end. -/
theorem exists_inSlot_iff :
    (∃ i < s.capacity, s.InSlot i byte) ↔ headerSize ≤ byte ∧ byte < s.fileSize := by
  constructor
  · rintro ⟨i, hi, hin⟩
    exact ⟨hin.headerSize_le, Nat.lt_of_lt_of_le hin.2 (slotOffset_add_stride_le s hi)⟩
  · rintro ⟨hlow, hhigh⟩
    have hin := inSlot_slotIndex (s := s) hlow
    refine ⟨_, Nat.lt_of_not_le fun hle => ?_, hin⟩
    have hend : s.fileSize ≤ byte := Nat.le_trans (slotOffset_mono s hle) hin.1
    omega

theorem eight_dvd_stride (s : Sizing) : 8 ∣ s.stride := by
  unfold stride slotHeaderSize roundUp
  omega

theorem eight_dvd_slotOffset (s : Sizing) (i : Nat) : 8 ∣ s.slotOffset i :=
  Nat.dvd_add (by decide) (Nat.dvd_mul_left_of_dvd (eight_dvd_stride s) i)

/-- How the bytes of a queue file are dealt out. -/
structure Tiled (s : Sizing) : Prop where
  /-- The offsets that count as slots are those of the slots. -/
  starts : ∀ offset, s.isSlot offset = true ↔ ∃ i < s.capacity, offset = s.slotOffset i
  aligned : ∀ i, 8 ∣ s.slotOffset i
  /-- A slot has room for its own numbers and behind them for the longest message. -/
  slotHeader : ∀ i, ∀ f ∈ [Field.next (s.slotOffset i), Field.length (s.slotOffset i),
    Field.priority (s.slotOffset i)], f.Within (s.slotOffset i) (payload (s.slotOffset i))
  message : ∀ i, payload (s.slotOffset i) + s.messageSize ≤ s.slotOffset i + s.stride
  /-- Every byte behind the header is in one slot, and no other byte is in any. -/
  once : ∀ byte, (headerSize ≤ byte ∧ byte < s.fileSize) ↔ ∃ i < s.capacity, s.InSlot i byte
  apart : ∀ byte i j, s.InSlot i byte → s.InSlot j byte → i = j
  /-- The parts of the header end before the first slot, each where the next one starts. -/
  preamble : ∀ f ∈ [Field.tag, Field.capacity, Field.messageSize], f.Within 0 lockOffset
  state : ∀ f ∈ [Field.queued, Field.waiting, Field.owner, Field.reserved, Field.head,
    Field.free, Field.eventKind, Field.eventSignal, Field.eventValue],
    f.Within stateOffset (stateOffset + stateSize)
  parts : lockOffset + lockSize ≤ stateOffset ∧ stateOffset + stateSize ≤ headerSize
  /-- A link can name every byte of the file. -/
  reach : s.fileSize < 0x10000000000000000

theorem Valid.tiled (hs : s.Valid) : s.Tiled where
  starts _ := isSlot_iff
  aligned := eight_dvd_slotOffset s
  slotHeader i f hf := by
    simp only [List.mem_cons, List.not_mem_nil, or_false] at hf
    unfold Field.Within payload slotHeaderSize
    rcases hf with rfl | rfl | rfl <;> dsimp only [Field.next, Field.length, Field.priority] <;>
      omega
  message i := by
    have hroom := room_le_stride s
    unfold payload
    omega
  once _ := exists_inSlot_iff.symm
  apart _ _ _ hi hj := hi.unique hj
  preamble := by decide
  state := by decide
  parts := by decide
  reach := fileSize_lt hs

/-- No operation exceeds a word, for whatever two numbers the sizing consists of. -/
theorem measure_eq (s : Sizing) : s.measure = some s.fileSize? := by
  by_cases hs : s.Valid
  · rw [measure_of_valid hs, fileSize?_of_valid hs]
  · rw [measure_of_not_valid hs, fileSize?_of_not_valid hs]

/-- A sizing within the limits divides its file into the header and the slots, and the
length of the file is worked out without exceeding a machine word: for exactly the sizings
within the limits there is a length, and it is the length of the header and all slots. -/
theorem slots_tile_file (s : Sizing) :
    (s.Valid → s.Tiled) ∧ s.measure = some s.fileSize? ∧
      ∀ length, s.fileSize? = some length ↔ s.Valid ∧ length = s.fileSize :=
  ⟨Valid.tiled, measure_eq s, fun _ => fileSize?_eq_some⟩

/-- The largest queue. -/
theorem largest_file_tiled : Sizing.Valid ⟨32768, 1048576⟩ ∧ Sizing.Tiled ⟨32768, 1048576⟩ :=
  ⟨by decide, (slots_tile_file ⟨32768, 1048576⟩).1 (by decide)⟩

end Sizing

end MappedQueue
