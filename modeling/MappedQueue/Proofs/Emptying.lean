import MappedQueue.Proofs.Formatting

/-!
# Emptying a region

To make a region an empty queue, its state and the header of every slot are written in full,
so nothing of what they were is left, and nothing else is written. The links are written before
they are followed, so a damaged region is emptied like any other.
-/

namespace MappedQueue

open Layout (stateOffset headerSize slotHeaderSize)

variable {s : Sizing} {r r' : Region} {byte : Nat}

namespace Format

/-- The byte belongs to the state or to the header of a slot. -/
def Resets (s : Sizing) (byte : Nat) : Prop :=
  (stateOffset ≤ byte ∧ byte < headerSize) ∨
    ∃ i < s.capacity, s.slotOffset i ≤ byte ∧ byte < s.slotOffset i + slotHeaderSize

/-- The fields of the state leave no byte out. -/
theorem exists_stateValues (hlow : stateOffset ≤ byte) (hhigh : byte < headerSize) :
    ∃ value ∈ stateValues s, value.1.Covers byte := by
  unfold stateOffset Layout.lockOffset Layout.lockSize at hlow
  unfold headerSize stateOffset Layout.lockOffset Layout.lockSize Layout.stateSize at hhigh
  simp only [stateValues, List.mem_cons, List.not_mem_nil, or_false, exists_eq_or_imp,
    exists_eq_left, Field.Covers, Field.queued, Field.waiting, Field.owner, Field.reserved,
    Field.head, Field.free, Field.eventKind, Field.eventSignal, Field.eventValue, stateOffset,
    Layout.lockOffset, Layout.lockSize]
  omega

/-- The fields of the header of a slot leave no byte out. -/
theorem exists_slotValues {i : Nat} (hlow : s.slotOffset i ≤ byte)
    (hhigh : byte < s.slotOffset i + slotHeaderSize) :
    ∃ value ∈ slotValues s i, value.1.Covers byte := by
  unfold slotHeaderSize at hhigh
  simp only [slotValues, List.mem_cons, List.not_mem_nil, or_false, exists_eq_or_imp,
    exists_eq_left, Field.Covers, Field.next, Field.length, Field.priority]
  omega

/-- The values fill the bytes of the state and of the headers, and no other byte. -/
theorem exists_values_iff : (∃ value ∈ values s, value.1.Covers byte) ↔ Resets s byte := by
  constructor
  · rintro ⟨value, hvalue, hcovers⟩
    unfold Field.Covers at hcovers
    rcases mem_values.mp hvalue with hstate | ⟨i, hi, hslot⟩
    · have hfield := mem_stateValues hstate
      exact Or.inl (by omega)
    · have hfield := mem_slotValues hslot
      exact Or.inr ⟨i, hi, by omega⟩
  · rintro (⟨hlow, hhigh⟩ | ⟨i, hi, hlow, hhigh⟩)
    · obtain ⟨value, hvalue, hcovers⟩ := exists_stateValues (s := s) hlow hhigh
      exact ⟨value, mem_values.mpr (Or.inl hvalue), hcovers⟩
    · obtain ⟨value, hvalue, hcovers⟩ := exists_slotValues hlow hhigh
      exact ⟨value, mem_values.mpr (Or.inr ⟨i, hi, hvalue⟩), hcovers⟩

theorem not_resets_of_lt (h : byte < stateOffset) : ¬ Resets s byte := by
  have hheader : stateOffset ≤ headerSize := by decide
  rintro (⟨hlow, -⟩ | ⟨i, -, hlow, -⟩)
  · omega
  · have hbehind : headerSize ≤ s.slotOffset i := Nat.le_add_right _ _
    omega

/-- Behind the header of a slot there is no other header up to the next slot. -/
theorem not_resets_of_payload {i : Nat} (hlow : Layout.payload (s.slotOffset i) ≤ byte)
    (hhigh : byte < s.slotOffset i + s.stride) : ¬ Resets s byte := by
  have hbehind : headerSize ≤ s.slotOffset i := Nat.le_add_right _ _
  unfold Layout.payload at hlow
  rintro (⟨-, hstate⟩ | ⟨j, -, hlow', hhigh'⟩)
  · omega
  · rcases Nat.lt_trichotomy i j with hlt | rfl | hgt
    · have hle := Sizing.slotOffset_add_stride_le s hlt
      omega
    · omega
    · have hle := header_le s hgt
      omega

theorem not_resets_of_le (h : s.fileSize ≤ byte) : ¬ Resets s byte := by
  have hheader : headerSize ≤ s.fileSize := Nat.le_add_right _ _
  rintro (⟨-, hstate⟩ | ⟨i, hi, -, hhigh⟩)
  · omega
  · have hle := header_le s (Nat.lt_add_one i)
    have hlast : s.slotOffset (i + 1) ≤ s.fileSize := Sizing.slotOffset_mono s hi
    omega

/-- What it is to have emptied a region, with `image` in the state and in the slot headers. -/
structure Outcome (s : Sizing) (image : Nat → UInt8) (r r' : Region) : Prop where
  size_eq : r'.size = r.size
  emptied : Emptied s r'
  freeChain : Chain r' (r'.read .free) ((List.range s.capacity).map s.slotOffset)
  reset : ∀ byte, Resets s byte → r'.byte byte = image byte
  /-- The tag, the sizing and the lock objects are as they were. -/
  front : Region.Agree r r' 0 stateOffset
  payloads : ∀ i < s.capacity,
    Region.Agree r r' (Layout.payload (s.slotOffset i)) (s.slotOffset i + s.stride)
  back : Region.Agree r r' s.fileSize r.size

/-- Emptying succeeds whatever the region holds. Afterwards the state and the slot headers are
those of an empty queue, with all slots on the free list in order, down to the last byte, which
depends on the sizing alone; every other byte is as it was. If the region was a queue, it is now
one without messages. -/
theorem empty_whatever_was (hs : s.Valid) :
    s.slots.Nodup ∧ ∃ image : Nat → UInt8, ∀ r : Region, s.fileSize ≤ r.size →
      ∃ r', (empty s).run r = (.ok (), r') ∧ Outcome s image r r' ∧
        (r.size = s.fileSize → r.read .tag = Layout.validTag → r.read .capacity = s.capacity →
          r.read .messageSize = s.messageSize → Represents s r' []) := by
  refine ⟨Sizing.nodup_slots s,
    fun byte => ((Region.zeros s.fileSize).fill (values s)).byte byte, ?_⟩
  intro r hsize
  refine ⟨r.fill (values s), run_empty s r, ?_⟩
  have hemptied : Emptied s (r.fill (values s)) :=
    emptied_of_values (Region.read_fill _ (fits_values hs hsize))
  have hkept : ∀ byte, ¬ Resets s byte → (r.fill (values s)).byte byte = r.byte byte := by
    intro byte hbyte
    apply Region.byte_fill_of_not_covers
    intro value hvalue hcovers
    exact hbyte (exists_values_iff.mp ⟨value, hvalue, hcovers⟩)
  have hfront : Region.Agree r (r.fill (values s)) 0 stateOffset :=
    fun byte _ hhigh => hkept byte (not_resets_of_lt hhigh)
  constructor
  · constructor
    · exact Region.size_fill ..
    · exact hemptied
    · exact hemptied.chain_slots hs
    · intro byte hbyte
      obtain ⟨value, hvalue, hcovers⟩ := exists_values_iff.mpr hbyte
      have hzeros : s.fileSize ≤ (Region.zeros s.fileSize).size :=
        Nat.le_of_eq (Region.size_zeroBytes _).symm
      exact Region.byte_fill_eq (fits_values hs hzeros) (fits_values hs hsize) hvalue hcovers
    · exact hfront
    · exact fun i _ byte hlow hhigh => hkept byte (not_resets_of_payload hlow hhigh)
    · exact fun byte hlow _ => hkept byte (not_resets_of_le hlow)
  · intro hsize_eq htag hcapacity hmessageSize
    have hvacant : Vacant s (r.fill (values s)) := {
      size_eq := (Region.size_fill ..).trans hsize_eq
      capacity_eq := (hfront.read (by decide) (by decide)).trans hcapacity
      messageSize_eq := (hfront.read (by decide) (by decide)).trans hmessageSize
      queued_eq := hemptied.queued_eq
      waiting_eq := hemptied.waiting_eq
      owner_eq := hemptied.owner_eq
      head_eq := hemptied.head_eq
      freeChain := hemptied.chain_slots hs }
    exact hvacant.represents ((hfront.read (by decide) (by decide)).trans htag)

/-- A region full of damaged links and counters. -/
def wreck : Region := ⟨⟨Array.replicate 272 0xff⟩⟩

theorem empty_whatever_was_wreck : Sizing.Valid ⟨3, 8⟩ ∧
    ∃ image r', (empty ⟨3, 8⟩).run wreck = (.ok (), r') ∧ Outcome ⟨3, 8⟩ image wreck r' := by
  have hs : Sizing.Valid ⟨3, 8⟩ := by decide
  obtain ⟨-, image, h⟩ := empty_whatever_was hs
  have hsize : wreck.size = 272 := Array.size_replicate
  obtain ⟨r', hrun, houtcome, -⟩ := h wreck (Nat.le_of_eq hsize.symm)
  exact ⟨hs, image, r', hrun, houtcome⟩

end Format

end MappedQueue
