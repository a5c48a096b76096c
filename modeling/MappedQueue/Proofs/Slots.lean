import Mathlib.Algebra.Group.Nat.Defs
import Mathlib.Data.List.Nodup
import Mathlib.Data.List.Perm.Subperm
import MappedQueue.Layout

/-!
# The slots of a sizing

The slots lie one after the other behind the header, a stride apart, and fill the file
to its end. An offset is a slot exactly if it is the offset of one of them, so two
different slots have no byte in common.
-/

namespace MappedQueue.Sizing

open Layout (headerSize slotHeaderSize roundUp)

variable {s : Sizing}

theorem le_roundUp (n : Nat) : n ≤ roundUp n := by
  unfold roundUp
  omega

/-- A slot has room for its header and for the longest message. -/
theorem room_le_stride (s : Sizing) : slotHeaderSize + s.messageSize ≤ s.stride :=
  Nat.add_le_add_left (le_roundUp _) _

theorem stride_pos (s : Sizing) : 0 < s.stride := by
  have h := room_le_stride s
  unfold slotHeaderSize at h
  omega

theorem slotOffset_add_stride (s : Sizing) (i : Nat) :
    s.slotOffset i + s.stride = s.slotOffset (i + 1) := by
  simp only [slotOffset, Nat.succ_mul]
  omega

theorem slotOffset_mono (s : Sizing) {i j : Nat} (h : i ≤ j) : s.slotOffset i ≤ s.slotOffset j :=
  Nat.add_le_add_left (Nat.mul_le_mul_right _ h) _

theorem slotOffset_add_stride_le (s : Sizing) {i j : Nat} (h : i < j) :
    s.slotOffset i + s.stride ≤ s.slotOffset j := by
  rw [slotOffset_add_stride]
  exact slotOffset_mono s h

/-- No byte is within a stride of the offsets of two slots. -/
theorem index_unique (s : Sizing) {i j byte : Nat}
    (hi : s.slotOffset i ≤ byte ∧ byte < s.slotOffset i + s.stride)
    (hj : s.slotOffset j ≤ byte ∧ byte < s.slotOffset j + s.stride) : i = j := by
  rcases Nat.lt_trichotomy i j with hij | hij | hij
  · have hle := slotOffset_add_stride_le s hij
    omega
  · exact hij
  · have hle := slotOffset_add_stride_le s hij
    omega

theorem slotOffset_injective (s : Sizing) : Function.Injective s.slotOffset := by
  intro i j h
  have hi : s.slotOffset i ≤ s.slotOffset i ∧ s.slotOffset i < s.slotOffset i + s.stride :=
    ⟨Nat.le_refl _, Nat.lt_add_of_pos_right s.stride_pos⟩
  exact s.index_unique hi (h ▸ hi)

/-- A slot starts at an offset exactly if it is the offset of one of the slots. -/
theorem isSlot_iff {offset : Nat} :
    s.isSlot offset = true ↔ ∃ i < s.capacity, offset = s.slotOffset i := by
  have hp := stride_pos s
  simp only [isSlot, Bool.and_eq_true, decide_eq_true_eq, beq_iff_eq]
  simp only [fileSize, slotOffset]
  constructor
  · rintro ⟨⟨hlow, hhigh⟩, hmod⟩
    have hdiv := Nat.div_add_mod (offset - headerSize) s.stride
    rw [hmod, Nat.add_zero] at hdiv
    refine ⟨(offset - headerSize) / s.stride, ?_, ?_⟩
    · rw [Nat.div_lt_iff_lt_mul hp]
      omega
    · rw [Nat.mul_comm]
      omega
  · rintro ⟨i, hi, rfl⟩
    have hlt : i * s.stride < s.capacity * s.stride := Nat.mul_lt_mul_of_pos_right hi hp
    refine ⟨⟨by omega, by omega⟩, ?_⟩
    rw [Nat.add_sub_cancel_left, Nat.mul_mod_left]

theorem isSlot_slotOffset {i : Nat} (h : i < s.capacity) : s.isSlot (s.slotOffset i) = true :=
  isSlot_iff.mpr ⟨i, h, rfl⟩

def slots (s : Sizing) : List Nat := (List.range s.capacity).map s.slotOffset

theorem mem_slots {offset : Nat} : offset ∈ s.slots ↔ s.isSlot offset = true := by
  rw [isSlot_iff, slots, List.mem_map]
  constructor
  · rintro ⟨i, hi, rfl⟩
    exact ⟨i, List.mem_range.mp hi, rfl⟩
  · rintro ⟨i, hi, rfl⟩
    exact ⟨i, List.mem_range.mpr hi, rfl⟩

theorem nodup_slots (s : Sizing) : s.slots.Nodup :=
  List.Nodup.map (slotOffset_injective s) List.nodup_range

@[simp] theorem length_slots (s : Sizing) : s.slots.length = s.capacity := by
  simp only [slots, List.length_map, List.length_range]

/-- There are no more different slots than the capacity. -/
theorem length_le_of_nodup {l : List Nat} (hslots : ∀ a ∈ l, s.isSlot a = true) (h : l.Nodup) :
    l.length ≤ s.capacity := by
  rw [← length_slots s]
  exact (h.subperm fun a ha => mem_slots.mpr (hslots a ha)).length_le

theorem headerSize_le_of_isSlot {a : Nat} (h : s.isSlot a = true) : headerSize ≤ a := by
  obtain ⟨i, _, rfl⟩ := isSlot_iff.mp h
  exact Nat.le_add_right _ _

theorem ne_nil_of_isSlot {a : Nat} (h : s.isSlot a = true) : a ≠ Layout.nil := by
  have hle := headerSize_le_of_isSlot h
  unfold Layout.nil
  rintro rfl
  exact absurd hle (by decide)

/-- Every slot lies inside the file. -/
theorem add_stride_le_of_isSlot {a : Nat} (h : s.isSlot a = true) : a + s.stride ≤ s.fileSize := by
  obtain ⟨i, hi, rfl⟩ := isSlot_iff.mp h
  exact slotOffset_add_stride_le s hi

/-- Two different slots have no byte in common. -/
theorem apart_of_isSlot {a b : Nat} (ha : s.isSlot a = true) (hb : s.isSlot b = true)
    (hab : a ≠ b) : a + s.stride ≤ b ∨ b + s.stride ≤ a := by
  obtain ⟨i, _, rfl⟩ := isSlot_iff.mp ha
  obtain ⟨j, _, rfl⟩ := isSlot_iff.mp hb
  rcases Nat.lt_trichotomy i j with hij | rfl | hij
  · exact Or.inl (slotOffset_add_stride_le s hij)
  · exact absurd rfl hab
  · exact Or.inr (slotOffset_add_stride_le s hij)

/-- A file of a valid sizing is shorter than links can reach. -/
theorem fileSize_lt (h : s.Valid) : s.fileSize < 0x10000000000000000 := by
  obtain ⟨⟨_, hcapacity⟩, _, hmessage⟩ := h
  unfold maxCapacity at hcapacity
  unfold maxMessageSize at hmessage
  have hstride : s.stride ≤ 2 ^ 21 := by
    unfold stride slotHeaderSize roundUp
    omega
  have hslots : s.capacity * s.stride ≤ 2 ^ 15 * 2 ^ 21 := Nat.mul_le_mul hcapacity hstride
  unfold fileSize headerSize Layout.stateOffset Layout.lockOffset Layout.lockSize Layout.stateSize
  omega

end MappedQueue.Sizing
