import MappedQueue.Format
import MappedQueue.Proofs.Arrangement

/-!
# New queues

Laying out a region writes a list of values into fields that are apart from each other, so
afterwards every field holds its value, whatever was in the region, and the other bytes are as
they were. The values chain all slots on the free list and leave the counters, the
registration and the message list empty. With the lock objects prepared and the tag in place,
the region holds a queue without messages.
-/

namespace MappedQueue

variable {s : Sizing} {r r' : Region}

namespace Region

/-- The region with values in some fields, written one after the other. -/
def fill (r : Region) (values : List (Field × Nat)) : Region :=
  values.foldl (fun r value => r.write value.1 value.2) r

theorem fill_nil (r : Region) : r.fill [] = r := rfl

theorem fill_cons (r : Region) (value : Field × Nat) (values : List (Field × Nat)) :
    r.fill (value :: values) = (r.write value.1 value.2).fill values := rfl

theorem fill_append (r : Region) (values values' : List (Field × Nat)) :
    r.fill (values ++ values') = (r.fill values).fill values' := List.foldl_append

@[simp] theorem size_fill (values : List (Field × Nat)) : ∀ r : Region,
    (r.fill values).size = r.size := by
  induction values with
  | nil => exact fun _ => rfl
  | cons value rest ih => exact fun r => (ih _).trans (size_write ..)

/-- A byte that is in none of the fields stays as it is. -/
theorem byte_fill_of_not_covers {byte : Nat} (values : List (Field × Nat)) : ∀ r : Region,
    (∀ value ∈ values, ¬ value.1.Covers byte) → (r.fill values).byte byte = r.byte byte := by
  induction values with
  | nil => exact fun _ _ => rfl
  | cons value rest ih =>
    intro r h
    have hfirst : (r.write value.1 value.2).byte byte = r.byte byte :=
      byte_write_of_not_covers r (h value List.mem_cons_self) _
    exact (ih _ fun v hv => h v (List.mem_cons_of_mem _ hv)).trans hfirst

/-- Values that fit into their fields, which lie inside the region and apart from each other. -/
structure Fits (r : Region) (values : List (Field × Nat)) : Prop where
  lt : ∀ value ∈ values, value.2 < 256 ^ value.1.width
  le_size : ∀ value ∈ values, value.1.offset + value.1.width ≤ r.size
  apart : values.Pairwise fun value value' => value.1.Apart value'.1

/-- Every field holds its value. -/
theorem read_fill (values : List (Field × Nat)) : ∀ {r : Region}, r.Fits values →
    ∀ value ∈ values, (r.fill values).read value.1 = value.2 := by
  induction values with
  | nil => exact fun _ value hvalue => absurd hvalue List.not_mem_nil
  | cons first rest ih =>
    intro r hfits value hvalue
    obtain ⟨hapart, hrest⟩ := List.pairwise_cons.mp hfits.apart
    rcases List.mem_cons.mp hvalue with rfl | hmem
    · -- The fields that are written later are apart from this one.
      have hagree : Agree (r.write value.1 value.2) (r.fill (value :: rest)) value.1.offset
          (value.1.offset + value.1.width) := by
        intro i hlow hhigh
        apply byte_fill_of_not_covers rest
        intro other hother hcovers
        have hdisjoint : value.1.Apart other.1 := hapart other hother
        unfold Field.Covers at hcovers
        unfold Field.Apart at hdisjoint
        omega
      rw [hagree.read (Nat.le_refl _) (Nat.le_refl _)]
      exact read_write_self (hfits.le_size _ List.mem_cons_self) (hfits.lt _ List.mem_cons_self)
    · apply ih _ value hmem
      constructor
      · exact fun v hv => hfits.lt v (List.mem_cons_of_mem _ hv)
      · intro v hv
        rw [size_write]
        exact hfits.le_size v (List.mem_cons_of_mem _ hv)
      · exact hrest

/-- What was in a byte before does not matter once its field is written. -/
theorem byte_fill_eq {values : List (Field × Nat)} (h : r.Fits values) (h' : r'.Fits values)
    {value : Field × Nat} (hvalue : value ∈ values) {byte : Nat} (hbyte : value.1.Covers byte) :
    (r'.fill values).byte byte = (r.fill values).byte byte := by
  have hread : (r'.fill values).read value.1 = (r.fill values).read value.1 :=
    (read_fill values h' value hvalue).trans (read_fill values h value hvalue).symm
  exact byte_of_word_eq _ hread byte hbyte.1 hbyte.2

end Region

namespace Format

/-- The link of a slot when all slots are free: the next slot, or nothing in the last one. -/
def follower (s : Sizing) (i : Nat) : Nat :=
  if i + 1 < s.capacity then s.slotOffset (i + 1) else Layout.nil

def sizingValues (s : Sizing) : List (Field × Nat) :=
  [(.capacity, s.capacity), (.messageSize, s.messageSize)]

def stateValues (s : Sizing) : List (Field × Nat) :=
  [(.queued, 0), (.waiting, 0), (.owner, 0), (.reserved, 0), (.head, Layout.nil),
    (.free, s.slotOffset 0), (.eventKind, 0), (.eventSignal, 0), (.eventValue, 0)]

def slotValues (s : Sizing) (i : Nat) : List (Field × Nat) :=
  [(.next (s.slotOffset i), follower s i), (.length (s.slotOffset i), 0),
    (.priority (s.slotOffset i), 0)]

/-- Everything that making a queue empty writes. -/
def values (s : Sizing) : List (Field × Nat) :=
  stateValues s ++ (List.range s.capacity).flatMap (slotValues s)

theorem run_chain (s : Sizing) (left : Nat) : ∀ {i : Nat} (r : Region), i + left = s.capacity →
    (chain s left i).run r = (.ok (), r.fill ((List.range' i left).flatMap (slotValues s))) := by
  induction left with
  | zero => exact fun _ _ => rfl
  | succ left ih =>
    intro i r hi
    have hslot : s.isSlot (s.slotOffset i) = true := Sizing.isSlot_slotOffset (by omega)
    have hone : (chain s (left + 1) i).run r =
        (chain s left (i + 1)).run (r.fill (slotValues s i)) := by
      simp only [chain, Slot.run_check_bind hslot, Access.run_set_bind, slotValues,
        Region.fill_cons, Region.fill_nil, follower]
    rw [hone, List.range'_succ, List.flatMap_cons, Region.fill_append]
    exact ih _ (by omega)

/-- No step finds a fault, whatever the region holds. -/
theorem run_empty (s : Sizing) (r : Region) :
    (empty s).run r = (.ok (), r.fill (values s)) := by
  have hstate : (empty s).run r = (chain s s.capacity 0).run (r.fill (stateValues s)) := by
    simp only [empty, Access.run_set_bind, stateValues, Region.fill_cons, Region.fill_nil]
    exact Access.run_bind_of_ok rfl
  rw [hstate, values, Region.fill_append, List.range_eq_range']
  exact run_chain s s.capacity _ (Nat.zero_add _)

theorem run_layOut (s : Sizing) (r : Region) :
    (layOut s).run r = (.ok (), r.fill (sizingValues s ++ values s)) := by
  rw [layOut, Access.run_set_bind, Access.run_set_bind, run_empty, Region.fill_append,
    sizingValues, Region.fill_cons, Region.fill_cons, Region.fill_nil]

theorem mem_stateValues {value : Field × Nat} (h : value ∈ stateValues s) :
    Layout.stateOffset ≤ value.1.offset ∧
      value.1.offset + value.1.width ≤ Layout.headerSize := by
  have hfields : ∀ f ∈ (stateValues s).map Prod.fst,
      Layout.stateOffset ≤ f.offset ∧ f.offset + f.width ≤ Layout.headerSize := by
    show ∀ f ∈ [Field.queued, .waiting, .owner, .reserved, .head, .free, .eventKind, .eventSignal,
      .eventValue], _
    decide
  exact hfields _ (List.mem_map_of_mem h)

theorem mem_sizingValues {value : Field × Nat} (h : value ∈ sizingValues s) :
    value.1.offset + value.1.width ≤ Layout.headerSize := by
  have hfields : ∀ f ∈ (sizingValues s).map Prod.fst, f.offset + f.width ≤ Layout.headerSize := by
    show ∀ f ∈ [Field.capacity, .messageSize], _
    decide
  exact hfields _ (List.mem_map_of_mem h)

theorem mem_slotValues {i : Nat} {value : Field × Nat} (h : value ∈ slotValues s i) :
    s.slotOffset i ≤ value.1.offset ∧
      value.1.offset + value.1.width ≤ s.slotOffset i + Layout.slotHeaderSize := by
  simp only [slotValues, List.mem_cons, List.not_mem_nil, or_false] at h
  unfold Layout.slotHeaderSize
  rcases h with rfl | rfl | rfl
  · simp only [Field.next]; omega
  · simp only [Field.length]; omega
  · simp only [Field.priority]; omega

theorem mem_values {value : Field × Nat} : value ∈ values s ↔
    value ∈ stateValues s ∨ ∃ i < s.capacity, value ∈ slotValues s i := by
  simp only [values, List.mem_append, List.mem_flatMap, List.mem_range]

theorem follower_lt (hs : s.Valid) (i : Nat) : follower s i < 256 ^ 8 := by
  rw [follower]
  split
  case isTrue h => exact lt_of_isSlot hs (Sizing.isSlot_slotOffset h)
  case isFalse => decide

/-- The header of a slot ends before the next slot. -/
theorem header_le (s : Sizing) {i j : Nat} (h : i < j) :
    s.slotOffset i + Layout.slotHeaderSize ≤ s.slotOffset j := by
  have hstride := Sizing.slotOffset_add_stride_le s h
  have hroom := Sizing.room_le_stride s
  omega

theorem pairwise_apart (s : Sizing) :
    (sizingValues s ++ values s).Pairwise fun value value' => value.1.Apart value'.1 := by
  have hheader : (sizingValues s ++ stateValues s).Pairwise
      fun value value' => value.1.Apart value'.1 := by
    have hfields : ((sizingValues s ++ stateValues s).map Prod.fst).Pairwise Field.Apart := by
      show [Field.capacity, .messageSize, .queued, .waiting, .owner, .reserved, .head, .free,
        .eventKind, .eventSignal, .eventValue].Pairwise Field.Apart
      decide
    exact List.pairwise_map.mp hfields
  have hslots : ((List.range s.capacity).flatMap (slotValues s)).Pairwise
      fun value value' => value.1.Apart value'.1 := by
    apply List.pairwise_flatMap.mpr
    constructor
    · intro i _
      simp [slotValues, Field.Apart, Field.next, Field.length, Field.priority]
    · apply List.Pairwise.imp _ List.pairwise_lt_range
      intro i j hlt value hvalue value' hvalue'
      have hend := (mem_slotValues hvalue).2
      have hstart := (mem_slotValues hvalue').1
      have hle := header_le s hlt
      exact Or.inl (by omega)
  rw [values, ← List.append_assoc]
  apply List.pairwise_append.mpr ⟨hheader, hslots, _⟩
  intro value hvalue value' hvalue'
  obtain ⟨i, -, hi⟩ := List.mem_flatMap.mp hvalue'
  have hstart := (mem_slotValues hi).1
  have hbehind : Layout.headerSize ≤ s.slotOffset i := Nat.le_add_right _ _
  have hend : value.1.offset + value.1.width ≤ Layout.headerSize := by
    rcases List.mem_append.mp hvalue with hsizing | hstate
    · exact mem_sizingValues hsizing
    · exact (mem_stateValues hstate).2
  exact Or.inl (by omega)

/-- The values of a valid sizing fit into every region that is large enough for it. -/
theorem fits_layOut (hs : s.Valid) (hsize : s.fileSize ≤ r.size) :
    r.Fits (sizingValues s ++ values s) := by
  have hheader : Layout.headerSize ≤ s.fileSize := Nat.le_add_right _ _
  constructor
  · intro value hvalue
    rw [List.mem_append, mem_values] at hvalue
    rcases hvalue with hsizing | hstate | ⟨i, -, hslot⟩
    · simp only [sizingValues, List.mem_cons, List.not_mem_nil, or_false] at hsizing
      rcases hsizing with rfl | rfl
      · exact Nat.lt_of_le_of_lt hs.1.2 (by decide : Sizing.maxCapacity < 256 ^ 4)
      · exact Nat.lt_of_le_of_lt hs.2.2 (by decide : Sizing.maxMessageSize < 256 ^ 4)
    · have hfree : s.slotOffset 0 < 256 ^ 8 := lt_of_isSlot hs (Sizing.isSlot_slotOffset hs.1.1)
      simp only [stateValues, List.mem_cons, List.not_mem_nil, or_false] at hstate
      rcases hstate with rfl | rfl | rfl | rfl | rfl | rfl | rfl | rfl | rfl
      case inr.inr.inr.inr.inr.inl => exact hfree
      all_goals decide
    · simp only [slotValues, List.mem_cons, List.not_mem_nil, or_false] at hslot
      rcases hslot with rfl | rfl | rfl
      · exact follower_lt hs i
      · exact (by decide : 0 < 256 ^ 4)
      · exact (by decide : 0 < 256 ^ 4)
  · intro value hvalue
    rw [List.mem_append, mem_values] at hvalue
    rcases hvalue with hsizing | hstate | ⟨i, hi, hslot⟩
    · have hend := mem_sizingValues hsizing
      omega
    · have hend := (mem_stateValues hstate).2
      omega
    · have hend := (mem_slotValues hslot).2
      have hle := header_le s (Nat.lt_add_one i)
      have hlast : s.slotOffset (i + 1) ≤ s.fileSize := Sizing.slotOffset_mono s hi
      omega
  · exact pairwise_apart s

theorem fits_values (hs : s.Valid) (hsize : s.fileSize ≤ r.size) : r.Fits (values s) := by
  have hall := fits_layOut hs hsize
  constructor
  · exact fun value hvalue => hall.lt value (List.mem_append_right _ hvalue)
  · exact fun value hvalue => hall.le_size value (List.mem_append_right _ hvalue)
  · exact (List.pairwise_append.mp hall.apart).2.1

/-- The slots from number `i` on are chained if each of them has its link. -/
theorem chain_of_follower (left : Nat) : ∀ {i : Nat}, i + left = s.capacity →
    (∀ k, i ≤ k → k < s.capacity → r.read (.next (s.slotOffset k)) = follower s k) →
      Chain r (if i < s.capacity then s.slotOffset i else Layout.nil)
        ((List.range' i left).map s.slotOffset) := by
  induction left with
  | zero =>
    intro i hi _
    rw [if_neg (by omega)]
    rfl
  | succ left ih =>
    intro i hi h
    rw [if_pos (by omega), List.range'_succ, List.map_cons]
    refine ⟨rfl, ?_⟩
    rw [h i (Nat.le_refl _) (by omega)]
    exact ih (by omega) fun k hk => h k (by omega)

/-- The state and the slot headers of a queue without messages and without anybody waiting or
registered, in which all slots are free, in order. -/
structure Emptied (s : Sizing) (r : Region) : Prop where
  queued_eq : r.read .queued = 0
  waiting_eq : r.read .waiting = 0
  owner_eq : r.read .owner = 0
  reserved_eq : r.read .reserved = 0
  head_eq : r.read .head = Layout.nil
  free_eq : r.read .free = s.slotOffset 0
  eventKind_eq : r.read .eventKind = 0
  eventSignal_eq : r.read .eventSignal = 0
  eventValue_eq : r.read .eventValue = 0
  next_eq : ∀ i < s.capacity, r.read (.next (s.slotOffset i)) = follower s i
  length_eq : ∀ i < s.capacity, r.read (.length (s.slotOffset i)) = 0
  priority_eq : ∀ i < s.capacity, r.read (.priority (s.slotOffset i)) = 0

theorem emptied_of_values (h : ∀ value ∈ values s, r.read value.1 = value.2) : Emptied s r := by
  have hstate : ∀ value ∈ stateValues s, r.read value.1 = value.2 := by
    intro value hvalue
    exact h value (mem_values.mpr (Or.inl hvalue))
  have hslot : ∀ i < s.capacity, ∀ value ∈ slotValues s i, r.read value.1 = value.2 := by
    intro i hi value hvalue
    exact h value (mem_values.mpr (Or.inr ⟨i, hi, hvalue⟩))
  simp only [stateValues, List.forall_mem_cons] at hstate
  obtain ⟨hqueued, hwaiting, howner, hreserved, hhead, hfree, hkind, hsignal, hvalue, -⟩ := hstate
  simp only [slotValues, List.forall_mem_cons] at hslot
  exact {
    queued_eq := hqueued
    waiting_eq := hwaiting
    owner_eq := howner
    reserved_eq := hreserved
    head_eq := hhead
    free_eq := hfree
    eventKind_eq := hkind
    eventSignal_eq := hsignal
    eventValue_eq := hvalue
    next_eq := fun i hi => (hslot i hi).1
    length_eq := fun i hi => (hslot i hi).2.1
    priority_eq := fun i hi => (hslot i hi).2.2.1 }

/-- The free list leads over all slots in order. -/
theorem Emptied.chain_slots (h : Emptied s r) (hs : s.Valid) :
    Chain r (r.read .free) s.slots := by
  have hchain := chain_of_follower s.capacity (Nat.zero_add _) fun k _ => h.next_eq k
  rw [if_pos hs.1.1] at hchain
  rw [h.free_eq, Sizing.slots, List.range_eq_range']
  exact hchain

end Format

/-- An empty queue but for its tag: nothing is counted, nobody waits or is registered, and
every slot is free. -/
structure Vacant (s : Sizing) (r : Region) : Prop where
  size_eq : r.size = s.fileSize
  capacity_eq : r.read .capacity = s.capacity
  messageSize_eq : r.read .messageSize = s.messageSize
  queued_eq : r.read .queued = 0
  waiting_eq : r.read .waiting = 0
  owner_eq : r.read .owner = 0
  head_eq : r.read .head = Layout.nil
  freeChain : Chain r (r.read .free) s.slots

theorem run_layOut (hs : s.Valid) (hsize : r.size = s.fileSize) :
    ∃ r', (Format.layOut s).run r = (.ok (), r') ∧ Vacant s r' := by
  have hread := Region.read_fill _ (Format.fits_layOut hs (Nat.le_of_eq hsize.symm))
  have hsizing : ∀ value ∈ Format.sizingValues s,
      (r.fill (Format.sizingValues s ++ Format.values s)).read value.1 = value.2 := by
    intro value hvalue
    exact hread value (List.mem_append_left _ hvalue)
  have hvalues : ∀ value ∈ Format.values s,
      (r.fill (Format.sizingValues s ++ Format.values s)).read value.1 = value.2 := by
    intro value hvalue
    exact hread value (List.mem_append_right _ hvalue)
  have hempty : Format.Emptied s (r.fill (Format.sizingValues s ++ Format.values s)) :=
    Format.emptied_of_values hvalues
  refine ⟨_, Format.run_layOut s r, ?_⟩
  constructor
  · exact (Region.size_fill ..).trans hsize
  · exact hsizing (.capacity, s.capacity) (by simp [Format.sizingValues])
  · exact hsizing (.messageSize, s.messageSize) (by simp [Format.sizingValues])
  · exact hempty.queued_eq
  · exact hempty.waiting_eq
  · exact hempty.owner_eq
  · exact hempty.head_eq
  · exact hempty.chain_slots hs

/-- What the lock objects take up matters to nothing else. -/
theorem Vacant.prepared (h : Vacant s r) :
    Vacant s (r.setSlice Layout.lockOffset (Region.zeroBytes Layout.lockSize)) := by
  have hbehind : Region.Agree r (r.setSlice Layout.lockOffset (Region.zeroBytes Layout.lockSize))
      Layout.stateOffset s.fileSize :=
    Region.agree_setSlice _ (Or.inr (Nat.le_of_eq (by rw [Region.size_zeroBytes]; rfl)))
  have hfront : Region.Agree r (r.setSlice Layout.lockOffset (Region.zeroBytes Layout.lockSize)) 0
      Layout.lockOffset := Region.agree_setSlice _ (Or.inl (Nat.le_refl _))
  have hstate : ∀ f : Field, Layout.stateOffset ≤ f.offset →
      f.offset + f.width ≤ Layout.headerSize →
      (r.setSlice Layout.lockOffset (Region.zeroBytes Layout.lockSize)).read f = r.read f :=
    fun f hlow hhigh => hbehind.read hlow (Nat.le_trans hhigh (Nat.le_add_right _ _))
  exact {
    size_eq := (Region.size_setSlice ..).trans h.size_eq
    capacity_eq := (hfront.read (by decide) (by decide)).trans h.capacity_eq
    messageSize_eq := (hfront.read (by decide) (by decide)).trans h.messageSize_eq
    queued_eq := (hstate _ (by decide) (by decide)).trans h.queued_eq
    waiting_eq := (hstate _ (by decide) (by decide)).trans h.waiting_eq
    owner_eq := (hstate _ (by decide) (by decide)).trans h.owner_eq
    head_eq := (hstate _ (by decide) (by decide)).trans h.head_eq
    freeChain := by
      rw [hstate _ (by decide) (by decide)]
      refine h.freeChain.congr fun a ha => read_next_congr (s := s) ?_
      have hslot := Sizing.mem_slots.mp ha
      exact hbehind.mono (Nat.le_trans (by decide) (Sizing.headerSize_le_of_isSlot hslot))
        (Sizing.add_stride_le_of_isSlot hslot) }

/-- With its tag, a vacant region is a queue without messages. -/
theorem Vacant.represents (h : Vacant s r) (htag : r.read .tag = Layout.validTag) :
    Represents s r [] := by
  refine ⟨[], s.slots, ⟨⟨h.size_eq, htag, h.capacity_eq, h.messageSize_eq, ⟨?_, ?_, ?_, ?_⟩,
    h.freeChain, ?_⟩, h.queued_eq⟩, rfl⟩
  · exact h.head_eq
  · exact List.Pairwise.nil
  · exact fun slot hslot => absurd hslot List.not_mem_nil
  · exact fun slot hslot => absurd hslot List.not_mem_nil
  · rw [List.nil_append, List.append_nil]

/-- What the tag reads matters to nothing else. -/
theorem Vacant.tagged (h : Vacant s r) (tag : Nat) : Vacant s (r.write .tag tag) := by
  have hread : ∀ f : Field, Field.tag.Apart f → (r.write .tag tag).read f = r.read f :=
    fun f hf => Region.read_write_of_apart _ hf _
  constructor
  · exact (Region.size_write ..).trans h.size_eq
  · exact (hread _ (by decide)).trans h.capacity_eq
  · exact (hread _ (by decide)).trans h.messageSize_eq
  · exact (hread _ (by decide)).trans h.queued_eq
  · exact (hread _ (by decide)).trans h.waiting_eq
  · exact (hread _ (by decide)).trans h.owner_eq
  · exact (hread _ (by decide)).trans h.head_eq
  · rw [hread _ (by decide)]
    exact h.freeChain.congr fun a ha =>
      read_next_write_header (s := s) (by decide) (Sizing.mem_slots.mp ha) _

theorem Vacant.published (h : Vacant s r) :
    Represents s (r.write .tag Layout.validTag) [] ∧
      (r.write .tag Layout.validTag).read .waiting = 0 ∧
      (r.write .tag Layout.validTag).read .owner = 0 := by
  have hvacant := h.tagged Layout.validTag
  have htag : (r.write .tag Layout.validTag).read .tag = Layout.validTag :=
    read_header_write_self (by decide) (Nat.le_of_eq h.size_eq.symm) (by decide)
  exact ⟨hvacant.represents htag, hvacant.waiting_eq, hvacant.owner_eq⟩

end MappedQueue
