import MappedQueue.Proofs.Backlog
import MappedQueue.Proofs.Chain
import MappedQueue.Turn

/-!
# Regions that hold a queue

A region holds a queue if its tag and sizing are in place, two chains divide all slots
among them, and the counter, the order, the priorities and the lengths of the first chain
are right. Read in the order of the chain, its slots give the list of messages that the
region represents.

While a message is put or taken, its slot is on neither list for a moment. The division
of the slots therefore allows for loose ones, and each operation on the lists moves one
slot from one part of the division to another.
-/

namespace MappedQueue

/-- The message that a slot carries. -/
def Region.messageAt (r : Region) (slot : Nat) : Message where
  bytes := r.slice (Layout.payload slot) (r.read (.length slot))
  priority := r.read (.priority slot)

/-- The message list consists of the slots `used`, in this order. -/
structure Queued (s : Sizing) (r : Region) (used : List Nat) : Prop where
  chain : Chain r (r.read .head) used
  ordered : Backlog.Ordered (used.map r.messageAt)
  priority_lt : ∀ slot ∈ used, r.read (.priority slot) < priorityLimit
  length_le : ∀ slot ∈ used, r.read (.length slot) ≤ s.messageSize

/-- Every slot is in exactly one of three places: on the message list, on the free list,
or on neither. -/
structure Divided (s : Sizing) (r : Region) (used free loose : List Nat) : Prop where
  size_eq : r.size = s.fileSize
  tag_eq : r.read .tag = Layout.validTag
  capacity_eq : r.read .capacity = s.capacity
  messageSize_eq : r.read .messageSize = s.messageSize
  queued : Queued s r used
  freeChain : Chain r (r.read .free) free
  slots_perm : (used ++ (free ++ loose)).Perm s.slots

/-- A queue whose messages are in the slots `used` and whose other slots are free. -/
structure Arranged (s : Sizing) (r : Region) (used free : List Nat) : Prop
    extends Divided s r used free [] where
  count_eq : r.read .queued = used.length

/-- A region that holds a queue with these messages, the next one to be received first. -/
def Represents (s : Sizing) (r : Region) (messages : List Message) : Prop :=
  ∃ used free, Arranged s r used free ∧ used.map r.messageAt = messages

/-- Two regions whose headers differ at most in the heads of the two lists. -/
structure SameHeader (r r' : Region) : Prop where
  front : Region.Agree r r' 0 Field.head.offset
  back : Region.Agree r r' Field.eventKind.offset Layout.headerSize

/-- Two regions whose headers differ at most in the counter and the heads of the lists. -/
structure SameBeside (r r' : Region) : Prop where
  front : Region.Agree r r' 0 Field.queued.offset
  middle : Region.Agree r r' Field.waiting.offset Field.head.offset
  back : Region.Agree r r' Field.eventKind.offset Layout.headerSize

/-- Two regions that differ at most in one slot. -/
structure SameBut (s : Sizing) (slot : Nat) (r r' : Region) : Prop where
  size_eq : r'.size = r.size
  agree {first last : Nat} (hout : last ≤ slot ∨ slot + s.stride ≤ first) :
    Region.Agree r r' first last

variable {s : Sizing} {r r' r'' : Region} {used free loose : List Nat} {slot : Nat} {m : Message}

theorem SameHeader.trans (h : SameHeader r r') (h' : SameHeader r' r'') : SameHeader r r'' :=
  ⟨h.front.trans h'.front, h.back.trans h'.back⟩

theorem SameHeader.sameBeside (h : SameHeader r r') : SameBeside r r' :=
  ⟨h.front.mono (Nat.le_refl _) (by decide), h.front.mono (by decide) (Nat.le_refl _), h.back⟩

/-- Writing outside the header leaves the header alone. -/
theorem SameHeader.of_agree (h : Region.Agree r r' 0 Layout.headerSize) : SameHeader r r' :=
  ⟨h.mono (Nat.le_refl _) (by decide), h.mono (by decide) (Nat.le_refl _)⟩

namespace SameBut

theorem refl (s : Sizing) (slot : Nat) (r : Region) : SameBut s slot r r :=
  ⟨rfl, fun _ => Region.Agree.refl _ _ _⟩

theorem trans (h : SameBut s slot r r') (h' : SameBut s slot r' r'') : SameBut s slot r r'' :=
  ⟨h'.size_eq.trans h.size_eq, fun hout => (h.agree hout).trans (h'.agree hout)⟩

theorem write (r : Region) {f : Field} (hlow : slot ≤ f.offset)
    (hhigh : f.offset + f.width ≤ slot + Layout.slotHeaderSize) (value : Nat) :
    SameBut s slot r (r.write f value) := by
  have hroom := Sizing.room_le_stride s
  exact ⟨Region.size_write .., fun hout => Region.agree_write _ _ (by omega)⟩

theorem write_next (r : Region) (value : Nat) : SameBut s slot r (r.write (.next slot) value) :=
  write r (Nat.le_refl slot) (Nat.add_le_add_left (by decide : 8 ≤ Layout.slotHeaderSize) slot) value

theorem write_length (r : Region) (value : Nat) : SameBut s slot r (r.write (.length slot) value) :=
  write r (Nat.le_add_right slot 8)
    (Nat.add_le_add_left (by decide : 12 ≤ Layout.slotHeaderSize) slot) value

theorem write_priority (r : Region) (value : Nat) :
    SameBut s slot r (r.write (.priority slot) value) :=
  write r (Nat.le_add_right slot 12)
    (Nat.add_le_add_left (by decide : 16 ≤ Layout.slotHeaderSize) slot) value

theorem setSlice (r : Region) {bytes : ByteArray} (hb : bytes.size ≤ s.messageSize) :
    SameBut s slot r (r.setSlice (Layout.payload slot) bytes) := by
  have hroom := Sizing.room_le_stride s
  exact ⟨Region.size_setSlice .., fun hout =>
    Region.agree_setSlice _ (by unfold Layout.payload; omega)⟩

end SameBut

/-- The message in a slot depends on the bytes behind its link only. -/
theorem messageAt_congr (h : Region.Agree r r' (slot + 8) (slot + s.stride))
    (hlen : r.read (.length slot) ≤ s.messageSize) : r'.messageAt slot = r.messageAt slot := by
  have hroom := Sizing.room_le_stride s
  unfold Layout.slotHeaderSize at hroom
  have hl : r'.read (.length slot) = r.read (.length slot) :=
    h.read (Nat.le_refl _) (by simp only [Field.length]; omega)
  have hp : r'.read (.priority slot) = r.read (.priority slot) :=
    h.read (by simp only [Field.priority]; omega) (by simp only [Field.priority]; omega)
  have hb : r'.slice (Layout.payload slot) (r.read (.length slot)) =
      r.slice (Layout.payload slot) (r.read (.length slot)) :=
    h.slice (by simp only [Layout.payload, Layout.slotHeaderSize]; omega)
      (by simp only [Layout.payload, Layout.slotHeaderSize]; omega)
  simp only [Region.messageAt, hl, hp, hb]

theorem read_length_congr (h : Region.Agree r r' (slot + 8) (slot + s.stride)) :
    r'.read (.length slot) = r.read (.length slot) := by
  have hroom := Sizing.room_le_stride s
  unfold Layout.slotHeaderSize at hroom
  exact h.read (Nat.le_refl _) (by simp only [Field.length]; omega)

theorem read_next_congr (h : Region.Agree r r' slot (slot + s.stride)) :
    r'.read (.next slot) = r.read (.next slot) := by
  have hroom := Sizing.room_le_stride s
  unfold Layout.slotHeaderSize at hroom
  exact h.read (Nat.le_refl _) (by simp only [Field.next]; omega)

namespace Queued

theorem map_messageAt_congr (h : Queued s r used)
    (hslots : ∀ a ∈ used, Region.Agree r r' (a + 8) (a + s.stride)) :
    used.map r'.messageAt = used.map r.messageAt :=
  List.map_congr_left fun a ha => messageAt_congr (hslots a ha) (h.length_le a ha)

/-- The message list with other links: what is behind the links stays as it is. -/
theorem of_chain (h : Queued s r used)
    (hslots : ∀ a ∈ used, Region.Agree r r' (a + 8) (a + s.stride))
    (hchain : Chain r' (r'.read .head) used) : Queued s r' used where
  chain := hchain
  ordered := by
    rw [h.map_messageAt_congr hslots]
    exact h.ordered
  priority_lt a ha := by
    have hm := messageAt_congr (hslots a ha) (h.length_le a ha)
    rw [show r'.read (.priority a) = r.read (.priority a) from congrArg Message.priority hm]
    exact h.priority_lt a ha
  length_le a ha := by
    rw [read_length_congr (hslots a ha)]
    exact h.length_le a ha

/-- The message list depends on the bytes of its own slots and on its head. -/
theorem congr (h : Queued s r used) (hhead : r'.read .head = r.read .head)
    (hslots : ∀ a ∈ used, Region.Agree r r' a (a + s.stride)) : Queued s r' used := by
  refine h.of_chain (fun a ha => (hslots a ha).mono (Nat.le_add_right _ _) (Nat.le_refl _)) ?_
  rw [hhead]
  exact h.chain.congr fun a ha => read_next_congr (hslots a ha)

/-- Without its first slot, what is left is a message list where the head leads to it. -/
theorem tail_of_chain (h : Queued s r (slot :: used))
    (hslots : ∀ a ∈ slot :: used, Region.Agree r r' (a + 8) (a + s.stride))
    (hchain : Chain r' (r'.read .head) used) : Queued s r' used := by
  have hrest : ∀ a ∈ used, a ∈ slot :: used := fun a ha => List.mem_cons_of_mem _ ha
  have hmessage : ∀ a ∈ used, r'.messageAt a = r.messageAt a := fun a ha =>
    messageAt_congr (hslots a (hrest a ha)) (h.length_le a (hrest a ha))
  exact {
    chain := hchain
    ordered := by
      rw [List.map_congr_left hmessage]
      exact (List.pairwise_cons.mp h.ordered).2
    priority_lt := fun a ha => by
      rw [show r'.read (.priority a) = r.read (.priority a) from
        congrArg Message.priority (hmessage a ha)]
      exact h.priority_lt a (hrest a ha)
    length_le := fun a ha => by
      rw [read_length_congr (hslots a (hrest a ha))]
      exact h.length_le a (hrest a ha) }

end Queued

namespace Divided

theorem isSlot (h : Divided s r used free loose) {a : Nat} (ha : a ∈ used ++ (free ++ loose)) :
    s.isSlot a = true := Sizing.mem_slots.mp (h.slots_perm.mem_iff.mp ha)

theorem isSlot_used (h : Divided s r used free loose) {a : Nat} (ha : a ∈ used) :
    s.isSlot a = true := h.isSlot (List.mem_append_left _ ha)

theorem isSlot_free (h : Divided s r used free loose) {a : Nat} (ha : a ∈ free) :
    s.isSlot a = true := h.isSlot (List.mem_append_right _ (List.mem_append_left _ ha))

theorem isSlot_loose (h : Divided s r used free loose) {a : Nat} (ha : a ∈ loose) :
    s.isSlot a = true := h.isSlot (List.mem_append_right _ (List.mem_append_right _ ha))

theorem fileSize_le (h : Divided s r used free loose) : s.fileSize ≤ r.size :=
  Nat.le_of_eq h.size_eq.symm

theorem nodup (h : Divided s r used free loose) : (used ++ (free ++ loose)).Nodup :=
  h.slots_perm.nodup_iff.mpr (Sizing.nodup_slots s)

theorem length_add (h : Divided s r used free loose) :
    used.length + free.length + loose.length = s.capacity := by
  rw [← Sizing.length_slots s, ← h.slots_perm.length_eq, List.length_append, List.length_append,
    Nat.add_assoc]

/-- A loose slot is on neither list. -/
theorem ne_of_loose (h : Divided s r used free loose) (hslot : slot ∈ loose) {a : Nat}
    (ha : a ∈ used ++ free) : a ≠ slot := by
  have hn := h.nodup
  rw [← List.append_assoc] at hn
  exact fun he => List.disjoint_of_nodup_append hn ha (he ▸ hslot)

/-- What belongs to no slot and to no list can change freely. -/
theorem congr (h : Divided s r used free loose) (hsize : r'.size = r.size)
    (htag : Region.Agree r r' 0 Layout.lockOffset)
    (hheads : Region.Agree r r' Field.head.offset Field.eventKind.offset)
    (hslots : ∀ a, s.isSlot a = true → a ∉ loose → Region.Agree r r' a (a + s.stride)) :
    Divided s r' used free loose where
  size_eq := hsize.trans h.size_eq
  tag_eq := (htag.read (by decide) (by decide)).trans h.tag_eq
  capacity_eq := (htag.read (by decide) (by decide)).trans h.capacity_eq
  messageSize_eq := (htag.read (by decide) (by decide)).trans h.messageSize_eq
  queued := h.queued.congr (hheads.read (by decide) (by decide)) fun a ha =>
    hslots a (h.isSlot_used ha) fun hl => h.ne_of_loose hl (List.mem_append_left _ ha) rfl
  freeChain := by
    rw [show r'.read .free = r.read .free from hheads.read (by decide) (by decide)]
    exact h.freeChain.congr fun a ha => read_next_congr (hslots a (h.isSlot_free ha) fun hl =>
      h.ne_of_loose hl (List.mem_append_right _ ha) rfl)
  slots_perm := h.slots_perm

/-- The division of the slots depends on nothing in the header but the sizing and the heads of the
two lists. -/
theorem write (h : Divided s r used free loose) {f : Field}
    (hf : Layout.lockOffset ≤ f.offset ∧ f.offset + f.width ≤ Field.head.offset ∨
      Field.eventKind.offset ≤ f.offset ∧ f.offset + f.width ≤ Layout.headerSize) (value : Nat) :
    Divided s (r.write f value) used free loose ∧
      used.map (r.write f value).messageAt = used.map r.messageAt := by
  simp only [Field.head, Field.eventKind, Layout.headerSize, Layout.stateOffset,
    Layout.lockOffset, Layout.lockSize, Layout.stateSize] at hf
  have hagree : ∀ a, s.isSlot a = true → Region.Agree r (r.write f value) a (a + s.stride) := by
    intro a ha
    have hlow := Sizing.headerSize_le_of_isSlot ha
    simp only [Layout.headerSize, Layout.stateOffset, Layout.lockOffset, Layout.lockSize,
      Layout.stateSize] at hlow
    exact Region.agree_write _ _ (Or.inr (by omega))
  refine ⟨h.congr (Region.size_write ..) (Region.agree_write _ _ (Or.inl ?_))
    (Region.agree_write _ _ ?_) fun a ha _ => hagree a ha, h.queued.map_messageAt_congr fun a ha =>
      (hagree a (h.isSlot_used ha)).mono (Nat.le_add_right _ _) (Nat.le_refl _)⟩
  · simp only [Layout.lockOffset]; omega
  · simp only [Field.head, Field.eventKind, Layout.stateOffset, Layout.lockOffset,
      Layout.lockSize]
    omega

/-- What is in a loose slot can change freely. -/
theorem congr_loose (h : Divided s r used free (slot :: loose)) (hsame : SameBut s slot r r') :
    Divided s r' used free (slot :: loose) := by
  have hslot := h.isSlot_loose List.mem_cons_self
  have hlow := Sizing.headerSize_le_of_isSlot hslot
  refine h.congr hsame.size_eq (hsame.agree (Or.inl (Nat.le_trans (by decide) hlow)))
    (hsame.agree (Or.inl (Nat.le_trans (by decide) hlow))) fun a ha hloose => ?_
  have hne : a ≠ slot := fun he => hloose (he ▸ List.mem_cons_self)
  exact hsame.agree (Sizing.apart_of_isSlot ha hslot hne)

end Divided

namespace Represents

variable {l l' : List Message}

theorem read_queued (h : Represents s r l) : r.read .queued = l.length := by
  obtain ⟨used, free, h, rfl⟩ := h
  rw [h.count_eq, List.length_map]

theorem length_le (h : Represents s r l) : l.length ≤ s.capacity := by
  obtain ⟨used, free, h, rfl⟩ := h
  have hl := h.length_add
  rw [List.length_map]
  omega

/-- A queue that is not full has a slot on its free list. -/
theorem exists_free (h : Represents s r l) (hroom : l.length < s.capacity) :
    ∃ used slot free, Arranged s r used (slot :: free) ∧ used.map r.messageAt = l := by
  obtain ⟨used, free, h, rfl⟩ := h
  have hl := h.length_add
  rw [List.length_map] at hroom
  cases free with
  | nil =>
    rw [List.length_nil] at hl
    omega
  | cons slot free => exact ⟨used, slot, free, h, rfl⟩

theorem tag_eq (h : Represents s r l) : r.read .tag = Layout.validTag := by
  obtain ⟨used, free, h, -⟩ := h
  exact h.tag_eq

theorem priority_lt (h : Represents s r l) (hm : m ∈ l) : m.priority < priorityLimit := by
  obtain ⟨used, free, h, rfl⟩ := h
  obtain ⟨a, ha, rfl⟩ := List.mem_map.mp hm
  exact h.queued.priority_lt a ha

theorem size_le (h : Represents s r l) (hm : m ∈ l) : m.bytes.size ≤ s.messageSize := by
  obtain ⟨used, free, h, rfl⟩ := h
  obtain ⟨a, ha, rfl⟩ := List.mem_map.mp hm
  rw [Region.messageAt, Region.size_slice]
  exact h.queued.length_le a ha

/-- A region holds one list of messages at most. -/
theorem unique (h : Represents s r l) (h' : Represents s r l') : l = l' := by
  obtain ⟨used, free, h, rfl⟩ := h
  obtain ⟨used', free', h', rfl⟩ := h'
  have hnil : Layout.nil ∉ used := fun hn => Sizing.ne_nil_of_isSlot (h.isSlot_used hn) rfl
  have hnil' : Layout.nil ∉ used' := fun hn => Sizing.ne_nil_of_isSlot (h'.isSlot_used hn) rfl
  rw [h.queued.chain.unique h'.queued.chain hnil hnil']

/-- The queue does not depend on who waits for it and who is registered. -/
theorem write_beside (h : Represents s r l) {f : Field}
    (hf : Field.waiting.offset ≤ f.offset ∧ f.offset + f.width ≤ Field.head.offset ∨
      Field.eventKind.offset ≤ f.offset ∧ f.offset + f.width ≤ Layout.headerSize) (value : Nat) :
    Represents s (r.write f value) l := by
  obtain ⟨used, free, h, rfl⟩ := h
  obtain ⟨hdivided, hmap⟩ := h.toDivided.write
    (hf.imp_left fun hmiddle => ⟨Nat.le_trans (by decide) hmiddle.1, hmiddle.2⟩) value
  refine ⟨used, free, ⟨hdivided, ?_⟩, hmap⟩
  rw [Region.read_write_of_apart]
  · exact h.count_eq
  · simp only [Field.waiting, Field.eventKind, Layout.stateOffset, Layout.lockOffset,
      Layout.lockSize] at hf
    simp only [Field.Apart, Field.queued, Layout.stateOffset, Layout.lockOffset, Layout.lockSize]
    omega

end Represents

end MappedQueue
