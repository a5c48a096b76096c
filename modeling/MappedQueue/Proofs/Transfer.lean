import MappedQueue.Proofs.Insertion

/-!
# Putting and taking messages

Each operation on the lists moves one slot: allocating makes the first free slot loose,
filling gives a loose slot its message, inserting puts it on the message list, popping
makes the first message's slot loose, and releasing puts a loose slot on the free list.
Together they make sending one insertion into the list of messages, and receiving the
removal of its head. None of them comes to a fault.
-/

namespace MappedQueue

variable {s : Sizing} {r : Region} {used free loose : List Nat} {slot : Nat} {m : Message}

def filled (r : Region) (slot : Nat) (m : Message) : Region :=
  ((r.setSlice (Layout.payload slot) m.bytes).write (.length slot) m.bytes.size).write
    (.priority slot) m.priority

theorem sameBut_filled (hm : m.bytes.size ≤ s.messageSize) : SameBut s slot r (filled r slot m) :=
  ((SameBut.setSlice r hm).trans (.write_length _ _)).trans (.write_priority _ _)

theorem read_priority_filled (hin : slot + Layout.slotHeaderSize ≤ r.size)
    (hp : m.priority < priorityLimit) : (filled r slot m).read (.priority slot) = m.priority := by
  refine Region.read_write_self ?_ (Nat.lt_trans hp (by decide : priorityLimit < 256 ^ 4))
  rw [Region.size_write, Region.size_setSlice]
  exact hin

theorem read_length_filled (hin : slot + Layout.slotHeaderSize ≤ r.size)
    (hm : m.bytes.size ≤ Sizing.maxMessageSize) :
    (filled r slot m).read (.length slot) = m.bytes.size := by
  rw [filled, Region.read_write_of_apart _ (Or.inr (Nat.le_refl _))]
  refine Region.read_write_self ?_
    (Nat.lt_of_le_of_lt hm (by decide : Sizing.maxMessageSize < 256 ^ 4))
  rw [Region.size_setSlice]
  exact Nat.le_trans (Nat.add_le_add_left (by decide : 12 ≤ Layout.slotHeaderSize) slot) hin

/-- A slot carries what was put into it. -/
theorem messageAt_filled (hin : slot + Layout.slotHeaderSize + m.bytes.size ≤ r.size)
    (hm : m.bytes.size ≤ Sizing.maxMessageSize) (hp : m.priority < priorityLimit) :
    (filled r slot m).messageAt slot = m := by
  have hlow : slot + Layout.slotHeaderSize ≤ r.size := Nat.le_trans (Nat.le_add_right _ _) hin
  have hbytes : (filled r slot m).slice (Layout.payload slot) m.bytes.size = m.bytes := by
    have hlength : Region.Agree (r.setSlice (Layout.payload slot) m.bytes) (filled r slot m)
        (Layout.payload slot) (Layout.payload slot + m.bytes.size) :=
      (Region.agree_write _ _ (by
        simp only [Field.length, Layout.payload, Layout.slotHeaderSize]; omega)).trans
        (Region.agree_write _ _ (by
          simp only [Field.priority, Layout.payload, Layout.slotHeaderSize]; omega))
    rw [hlength.slice (Nat.le_refl _) (Nat.le_refl _)]
    exact Region.slice_setSlice_self hin
  simp only [Region.messageAt, read_length_filled hlow hm, read_priority_filled hlow hp, hbytes]

namespace Divided

theorem room (h : Divided s r used free loose) {a : Nat} (ha : a ∈ used ++ (free ++ loose)) :
    a + Layout.slotHeaderSize + s.messageSize ≤ r.size := by
  have hle := add_stride_le_size h.fileSize_le (h.isSlot ha)
  have hroom := Sizing.room_le_stride s
  omega

/-- Allocating makes the first free slot loose. -/
theorem allocate (h : Divided s r used (slot :: free) loose) :
    ∃ r', (FreeList.allocate s).run r = (.ok slot, r') ∧ Divided s r' used free (slot :: loose) ∧
      used.map r'.messageAt = used.map r.messageAt ∧ SameHeader r r' := by
  have hslot := h.isSlot_free List.mem_cons_self
  have hagree : ∀ a, s.isSlot a = true → Region.Agree r (r.write .free (r.read (.next slot))) a
      (a + s.stride) := fun a ha =>
    Region.agree_write _ _ (Or.inr (Nat.le_trans (by decide) (Sizing.headerSize_le_of_isSlot ha)))
  have hfree : (r.write .free (r.read (.next slot))).read .free = r.read (.next slot) :=
    read_header_write_self (by decide) h.fileSize_le (Region.read_lt _ _)
  have hused : ∀ a ∈ used, Region.Agree r (r.write .free (r.read (.next slot))) a (a + s.stride) :=
    fun a ha => hagree a (h.isSlot_used ha)
  refine ⟨_, run_allocate h.freeChain hslot, ?_, ?_, ?_⟩
  · exact {
      size_eq := (Region.size_write ..).trans h.size_eq
      tag_eq := (Region.read_write_of_apart _ (by decide) _).trans h.tag_eq
      capacity_eq := (Region.read_write_of_apart _ (by decide) _).trans h.capacity_eq
      messageSize_eq := (Region.read_write_of_apart _ (by decide) _).trans h.messageSize_eq
      queued := h.queued.congr (Region.read_write_of_apart _ (by decide) _) hused
      freeChain := by
        rw [hfree]
        exact h.freeChain.2.congr fun a ha =>
          read_next_congr (hagree a (h.isSlot_free (List.mem_cons_of_mem _ ha)))
      slots_perm := (List.Perm.append_left _ List.perm_middle).trans h.slots_perm }
  · exact h.queued.map_messageAt_congr fun a ha =>
      (hused a ha).mono (Nat.le_add_right _ _) (Nat.le_refl _)
  · exact ⟨Region.agree_write _ _ (Or.inl (by decide)), Region.agree_write _ _ (Or.inr (by decide))⟩

/-- Filling a loose slot gives it a message and changes nothing else. -/
theorem fill (hs : s.Valid) (h : Divided s r used free (slot :: loose))
    (hm : m.bytes.size ≤ s.messageSize) (hp : m.priority < priorityLimit) :
    Divided s (filled r slot m) used free (slot :: loose) ∧
      (filled r slot m).messageAt slot = m ∧
      used.map (filled r slot m).messageAt = used.map r.messageAt ∧
      SameHeader r (filled r slot m) := by
  have hslot := h.isSlot_loose List.mem_cons_self
  have hsame : SameBut s slot r (filled r slot m) := sameBut_filled hm
  have hmem : slot ∈ used ++ (free ++ slot :: loose) := by simp
  refine ⟨h.congr_loose hsame, ?_, ?_,
    .of_agree (hsame.agree (Or.inl (Sizing.headerSize_le_of_isSlot hslot)))⟩
  · exact messageAt_filled (Nat.le_trans (Nat.add_le_add_left hm _) (h.room hmem))
      (Nat.le_trans hm hs.2.2) hp
  · refine h.queued.map_messageAt_congr fun a ha => ?_
    have hne := h.ne_of_loose List.mem_cons_self (List.mem_append_left _ ha)
    exact (hsame.agree (Sizing.apart_of_isSlot (h.isSlot_used ha) hslot hne)).mono
      (Nat.le_add_right _ _) (Nat.le_refl _)

section Splicing

variable {before after : List Nat}

/-- The slot in front of a gap, unless the gap is at the front, is on the list. -/
theorem previous_mem (hne : before.getLastD Layout.nil ≠ Layout.nil) :
    before.getLastD Layout.nil ∈ before ++ after :=
  List.mem_append_left _ (getLastD_mem hne)

theorem isSlot_spliced (h : Divided s r (before ++ after) free (slot :: loose)) {a : Nat}
    (ha : a ∈ slot :: (before ++ after)) : s.isSlot a = true := by
  rcases List.mem_cons.mp ha with rfl | ha
  · exact h.isSlot_loose List.mem_cons_self
  · exact h.isSlot_used ha

theorem isSlot_previous (h : Divided s r (before ++ after) free (slot :: loose))
    (hne : before.getLastD Layout.nil ≠ Layout.nil) :
    s.isSlot (before.getLastD Layout.nil) = true :=
  h.isSlot_used (previous_mem hne)

/-- Splicing puts a loose slot on the message list, and no message on it changes. -/
theorem queued_spliced (hs : s.Valid) (h : Divided s r (before ++ after) free (slot :: loose))
    (hordered : Backlog.Ordered ((before ++ slot :: after).map r.messageAt))
    (hp : r.read (.priority slot) < priorityLimit) (hm : r.read (.length slot) ≤ s.messageSize) :
    let r' := spliced r slot ⟨before.getLastD Layout.nil, after.headD Layout.nil⟩
    (before ++ slot :: after).map r'.messageAt = (before ++ slot :: after).map r.messageAt ∧
      Queued s r' (before ++ slot :: after) := by
  intro r'
  have hqueued : Queued s r (before ++ after) := h.queued
  have hnodup : (slot :: (before ++ after)).Nodup :=
    List.nodup_cons.mpr ⟨fun ha => h.ne_of_loose List.mem_cons_self (List.mem_append_left _ ha) rfl,
      (List.nodup_append.mp h.nodup).1⟩
  have hmem : ∀ a ∈ before ++ slot :: after, a ∈ slot :: (before ++ after) := fun a ha =>
    List.perm_middle.mem_iff.mp ha
  have hcontent : ∀ a ∈ before ++ slot :: after, Region.Agree r r' (a + 8) (a + s.stride) :=
    fun a ha => agree_spliced_content (h.isSlot_spliced (hmem a ha))
      (h.isSlot_loose List.mem_cons_self) h.isSlot_previous
  have hlength : ∀ a ∈ before ++ slot :: after, r.read (.length a) ≤ s.messageSize := by
    intro a ha
    rcases List.mem_cons.mp (hmem a ha) with rfl | ha
    · exact hm
    · exact hqueued.length_le a ha
  have hpriority : ∀ a ∈ before ++ slot :: after, r.read (.priority a) < priorityLimit := by
    intro a ha
    rcases List.mem_cons.mp (hmem a ha) with rfl | ha
    · exact hp
    · exact hqueued.priority_lt a ha
  have hmessages : ∀ a ∈ before ++ slot :: after, r'.messageAt a = r.messageAt a := fun a ha =>
    messageAt_congr (hcontent a ha) (hlength a ha)
  have hmap := List.map_congr_left hmessages
  refine ⟨hmap, ?_⟩
  exact {
    chain := chain_spliced hs h.fileSize_le hqueued.chain (fun a ha => h.isSlot_spliced ha) hnodup
    ordered := by
      rw [hmap]
      exact hordered
    priority_lt := fun a ha => by
      rw [show r'.read (.priority a) = r.read (.priority a) from
        congrArg Message.priority (hmessages a ha)]
      exact hpriority a ha
    length_le := fun a ha => by
      rw [read_length_congr (hcontent a ha)]
      exact hlength a ha }

/-- Splicing puts a loose slot on the message list, between two parts of it. -/
theorem splice (hs : s.Valid) (h : Divided s r (before ++ after) free (slot :: loose))
    (hordered : Backlog.Ordered ((before ++ slot :: after).map r.messageAt))
    (hp : r.read (.priority slot) < priorityLimit) (hm : r.read (.length slot) ≤ s.messageSize) :
    let r' := spliced r slot ⟨before.getLastD Layout.nil, after.headD Layout.nil⟩
    Divided s r' (before ++ slot :: after) free loose ∧
      (before ++ slot :: after).map r'.messageAt = (before ++ slot :: after).map r.messageAt ∧
      SameHeader r r' := by
  intro r'
  obtain ⟨hmap, hqueued⟩ := h.queued_spliced hs hordered hp hm
  have hslot := h.isSlot_loose List.mem_cons_self
  have hfront : Region.Agree r r' 0 Field.head.offset :=
    agree_spliced_header hslot h.isSlot_previous (by decide) (Or.inl (Nat.le_refl _))
  have hback : Region.Agree r r' Field.free.offset Layout.headerSize :=
    agree_spliced_header hslot h.isSlot_previous (Nat.le_refl _) (Or.inr (by decide))
  refine ⟨?_, hmap, hfront, hback.mono (by decide) (Nat.le_refl _)⟩
  exact {
    size_eq := (size_spliced ..).trans h.size_eq
    tag_eq := (hfront.read (by decide) (by decide)).trans h.tag_eq
    capacity_eq := (hfront.read (by decide) (by decide)).trans h.capacity_eq
    messageSize_eq := (hfront.read (by decide) (by decide)).trans h.messageSize_eq
    queued := hqueued
    freeChain := by
      rw [show r'.read .free = r.read .free from hback.read (by decide) (by decide)]
      refine h.freeChain.congr fun a ha => read_next_congr (s := s) ?_
      have hne := h.ne_of_loose List.mem_cons_self (List.mem_append_right _ ha)
      refine agree_spliced_other (h.isSlot_free ha) hslot h.isSlot_previous hne ?_
      -- The slot in front of the gap is on the message list, so it is not a free one.
      rintro rfl
      exact List.disjoint_of_nodup_append h.nodup
        (previous_mem (Sizing.ne_nil_of_isSlot (h.isSlot_free ha))) (List.mem_append_left _ ha)
    slots_perm := by
      refine List.Perm.trans ?_ h.slots_perm
      rw [← List.append_assoc, ← List.append_assoc]
      exact ((List.perm_middle.append_right _).append_right _).trans List.perm_middle.symm }

end Splicing

/-- Inserting puts a loose slot on the message list, at the place of its message. -/
theorem insert (hs : s.Valid) (h : Divided s r used free (slot :: loose))
    (hp : r.read (.priority slot) < priorityLimit) (hm : r.read (.length slot) ≤ s.messageSize) :
    ∃ r' used', (MessageList.insert s slot (r.read (.priority slot))).run r = (.ok (), r') ∧
      Divided s r' used' free loose ∧
      used'.map r'.messageAt = Backlog.insert (r.messageAt slot) (used.map r.messageAt) ∧
      SameHeader r r' := by
  have hrun : (MessageList.insert s slot (r.read (.priority slot))).run r =
      (.ok (), spliced r slot (placeIn r (r.read (.priority slot)) used)) :=
    MessageList.run_insert_found (MessageList.finds_placeIn h.queued.chain
      (fun a ha => h.isSlot_used ha) _) (h.isSlot_loose List.mem_cons_self)
  have hdescending := MessageList.descending_iff.mpr h.queued.ordered
  have hmap : (used.takeWhile (goesBehind r (r.read (.priority slot))) ++
      slot :: used.dropWhile (goesBehind r (r.read (.priority slot)))).map r.messageAt =
        Backlog.insert (r.messageAt slot) (used.map r.messageAt) := by
    rw [← hdescending.ranked_eq, MessageList.map_ranked]
  have hparts : used.takeWhile (goesBehind r (r.read (.priority slot))) ++
      used.dropWhile (goesBehind r (r.read (.priority slot))) = used :=
    List.takeWhile_append_dropWhile
  have hordered := h.queued.ordered.insert (r.messageAt slot)
  rw [← hmap] at hordered
  rw [← hparts] at h
  obtain ⟨hdivided, hmessages, hheader⟩ := h.splice hs hordered hp hm
  exact ⟨_, _, hrun, hdivided, hmessages.trans hmap, hheader⟩

/-- Popping makes the slot of the first message loose. -/
theorem pop (h : Divided s r (slot :: used) free loose) :
    ∃ r', (MessageList.popHead s).run r = (.ok slot, r') ∧
      Divided s r' used free (slot :: loose) ∧
      (slot :: used).map r'.messageAt = (slot :: used).map r.messageAt ∧
      r'.read (.length slot) = r.read (.length slot) ∧ SameHeader r r' := by
  have hslot := h.isSlot_used List.mem_cons_self
  have hagree : ∀ a, s.isSlot a = true → Region.Agree r (r.write .head (r.read (.next slot))) a
      (a + s.stride) := fun a ha =>
    Region.agree_write _ _ (Or.inr (Nat.le_trans (by decide) (Sizing.headerSize_le_of_isSlot ha)))
  have hhead : (r.write .head (r.read (.next slot))).read .head = r.read (.next slot) :=
    read_header_write_self (by decide) h.fileSize_le (Region.read_lt _ _)
  have hcontent : ∀ a ∈ slot :: used, Region.Agree r (r.write .head (r.read (.next slot))) (a + 8)
      (a + s.stride) := fun a ha =>
    (hagree a (h.isSlot_used ha)).mono (Nat.le_add_right _ _) (Nat.le_refl _)
  have hmap := h.queued.map_messageAt_congr hcontent
  refine ⟨_, run_popHead h.queued.chain hslot, ?_, hmap, ?_, ?_⟩
  · exact {
      size_eq := (Region.size_write ..).trans h.size_eq
      tag_eq := (Region.read_write_of_apart _ (by decide) _).trans h.tag_eq
      capacity_eq := (Region.read_write_of_apart _ (by decide) _).trans h.capacity_eq
      messageSize_eq := (Region.read_write_of_apart _ (by decide) _).trans h.messageSize_eq
      queued := h.queued.tail_of_chain hcontent (by
        rw [hhead]
        exact h.queued.chain.2.congr fun a ha =>
          read_next_congr (hagree a (h.isSlot_used (List.mem_cons_of_mem _ ha))))
      freeChain := by
        rw [Region.read_write_of_apart _ (by decide)]
        exact h.freeChain.congr fun a ha => read_next_congr (hagree a (h.isSlot_free ha))
      slots_perm := by
        refine List.Perm.trans ?_ h.slots_perm
        rw [← List.append_assoc, List.cons_append, ← List.append_assoc]
        exact List.perm_middle }
  · exact read_length_congr (hcontent slot List.mem_cons_self)
  · exact ⟨Region.agree_write _ _ (Or.inl (by decide)), Region.agree_write _ _ (Or.inr (by decide))⟩

/-- Releasing puts a loose slot at the front of the free list. -/
theorem release (hs : s.Valid) (h : Divided s r used free (slot :: loose)) :
    ∃ r', (FreeList.release s slot).run r = (.ok (), r') ∧ Divided s r' used (slot :: free) loose ∧
      used.map r'.messageAt = used.map r.messageAt ∧ SameHeader r r' := by
  have hslot := h.isSlot_loose List.mem_cons_self
  have hfront : Region.Agree r (released r slot) 0 Field.free.offset :=
    agree_released_header hslot (by decide) (Or.inl (Nat.le_refl _))
  have hne : ∀ a ∈ used ++ free, a ≠ slot := fun a ha => h.ne_of_loose List.mem_cons_self ha
  have hused : ∀ a ∈ used, Region.Agree r (released r slot) a (a + s.stride) := fun a ha =>
    agree_released_other (h.isSlot_used ha) hslot (hne a (List.mem_append_left _ ha))
  refine ⟨released r slot, run_release hslot, ?_, ?_, hfront.mono (Nat.le_refl _) (by decide),
    agree_released_header hslot (Nat.le_refl _) (Or.inr (by decide))⟩
  · exact {
      size_eq := by
        rw [released, Region.size_write, Region.size_write]
        exact h.size_eq
      tag_eq := (hfront.read (by decide) (by decide)).trans h.tag_eq
      capacity_eq := (hfront.read (by decide) (by decide)).trans h.capacity_eq
      messageSize_eq := (hfront.read (by decide) (by decide)).trans h.messageSize_eq
      queued := h.queued.congr (hfront.read (by decide) (by decide)) hused
      freeChain := by
        refine ⟨?_, ?_⟩
        · exact read_header_write_self (by decide) (by rw [Region.size_write]; exact h.fileSize_le)
            (lt_of_isSlot hs hslot)
        · have hnext : (released r slot).read (.next slot) = r.read .free := by
            rw [released, read_next_write_header (by decide) hslot]
            exact read_next_write_self h.fileSize_le hslot (Region.read_lt _ _)
          rw [hnext]
          exact h.freeChain.congr fun a ha => read_next_congr
            (agree_released_other (h.isSlot_free ha) hslot (hne a (List.mem_append_right _ ha)))
      slots_perm := (List.Perm.append_left _ List.perm_middle.symm).trans h.slots_perm }
  · exact h.queued.map_messageAt_congr fun a ha =>
      (hused a ha).mono (Nat.le_add_right _ _) (Nat.le_refl _)

end Divided

namespace Divided

/-- The counter belongs to neither list. -/
theorem write_queued (h : Divided s r used free loose) (value : Nat) :
    Divided s (r.write .queued value) used free loose ∧
      used.map (r.write .queued value).messageAt = used.map r.messageAt :=
  h.write (Or.inl (by decide)) value

/-- With the right count, a division without loose slots is a queue. -/
theorem represents_count (hs : s.Valid) (h : Divided s r used free []) :
    Represents s (r.write .queued used.length) (used.map r.messageAt) := by
  have hlen : used.length ≤ s.capacity := by
    have hl := h.length_add
    omega
  have hfit : used.length < 256 ^ 4 :=
    Nat.lt_of_le_of_lt (Nat.le_trans hlen hs.1.2) (by decide : Sizing.maxCapacity < 256 ^ 4)
  obtain ⟨hdivided, hmap⟩ := h.write_queued used.length
  exact ⟨used, free, ⟨hdivided, read_header_write_self (by decide) h.fileSize_le hfit⟩, hmap⟩

end Divided

/-- Counting the messages leaves everything beside the lists alone. -/
theorem SameHeader.sameBeside_count {r' : Region} (h : SameHeader r r') (value : Nat) :
    SameBeside r (r'.write .queued value) := by
  have hb := h.sameBeside
  exact ⟨hb.front.trans (Region.agree_write _ _ (Or.inl (Nat.le_refl _))),
    hb.middle.trans (Region.agree_write _ _ (Or.inr (Nat.le_refl _))),
    hb.back.trans (Region.agree_write _ _ (Or.inr (by decide)))⟩

theorem SameHeader.read_queued {r' : Region} (h : SameHeader r r') :
    r'.read .queued = r.read .queued :=
  h.front.read (by decide) (by decide)

namespace Divided

/-- Putting a message somewhere where there is a free slot inserts it into the list of messages and
counts it, whatever the counter says. -/
theorem run_enqueue (hs : s.Valid) (h : Divided s r used (slot :: free) loose)
    (hm : m.bytes.size ≤ s.messageSize) (hp : m.priority < priorityLimit) :
    ∃ r' used', (enqueue s m.bytes m.priority).run r =
        (.ok (decide (r.read .queued + 1 = 1)), r'.write .queued (r.read .queued + 1)) ∧
      Divided s r' used' free loose ∧
      used'.map r'.messageAt = Backlog.insert m (used.map r.messageAt) ∧ SameHeader r r' := by
  obtain ⟨r₁, hallocate, h₁, hmap₁, hheader₁⟩ := h.allocate
  obtain ⟨h₂, hmessage, hmap₂, hheader₂⟩ := h₁.fill hs hm hp
  have hslot := h₁.isSlot_loose List.mem_cons_self
  have hlow : slot + Layout.slotHeaderSize ≤ r₁.size :=
    Nat.le_trans (Nat.le_add_right _ _) (h₁.room (by simp))
  have hpriority := read_priority_filled hlow hp
  have hlength := read_length_filled hlow (Nat.le_trans hm hs.2.2)
  obtain ⟨r₃, used', hinsert, h₃, hmap₃, hheader₃⟩ :=
    h₂.insert hs (hpriority.symm ▸ hp) (hlength.symm ▸ hm)
  rw [hpriority] at hinsert
  rw [hmessage, hmap₂, hmap₁] at hmap₃
  have hheader : SameHeader r r₃ := (hheader₁.trans hheader₂).trans hheader₃
  refine ⟨r₃, used', ?_, h₃, hmap₃, hheader⟩
  rw [enqueue, Access.run_bind_of_ok hallocate,
    Access.run_bind_of_ok (Slot.run_setPayload hslot _ _), Access.run_set_bind,
    Access.run_set_bind]
  change (MessageList.insert s slot m.priority >>= _).run (filled r₁ slot m) = _
  rw [Access.run_bind_of_ok hinsert, Access.run_get_bind, hheader.read_queued, Access.run_set_bind]
  rfl

/-- Taking a message off a list that has one yields the head of the list and counts it out, whatever
the counter says. -/
theorem run_dequeue (hs : s.Valid) (h : Divided s r (slot :: used) free loose) :
    ∃ r', (dequeue s).run r =
        (.ok ⟨(r.messageAt slot).bytes, (r.messageAt slot).priority,
          decide (r.read .queued = s.capacity)⟩, r'.write .queued (r.read .queued - 1)) ∧
      Divided s r' used (slot :: free) loose ∧
      used.map r'.messageAt = used.map r.messageAt ∧ SameHeader r r' := by
  have hslot := h.isSlot_used List.mem_cons_self
  obtain ⟨r₁, hpop, h₁, hmap₁, hlength₁, hheader₁⟩ := h.pop
  obtain ⟨hm₁, htail₁⟩ := List.cons.inj hmap₁
  obtain ⟨r₂, hrelease, h₂, hmap₂, hheader₂⟩ := h₁.release hs
  have hheader : SameHeader r r₂ := hheader₁.trans hheader₂
  have hfit : ¬ s.messageSize < r₁.read (.length slot) := by
    rw [hlength₁]
    exact Nat.not_lt.mpr (h.queued.length_le slot List.mem_cons_self)
  refine ⟨r₂, ?_, h₂, hmap₂.trans htail₁, hheader⟩
  rw [dequeue, Access.run_bind_of_ok hpop, Access.run_get_bind, Access.run_get_bind,
    if_neg hfit, Access.run_bind_of_ok (Slot.run_payload hslot _ _),
    Access.run_bind_of_ok hrelease, Access.run_get_bind, hheader.read_queued, Access.run_set_bind]
  rw [← hm₁]
  rfl

end Divided

/-- Putting a message on a queue with room inserts it into the list of messages. -/
theorem run_enqueue {l : List Message} (hs : s.Valid) (h : Represents s r l)
    (hroom : l.length < s.capacity) (hm : m.bytes.size ≤ s.messageSize)
    (hp : m.priority < priorityLimit) :
    ∃ r', (enqueue s m.bytes m.priority).run r = (.ok (decide (l = [])), r') ∧
      Represents s r' (Backlog.insert m l) ∧ SameBeside r r' := by
  obtain ⟨used, slot, free, harranged, rfl⟩ := h.exists_free hroom
  obtain ⟨r', used', hrun, h', hmap, hheader⟩ := harranged.toDivided.run_enqueue hs hm hp
  have hlen : used'.length = used.length + 1 := by
    have hl := congrArg List.length hmap
    rwa [Backlog.length_insert, List.length_map, List.length_map] at hl
  have hfirst : decide (used.length + 1 = 1) = decide (used.map r.messageAt = []) := by
    rw [decide_eq_decide, List.map_eq_nil_iff, ← List.length_eq_zero_iff]
    omega
  rw [harranged.count_eq, hfirst, ← hlen] at hrun
  exact ⟨_, hrun, hmap ▸ h'.represents_count hs, hheader.sameBeside_count _⟩

/-- Taking a message off a queue yields the head of the list of messages. -/
theorem run_dequeue {l : List Message} (hs : s.Valid) (h : Represents s r (m :: l)) :
    ∃ r', (dequeue s).run r =
        (.ok ⟨m.bytes, m.priority, decide (l.length + 1 = s.capacity)⟩, r') ∧
      Represents s r' l ∧ SameBeside r r' := by
  obtain ⟨used, free, harranged, hmap⟩ := h
  cases used with
  | nil => cases hmap
  | cons slot used =>
    obtain ⟨rfl, rfl⟩ := List.cons.inj hmap
    obtain ⟨r', hrun, h', hmap', hheader⟩ := harranged.toDivided.run_dequeue hs
    rw [harranged.count_eq, List.length_cons, Nat.add_sub_cancel] at hrun
    refine ⟨_, ?_, hmap' ▸ h'.represents_count hs, hheader.sameBeside_count _⟩
    rw [List.length_map]
    exact hrun

end MappedQueue
