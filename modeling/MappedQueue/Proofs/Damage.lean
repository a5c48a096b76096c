import MappedQueue.Proofs.Creation
import MappedQueue.Proofs.Footprints
import MappedQueue.Turn

/-!
# Queues whose bytes are damaged

Nothing is known here of the bytes of the state record and the slots: links may lead anywhere
or in circles, and the counters and lengths may be any numbers. The operations on the lists
still come to an end, touch nothing but the state record and the slots, and change the counters
by no more than they should.
-/

namespace MappedQueue

open Access
open Layout (headerSize)

variable {s : Sizing} {r : Region} {F : Region → Prop} {size queued waiting slot : Nat}

/-- The length of a region and its two counters. -/
structure Region.Counts (size queued waiting : Nat) (r : Region) : Prop where
  size_eq : r.size = size
  queued_eq : r.read .queued = queued
  waiting_eq : r.read .waiting = waiting

namespace Region.Counts

/-- Writing behind the counters leaves them alone. -/
theorem write (hc : r.Counts size queued waiting) {f : Field}
    (hf : Field.waiting.offset + Field.waiting.width ≤ f.offset) (value : Nat) :
    (r.write f value).Counts size queued waiting where
  size_eq := (Region.size_write ..).trans hc.size_eq
  queued_eq := (Region.read_write_of_apart _ (Or.inr (Nat.le_trans (by decide) hf)) _).trans
    hc.queued_eq
  waiting_eq := (Region.read_write_of_apart _ (Or.inr hf) _).trans hc.waiting_eq

theorem setSlice (hc : r.Counts size queued waiting) {offset : Nat}
    (hoffset : Field.waiting.offset + Field.waiting.width ≤ offset) (bytes : ByteArray) :
    (r.setSlice offset bytes).Counts size queued waiting := by
  have hagree : Region.Agree r (r.setSlice offset bytes) 0
      (Field.waiting.offset + Field.waiting.width) := Region.agree_setSlice _ (Or.inl hoffset)
  exact {
    size_eq := (Region.size_setSlice ..).trans hc.size_eq
    queued_eq := (hagree.read (Nat.zero_le _) (by decide)).trans hc.queued_eq
    waiting_eq := (hagree.read (Nat.zero_le _) (Nat.le_refl _)).trans hc.waiting_eq }

/-- A slot is behind the counters. -/
theorem write_slot (hc : r.Counts size queued waiting) (hslot : s.isSlot slot = true) {f : Field}
    (hf : slot ≤ f.offset) (value : Nat) : (r.write f value).Counts size queued waiting :=
  hc.write (Nat.le_trans (by decide) (Nat.le_trans (Sizing.headerSize_le_of_isSlot hslot) hf)) value

theorem write_queued (hc : r.Counts size queued waiting) (hsize : headerSize ≤ size) {value : Nat}
    (hv : value < 2 ^ 32) : (r.write .queued value).Counts size value waiting where
  size_eq := (Region.size_write ..).trans hc.size_eq
  queued_eq := Region.read_write_self
    (hc.size_eq ▸ Nat.le_trans (by decide) hsize) hv
  waiting_eq := (Region.read_write_of_apart _ (by decide) _).trans hc.waiting_eq

theorem write_waiting (hc : r.Counts size queued waiting) (hsize : headerSize ≤ size)
    {value : Nat} (hv : value < 2 ^ 32) : (r.write .waiting value).Counts size queued value where
  size_eq := (Region.size_write ..).trans hc.size_eq
  queued_eq := (Region.read_write_of_apart _ (by decide) _).trans hc.queued_eq
  waiting_eq := Region.read_write_self
    (hc.size_eq ▸ Nat.le_trans (by decide) hsize) hv

theorem queued_lt (hc : r.Counts size queued waiting) : queued < 2 ^ 32 :=
  hc.queued_eq ▸ Region.read_lt r .queued

end Region.Counts

open Region (Counts)

/-- Taking the first slot off a list takes at most three accesses. -/
theorem FreeList.keeps_allocate (hc : r.Counts size queued waiting) :
    Keeps s 3 (allocate s) r (Counts size queued waiting) fun slot r' =>
      s.isSlot slot = true ∧ r'.Counts size queued waiting := by
  unfold allocate
  refine keeps_get_bind (Sizing.permits_state (by decide) (by decide)) ?_
  split
  · exact keeps_get_bind (Sizing.permits_state (by decide) (by decide)) (keeps_fault hc)
  · refine keeps_check_bind hc fun hslot => ?_
    refine keeps_get_bind (Sizing.permits_next hslot) ?_
    refine keeps_set_bind (Sizing.permits_state (by decide) (by decide)) ?_
    exact keeps_pure ⟨hslot, hc.write (by decide) _⟩

theorem FreeList.keeps_release (hc : r.Counts size queued waiting) (slot : Nat) :
    Keeps s 3 (release s slot) r (Counts size queued waiting) fun _ =>
      Counts size queued waiting := by
  unfold release
  refine keeps_get_bind (Sizing.permits_state (by decide) (by decide)) ?_
  refine keeps_check_bind hc fun hslot => ?_
  refine keeps_set_bind (Sizing.permits_next hslot) ?_
  refine keeps_set (Sizing.permits_state (by decide) (by decide)) ?_
  exact (hc.write_slot hslot (Nat.le_refl _) _).write (by decide) _

theorem MessageList.keeps_popHead (hc : r.Counts size queued waiting) :
    Keeps s 3 (popHead s) r (Counts size queued waiting) fun slot r' =>
      s.isSlot slot = true ∧ r'.Counts size queued waiting := by
  unfold popHead
  refine keeps_get_bind (Sizing.permits_state (by decide) (by decide)) ?_
  split
  · exact keeps_get_bind (Sizing.permits_state (by decide) (by decide)) (keeps_fault hc)
  · refine keeps_check_bind hc fun hslot => ?_
    refine keeps_get_bind (Sizing.permits_next hslot) ?_
    refine keeps_set_bind (Sizing.permits_state (by decide) (by decide)) ?_
    exact keeps_pure ⟨hslot, hc.write (by decide) _⟩

/-- One step of the walk reads at most two numbers, both from a slot. -/
theorem MessageList.keeps_visit {priority bound : Nat} {further : Nat → Nat → Access Place}
    (hF : F r)
    (hfurther : ∀ previous current, Keeps s bound (further previous current) r F fun _ r' => r' = r)
    (previous current : Nat) :
    Keeps s (bound + 2) (visit s priority further previous current) r F fun _ r' => r' = r := by
  unfold visit
  split
  · exact keeps_pure rfl
  · refine keeps_check_bind hF fun hslot => ?_
    refine keeps_get_bind (Sizing.permits_priority hslot) ?_
    split
    · exact keeps_pure rfl
    · exact keeps_get_bind (Sizing.permits_next hslot) (hfurther _ _)

/-- The walk ends wherever the links lead: it follows one link more than its budget at most. -/
theorem MessageList.keeps_walk {priority : Nat} (hF : F r) (budget : Nat) :
    ∀ previous current : Nat, Keeps s (2 * (budget + 1)) (walk s priority budget previous current) r
      F fun _ r' => r' = r := by
  induction budget with
  | zero => exact keeps_visit hF fun _ _ => keeps_fault hF
  | succ budget ih => exact keeps_visit hF ih

theorem MessageList.keeps_insert (hc : r.Counts size queued waiting) (slot priority : Nat) :
    Keeps s (2 * s.capacity + 5) (insert s slot priority) r (Counts size queued waiting) fun _ =>
      Counts size queued waiting := by
  unfold insert
  refine keeps_get_bind (Sizing.permits_state (by decide) (by decide)) ?_
  have hsplit : 2 * s.capacity + 4 = 2 * (s.capacity + 1) + 2 := by omega
  rw [hsplit]
  refine (keeps_walk hc s.capacity _ _).bind ?_
  rintro ⟨previous, following⟩ r' rfl
  refine keeps_check_bind hc fun hslot => ?_
  refine keeps_set_bind (Sizing.permits_next hslot) ?_
  have hlinked := hc.write_slot hslot (Nat.le_refl (Field.next slot).offset) following
  split
  · exact keeps_set (Sizing.permits_state (by decide) (by decide)) (hlinked.write (by decide) _)
  · refine keeps_check_bind hlinked fun hprevious => ?_
    exact keeps_set (Sizing.permits_next hprevious)
      (hlinked.write_slot hprevious (Nat.le_refl _) _)

/-- Putting a message on a queue that counts fewer messages than its capacity counts one more. -/
theorem keeps_enqueue (hs : s.Valid) (hsize : headerSize ≤ size)
    (hc : r.Counts size queued waiting) (hroom : queued < s.capacity) {message : ByteArray}
    (hm : message.size ≤ s.messageSize) (priority : Nat) :
    Keeps s (2 * s.capacity + 13) (enqueue s message priority) r (Counts size queued waiting)
      fun _ => Counts size (queued + 1) waiting := by
  have hfit : queued + 1 < 2 ^ 32 :=
    Nat.lt_of_le_of_lt (Nat.le_trans hroom hs.1.2) (by decide : Sizing.maxCapacity < 2 ^ 32)
  have hkeeps : Keeps s (3 + (1 + (2 * s.capacity + 5 + 2 + 1 + 1))) (enqueue s message priority) r
      (Counts size queued waiting) fun _ => Counts size (queued + 1) waiting := by
    unfold enqueue
    refine (FreeList.keeps_allocate hc).bind ?_
    rintro slot r₁ ⟨hslot, hc₁⟩
    have hbehind : Field.waiting.offset + Field.waiting.width ≤ Layout.payload slot :=
      Nat.le_trans (by decide) (Nat.le_trans (Sizing.headerSize_le_of_isSlot hslot)
        (Nat.le_add_right _ _))
    refine Keeps.bind (P := fun _ => Counts size queued waiting) ?_ fun _ r₂ hc₂ => ?_
    · unfold Slot.setPayload
      exact keeps_check_bind hc₁ fun _ =>
        keeps_setBytes (Sizing.permits_payload hslot hm) (hc₁.setSlice hbehind _)
    · refine keeps_set_bind (Sizing.permits_length hslot) ?_
      refine keeps_set_bind (Sizing.permits_priority hslot) ?_
      have hlength := hc₂.write_slot hslot (f := .length slot) (Nat.le_add_right _ _) message.size
      have hc₃ := hlength.write_slot hslot (f := .priority slot) (Nat.le_add_right _ _) priority
      refine (MessageList.keeps_insert hc₃ slot priority).bind (k := 2) fun _ r₄ hc₄ => ?_
      refine keeps_get_bind (Sizing.permits_state (by decide) (by decide)) ?_
      refine keeps_set_bind (Sizing.permits_state (by decide) (by decide)) ?_
      rw [hc₄.queued_eq]
      exact keeps_pure (hc₄.write_queued hsize hfit)
  exact hkeeps.mono (by omega) (fun _ h => h) fun _ _ h => h

/-- Taking a message off a queue that counts some counts one less, and the message is not longer
than a message may be. -/
theorem keeps_dequeue (hsize : headerSize ≤ size) (hc : r.Counts size (queued + 1) waiting) :
    Keeps s 11 (dequeue s) r (Counts size (queued + 1) waiting) fun taken r' =>
      taken.message.size ≤ s.messageSize ∧ r'.Counts size queued waiting := by
  have hfit : queued < 2 ^ 32 := Nat.lt_of_succ_lt hc.queued_lt
  have hkeeps : Keeps s (3 + (1 + (3 + 2) + 1 + 1)) (dequeue s) r
      (Counts size (queued + 1) waiting) fun taken r' =>
        taken.message.size ≤ s.messageSize ∧ r'.Counts size queued waiting := by
    unfold dequeue
    refine (MessageList.keeps_popHead hc).bind ?_
    rintro slot r₁ ⟨hslot, hc₁⟩
    refine keeps_get_bind (Sizing.permits_length hslot) ?_
    refine keeps_get_bind (Sizing.permits_priority hslot) ?_
    split
    · exact keeps_fault hc₁
    · rename_i hlength
      have hshort := Nat.le_of_not_lt hlength
      refine Keeps.bind (P := fun message r' => message.size ≤ s.messageSize ∧
        r'.Counts size (queued + 1) waiting) ?_ ?_
      · unfold Slot.payload
        refine keeps_check_bind hc₁ fun _ => keeps_getBytes (Sizing.permits_payload hslot hshort) ?_
        exact ⟨by rw [Region.size_slice]; exact hshort, hc₁⟩
      · rintro message r₂ ⟨hmessage, hc₂⟩
        refine (FreeList.keeps_release hc₂ slot).bind (k := 2) fun _ r₃ hc₃ => ?_
        refine keeps_get_bind (Sizing.permits_state (by decide) (by decide)) ?_
        refine keeps_set_bind (Sizing.permits_state (by decide) (by decide)) ?_
        rw [hc₃.queued_eq, Nat.add_sub_cancel]
        exact keeps_pure ⟨hmessage, hc₃.write_queued hsize hfit⟩
  exact hkeeps

/-- A registration is taken with at most six accesses. -/
theorem keeps_take (hc : r.Counts size queued waiting) :
    Keeps s 6 Registration.take r F fun _ => Counts size queued waiting := by
  unfold Registration.take
  refine keeps_get_bind (Sizing.permits_state (by decide) (by decide)) ?_
  refine keeps_get_bind (Sizing.permits_state (by decide) (by decide)) ?_
  split
  · exact keeps_pure hc
  · refine Keeps.bind (n := 3) (k := 1) (P := fun _ r' => r' = r) ?_ ?_
    · unfold Event.load
      refine keeps_get_bind (Sizing.permits_state (by decide) (by decide)) ?_
      refine keeps_get_bind (Sizing.permits_state (by decide) (by decide)) ?_
      exact keeps_get_bind (Sizing.permits_state (by decide) (by decide)) (keeps_pure rfl)
    · rintro event _ rfl
      exact keeps_set_bind (Sizing.permits_state (by decide) (by decide))
        (keeps_pure (hc.write (by decide) _))

end MappedQueue
