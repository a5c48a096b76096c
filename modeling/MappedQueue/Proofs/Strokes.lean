import MappedQueue.Proofs.Calls

/-!
# Turns that are cut short

A turn writes to the region one stroke after the other, and its thread can die in front of any of
them. First come the strokes beside the messages, which tell who waits and who is registered; then,
if a message is put or taken, those to the lists, to the slot and to the counter. In front of the
first stroke to the messages, and after the last one, the region holds a queue. In between it does
not, and the counter promises more than the lists can keep: more free slots, or more messages.
-/

namespace MappedQueue

open Access

variable {α β : Type} {s : Sizing} {r r' last : Region} {used free loose : List Nat} {slot : Nat}
  {m : Message} {l : List Message}

/-- A write of a program: the region that it finds, and where it goes. -/
structure Stroke where
  found : Region
  offset : Nat
  count : Nat

/-- The writes of a program, first things first. -/
def Access.strokes : Access α → Region → List Stroke
  | done _, _ => []
  | fault _, _ => []
  | load field next, r => (next (r.read field)).strokes r
  | store field value next, r =>
    ⟨r, field.offset, field.width⟩ :: (next ()).strokes (r.write field value)
  | fetch offset count next, r => (next (r.slice offset count)).strokes r
  | put offset bytes next, r =>
    ⟨r, offset, bytes.size⟩ :: (next ()).strokes (r.setSlice offset bytes)

/-- Whether an offset belongs to the messages: to the counter, to the head of a list or to a
slot. -/
def Layout.OfMessages (offset : Nat) : Prop :=
  offset = Field.queued.offset ∨
    (Field.head.offset ≤ offset ∧ offset < Field.eventKind.offset) ∨ headerSize ≤ offset

instance (offset : Nat) : Decidable (Layout.OfMessages offset) :=
  inferInstanceAs (Decidable (_ ∨ _))

/-- After so many writes some of the strokes to the messages are made and some are not. -/
def CutShort (strokes : List Stroke) (writes : Nat) : Prop :=
  (∃ x ∈ strokes.take writes, Layout.OfMessages x.offset) ∧
    ∃ x ∈ strokes.drop writes, Layout.OfMessages x.offset

/-- What the strokes of a program and its last region leave after so many writes. -/
def leftAfter (strokes : List Stroke) (last : Region) (writes : Nat) : Region :=
  (strokes[writes]?.map Stroke.found).getD last

namespace Access

/-- A program that is stopped leaves the region that its next stroke would have found. -/
theorem runFor_eq (p : Access α) : ∀ (writes : Nat) (r : Region),
    p.runFor writes r = leftAfter (p.strokes r) (p.run r).2 writes := by
  induction p with
  | done a => intro writes r; rfl
  | fault f => intro writes r; rfl
  | load field next ih => intro writes r; exact ih _ writes r
  | fetch offset count next ih => intro writes r; exact ih _ writes r
  | store field value next ih =>
    intro writes r
    cases writes with
    | zero => rfl
    | succ writes => exact ih () writes _
  | put offset bytes next ih =>
    intro writes r
    cases writes with
    | zero => rfl
    | succ writes => exact ih () writes _

/-- A program that is continued makes its own strokes first. -/
theorem strokes_bind (p : Access α) (k : α → Access β) : ∀ r : Region,
    (p >>= k).strokes r = p.strokes r ++
      match p.run r with
      | (.ok a, r') => (k a).strokes r'
      | (.error _, _) => [] := by
  change ∀ r, (p.bind k).strokes r = _
  induction p with
  | done a => intro r; rfl
  | fault f => intro r; rfl
  | load field next ih => intro r; exact ih _ r
  | fetch offset count next ih => intro r; exact ih _ r
  | store field value next ih => intro r; exact congrArg _ (ih () _)
  | put offset bytes next ih => intro r; exact congrArg _ (ih () _)

theorem strokes_bind_of_ok {p : Access α} {k : α → Access β} {a : α}
    (h : p.run r = (.ok a, r')) : (p >>= k).strokes r = p.strokes r ++ (k a).strokes r' := by
  rw [strokes_bind, h]

/-- What only follows a program with a result makes no strokes. -/
theorem strokes_bind_pure (p : Access α) (g : α → β) (r : Region) :
    (p >>= fun a => pure (g a)).strokes r = p.strokes r := by
  rw [strokes_bind]
  split <;> exact List.append_nil _

theorem run_bind_pure (p : Access α) (g : α → β) (r : Region) :
    ((p >>= fun a => pure (g a)).run r).2 = (p.run r).2 := by
  rw [run_bind]
  split <;> simp only [run_pure, *]

@[simp] theorem strokes_get_bind (f : Field) (k : Nat → Access β) (r : Region) :
    (get f >>= k).strokes r = (k (r.read f)).strokes r := rfl

@[simp] theorem strokes_set_bind (f : Field) (value : Nat) (k : Unit → Access β) (r : Region) :
    (set f value >>= k).strokes r =
      ⟨r, f.offset, f.width⟩ :: (k ()).strokes (r.write f value) := rfl

@[simp] theorem strokes_set (f : Field) (value : Nat) (r : Region) :
    (set f value).strokes r = [⟨r, f.offset, f.width⟩] := rfl

end Access

theorem Slot.strokes_check_bind (h : s.isSlot slot = true) (k : Unit → Access β) (r : Region) :
    (check s slot >>= k).strokes r = (k ()).strokes r := by
  rw [check, if_pos h]
  rfl

theorem Slot.strokes_setPayload (h : s.isSlot slot = true) (bytes : ByteArray) (r : Region) :
    (setPayload s slot bytes).strokes r = [⟨r, Layout.payload slot, bytes.size⟩] :=
  strokes_check_bind h _ r

theorem Slot.strokes_payload (h : s.isSlot slot = true) (count : Nat) (r : Region) :
    (payload s slot count).strokes r = [] :=
  strokes_check_bind h _ r

theorem FreeList.strokes_allocate {rest : List Nat} (h : Chain r (r.read .free) (slot :: rest))
    (hslot : s.isSlot slot = true) :
    (allocate s).strokes r = [⟨r, Field.free.offset, Field.free.width⟩] := by
  rw [allocate, strokes_get_bind, h.1, if_neg (Sizing.ne_nil_of_isSlot hslot),
    Slot.strokes_check_bind hslot]
  rfl

theorem FreeList.strokes_release (hslot : s.isSlot slot = true) :
    (release s slot).strokes r = [⟨r, slot, 8⟩,
      ⟨r.write (.next slot) (r.read .free), Field.free.offset, Field.free.width⟩] := by
  rw [release, strokes_get_bind, Slot.strokes_check_bind hslot]
  rfl

namespace MessageList

theorem strokes_popHead {rest : List Nat} (h : Chain r (r.read .head) (slot :: rest))
    (hslot : s.isSlot slot = true) :
    (popHead s).strokes r = [⟨r, Field.head.offset, Field.head.width⟩] := by
  rw [popHead, strokes_get_bind, h.1, if_neg (Sizing.ne_nil_of_isSlot hslot),
    Slot.strokes_check_bind hslot]
  rfl

theorem strokes_visit {priority : Nat} {further : Nat → Nat → Access Place}
    (hfurther : ∀ previous current, (further previous current).strokes r = [])
    (previous current : Nat) : (visit s priority further previous current).strokes r = [] := by
  unfold visit Slot.check
  split
  · rfl
  · split
    · change (get (.priority current) >>= _).strokes r = []
      rw [strokes_get_bind]
      split
      · rfl
      · exact hfurther _ _
    · rfl

/-- The walk to the place of a message only reads. -/
theorem strokes_walk (priority : Nat) : ∀ budget previous current : Nat,
    (walk s priority budget previous current).strokes r = []
  | 0, previous, current => strokes_visit (fun _ _ => rfl) previous current
  | budget + 1, previous, current => strokes_visit (strokes_walk priority budget) previous current

end MessageList

def Whole (s : Sizing) (r : Region) : Prop := ∃ l, Represents s r l

/-- The counter promises more free slots or more messages than there are on the lists. -/
def Torn (s : Sizing) (r : Region) : Prop :=
  ∃ used free loose, Divided s r used free loose ∧
    (free.length + r.read .queued < s.capacity ∨ used.length < r.read .queued)

/-- A stroke to the messages that finds a torn queue. -/
def Stroke.Amid (s : Sizing) (x : Stroke) : Prop := Layout.OfMessages x.offset ∧ Torn s x.found

namespace Layout

theorem ofMessages_queued : OfMessages Field.queued.offset := by decide

theorem ofMessages_head : OfMessages Field.head.offset := by decide

theorem ofMessages_free : OfMessages Field.free.offset := by decide

theorem ofMessages_of_slot (hslot : s.isSlot slot = true) {offset : Nat}
    (ho : slot ≤ offset) : OfMessages offset :=
  Or.inr (Or.inr (Nat.le_trans (Sizing.headerSize_le_of_isSlot hslot) ho))

end Layout

namespace Stroke

variable {offset count : Nat}

theorem amid_of_torn (ho : Layout.OfMessages offset) (htorn : Torn s r) :
    Stroke.Amid s ⟨r, offset, count⟩ := ⟨ho, htorn⟩

theorem amid_of_slot (hslot : s.isSlot slot = true) (ho : slot ≤ offset) (htorn : Torn s r) :
    Stroke.Amid s ⟨r, offset, count⟩ := amid_of_torn (Layout.ofMessages_of_slot hslot ho) htorn

end Stroke

namespace Divided

/-- As long as a slot is loose, what is done to it does not mend the queue. -/
theorem torn_of_sameBut (h : Divided s r used free (slot :: loose))
    (hcount : free.length + r.read .queued < s.capacity ∨ used.length < r.read .queued)
    (hsame : SameBut s slot r r') : Torn s r' := by
  refine ⟨used, free, slot :: loose, h.congr_loose hsame, ?_⟩
  have hlow := Sizing.headerSize_le_of_isSlot (h.isSlot_loose List.mem_cons_self)
  have hqueued : Region.Agree r r' 0 Layout.headerSize := hsame.agree (Or.inl hlow)
  rw [hqueued.read (by decide) (by decide)]
  exact hcount

/-- Inserting a loose slot finds a torn queue at each of its strokes, if only the counter stays
behind. -/
theorem amid_insert (h : Divided s r used free (slot :: loose)) (priority : Nat)
    (hcount : free.length + r.read .queued < s.capacity) :
    ∀ x ∈ (MessageList.insert s slot priority).strokes r, x.Amid s := by
  have hslot := h.isSlot_loose List.mem_cons_self
  have hwalk := MessageList.run_walk_found (MessageList.finds_placeIn h.queued.chain
    (fun a ha => h.isSlot_used ha) priority)
  have htorn : ∀ value, Torn s (r.write (.next slot) value) := fun value =>
    h.torn_of_sameBut (Or.inl hcount) (.write_next r value)
  intro x hx
  rw [MessageList.insert, strokes_get_bind, strokes_bind_of_ok hwalk,
    MessageList.strokes_walk, List.nil_append, Slot.strokes_check_bind hslot,
    strokes_set_bind] at hx
  rcases List.mem_cons.mp hx with rfl | hx
  · exact Stroke.amid_of_slot hslot (Nat.le_refl slot)
      (h.torn_of_sameBut (Or.inl hcount) (.refl ..))
  · split at hx
    · rw [strokes_set, List.mem_singleton] at hx
      subst hx
      exact Stroke.amid_of_torn Layout.ofMessages_head (htorn _)
    · rename_i hne
      -- The slot in front of the gap is on the message list.
      have hprevious : s.isSlot (placeIn r priority used).previous = true := by
        rw [← @List.takeWhile_append_dropWhile _ (goesBehind r priority) used] at h
        exact h.isSlot_previous hne
      rw [Slot.strokes_check_bind hprevious, strokes_set, List.mem_singleton] at hx
      subst hx
      exact Stroke.amid_of_slot hprevious (Nat.le_refl _) (htorn _)

/-- After the first stroke of a send the queue is torn in front of each one that is left. -/
theorem strokes_enqueue (hs : s.Valid) (h : Divided s r used (slot :: free) loose)
    (hcount : free.length + r.read .queued < s.capacity) (hm : m.bytes.size ≤ s.messageSize)
    (hp : m.priority < priorityLimit) :
    ∃ x amid, (enqueue s m.bytes m.priority).strokes r = x :: amid ∧ x.found = r ∧
      Layout.OfMessages x.offset ∧ amid ≠ [] ∧ ∀ y ∈ amid, y.Amid s := by
  have hslot := h.isSlot_free List.mem_cons_self
  obtain ⟨r₁, hallocate, h₁, -, hheader₁⟩ := h.allocate
  obtain ⟨h₂, -, -, hheader₂⟩ := h₁.fill hs hm hp
  have hlow : slot + Layout.slotHeaderSize ≤ r₁.size :=
    Nat.le_trans (Nat.le_add_right _ _) (h₁.room (by simp))
  have hpriority := read_priority_filled hlow hp
  have hlength := read_length_filled hlow (Nat.le_trans hm hs.2.2)
  obtain ⟨r₃, used', hinsert, h₃, -, hheader₃⟩ :=
    h₂.insert hs (hpriority.symm ▸ hp) (hlength.symm ▸ hm)
  rw [hpriority] at hinsert
  have hcount₁ : free.length + r₁.read .queued < s.capacity := by
    rw [hheader₁.read_queued]
    exact hcount
  have hcount₂ : free.length + (filled r₁ slot m).read .queued < s.capacity := by
    rw [hheader₂.read_queued]
    exact hcount₁
  have hcount₃ : free.length + r₃.read .queued < s.capacity := by
    rw [hheader₃.read_queued]
    exact hcount₂
  -- The bytes, the length and the priority go into the slot while it is loose.
  let r₁₁ := r₁.setSlice (Layout.payload slot) m.bytes
  let r₁₂ := r₁₁.write (.length slot) m.bytes.size
  have hbytes : SameBut s slot r₁ r₁₁ := .setSlice r₁ hm
  have hsize : SameBut s slot r₁ r₁₂ := hbytes.trans (.write_length _ _)
  have hstrokes : (enqueue s m.bytes m.priority).strokes r =
      ⟨r, Field.free.offset, Field.free.width⟩ :: ⟨r₁, Layout.payload slot, m.bytes.size⟩ ::
        ⟨r₁₁, slot + 8, 4⟩ :: ⟨r₁₂, slot + 12, 4⟩ ::
        ((MessageList.insert s slot m.priority).strokes (filled r₁ slot m) ++
          [⟨r₃, Field.queued.offset, Field.queued.width⟩]) := by
    rw [enqueue, strokes_bind_of_ok hallocate, FreeList.strokes_allocate h.freeChain hslot,
      strokes_bind_of_ok (Slot.run_setPayload hslot _ _), Slot.strokes_setPayload hslot,
      strokes_set_bind, strokes_set_bind]
    change _ :: _ :: _ :: _ ::
      (MessageList.insert s slot m.priority >>= _).strokes (filled r₁ slot m) = _
    rw [strokes_bind_of_ok hinsert]
    rfl
  have htorn : ∀ {found : Region}, SameBut s slot r₁ found → Torn s found := fun hsame =>
    h₁.torn_of_sameBut (Or.inl hcount₁) hsame
  refine ⟨_, _, hstrokes, rfl, Layout.ofMessages_free, List.cons_ne_nil _ _, fun y hy => ?_⟩
  rw [List.mem_cons, List.mem_cons, List.mem_cons, List.mem_append, List.mem_singleton] at hy
  rcases hy with rfl | rfl | rfl | hy | rfl
  · exact Stroke.amid_of_slot hslot (Nat.le_add_right slot _) (htorn (.refl s slot r₁))
  · exact Stroke.amid_of_slot hslot (Nat.le_add_right slot 8) (htorn hbytes)
  · exact Stroke.amid_of_slot hslot (Nat.le_add_right slot 12) (htorn hsize)
  · exact h₂.amid_insert m.priority hcount₂ y hy
  · exact Stroke.amid_of_torn Layout.ofMessages_queued ⟨used', free, loose, h₃, Or.inl hcount₃⟩

/-- After the first stroke of a receive the queue is torn in front of each one that is left. -/
theorem strokes_dequeue (hs : s.Valid) (h : Divided s r (slot :: used) free loose)
    (hcount : used.length < r.read .queued) :
    ∃ x amid, (dequeue s).strokes r = x :: amid ∧ x.found = r ∧
      Layout.OfMessages x.offset ∧ amid ≠ [] ∧ ∀ y ∈ amid, y.Amid s := by
  have hslot := h.isSlot_used List.mem_cons_self
  obtain ⟨r₁, hpop, h₁, -, hlength₁, hheader₁⟩ := h.pop
  obtain ⟨r₂, hrelease, h₂, -, hheader₂⟩ := h₁.release hs
  have hfit : ¬ s.messageSize < r₁.read (.length slot) := by
    rw [hlength₁]
    exact Nat.not_lt.mpr (h.queued.length_le slot List.mem_cons_self)
  have hcount₁ : used.length < r₁.read .queued := by
    rw [hheader₁.read_queued]
    exact hcount
  have hcount₂ : used.length < r₂.read .queued := by
    rw [hheader₂.read_queued]
    exact hcount₁
  have hstrokes : (dequeue s).strokes r =
      [⟨r, Field.head.offset, Field.head.width⟩, ⟨r₁, slot, 8⟩,
        ⟨r₁.write (.next slot) (r₁.read .free), Field.free.offset, Field.free.width⟩,
        ⟨r₂, Field.queued.offset, Field.queued.width⟩] := by
    rw [dequeue, strokes_bind_of_ok hpop, MessageList.strokes_popHead h.queued.chain hslot,
      strokes_get_bind, strokes_get_bind, if_neg hfit,
      strokes_bind_of_ok (Slot.run_payload hslot _ _), Slot.strokes_payload hslot,
      strokes_bind_of_ok hrelease, FreeList.strokes_release hslot]
    rfl
  have htorn : ∀ {found : Region}, SameBut s slot r₁ found → Torn s found := fun hsame =>
    h₁.torn_of_sameBut (Or.inr hcount₁) hsame
  refine ⟨_, _, hstrokes, rfl, Layout.ofMessages_head, List.cons_ne_nil _ _, fun y hy => ?_⟩
  rw [List.mem_cons, List.mem_cons, List.mem_singleton] at hy
  rcases hy with rfl | rfl | rfl
  · exact Stroke.amid_of_slot hslot (Nat.le_refl slot) (htorn (.refl s slot r₁))
  · exact Stroke.amid_of_torn Layout.ofMessages_free (htorn (.write_next r₁ _))
  · exact Stroke.amid_of_torn Layout.ofMessages_queued
      ⟨used, slot :: free, loose, h₂, Or.inr hcount₂⟩

end Divided

/-- Strokes that come in order: first those beside the messages, each of which finds a queue, and
then those of at most one transfer, of which only the first finds one. They leave one behind. -/
inductive InOrder (s : Sizing) (last : Region) : List Stroke → Prop
  | still (hlast : Whole s last) : InOrder s last []
  | beside {x : Stroke} {rest : List Stroke} (hbeside : ¬ Layout.OfMessages x.offset)
      (hwhole : Whole s x.found) (hrest : InOrder s last rest) : InOrder s last (x :: rest)
  | transfer {x : Stroke} {amid : List Stroke} (hfirst : Layout.OfMessages x.offset)
      (hwhole : Whole s x.found) (hamid : ∀ y ∈ amid, y.Amid s) (hlast : Whole s last) :
      InOrder s last (x :: amid)

/-- Whoever has not begun is not cut short. -/
theorem not_cutShort_zero (strokes : List Stroke) : ¬ CutShort strokes 0 := by
  rintro ⟨⟨x, hx, -⟩, -⟩
  cases hx

/-- Strokes in order leave a torn queue exactly where they are cut short. -/
theorem InOrder.left {strokes : List Stroke} (h : InOrder s last strokes) : ∀ writes,
    (CutShort strokes writes → Torn s (leftAfter strokes last writes)) ∧
      (¬ CutShort strokes writes → Whole s (leftAfter strokes last writes)) := by
  induction h with
  | still hlast =>
    intro writes
    refine ⟨?_, fun _ => hlast⟩
    rintro ⟨⟨x, hx, -⟩, -⟩
    rw [List.take_nil] at hx
    cases hx
  | @beside x rest hbeside hwhole hrest ih =>
    intro writes
    cases writes with
    | zero => exact ⟨fun hcut => absurd hcut (not_cutShort_zero _), fun _ => hwhole⟩
    | succ writes =>
      have hcut : CutShort (x :: rest) (writes + 1) ↔ CutShort rest writes := by
        simp only [CutShort, List.take_succ_cons, List.drop_succ_cons, List.exists_mem_cons_iff,
          hbeside, false_or]
      rw [hcut]
      exact ih writes
  | @transfer x amid hfirst hwhole hamid hlast =>
    intro writes
    cases writes with
    | zero => exact ⟨fun hcut => absurd hcut (not_cutShort_zero _), fun _ => hwhole⟩
    | succ writes =>
      unfold leftAfter
      rw [List.getElem?_cons_succ]
      cases hnext : amid[writes]? with
      | none =>
        refine ⟨?_, fun _ => hlast⟩
        rintro ⟨-, y, hy, -⟩
        rw [List.drop_succ_cons, List.drop_eq_nil_of_le (List.getElem?_eq_none_iff.mp hnext)] at hy
        cases hy
      | some y =>
        obtain ⟨hof, htorn⟩ := hamid y (List.mem_of_getElem? hnext)
        refine ⟨fun _ => htorn, fun hnot => absurd ?_ hnot⟩
        refine ⟨⟨x, List.mem_cons_self, hfirst⟩, y, ?_, hof⟩
        rw [List.drop_succ_cons, List.mem_iff_getElem?]
        exact ⟨0, List.getElem?_drop.trans hnext⟩

def Access.Orderly (s : Sizing) (p : Access α) (r : Region) : Prop :=
  InOrder s (p.run r).2 (p.strokes r)

namespace Whole

theorem write_beside (h : Whole s r) {f : Field}
    (hf : Field.waiting.offset ≤ f.offset ∧ f.offset + f.width ≤ Field.head.offset ∨
      Field.eventKind.offset ≤ f.offset ∧ f.offset + f.width ≤ Layout.headerSize) (value : Nat) :
    Whole s (r.write f value) := by
  obtain ⟨l, h⟩ := h
  exact ⟨l, h.write_beside hf value⟩

/-- A queue has a meaning, whoever waits for it and is registered. -/
theorem refines (h : Whole s r) : ∃ a, Refines s r a := by
  obtain ⟨l, h⟩ := h
  exact ⟨r.ideal l, h.refines⟩

end Whole

namespace Access

theorem orderly_pure (h : Whole s r) (a : α) : (pure a : Access α).Orderly s r := .still h

theorem Orderly.bind_pure {p : Access α} (hp : p.Orderly s r) (g : α → β) :
    (p >>= fun a => pure (g a)).Orderly s r := by
  unfold Orderly
  rw [strokes_bind_pure, run_bind_pure]
  exact hp

theorem orderly_get_bind {f : Field} {k : Nat → Access β} (hk : (k (r.read f)).Orderly s r) :
    (get f >>= k).Orderly s r := hk

theorem orderly_set {f : Field} {value : Nat} (hbeside : ¬ Layout.OfMessages f.offset)
    (h : Whole s r) (h' : Whole s (r.write f value)) : (set f value).Orderly s r :=
  .beside hbeside h (.still h')

theorem orderly_set_bind {f : Field} {value : Nat} {k : Unit → Access β}
    (hbeside : ¬ Layout.OfMessages f.offset) (h : Whole s r)
    (hk : (k ()).Orderly s (r.write f value)) : (set f value >>= k).Orderly s r :=
  .beside hbeside h hk

end Access

/-- Taking the registration writes to the owner at most. -/
theorem Registration.take_cases (r : Region) :
    (take.run r = (.ok none, r) ∧ take.strokes r = []) ∨
      ∃ d, take.run r = (.ok (some d), r.write .owner 0) ∧
        take.strokes r = [⟨r, Field.owner.offset, Field.owner.width⟩] := by
  by_cases hnone : r.read .owner = 0 ∨ r.read .waiting ≠ 0
  · refine Or.inl ⟨?_, ?_⟩
    · rw [take, run_get_bind, run_get_bind, if_pos hnone]
      rfl
    · rw [take, strokes_get_bind, strokes_get_bind, if_pos hnone]
      rfl
  · refine Or.inr ⟨⟨r.read .owner, r.event⟩, ?_, ?_⟩
    · rw [take, run_get_bind, run_get_bind, if_neg hnone]
      rfl
    · rw [take, strokes_get_bind, strokes_get_bind, if_neg hnone]
      rfl

theorem Registration.orderly_take_bind {k : Option Delivery → Access β} (h : Whole s r)
    (hk : ∀ delivery r', Whole s r' → (k delivery).Orderly s r') : (take >>= k).Orderly s r := by
  unfold Orderly
  obtain ⟨hrun, hstrokes⟩ | ⟨d, hrun, hstrokes⟩ := take_cases r
  · rw [run_bind_of_ok hrun, strokes_bind_of_ok hrun, hstrokes]
    exact hk none r h
  · rw [run_bind_of_ok hrun, strokes_bind_of_ok hrun, hstrokes]
    have hbeside : ¬ Layout.OfMessages Field.owner.offset := by decide
    exact .beside hbeside h (hk (some d) _ (h.write_beside (by decide) 0))

namespace Represents

theorem orderly_enqueue (hs : s.Valid) (h : Represents s r l) (hroom : l.length < s.capacity)
    (hm : m.bytes.size ≤ s.messageSize) (hp : m.priority < priorityLimit) :
    (enqueue s m.bytes m.priority).Orderly s r := by
  obtain ⟨r', hrun, hafter, -⟩ := run_enqueue hs h hroom hm hp
  obtain ⟨used, slot, free, harranged, rfl⟩ := h.exists_free hroom
  have hl := harranged.length_add
  rw [List.length_cons, List.length_nil] at hl
  have hcount : free.length + r.read .queued < s.capacity := by
    rw [harranged.count_eq]
    omega
  obtain ⟨x, amid, hstrokes, hfound, hof, -, hamid⟩ :=
    harranged.toDivided.strokes_enqueue hs hcount hm hp
  unfold Orderly
  rw [hstrokes, hrun]
  exact .transfer hof (hfound ▸ ⟨_, _, _, harranged, rfl⟩) hamid ⟨_, hafter⟩

theorem orderly_dequeue (hs : s.Valid) (h : Represents s r (m :: l)) :
    (dequeue s).Orderly s r := by
  obtain ⟨r', hrun, hafter, -⟩ := run_dequeue hs h
  have hwhole : Whole s r := ⟨_, h⟩
  obtain ⟨used, free, harranged, hmap⟩ := h
  cases used with
  | nil => cases hmap
  | cons slot used =>
    have hcount : used.length < r.read .queued := by
      rw [harranged.count_eq]
      exact Nat.lt_succ_self _
    obtain ⟨x, amid, hstrokes, hfound, hof, -, hamid⟩ :=
      harranged.toDivided.strokes_dequeue hs hcount
    unfold Orderly
    rw [hstrokes, hrun]
    exact .transfer hof (hfound ▸ hwhole) hamid ⟨_, hafter⟩

end Represents

namespace Turn

variable {h : Handle} {buffer : ByteArray} {request : Request} {herald : Herald}

theorem orderly_trySend (hs : h.sizing.Valid) (hr : Whole h.sizing r)
    (hm : m.bytes.size ≤ h.sizing.messageSize) (hp : m.priority < priorityLimit) :
    (trySend h m.bytes m.priority).Orderly h.sizing r := by
  refine orderly_get_bind ?_
  split
  · rename_i hroom
    obtain ⟨l, hl⟩ := hr
    rw [hl.read_queued] at hroom
    exact (hl.orderly_enqueue hs hroom hm hp).bind_pure _
  · split <;> exact orderly_pure hr _

theorem orderly_receive (hs : h.sizing.Valid) (hr : Whole h.sizing r) (hsome : r.read .queued ≠ 0) :
    (receive h buffer).Orderly h.sizing r := by
  obtain ⟨l, hl⟩ := hr
  rw [hl.read_queued] at hsome
  cases l with
  | nil => exact absurd rfl hsome
  | cons m l => exact (hl.orderly_dequeue hs).bind_pure _

/-- A send takes the registration along before it puts its message. -/
theorem orderly_first_send (hs : h.sizing.Valid) (hr : Whole h.sizing r)
    (hm : m.bytes.size ≤ h.sizing.messageSize) (hp : m.priority < priorityLimit)
    (deadline : Option Nat) :
    (first h herald buffer (.send m.bytes m.priority deadline)).Orderly h.sizing r := by
  have hsend : ∀ delivery r', Whole h.sizing r' →
      (trySend h m.bytes m.priority >>= fun verdict =>
        pure (⟨verdict, buffer, h.nonblocking, delivery⟩ : Turn)).Orderly h.sizing r' :=
    fun delivery r' hr' => (orderly_trySend hs hr' hm hp).bind_pure _
  refine orderly_get_bind ?_
  split
  · exact Registration.orderly_take_bind hr fun taken => hsend (taken.map herald.dispatch)
  · exact hsend none r hr

theorem orderly_first_receive (hs : h.sizing.Valid) (hr : Whole h.sizing r)
    (deadline : Option Nat) :
    (first h herald buffer (.receive deadline)).Orderly h.sizing r := by
  refine orderly_get_bind ?_
  split
  · split
    · exact orderly_pure hr _
    · refine orderly_get_bind (orderly_set_bind (by decide) hr ?_)
      exact orderly_pure (hr.write_beside (by decide) _) _
  · rename_i hsome
    exact orderly_receive hs hr hsome

theorem orderly_first (hs : h.sizing.Valid) (hr : Whole h.sizing r)
    (ha : Call.refusal? h buffer request = none) :
    (first h herald buffer request).Orderly h.sizing r := by
  cases request with
  | send message priority deadline =>
    obtain ⟨hm, hp⟩ := Refines.send_accepted ha
    exact @orderly_first_send r ⟨message, priority⟩ h buffer herald hs hr hm hp deadline
  | receive deadline => exact orderly_first_receive hs hr deadline
  | attributes => exact orderly_get_bind (orderly_pure hr _)
  | setNonblocking on => exact orderly_get_bind (orderly_pure hr _)
  | notify event =>
    cases event with
    | none =>
      have hwithdraw : (Registration.withdraw h.identity).Orderly h.sizing r := by
        refine orderly_get_bind ?_
        split
        · exact orderly_set (by decide) hr (hr.write_beside (by decide) 0)
        · exact orderly_pure hr ()
      exact hwithdraw.bind_pure _
    | some event =>
      have hregister : (Registration.register herald.alive h.identity event).Orderly h.sizing r := by
        refine orderly_get_bind ?_
        split
        · exact orderly_pure hr false
        · have hr₁ := hr.write_beside (f := .owner) (by decide) h.identity
          have hr₂ := hr₁.write_beside (f := .eventKind) (by decide) event.kind.code
          have hr₃ := hr₂.write_beside (f := .eventSignal) (by decide)
            (Event.encodeSigned event.signal)
          have hr₄ := hr₃.write_beside (f := .eventValue) (by decide) event.value
          refine orderly_set_bind (by decide) hr ?_
          refine orderly_set_bind (by decide) hr₁ ?_
          refine orderly_set_bind (by decide) hr₂ ?_
          exact orderly_set_bind (by decide) hr₃ (orderly_pure hr₄ true)
      exact hregister.bind_pure _
  | linger condition policy deadline => exact orderly_pure hr _

theorem orderly_again (hs : h.sizing.Valid) (hr : Whole h.sizing r)
    (ha : Call.refusal? h buffer request = none) :
    (again h buffer request).Orderly h.sizing r := by
  cases request with
  | send message priority deadline =>
    obtain ⟨hm, hp⟩ := Refines.send_accepted ha
    exact (@orderly_trySend r ⟨message, priority⟩ h hs hr hm hp).bind_pure _
  | receive deadline =>
    refine orderly_get_bind ?_
    split
    · exact orderly_pure hr _
    · rename_i hsome
      refine orderly_get_bind (orderly_set_bind (by decide) hr ?_)
      refine orderly_receive hs (hr.write_beside (by decide) _) ?_
      rw [Region.read_write_of_apart _ (by decide)]
      exact hsome
  | _ => exact orderly_pure hr _

theorem orderly_giveUp (hr : Whole h.sizing r) (setback : Setback) :
    (giveUp h buffer setback request).Orderly h.sizing r := by
  cases request with
  | receive deadline =>
    refine orderly_get_bind (orderly_set_bind (by decide) hr ?_)
    exact orderly_pure (hr.write_beside (by decide) _) _
  | _ => exact orderly_pure hr _

end Turn

/-- A send that finds the queue empty and nobody registered is cut short by a death after its first
write. -/
theorem Refines.cutShort_first_send {h : Handle} (hs : h.sizing.Valid)
    (hr : Refines h.sizing r {}) (hm : m.bytes.size ≤ h.sizing.messageSize)
    (hp : m.priority < priorityLimit) (herald : Herald) (buffer : ByteArray)
    (deadline : Option Nat) :
    CutShort ((Turn.first h herald buffer (.send m.bytes m.priority deadline)).strokes r) 1 := by
  obtain ⟨used, slot, free, harranged, hmap⟩ := hr.represents.exists_free hs.1.1
  have hqueued : r.read .queued = 0 := hr.read_queued
  obtain ⟨htake, hnone⟩ : Registration.take.run r = (.ok none, r) ∧
      Registration.take.strokes r = [] := by
    obtain hnone | ⟨d, hrun, -⟩ := Registration.take_cases r
    · exact hnone
    · obtain ⟨r', htake, -⟩ := hr.run_take
      rw [hrun] at htake
      cases htake
  have hstrokes : (Turn.first h herald buffer (.send m.bytes m.priority deadline)).strokes r =
      (enqueue h.sizing m.bytes m.priority).strokes r := by
    rw [Turn.first, strokes_get_bind, if_pos hqueued, strokes_bind_of_ok htake, hnone,
      List.nil_append, strokes_bind_pure, Turn.trySend, strokes_get_bind,
      if_pos (hqueued ▸ hs.1.1), strokes_bind_pure]
  have hl := harranged.length_add
  rw [List.map_eq_nil_iff.mp hmap, List.length_nil] at hl
  rw [List.length_cons] at hl
  obtain ⟨x, amid, henqueue, -, hof, hne, hamid⟩ := harranged.toDivided.strokes_enqueue hs
    (by omega) hm hp
  obtain ⟨y, rest, rfl⟩ := List.exists_cons_of_ne_nil hne
  rw [hstrokes, henqueue]
  exact ⟨⟨x, List.mem_cons_self, hof⟩, y, List.mem_cons_self, (hamid y List.mem_cons_self).1⟩

/-- A thread that dies in a turn leaves a torn queue exactly if it has made some of its strokes to
the messages and not all of them. -/
theorem Call.left_by_turn {h : Handle} {c : Call} {herald : Herald} {turn : Access Turn}
    (hs : h.sizing.Valid) (hr : Whole h.sizing r) (hc : c.Admitted h)
    (hprogram : c.program h herald = some turn) (writes : Nat) :
    (CutShort (turn.strokes r) writes → Torn h.sizing (turn.runFor writes r)) ∧
      (¬ CutShort (turn.strokes r) writes → Whole h.sizing (turn.runFor writes r)) := by
  have horderly : turn.Orderly h.sizing r := by
    unfold program at hprogram
    split at hprogram <;> rename_i hpoint
    · cases hprogram
      exact Turn.orderly_first hs hr (hc (by rw [hpoint]; trivial))
    · cases hprogram
      exact Turn.orderly_again hs hr (hc (by rw [hpoint]; trivial))
    · cases hprogram
      exact Turn.orderly_giveUp hr _
    · cases hprogram
  rw [runFor_eq]
  exact horderly.left writes

end MappedQueue
