import MappedQueue.FreeList
import MappedQueue.MessageList
import MappedQueue.Proofs.Bytes
import MappedQueue.Proofs.Programs
import MappedQueue.Proofs.Slots

/-!
# Chains of slots

A chain relates a link to the ordinary list of the slots that are met on the way to the
null link. Both lists of a queue are chains, and every operation on them is described by
what it does to the chain: taking the first slot off, putting one at the front, walking
to the place of a priority, and linking a slot in there. A chain depends on the links of
its own slots only.
-/

namespace MappedQueue

/-- From `link` the links lead over exactly these slots to `last`. -/
def Leads (r : Region) : (link : Nat) → (slots : List Nat) → (last : Nat) → Prop
  | link, [], last => link = last
  | link, slot :: rest, last => link = slot ∧ Leads r (r.read (.next slot)) rest last

/-- From `link` the links lead over exactly these slots to the null link. -/
def Chain (r : Region) (link : Nat) (slots : List Nat) : Prop := Leads r link slots Layout.nil

variable {s : Sizing} {r r' : Region} {link last slot : Nat} {slots : List Nat}

theorem leads_append {a b : List Nat} : ∀ {link : Nat},
    Leads r link (a ++ b) last ↔ ∃ middle, Leads r link a middle ∧ Leads r middle b last := by
  induction a with
  | nil => intro link; exact ⟨fun h => ⟨link, rfl, h⟩, fun ⟨_, h, h'⟩ => h ▸ h'⟩
  | cons slot a ih =>
    intro link
    constructor
    · rintro ⟨hlink, h⟩
      obtain ⟨middle, ha, hb⟩ := ih.mp h
      exact ⟨middle, ⟨hlink, ha⟩, hb⟩
    · rintro ⟨middle, ⟨hlink, ha⟩, hb⟩
      exact ⟨hlink, ih.mpr ⟨middle, ha, hb⟩⟩

theorem leads_concat : Leads r link (slots ++ [slot]) last ↔
    Leads r link slots slot ∧ r.read (.next slot) = last := by
  rw [leads_append]
  constructor
  · rintro ⟨middle, h, rfl, hlast⟩
    exact ⟨h, hlast⟩
  · rintro ⟨h, hlast⟩
    exact ⟨slot, h, rfl, hlast⟩

/-- Only the links of the slots on the way matter. -/
theorem Leads.congr : ∀ {link : Nat}, Leads r link slots last →
    (∀ a ∈ slots, r'.read (.next a) = r.read (.next a)) → Leads r' link slots last := by
  induction slots with
  | nil => intro link h _; exact h
  | cons slot rest ih =>
    rintro link ⟨hlink, h⟩ hsame
    refine ⟨hlink, ?_⟩
    rw [hsame slot List.mem_cons_self]
    exact ih h fun a ha => hsame a (List.mem_cons_of_mem _ ha)

theorem Chain.headD_eq (h : Chain r link slots) : slots.headD Layout.nil = link := by
  cases slots with
  | nil => exact h.symm
  | cons slot rest => exact h.1.symm

/-- The slots on the way to a link that is not one of them are determined by the region. -/
theorem Leads.unique : ∀ {link : Nat} {a b : List Nat}, Leads r link a last → Leads r link b last →
    last ∉ a → last ∉ b → a = b := by
  intro link a
  induction a generalizing link with
  | nil =>
    intro b ha hb _ hlast
    cases b with
    | nil => rfl
    | cons slot rest => exact absurd (List.mem_cons.mpr (Or.inl (ha.symm.trans hb.1))) hlast
  | cons slot a ih =>
    intro b ha hb hlast hlast'
    cases b with
    | nil => exact absurd (List.mem_cons.mpr (Or.inl (hb.symm.trans ha.1))) hlast
    | cons slot' b =>
      obtain rfl := ha.1
      obtain rfl := hb.1
      rw [ih ha.2 hb.2 (fun h => hlast (List.mem_cons_of_mem _ h))
        (fun h => hlast' (List.mem_cons_of_mem _ h))]

theorem Chain.unique {a b : List Nat} (ha : Chain r link a) (hb : Chain r link b)
    (hnil : Layout.nil ∉ a) (hnil' : Layout.nil ∉ b) : a = b :=
  Leads.unique ha hb hnil hnil'

/-- A way to a link that is not on it comes to no slot twice. -/
theorem Leads.nodup : ∀ {link : Nat}, Leads r link slots last → last ∉ slots → slots.Nodup := by
  induction slots with
  | nil => intro link _ _; exact List.nodup_nil
  | cons slot rest ih =>
    rintro link ⟨-, h⟩ hlast
    have hrest : last ∉ rest := fun hmem => hlast (List.mem_cons_of_mem _ hmem)
    refine List.nodup_cons.mpr ⟨fun hmem => ?_, ih h hrest⟩
    obtain ⟨before, after, rfl⟩ := List.append_of_mem hmem
    obtain ⟨_, -, -, hafter⟩ := leads_append.mp h
    -- What comes after the second visit would have to be all that comes after the first.
    have hsame : slot :: (before ++ slot :: after) = slot :: after :=
      Leads.unique ⟨rfl, h⟩ ⟨rfl, hafter⟩ hlast fun hmem => hrest (List.mem_append_right _ hmem)
    have hlen := congrArg List.length hsame
    simp only [List.length_cons, List.length_append] at hlen
    omega

theorem read_next_write_header {f : Field} (hf : f.offset + f.width ≤ Layout.headerSize)
    (ha : s.isSlot slot = true) (value : Nat) :
    (r.write f value).read (.next slot) = r.read (.next slot) :=
  Region.read_write_of_apart _ (Or.inl (Nat.le_trans hf (Sizing.headerSize_le_of_isSlot ha))) _

theorem read_header_write_next {f : Field} (hf : f.offset + f.width ≤ Layout.headerSize)
    (ha : s.isSlot slot = true) (value : Nat) :
    (r.write (.next slot) value).read f = r.read f :=
  Region.read_write_of_apart _ (Or.inr (Nat.le_trans hf (Sizing.headerSize_le_of_isSlot ha))) _

theorem read_next_write_next {a b : Nat} (ha : s.isSlot a = true) (hb : s.isSlot b = true)
    (hab : a ≠ b) (value : Nat) :
    (r.write (.next b) value).read (.next a) = r.read (.next a) := by
  have hroom := Sizing.room_le_stride s
  unfold Layout.slotHeaderSize at hroom
  apply Region.read_write_of_apart
  rcases Sizing.apart_of_isSlot ha hb hab with h | h
  · exact Or.inr (by simp only [Field.next]; omega)
  · exact Or.inl (by simp only [Field.next]; omega)

theorem add_stride_le_size (hsize : s.fileSize ≤ r.size) (ha : s.isSlot slot = true) :
    slot + s.stride ≤ r.size := Nat.le_trans (Sizing.add_stride_le_of_isSlot ha) hsize

/-- Offsets of slots fit into a link. -/
theorem lt_of_isSlot (hs : s.Valid) (ha : s.isSlot slot = true) :
    slot < 256 ^ 8 := by
  have hle := Sizing.add_stride_le_of_isSlot ha
  have hpos := Sizing.stride_pos s
  have hfit := Sizing.fileSize_lt hs
  omega

theorem read_header_write_self {f : Field} (hf : f.offset + f.width ≤ Layout.headerSize)
    (hsize : s.fileSize ≤ r.size) {value : Nat} (hv : value < 256 ^ f.width) :
    (r.write f value).read f = value :=
  Region.read_write_self (Nat.le_trans hf (Nat.le_trans (Nat.le_add_right _ _) hsize)) hv

theorem read_next_write_self (hsize : s.fileSize ≤ r.size) (ha : s.isSlot slot = true)
    {value : Nat} (hv : value < 256 ^ 8) :
    (r.write (.next slot) value).read (.next slot) = value := by
  have hle := add_stride_le_size hsize ha
  have hroom := Sizing.room_le_stride s
  unfold Layout.slotHeaderSize at hroom
  exact Region.read_write_self (by simp only [Field.next]; omega) hv

theorem run_allocate {rest : List Nat} (h : Chain r (r.read .free) (slot :: rest))
    (hslot : s.isSlot slot = true) :
    (FreeList.allocate s).run r = (.ok slot, r.write .free (r.read (.next slot))) := by
  have hne := Sizing.ne_nil_of_isSlot hslot
  rw [FreeList.allocate, Access.run_get_bind, h.1, if_neg hne, Slot.run_check_bind hslot]
  rfl

/-- The region with a slot in front of the free list. -/
def released (r : Region) (slot : Nat) : Region :=
  (r.write (.next slot) (r.read .free)).write .free slot

theorem run_release (hslot : s.isSlot slot = true) :
    (FreeList.release s slot).run r = (.ok (), released r slot) := by
  rw [FreeList.release, Access.run_get_bind, Slot.run_check_bind hslot]
  rfl

theorem agree_released_other {a : Nat} (ha : s.isSlot a = true) (hslot : s.isSlot slot = true)
    (hne : a ≠ slot) : Region.Agree r (released r slot) a (a + s.stride) := by
  have hroom := Sizing.room_le_stride s
  unfold Layout.slotHeaderSize at hroom
  have hhigh : Field.free.offset + Field.free.width ≤ a :=
    Nat.le_trans (by decide) (Sizing.headerSize_le_of_isSlot ha)
  refine (Region.agree_write _ _ ?_).trans (Region.agree_write _ _ (Or.inr hhigh))
  rcases Sizing.apart_of_isSlot ha hslot hne with hap | hap
  · exact Or.inl hap
  · exact Or.inr (by simp only [Field.next]; omega)

theorem agree_released_header {first last : Nat} (hslot : s.isSlot slot = true)
    (hlast : last ≤ Layout.headerSize)
    (hfree : last ≤ Field.free.offset ∨ Field.free.offset + Field.free.width ≤ first) :
    Region.Agree r (released r slot) first last :=
  (Region.agree_write _ _ (Or.inl (Nat.le_trans hlast
    (Sizing.headerSize_le_of_isSlot hslot)))).trans (Region.agree_write _ _ hfree)

theorem run_popHead {rest : List Nat} (h : Chain r (r.read .head) (slot :: rest))
    (hslot : s.isSlot slot = true) :
    (MessageList.popHead s).run r = (.ok slot, r.write .head (r.read (.next slot))) := by
  have hne := Sizing.ne_nil_of_isSlot hslot
  rw [MessageList.popHead, Access.run_get_bind, h.1, if_neg hne, Slot.run_check_bind hslot]
  rfl

/-- Whether a message of `priority` goes behind the one in a slot. -/
def goesBehind (r : Region) (priority slot : Nat) : Bool := priority ≤ r.read (.priority slot)

variable {priority previous : Nat} {further : (previous current : Nat) → Access MessageList.Place}

theorem run_visit_nil :
    (MessageList.visit s priority further previous Layout.nil).run r =
      (.ok ⟨previous, Layout.nil⟩, r) := by
  rw [MessageList.visit, if_pos rfl]
  rfl

theorem run_visit_stop (hslot : s.isSlot slot = true) (h : goesBehind r priority slot = false) :
    (MessageList.visit s priority further previous slot).run r = (.ok ⟨previous, slot⟩, r) := by
  have hlt : r.read (.priority slot) < priority := Nat.lt_of_not_le (of_decide_eq_false h)
  rw [MessageList.visit, if_neg (Sizing.ne_nil_of_isSlot hslot), Slot.run_check_bind hslot,
    Access.run_get_bind, if_pos hlt]
  rfl

theorem run_visit_pass (hslot : s.isSlot slot = true) (h : goesBehind r priority slot = true) :
    (MessageList.visit s priority further previous slot).run r =
      (further slot (r.read (.next slot))).run r := by
  have hle : ¬ r.read (.priority slot) < priority := Nat.not_lt.mpr (of_decide_eq_true h)
  rw [MessageList.visit, if_neg (Sizing.ne_nil_of_isSlot hslot), Slot.run_check_bind hslot,
    Access.run_get_bind, if_neg hle, Access.run_get_bind]

theorem run_visit_stray (hnil : link ≠ Layout.nil) (hslot : s.isSlot link = false) :
    (MessageList.visit s priority further previous link).run r = (.error (.strayLink link), r) := by
  rw [MessageList.visit, if_neg hnil, Slot.check, hslot]
  rfl

/-- Whatever is left of its budget, the walk begins with a visit. -/
theorem walk_eq_visit (s : Sizing) (priority budget : Nat) :
    ∃ further, MessageList.walk s priority budget = MessageList.visit s priority further := by
  cases budget with
  | zero => exact ⟨_, rfl⟩
  | succ budget => exact ⟨_, rfl⟩

/-- The walk passes the slots that a new message goes behind, each at the price of one step of
its budget. -/
theorem run_walk_passing : ∀ {passed : List Nat} {budget previous link : Nat},
    Leads r link passed last → (∀ a ∈ passed, s.isSlot a = true) →
    (∀ a ∈ passed, goesBehind r priority a = true) →
      (MessageList.walk s priority (budget + passed.length) previous link).run r =
        (MessageList.walk s priority budget (passed.getLastD previous) last).run r := by
  intro passed
  induction passed with
  | nil =>
    intro budget previous link h _ _
    obtain rfl : link = last := h
    rfl
  | cons slot rest ih =>
    intro budget previous link h hslots hpass
    obtain ⟨rfl, hrest⟩ := h
    rw [List.length_cons, ← Nat.add_assoc, MessageList.walk,
      run_visit_pass (hslots link List.mem_cons_self) (hpass link List.mem_cons_self),
      List.getLastD_cons]
    exact ih hrest (fun a ha => hslots a (List.mem_cons_of_mem _ ha))
      fun a ha => hpass a (List.mem_cons_of_mem _ ha)

/-- The region with a slot linked in at a place of the message list. -/
def spliced (r : Region) (slot : Nat) (place : MessageList.Place) : Region :=
  if place.previous = Layout.nil then (r.write (.next slot) place.following).write .head slot
  else (r.write (.next slot) place.following).write (.next place.previous) slot

@[simp] theorem size_spliced (r : Region) (slot : Nat) (place : MessageList.Place) :
    (spliced r slot place).size = r.size := by
  unfold spliced
  split <;> simp only [Region.size_write]

/-- Splicing writes two links and nothing else. -/
theorem agree_spliced {place : MessageList.Place} {first last : Nat}
    (hslot : last ≤ slot ∨ slot + 8 ≤ first)
    (hhead : place.previous = Layout.nil →
      last ≤ Field.head.offset ∨ Field.head.offset + Field.head.width ≤ first)
    (hprevious : place.previous ≠ Layout.nil →
      last ≤ place.previous ∨ place.previous + 8 ≤ first) :
    Region.Agree r (spliced r slot place) first last := by
  unfold spliced
  split
  case isTrue h => exact (Region.agree_write _ _ hslot).trans (Region.agree_write _ _ (hhead h))
  case isFalse h =>
    exact (Region.agree_write _ _ hslot).trans (Region.agree_write _ _ (hprevious h))

/-- Splicing changes nothing behind the links of the slots. -/
theorem agree_spliced_content {place : MessageList.Place} {a : Nat} (ha : s.isSlot a = true)
    (hslot : s.isSlot slot = true)
    (hprevious : place.previous ≠ Layout.nil → s.isSlot place.previous = true) :
    Region.Agree r (spliced r slot place) (a + 8) (a + s.stride) := by
  have hroom := Sizing.room_le_stride s
  unfold Layout.slotHeaderSize at hroom
  have hother : ∀ b, s.isSlot b = true → a + s.stride ≤ b ∨ b + 8 ≤ a + 8 := by
    intro b hb
    by_cases hab : a = b
    · exact Or.inr (by omega)
    · rcases Sizing.apart_of_isSlot ha hb hab with h | h <;> omega
  refine agree_spliced (hother slot hslot) (fun _ => Or.inr ?_)
    fun h => hother place.previous (hprevious h)
  exact Nat.le_trans (by decide) (Nat.le_trans (Sizing.headerSize_le_of_isSlot ha)
    (Nat.le_add_right _ _))

/-- Splicing changes no other slots. -/
theorem agree_spliced_other {place : MessageList.Place} {a : Nat} (ha : s.isSlot a = true)
    (hslot : s.isSlot slot = true)
    (hprevious : place.previous ≠ Layout.nil → s.isSlot place.previous = true)
    (hne : a ≠ slot) (hne' : a ≠ place.previous) :
    Region.Agree r (spliced r slot place) a (a + s.stride) := by
  have hroom := Sizing.room_le_stride s
  unfold Layout.slotHeaderSize at hroom
  have hother : ∀ b, s.isSlot b = true → a ≠ b → a + s.stride ≤ b ∨ b + 8 ≤ a := by
    intro b hb hab
    rcases Sizing.apart_of_isSlot ha hb hab with h | h <;> omega
  refine agree_spliced (hother slot hslot hne) (fun _ => Or.inr ?_)
    fun h => hother place.previous (hprevious h) hne'
  exact Nat.le_trans (by decide) (Sizing.headerSize_le_of_isSlot ha)

/-- Splicing leaves the header alone but for the head of the message list. -/
theorem agree_spliced_header {place : MessageList.Place} {first last : Nat}
    (hslot : s.isSlot slot = true)
    (hprevious : place.previous ≠ Layout.nil → s.isSlot place.previous = true)
    (hlast : last ≤ Layout.headerSize)
    (hhead : last ≤ Field.head.offset ∨ Field.head.offset + Field.head.width ≤ first) :
    Region.Agree r (spliced r slot place) first last :=
  agree_spliced (Or.inl (Nat.le_trans hlast (Sizing.headerSize_le_of_isSlot hslot)))
    (fun _ => hhead)
    fun h => Or.inl (Nat.le_trans hlast (Sizing.headerSize_le_of_isSlot (hprevious h)))

/-- Where a message of `priority` goes in a list of slots. -/
def placeIn (r : Region) (priority : Nat) (slots : List Nat) : MessageList.Place where
  previous := (slots.takeWhile (goesBehind r priority)).getLastD Layout.nil
  following := (slots.dropWhile (goesBehind r priority)).headD Layout.nil

/-- Once its place is found, a slot is linked in there. -/
theorem run_insert_of_walk {place : MessageList.Place}
    (h : (MessageList.walk s priority s.capacity Layout.nil (r.read .head)).run r = (.ok place, r))
    (hprevious : place.previous ≠ Layout.nil → s.isSlot place.previous = true)
    (hslot : s.isSlot slot = true) :
    (MessageList.insert s slot priority).run r = (.ok (), spliced r slot place) := by
  rw [MessageList.insert, Access.run_get_bind, Access.run_bind_of_ok h,
    Slot.run_check_bind hslot, Access.run_set_bind, spliced]
  by_cases hnil : place.previous = Layout.nil
  · rw [if_pos hnil, if_pos hnil]
    rfl
  · rw [if_neg hnil, if_neg hnil]
    exact Slot.run_check_bind (hprevious hnil) _ _

/-- The slot in front of a place, unless the place is at the front, is one that was passed. -/
theorem getLastD_mem {passed : List Nat} (hnil : passed.getLastD Layout.nil ≠ Layout.nil) :
    passed.getLastD Layout.nil ∈ passed := by
  rcases List.eq_nil_or_concat passed with rfl | ⟨init, p, rfl⟩
  · exact absurd rfl hnil
  · simp

/-- Linking a slot in puts it into the chain behind `before`. -/
theorem chain_spliced {before after : List Nat} (hs : s.Valid)
    (hsize : s.fileSize ≤ r.size) (h : Chain r (r.read .head) (before ++ after))
    (hslots : ∀ a ∈ slot :: (before ++ after), s.isSlot a = true)
    (hnodup : (slot :: (before ++ after)).Nodup) :
    let r' := spliced r slot ⟨before.getLastD Layout.nil, after.headD Layout.nil⟩
    Chain r' (r'.read .head) (before ++ slot :: after) := by
  have hslot := hslots slot List.mem_cons_self
  have hfresh : ∀ a ∈ before ++ after, a ≠ slot := fun a ha he =>
    (List.nodup_cons.mp hnodup).1 (he ▸ ha)
  have hold : ∀ a ∈ before ++ after, s.isSlot a = true := fun a ha =>
    hslots a (List.mem_cons_of_mem _ ha)
  obtain ⟨link, hbefore, hafter⟩ := leads_append.mp h
  have hlink : after.headD Layout.nil = link := Chain.headD_eq hafter
  have hfit : link < 256 ^ 8 := by
    cases after with
    | nil => rw [← hlink]; exact Nat.pow_pos (by decide)
    | cons a rest => rw [← hlink]; exact lt_of_isSlot hs (hold a (by simp))
  have hself : (r.write (.next slot) link).read (.next slot) = link :=
    read_next_write_self hsize hslot hfit
  have hother : ∀ a ∈ before ++ after,
      (r.write (.next slot) link).read (.next a) = r.read (.next a) := fun a ha =>
    read_next_write_next (hold a ha) hslot (hfresh a ha) _
  rw [hlink]
  rcases List.eq_nil_or_concat before with rfl | ⟨init, p, rfl⟩
  · -- Nothing stands in front: the slot becomes the head.
    have hhead : ((r.write (.next slot) link).write .head slot).read .head = slot :=
      read_header_write_self (by decide) (by rwa [Region.size_write]) (lt_of_isSlot hs hslot)
    rw [List.getLastD_nil, spliced, if_pos rfl]
    refine ⟨hhead, ?_⟩
    rw [read_next_write_header (by decide) hslot, hself]
    refine Leads.congr hafter fun a ha => ?_
    rw [read_next_write_header (by decide) (hold a (by simpa using ha)),
      hother a (by simpa using ha)]
  · rw [List.concat_eq_append] at *
    obtain ⟨hinit, _⟩ := leads_concat.mp hbefore
    have hp := hold p (by simp)
    have hpslot := hfresh p (by simp)
    have hnodup' := (List.nodup_cons.mp hnodup).2
    have hkeep : ∀ a ∈ init ++ after, ((r.write (.next slot) link).write (.next p) slot).read
        (.next a) = r.read (.next a) := by
      intro a ha
      have hmem : a ∈ init ++ [p] ++ after := by
        rcases List.mem_append.mp ha with ha | ha <;> simp [ha]
      have hap : a ≠ p := by
        rintro rfl
        rw [List.append_assoc, List.singleton_append] at hnodup'
        exact (List.nodup_cons.mp (List.nodup_middle.mp hnodup')).1 ha
      rw [read_next_write_next (hold a hmem) hp hap, hother a hmem]
    rw [List.getLastD_concat, spliced, if_neg (Sizing.ne_nil_of_isSlot hp)]
    dsimp only
    rw [read_header_write_next (by decide) hp, read_header_write_next (by decide) hslot]
    refine leads_append.mpr ⟨slot, leads_concat.mpr ⟨?_, ?_⟩, rfl, ?_⟩
    · exact Leads.congr hinit fun a ha => hkeep a (List.mem_append_left _ ha)
    · exact read_next_write_self (by simpa using hsize) hp (lt_of_isSlot hs hslot)
    · rw [read_next_write_next hslot hp hpslot.symm, hself]
      exact Leads.congr hafter fun a ha => hkeep a (List.mem_append_right _ ha)

end MappedQueue
