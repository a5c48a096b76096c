import MappedQueue.Proofs.Arrangement

/-!
# Where a slot is linked in

The links of the message list may lead anywhere here, and the slot to be linked in may be on
the list already. The walk to its place passes slots whose messages are not less urgent, and
there are three ways for it to end. It finds the place, in front of a less urgent message or
where the list ends; it comes to a link that leads to no slot; or it passes more slots than
there are, which it does exactly if it goes in a circle. In the first case the slot is linked in
at the place, and in the other two the fault is reported and nothing is written.

Nobody checks that the slot is not on the list. If the walk passes it last, it is linked in
behind itself, and leads to itself from then on instead of to what follows the place.
-/

namespace MappedQueue

variable {s : Sizing} {r r' : Region} {priority slot here link last : Nat}
  {passed slots way : List Nat} {place : MessageList.Place} {fault : Fault}

/-- A way begins with its first slot, or ends where it begins. -/
theorem Leads.link_mem (h : Leads r link slots last) : link ∈ slots ∨ link = last := by
  cases slots with
  | nil => exact Or.inr h
  | cons slot rest => exact Or.inl (List.mem_cons.mpr (Or.inl h.1))

/-- Who has come back to a slot never leaves the slots visited so far. -/
theorem Leads.mem_of_circle (h : Leads r link passed here) (hback : here ∈ passed)
    (hway : Leads r link way last) : last ∈ passed := by
  have hnext : ∀ a ∈ passed, r.read (.next a) ∈ passed := by
    intro a ha
    obtain ⟨before, after, rfl⟩ := List.append_of_mem ha
    obtain ⟨_, -, -, hafter⟩ := leads_append.mp h
    rcases hafter.link_mem with hmem | hend
    · exact List.mem_append_right _ (List.mem_cons_of_mem _ hmem)
    · exact hend ▸ hback
  have hlink : link ∈ passed := h.link_mem.elim id fun hend => hend ▸ hback
  -- From here on all that matters of the link is that it leads to a slot visited.
  clear h
  induction way generalizing link with
  | nil => exact hway ▸ hlink
  | cons slot rest ih =>
    obtain ⟨rfl, hrest⟩ := hway
    exact ih hrest (hnext link hlink)

namespace MessageList

/-- The walk to the place of a message passes exactly the slots `passed` and comes to `here`. -/
structure Passes (s : Sizing) (r : Region) (priority : Nat) (passed : List Nat) (here : Nat) :
    Prop where
  leads : Leads r (r.read .head) passed here
  isSlot : ∀ a ∈ passed, s.isSlot a = true
  behind : ∀ a ∈ passed, priority ≤ r.read (.priority a)

/-- The place of a message is where the walk first comes to a message of strictly lower priority
or to the end of the list. -/
def Finds (s : Sizing) (r : Region) (priority : Nat) (place : Place) : Prop :=
  ∃ passed, Passes s r priority passed place.following ∧
    place.previous = passed.getLastD Layout.nil ∧
    (place.following = Layout.nil ∨
      s.isSlot place.following = true ∧ r.read (.priority place.following) < priority)

/-- What is wrong with a list on which the walk finds no place. -/
inductive Damaged (s : Sizing) (r : Region) (priority : Nat) : Fault → Prop where
  /-- The walk comes to a link that leads to no slot. -/
  | stray {passed : List Nat} {here : Nat} (hpasses : Passes s r priority passed here)
      (hnil : here ≠ Layout.nil) (hslot : s.isSlot here = false) :
      Damaged s r priority (.strayLink here)
  /-- The walk passes more slots than the queue has. -/
  | endless {passed : List Nat} {here : Nat} (hpasses : Passes s r priority passed here)
      (hmany : s.capacity < passed.length) : Damaged s r priority (.endlessList s.capacity)

namespace Passes

theorem start (s : Sizing) (r : Region) (priority : Nat) :
    Passes s r priority [] (r.read .head) where
  leads := rfl
  isSlot _ ha := absurd ha List.not_mem_nil
  behind _ ha := absurd ha List.not_mem_nil

theorem concat (h : Passes s r priority passed here) (hslot : s.isSlot here = true)
    (hbehind : priority ≤ r.read (.priority here)) :
    Passes s r priority (passed ++ [here]) (r.read (.next here)) where
  leads := leads_concat.mpr ⟨h.leads, rfl⟩
  isSlot a ha := (List.mem_append.mp ha).elim (h.isSlot a) fun hhere =>
    List.mem_singleton.mp hhere ▸ hslot
  behind a ha := (List.mem_append.mp ha).elim (h.behind a) fun hhere =>
    List.mem_singleton.mp hhere ▸ hbehind

theorem goesBehind (h : Passes s r priority passed here) :
    ∀ a ∈ passed, goesBehind r priority a = true :=
  fun a ha => decide_eq_true (h.behind a ha)

/-- The slots passed are different ones, unless the walk has come back to one of them. -/
theorem length_le (h : Passes s r priority passed here) (hhere : here ∉ passed) :
    passed.length ≤ s.capacity :=
  Sizing.length_le_of_nodup h.isSlot (h.leads.nodup hhere)

theorem isSlot_previous (h : Passes s r priority passed here)
    (hnil : passed.getLastD Layout.nil ≠ Layout.nil) :
    s.isSlot (passed.getLastD Layout.nil) = true :=
  h.isSlot _ (getLastD_mem hnil)

/-- The walk has come to each of the slots that it has passed. -/
theorem exists_earlier {count : Nat} (h : Passes s r priority passed here)
    (hcount : count < passed.length) :
    ∃ before there, Passes s r priority before there ∧ before.length = count ∧
      there ∈ passed := by
  have hsplit : passed.take count ++ passed[count] :: passed.drop (count + 1) = passed := by
    rw [List.getElem_cons_drop, List.take_append_drop]
  have hleads := h.leads
  rw [← hsplit] at hleads
  obtain ⟨there, hbefore, hthere, -⟩ := leads_append.mp hleads
  refine ⟨passed.take count, there, ⟨hbefore, ?_, ?_⟩, ?_, ?_⟩
  · exact fun a ha => h.isSlot a (List.mem_of_mem_take ha)
  · exact fun a ha => h.behind a (List.mem_of_mem_take ha)
  · exact List.length_take_of_le (Nat.le_of_lt hcount)
  · rw [hthere]
    exact List.getElem_mem hcount

/-- A walk that has not come back to a slot has steps enough to look at the next link. -/
theorem run_walk (h : Passes s r priority passed here) (hhere : here ∉ passed) :
    ∃ further, (walk s priority s.capacity Layout.nil (r.read .head)).run r =
      (visit s priority further (passed.getLastD Layout.nil) here).run r := by
  obtain ⟨left, hleft⟩ := Nat.exists_eq_add_of_le' (h.length_le hhere)
  obtain ⟨further, hvisit⟩ := walk_eq_visit s priority left
  refine ⟨further, ?_⟩
  rw [hleft, run_walk_passing h.leads h.isSlot h.goesBehind, hvisit]

end Passes

/-- However many steps are looked at, either the walk takes all of them or it has ended. -/
theorem exists_passes (s : Sizing) (r : Region) (priority count : Nat) :
    (∃ passed here, Passes s r priority passed here ∧ passed.length = count) ∨
      (∃ place, Finds s r priority place) ∨ ∃ fault, Damaged s r priority fault := by
  induction count with
  | zero => exact Or.inl ⟨[], _, .start s r priority, rfl⟩
  | succ count ih =>
    rcases ih with ⟨passed, here, hpasses, rfl⟩ | hended
    · by_cases hnil : here = Layout.nil
      · exact Or.inr (Or.inl ⟨⟨_, here⟩, passed, hpasses, rfl, Or.inl hnil⟩)
      · cases hslot : s.isSlot here with
        | false => exact Or.inr (Or.inr ⟨_, .stray hpasses hnil hslot⟩)
        | true =>
          by_cases hlower : r.read (.priority here) < priority
          · exact Or.inr (Or.inl ⟨⟨_, here⟩, passed, hpasses, rfl, Or.inr ⟨hslot, hlower⟩⟩)
          · exact Or.inl ⟨_, _, hpasses.concat hslot (Nat.le_of_not_lt hlower),
              List.length_append⟩
    · exact Or.inr hended

/-- The walk finds a place, or the list is damaged. -/
theorem found_or_damaged (s : Sizing) (r : Region) (priority : Nat) :
    (∃ place, Finds s r priority place) ∨ ∃ fault, Damaged s r priority fault := by
  rcases exists_passes s r priority (s.capacity + 1) with ⟨passed, here, hpasses, hlength⟩ | hended
  · exact Or.inr ⟨_, .endless hpasses (hlength ▸ Nat.lt_add_one _)⟩
  · exact hended

theorem run_walk_found (h : Finds s r priority place) :
    (walk s priority s.capacity Layout.nil (r.read .head)).run r = (.ok place, r) := by
  obtain ⟨previous, following⟩ := place
  obtain ⟨passed, hpasses, rfl, hend | ⟨hslot, hlower⟩⟩ := h
  · obtain rfl : following = Layout.nil := hend
    have hnew : Layout.nil ∉ passed := fun hmem =>
      Sizing.ne_nil_of_isSlot (hpasses.isSlot _ hmem) rfl
    obtain ⟨further, hrun⟩ := hpasses.run_walk hnew
    exact hrun.trans run_visit_nil
  · have hnew : following ∉ passed := fun hmem =>
      Nat.not_lt.mpr (hpasses.behind _ hmem) hlower
    obtain ⟨further, hrun⟩ := hpasses.run_walk hnew
    exact hrun.trans (run_visit_stop hslot (decide_eq_false (Nat.not_le.mpr hlower)))

theorem run_walk_stray (hpasses : Passes s r priority passed here) (hnil : here ≠ Layout.nil)
    (hslot : s.isSlot here = false) :
    (walk s priority s.capacity Layout.nil (r.read .head)).run r =
      (.error (.strayLink here), r) := by
  have hnew : here ∉ passed := by
    intro hmem
    rw [hpasses.isSlot _ hmem] at hslot
    cases hslot
  obtain ⟨further, hrun⟩ := hpasses.run_walk hnew
  exact hrun.trans (run_visit_stray hnil hslot)

/-- The walk gives up when it has passed one slot more than there are. -/
theorem run_walk_endless (hpasses : Passes s r priority passed here)
    (hmany : s.capacity < passed.length) :
    (walk s priority s.capacity Layout.nil (r.read .head)).run r =
      (.error (.endlessList s.capacity), r) := by
  obtain ⟨before, there, hbefore, hlength, hthere⟩ := hpasses.exists_earlier hmany
  have hpass : (walk s priority (0 + before.length) Layout.nil (r.read .head)).run r =
      (walk s priority 0 (before.getLastD Layout.nil) there).run r :=
    run_walk_passing hbefore.leads hbefore.isSlot hbefore.goesBehind
  rw [Nat.zero_add, hlength] at hpass
  rw [hpass, walk, run_visit_pass (hpasses.isSlot _ hthere) (hpasses.goesBehind _ hthere)]
  rfl

/-- A walk that ends in a fault leaves the list as it was. -/
theorem run_insert_of_fault
    (h : (walk s priority s.capacity Layout.nil (r.read .head)).run r = (.error fault, r)) :
    (insert s slot priority).run r = (.error fault, r) := by
  rw [insert, Access.run_get_bind, Access.run_bind_of_error h]

theorem run_insert_found (h : Finds s r priority place) (hslot : s.isSlot slot = true) :
    (insert s slot priority).run r = (.ok (), spliced r slot place) := by
  refine run_insert_of_walk (run_walk_found h) ?_ hslot
  obtain ⟨passed, hpasses, hprevious, -⟩ := h
  rw [hprevious]
  exact hpasses.isSlot_previous

theorem run_insert_damaged (h : Damaged s r priority fault) :
    (insert s slot priority).run r = (.error fault, r) := by
  cases h with
  | stray hpasses hnil hslot => exact run_insert_of_fault (run_walk_stray hpasses hnil hslot)
  | endless hpasses hmany => exact run_insert_of_fault (run_walk_endless hpasses hmany)

/-- A list is reported as broken exactly for what is wrong with it, and is left as it was. -/
theorem run_insert_eq_error_iff (hslot : s.isSlot slot = true) :
    (insert s slot priority).run r = (.error fault, r') ↔
      Damaged s r priority fault ∧ r' = r := by
  constructor
  · intro hrun
    rcases found_or_damaged s r priority with ⟨place, hfinds⟩ | ⟨fault', hdamaged⟩
    · rw [run_insert_found hfinds hslot] at hrun
      cases hrun
    · rw [run_insert_damaged hdamaged] at hrun
      cases hrun
      exact ⟨hdamaged, rfl⟩
  · rintro ⟨hdamaged, rfl⟩
    exact run_insert_damaged hdamaged

/-- The field of the link that leads to a place: the head of the list, or the link of the slot in
front of the place. -/
def Place.entry (place : Place) : Field :=
  if place.previous = Layout.nil then .head else .next place.previous

/-- `r'` is `r` with a slot linked in at a place. -/
structure LinkedIn (slot : Nat) (place : Place) (r r' : Region) : Prop where
  size_eq : r'.size = r.size
  entry : r'.read place.entry = slot
  /-- A slot in front of its own place leads to itself, as its entry says. -/
  onward : place.previous ≠ slot → r'.read (.next slot) = place.following
  kept : ∀ byte, ¬ (Field.next slot).Covers byte → ¬ place.entry.Covers byte →
    r'.byte byte = r.byte byte

theorem spliced_eq (r : Region) (slot : Nat) (place : Place) :
    spliced r slot place = (r.write (.next slot) place.following).write place.entry slot := by
  unfold spliced Place.entry
  split <;> rfl

theorem linkedIn_spliced (hs : s.Valid) (hsize : s.fileSize ≤ r.size)
    (hslot : s.isSlot slot = true)
    (hprevious : place.previous ≠ Layout.nil → s.isSlot place.previous = true)
    (hfollowing : place.following < 256 ^ 8) :
    LinkedIn slot place r (spliced r slot place) := by
  have hsize' : s.fileSize ≤ (r.write (.next slot) place.following).size := by
    rwa [Region.size_write]
  have hself : (r.write (.next slot) place.following).read (.next slot) = place.following :=
    read_next_write_self hsize hslot hfollowing
  constructor
  · exact size_spliced r slot place
  · rw [spliced_eq]
    unfold Place.entry
    split
    case isTrue => exact read_header_write_self (by decide) hsize' (lt_of_isSlot hs hslot)
    case isFalse h => exact read_next_write_self hsize' (hprevious h) (lt_of_isSlot hs hslot)
  · intro hother
    rw [spliced_eq]
    unfold Place.entry
    split
    case isTrue => rw [read_next_write_header (by decide) hslot, hself]
    case isFalse h => rw [read_next_write_next hslot (hprevious h) hother.symm, hself]
  · intro byte hnext hentry
    rw [spliced_eq, Region.byte_write_of_not_covers _ hentry,
      Region.byte_write_of_not_covers _ hnext]

theorem Finds.linkedIn (hs : s.Valid) (hsize : s.fileSize ≤ r.size)
    (hslot : s.isSlot slot = true) (h : Finds s r priority place) :
    LinkedIn slot place r (spliced r slot place) := by
  obtain ⟨passed, hpasses, hprevious, hstops⟩ := h
  apply linkedIn_spliced hs hsize hslot
  · rw [hprevious]
    exact hpasses.isSlot_previous
  · rcases hstops with hend | ⟨hfollowing, -⟩
    · rw [hend]
      decide
    · exact lt_of_isSlot hs hfollowing

/-- A list that comes back to a slot is endless, if the walk passes all that is on it. -/
theorem Passes.endless (h : Passes s r priority passed here) (hback : here ∈ passed) :
    Damaged s r priority (.endlessList s.capacity) := by
  -- So wherever the walk comes to, it goes on.
  have hstays : ∀ {passed' here'}, Passes s r priority passed' here' → here' ∈ passed :=
    fun h' => h.leads.mem_of_circle hback h'.leads
  rcases found_or_damaged s r priority with ⟨place, passed', hpasses, -, hstops⟩ | ⟨fault, hdamaged⟩
  · have hmem := hstays hpasses
    rcases hstops with hend | ⟨-, hlower⟩
    · exact absurd hend (Sizing.ne_nil_of_isSlot (h.isSlot _ hmem))
    · exact absurd hlower (Nat.not_lt.mpr (h.behind _ hmem))
  · cases hdamaged with
    | stray hpasses hnil hslot =>
      rw [h.isSlot _ (hstays hpasses)] at hslot
      cases hslot
    | endless hpasses hmany => exact .endless hpasses hmany

/-- The priorities of the slots do not increase. -/
def Descending (r : Region) (slots : List Nat) : Prop :=
  slots.Pairwise fun a b => r.read (.priority b) ≤ r.read (.priority a)

/-- A slot put behind all that are not of lower priority. -/
def ranked (r : Region) (priority slot : Nat) (slots : List Nat) : List Nat :=
  slots.filter (fun a => priority ≤ r.read (.priority a)) ++
    slot :: slots.filter fun a => r.read (.priority a) < priority

theorem mem_ranked {a : Nat} (h : a ∈ ranked r priority slot slots) : a ∈ slot :: slots := by
  rcases List.mem_append.mp h with hbefore | hafter
  · exact List.mem_cons_of_mem _ (List.mem_of_mem_filter hbefore)
  · rcases List.mem_cons.mp hafter with rfl | hlower
    · exact List.mem_cons_self
    · exact List.mem_cons_of_mem _ (List.mem_of_mem_filter hlower)

theorem Descending.of_same (h : Descending r slots)
    (hsame : ∀ a ∈ slots, r'.read (.priority a) = r.read (.priority a)) : Descending r' slots :=
  List.Pairwise.imp_of_mem (fun ha hb hab => by rwa [hsame _ ha, hsame _ hb]) h

/-- Among messages a slot is put where its message goes. -/
theorem map_ranked (r : Region) (slot : Nat) (slots : List Nat) :
    (ranked r (r.read (.priority slot)) slot slots).map r.messageAt =
      Backlog.insert (r.messageAt slot) (slots.map r.messageAt) := by
  simp only [ranked, Backlog.insert, List.map_append, List.map_cons, List.filter_map,
    Function.comp_def, Region.messageAt]
  rfl

theorem descending_iff : Descending r slots ↔ Backlog.Ordered (slots.map r.messageAt) := by
  simp only [Descending, Backlog.Ordered, List.pairwise_map, Region.messageAt]

theorem Descending.ranked (h : Descending r slots) (slot : Nat) :
    Descending r (ranked r (r.read (.priority slot)) slot slots) := by
  rw [descending_iff, map_ranked]
  exact (descending_iff.mp h).insert _

/-- In a list in order the walk stops where the less urgent messages begin. -/
theorem Descending.ranked_eq (h : Descending r slots) (priority slot : Nat) :
    MessageList.ranked r priority slot slots = slots.takeWhile (goesBehind r priority) ++
      slot :: slots.dropWhile (goesBehind r priority) := by
  have hsplit : slots.Pairwise fun a b => goesBehind r priority b = true →
      goesBehind r priority a = true :=
    h.imp fun hab hb => decide_eq_true (Nat.le_trans (of_decide_eq_true hb) hab)
  have hlower : (fun a => decide (r.read (.priority a) < priority)) =
      fun a => !goesBehind r priority a := by
    funext a
    rw [goesBehind, ← decide_not, decide_eq_decide, Nat.not_le]
  rw [MessageList.ranked, hlower, Backlog.takeWhile_eq_filter hsplit,
    Backlog.dropWhile_eq_filter hsplit]
  rfl

/-- A list of slots that comes to its end goes over different slots. -/
theorem nodup_of_chain (h : Chain r link slots) (hslots : ∀ a ∈ slots, s.isSlot a = true) :
    slots.Nodup :=
  Leads.nodup h fun hmem => Sizing.ne_nil_of_isSlot (hslots _ hmem) rfl

/-- In a list that comes to its end there is always a place. -/
theorem finds_placeIn (h : Chain r (r.read .head) slots)
    (hslots : ∀ a ∈ slots, s.isSlot a = true) (priority : Nat) :
    Finds s r priority (placeIn r priority slots) := by
  rw [← @List.takeWhile_append_dropWhile _ (goesBehind r priority) slots] at h hslots
  obtain ⟨middle, hpassed, hrest⟩ := leads_append.mp h
  refine ⟨slots.takeWhile (goesBehind r priority), ⟨?_, ?_, ?_⟩, rfl, ?_⟩
  · rw [placeIn, Chain.headD_eq hrest]
    exact hpassed
  · exact fun a ha => hslots a (List.mem_append_left _ ha)
  · exact fun a ha => of_decide_eq_true (List.all_eq_true.mp List.all_takeWhile a ha)
  · cases hdrop : slots.dropWhile (goesBehind r priority) with
    | nil => exact Or.inl (by rw [placeIn, hdrop]; rfl)
    | cons a rest =>
      have hstop : goesBehind r priority a = false := by
        have hhead := List.head?_dropWhile_not (goesBehind r priority) slots
        rw [hdrop] at hhead
        exact hhead
      refine Or.inr ?_
      rw [placeIn, hdrop]
      refine ⟨hslots a ?_, Nat.lt_of_not_le (of_decide_eq_false hstop)⟩
      rw [hdrop]
      exact List.mem_append_right _ List.mem_cons_self

/-- A list in order stays in order. -/
theorem run_insert_descending (hs : s.Valid) (hsize : s.fileSize ≤ r.size)
    (hslot : s.isSlot slot = true) (h : Chain r (r.read .head) slots)
    (hslots : ∀ a ∈ slots, s.isSlot a = true) (hdescending : Descending r slots)
    (hfresh : slot ∉ slots) :
    ∃ r', (insert s slot priority).run r = (.ok (), r') ∧
      Chain r' (r'.read .head) (ranked r priority slot slots) ∧
      (r.read (.priority slot) = priority → Descending r' (ranked r priority slot slots)) := by
  have hall : ∀ a ∈ slot :: slots, s.isSlot a = true := List.forall_mem_cons.mpr ⟨hslot, hslots⟩
  have hnodup := List.nodup_cons.mpr ⟨hfresh, nodup_of_chain h hslots⟩
  have hsame : ∀ a, s.isSlot a = true →
      (spliced r slot (placeIn r priority slots)).read (.priority a) = r.read (.priority a) := by
    intro a ha
    have hagree : Region.Agree r (spliced r slot (placeIn r priority slots)) (a + 8)
        (a + s.stride) :=
      agree_spliced_content ha hslot fun hnil =>
        hslots _ ((List.takeWhile_prefix _).subset (getLastD_mem hnil))
    have hroom := Sizing.room_le_stride s
    unfold Layout.slotHeaderSize at hroom
    exact hagree.read (by simp only [Field.priority]; omega) (by simp only [Field.priority]; omega)
  refine ⟨_, run_insert_found (finds_placeIn h hslots priority) hslot, ?_, ?_⟩
  · rw [hdescending.ranked_eq]
    rw [← @List.takeWhile_append_dropWhile _ (goesBehind r priority) slots] at h hall hnodup
    exact chain_spliced hs hsize h hall hnodup
  · rintro rfl
    exact (hdescending.ranked slot).of_same fun a ha => hsame a (hall a (mem_ranked ha))

/-- Whatever the links of a region are, inserting a slot does one of two things. Where the walk
finds a place, the slot is linked in there, and nothing but its own link and the link that leads
to the place is written; only a slot that the walk passes last does not lead on to what follows
the place. Where the list is damaged, the fault is reported and nothing is written. So a list
that comes to its end is never reported, a list in a circle without a less urgent message always
is, and a list in order stays in order: the new slot comes after all slots of its priority. -/
theorem linked_in_or_reported (hs : s.Valid) (hsize : s.fileSize ≤ r.size)
    (hslot : s.isSlot slot = true) (priority : Nat) :
    let outcome := (insert s slot priority).run r
    ((∃ place, Finds s r priority place) ∨ ∃ fault, Damaged s r priority fault) ∧
      (∀ place, Finds s r priority place →
        ∃ r', outcome = (.ok (), r') ∧ LinkedIn slot place r r') ∧
      (∀ fault r', outcome = (.error fault, r') ↔ Damaged s r priority fault ∧ r' = r) ∧
      (∀ slots, Chain r (r.read .head) slots → (∀ a ∈ slots, s.isSlot a = true) →
        ∃ r', outcome = (.ok (), r')) ∧
      (∀ passed here, Passes s r priority passed here → here ∈ passed →
        outcome = (.error (.endlessList s.capacity), r)) ∧
      ∀ slots, Chain r (r.read .head) slots → (∀ a ∈ slots, s.isSlot a = true) →
        Descending r slots → slot ∉ slots →
          ∃ r', outcome = (.ok (), r') ∧
            Chain r' (r'.read .head) (ranked r priority slot slots) ∧
            (r.read (.priority slot) = priority →
              Descending r' (ranked r priority slot slots)) := by
  intro outcome
  refine ⟨found_or_damaged s r priority, ?_, fun _ _ => run_insert_eq_error_iff hslot, ?_, ?_, ?_⟩
  · intro place hfinds
    exact ⟨_, run_insert_found hfinds hslot, hfinds.linkedIn hs hsize hslot⟩
  · intro slots h hslots
    exact ⟨_, run_insert_found (finds_placeIn h hslots priority) hslot⟩
  · intro passed here hpasses hback
    exact run_insert_damaged (hpasses.endless hback)
  · intro slots h hslots hdescending hfresh
    exact run_insert_descending hs hsize hslot h hslots hdescending hfresh

/-- Two messages on the list of a queue for three, the first one of priority 2 and the second one
of priority 1. -/
def couple : Region :=
  ((((Region.zeros 272).write .head 200).write (.next 200) 224).write (.priority 200) 2).write
    (.priority 224) 1

theorem size_couple : Sizing.fileSize ⟨3, 8⟩ ≤ couple.size := by
  simp only [couple, Region.size_write]
  exact Nat.le_of_eq (Region.size_zeroBytes 272).symm

theorem couple_finds : Finds ⟨3, 8⟩ couple 2 ⟨200, 224⟩ := by
  obtain ⟨hhead, hnext, hfirst, hsecond⟩ : couple.read .head = 200 ∧
      couple.read (.next 200) = 224 ∧ couple.read (.priority 200) = 2 ∧
      couple.read (.priority 224) = 1 := by decide +kernel
  refine ⟨[200], ⟨⟨hhead, hnext⟩, ?_, ?_⟩, rfl, Or.inr ⟨by decide, ?_⟩⟩
  · intro a ha
    rw [List.mem_singleton.mp ha]
    decide
  · intro a ha
    rw [List.mem_singleton.mp ha]
    exact Nat.le_of_eq hfirst.symm
  · rw [hsecond]
    decide

/-- A third slot goes between the two. -/
theorem linked_in_between : Sizing.Valid ⟨3, 8⟩ ∧ Sizing.fileSize ⟨3, 8⟩ ≤ couple.size ∧
    Sizing.isSlot ⟨3, 8⟩ 248 = true ∧ Finds ⟨3, 8⟩ couple 2 ⟨200, 224⟩ ∧
    ∃ r', (insert ⟨3, 8⟩ 248 2).run couple = (.ok (), r') ∧ r'.read (.next 200) = 248 ∧
      r'.read (.next 248) = 224 := by
  have hs : Sizing.Valid ⟨3, 8⟩ := by decide
  have hslot : Sizing.isSlot ⟨3, 8⟩ 248 = true := by decide
  obtain ⟨-, hfound, -⟩ := linked_in_or_reported hs size_couple hslot 2
  obtain ⟨r', hrun, hlinked⟩ := hfound ⟨200, 224⟩ couple_finds
  exact ⟨hs, size_couple, hslot, couple_finds, r', hrun, hlinked.entry,
    hlinked.onward (by decide)⟩

/-- The first of the two, inserted once more, does not go in front of the second one but leads to
itself. -/
theorem linked_in_behind_itself : Finds ⟨3, 8⟩ couple 2 ⟨200, 224⟩ ∧
    ∃ r', (insert ⟨3, 8⟩ 200 2).run couple = (.ok (), r') ∧ r'.read (.next 200) = 200 ∧
      r'.read (.next 200) ≠ 224 := by
  have hslot : Sizing.isSlot ⟨3, 8⟩ 200 = true := by decide
  have hlinked := couple_finds.linkedIn (by decide) size_couple hslot
  have hnext : (spliced couple 200 ⟨200, 224⟩).read (.next 200) = 200 := hlinked.entry
  exact ⟨couple_finds, _, run_insert_found couple_finds hslot, hnext, by rw [hnext]; decide⟩

end MessageList

end MappedQueue
