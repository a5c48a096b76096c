import Mathlib.Logic.Function.Basic
import MappedQueue.Proofs.Bookkeeping

/-!
# Processes that share a disk

Any number of threads, in any number of processes, are about to open queues, to attach to
them or to remove their names. A run of the machine is a sequence of single operations of
their scripts in any order. What the system refuses may be different at every operation, and
so may the number be that a new file gets, as long as no file has it that a process could
still use.

Numbers are used again, and still no process ever takes a file for another: the files that
have a name, are open or are mapped have different numbers. So a mapping that is found by
the number of a file is a mapping of this file.
-/

namespace MappedQueue

/-- How far a thread is. -/
inductive Phase where
  | busy (rest : Script (Except Error (Option Store)))
  /-- It has a handle on the queue that it opened. -/
  | holding (store : Store) (handle : Handle)
  | gone

/-- A thread with its plan. -/
structure Party where
  process : Nat
  plan : Plan
  phase : Phase
  /-- Its operations so far, latest first. -/
  past : List Deed := []

namespace Party

/-- What its operations have left in its hands. -/
def hands (a : Party) : Hands := a.past.foldr (fun deed hands => hands.after deed) {}

/-- Whether it has a file open, in a process. -/
def opens (process file : Nat) (a : Party) : Bool := a.process = process ∧ a.hands.file = some file

/-- Whether it uses a mapping of a process. -/
def uses (process mapping : Nat) (a : Party) : Bool :=
  a.process = process ∧ a.hands.mapping = some mapping

def Orderly (a : Party) : Prop :=
  match a.phase with
  | .busy rest => rest.Orderly Hands.Ends a.hands
  | .holding store _ => a.hands.Fits (.ok store)
  | .gone => a.hands.Empty

/-- A thread after one more operation. -/
def next (a : Party) (deed : Deed) (phase : Phase) : Party :=
  { a with phase, past := deed :: a.past }

@[simp] theorem hands_next (a : Party) (deed : Deed) (phase : Phase) :
    (a.next deed phase).hands = a.hands.after deed := rfl

end Party

/-- Processes, and the disk they share. -/
structure Machine where
  disk : Disk
  /-- What a process has open and mapped, whatever its disk. -/
  processes : Nat → Host := fun _ => {}
  parties : List Party := []

namespace Machine

/-- The system as a process sees it. -/
def host (M : Machine) (process : Nat) : Host := { M.processes process with disk := M.disk }

/-- The machine after a process has changed what it sees. -/
def setHost (M : Machine) (process : Nat) (h : Host) : Machine :=
  { M with disk := h.disk, processes := Function.update M.processes process h }

def setParty (M : Machine) (i : Nat) (a : Party) : Machine :=
  { M with parties := M.parties.set i a }

/-- A thread comes to another phase without an operation. -/
def setPhase (M : Machine) (i : Nat) (a : Party) (phase : Phase) : Machine :=
  M.setParty i { a with phase }

def begin (M : Machine) (process : Nat) (plan : Plan) : Machine :=
  { M with parties := M.parties ++ [⟨process, plan, .busy plan.script, []⟩] }

/-- The machine after an operation of a thread. -/
def after (M : Machine) (i : Nat) (a : Party) (h : Host) (deed : Deed) (phase : Phase) : Machine :=
  (M.setHost a.process h).setParty i (a.next deed phase)

/-- What a process sees of a system that numbers a new file in one way and refuses some
operations. -/
def sees (M : Machine) (process : Nat) (numbering : Numbering)
    (refused : Operation → Option SystemError) : Host :=
  { M.host process with numbering, refused }

/-- The system refuses an operation of a process or does it. A file that is made gets a
number that none has which a process could still use. -/
inductive Does (M : Machine) (process : Nat) (operation : Operation) :
    operation.Outcome → Host → Prop
  | intro {numbering : Numbering} (refused : Operation → Option SystemError)
      (hnumbering : ∀ path mode, operation = .createFile path mode →
        ∀ other, numbering.1 (M.host process).used ∉ (M.host other).used) :
      Does M process operation ((M.sees process numbering refused).perform operation).1
        ((M.sees process numbering refused).perform operation).2

/-- A file that some process can still come across. -/
def Serves (M : Machine) (file : Nat) : Prop := ∃ process, (M.host process).Serves file

/-- A thread has what its process has for it, and goes on with it in order. -/
structure Settled (M : Machine) (a : Party) : Prop where
  held : a.hands.Held (M.host a.process)
  orderly : a.Orderly

/-- The bookkeeping of all processes is right. -/
structure Sound (M : Machine) : Prop where
  formed : M.disk.Formed
  hosts (process : Nat) : (M.host process).Sound
  /-- Files that can still be come across have different numbers. -/
  distinct {f g : Nat} (hf : M.Serves f) (hg : M.Serves g)
    (hidentity : M.disk.identity f = M.disk.identity g) : f = g
  opened (process file : Nat) :
    (M.host process).opened.count file = M.parties.countP (Party.opens process file)
  users (process mapping : Nat) :
    (M.host process).users mapping = M.parties.countP (Party.uses process mapping)
  remembers (process : Nat) : (M.host process).Remembers
  settled {i : Nat} {a : Party} (ha : M.parties[i]? = some a) : M.Settled a
  /-- A file is made once. -/
  makers {i j : Nat} {a b : Party} (ha : M.parties[i]? = some a) (hb : M.parties[j]? = some b)
    (hmade : a.hands.made = true ∧ b.hands.made = true) (hfound : a.hands.found = b.hands.found) :
    i = j

variable {M : Machine} {process other i : Nat} {a : Party} {h : Host} {operation : Operation}
  {outcome : operation.Outcome} {deed : Deed} {phase : Phase}

@[simp] theorem host_setHost_self : (M.setHost process h).host process = h := by
  simp only [host, setHost, Function.update_self]

theorem host_setHost_of_ne (hne : other ≠ process) :
    (M.setHost process h).host other = { M.host other with disk := h.disk } := by
  simp only [host, setHost, Function.update_of_ne hne]

@[simp] theorem host_setParty : (M.setParty i a).host process = M.host process := rfl

@[simp] theorem disk_host : (M.host process).disk = M.disk := rfl

/-- Replacing an entry changes a count by what the two entries count. -/
theorem countP_set {α : Type} {xs : List α} {p : α → Bool} {i : Nat} {x y : α} (hx : xs[i]? = some x) :
    (xs.set i y).countP p + (if p x then 1 else 0) = xs.countP p + if p y then 1 else 0 := by
  induction xs generalizing i with
  | nil => cases hx
  | cons z xs ih =>
    cases i with
    | zero =>
      cases hx
      simp only [List.set_cons_zero, List.countP_cons]
      omega
    | succ i =>
      have := ih hx
      simp only [List.set_cons_succ, List.countP_cons]
      omega

theorem countP_pos_of_getElem? {α : Type} {xs : List α} {p : α → Bool} {i : Nat} {x : α}
    (hx : xs[i]? = some x) (hp : p x = true) : 0 < xs.countP p :=
  List.countP_pos_iff.mpr ⟨x, List.mem_of_getElem? hx, hp⟩

theorem Sound.serves_lt (hs : M.Sound) {file : Nat} (hserves : M.Serves file) :
    file < M.disk.files.size := by
  obtain ⟨process, hnamed | hopened | ⟨mapping, hin, rfl⟩⟩ := hserves
  · obtain ⟨_, _, _, _, node, -, -, hkind⟩ := Disk.mem_named.mp hnamed
    exact hs.formed.file_lt hkind
  · exact (hs.hosts process).opened_lt file hopened
  · exact (hs.hosts process).mapped_lt mapping (Host.lt_of_inUse hin)

/-- What a thread has open is open in its process. -/
theorem Sound.count_pos (hs : M.Sound) (ha : M.parties[i]? = some a) {file : Nat}
    (hfile : a.hands.file = some file) : 0 < (M.host a.process).opened.count file := by
  rw [hs.opened]
  exact countP_pos_of_getElem? ha (decide_eq_true ⟨rfl, hfile⟩)

theorem Sound.users_pos (hs : M.Sound) (ha : M.parties[i]? = some a) {mapping : Nat}
    (hmapping : a.hands.mapping = some mapping) : 0 < (M.host a.process).users mapping := by
  rw [hs.users]
  exact countP_pos_of_getElem? ha (decide_eq_true ⟨rfl, hmapping⟩)

theorem Sound.proper (hs : M.Sound) (ha : M.parties[i]? = some a)
    (hallows : a.hands.Allows operation) : (M.host a.process).Proper operation := by
  cases operation with
  | map file length => exact List.count_pos_iff.mp (hs.count_pos ha hallows.1)
  | _ => exact trivial

section Changes

variable {numbering : Numbering} {refused : Operation → Option SystemError} {f : Nat}

theorem Sound.sees (hs : M.Sound) :
    (M.sees process numbering refused).Sound ∧ (M.sees process numbering refused).Distinct :=
  ⟨⟨(hs.hosts process).opened_lt, (hs.hosts process).mapped_lt, (hs.hosts process).known⟩,
    fun _ _ hf hg hidentity => hs.distinct ⟨process, hf⟩ ⟨process, hg⟩ hidentity⟩

/-- What a thread has in its hands its process has for it, whatever the system refuses. -/
theorem Sound.held (hs : M.Sound) (ha : M.parties[i]? = some a) (numbering : Numbering)
    (refused : Operation → Option SystemError) : a.hands.Held (M.sees a.process numbering refused) :=
  let held := (hs.settled ha).held
  ⟨held.found_lt, held.file_eq, held.mapping_lt, held.mapping_eq⟩

/-- A file that can be come across afterwards could be before, or it has just been made and
its number is a new one. -/
theorem Sound.serves_after (hc : Host.Change (M.sees process numbering refused) deed h)
    (hp : (M.host process).Proper deed.operation) (hserves : (M.setHost process h).Serves f) :
    M.Serves f ∨ Host.Makes (M.sees process numbering refused) h deed f := by
  obtain ⟨other, hserves⟩ := hserves
  by_cases hne : other = process
  · subst hne
    rw [host_setHost_self] at hserves
    exact (hc.serves hp hserves).imp_left fun h => ⟨other, h⟩
  · rw [host_setHost_of_ne hne] at hserves
    rcases hserves with hnamed | hopened | ⟨mapping, hin, hfile⟩
    · exact (hc.named hnamed).imp_left fun h => ⟨other, Or.inl h⟩
    · exact Or.inl ⟨other, Or.inr (Or.inl hopened)⟩
    · exact Or.inl ⟨other, Or.inr (Or.inr ⟨mapping, hin, hfile⟩)⟩

theorem Sound.distinct_after (hs : M.Sound)
    (hc : Host.Change (M.sees process numbering refused) deed h)
    (hp : (M.host process).Proper deed.operation)
    (hnumbering : ∀ path mode, deed.operation = .createFile path mode →
      ∀ other, numbering.1 (M.host process).used ∉ (M.host other).used) {f g : Nat}
    (hf : (M.setHost process h).Serves f) (hg : (M.setHost process h).Serves g)
    (hidentity : h.disk.identity f = h.disk.identity g) : f = g := by
  obtain ⟨hextends, -⟩ := hc.extends_ hs.formed
  -- No file that could be come across has the number of one that has just been made.
  have hnew : ∀ {f f'}, M.Serves f → Host.Makes (M.sees process numbering refused) h deed f' →
      h.disk.identity f ≠ h.disk.identity f' := by
    rintro f f' hserves ⟨⟨path, mode, hcreate⟩, -, hidentity⟩ heq
    rw [hextends.identity_eq f (hs.serves_lt hserves), hidentity] at heq
    obtain ⟨other, hother⟩ := hserves
    exact hnumbering path mode hcreate other (heq ▸ hother.identity_mem_used)
  rcases Sound.serves_after hc hp hf with hf | hf
  · rcases Sound.serves_after hc hp hg with hg | hg
    · rw [hextends.identity_eq f (hs.serves_lt hf), hextends.identity_eq g (hs.serves_lt hg)]
        at hidentity
      exact hs.distinct hf hg hidentity
    · exact absurd hidentity (hnew hf hg)
  · rcases Sound.serves_after hc hp hg with hg | hg
    · exact absurd hidentity.symm (hnew hg hf)
    · exact hf.2.1.trans hg.2.1.symm

/-- Threads that did nothing have what they had. -/
theorem Settled.setHost (hsettled : M.Settled a)
    (hc : Host.Change (M.sees process numbering refused) deed h)
    (hextends : Disk.Extends M.disk h.disk) : (M.setHost process h).Settled a := by
  obtain ⟨⟨hfound, hfile, hlt, heq⟩, horderly⟩ := hsettled
  have hkeeps : ∀ {m}, m < (M.host a.process).mappings.size →
      m < ((M.setHost process h).host a.process).mappings.size ∧
        ((M.setHost process h).host a.process).fileOf m = (M.host a.process).fileOf m := by
    intro m hm
    by_cases hp : a.process = process
    · subst hp
      rw [host_setHost_self]
      obtain ⟨hfileOf, hlt⟩ := hc.fileOf_eq hm
      exact ⟨hlt, hfileOf⟩
    · rw [host_setHost_of_ne hp]
      exact ⟨hm, rfl⟩
  refine ⟨⟨fun file h => ?_, hfile, fun m hm => (hkeeps (hlt m hm)).1, fun m hm => ?_⟩, horderly⟩
  · exact Nat.lt_of_lt_of_le (hfound file h) hextends.size_le
  · rw [(hkeeps (hlt m hm)).2]
    exact heq m hm

end Changes

theorem getElem?_set_cases {α : Type} {xs : List α} {i j : Nat} {x y : α}
    (h : (xs.set i x)[j]? = some y) : (j = i ∧ y = x) ∨ (j ≠ i ∧ xs[j]? = some y) := by
  by_cases hij : i = j
  · subst hij
    rw [List.getElem?_set_self'] at h
    obtain ⟨_, -, rfl⟩ := Option.map_eq_some_iff.mp h
    exact Or.inl ⟨rfl, rfl⟩
  · rw [List.getElem?_set_ne hij] at h
    exact Or.inr ⟨Ne.symm hij, h⟩

theorem getElem?_set_of {α : Type} {xs : List α} {i : Nat} {x : α} (h : xs[i]? = some x) (y : α) :
    (xs.set i y)[i]? = some y := List.getElem?_set_self (List.getElem?_eq_some_iff.mp h).1

theorem getElem?_concat_of {α : Type} {xs : List α} {i : Nat} {x : α} (h : xs[i]? = some x) (y : α) :
    (xs ++ [y])[i]? = some x :=
  (List.getElem?_append_left (List.getElem?_eq_some_iff.mp h).1).trans h

theorem getElem?_concat_cases {α : Type} {xs : List α} {i : Nat} {x y : α}
    (h : (xs ++ [y])[i]? = some x) : xs[i]? = some x ∨ x = y := by
  rw [List.getElem?_append] at h
  split at h
  · exact Or.inl h
  · exact Or.inr (List.mem_singleton.mp (List.mem_of_getElem? h))

/-- A new maker's file is a new one. -/
theorem made_after {h₀ : Host} {hands : Hands} (hc : Host.Change h₀ deed h)
    (hmade : (hands.after deed).made = true) :
    ((hands.after deed).found = some h₀.disk.files.size) ∨
      (hands.made = true ∧ (hands.after deed).found = hands.found) := by
  cases hc with
  | quiet hidle =>
    rw [hidle] at hmade ⊢
    exact Or.inr ⟨hmade, rfl⟩
  | create => exact Or.inl rfl
  | «open» => cases hmade
  | _ => exact Or.inr ⟨hmade, rfl⟩

/-- No two threads are the makers of one file after one of them has done an operation. -/
theorem Sound.makers_after {numbering : Numbering} {refused : Operation → Option SystemError}
    (hs : M.Sound) (ha : M.parties[i]? = some a)
    (hc : Host.Change (M.sees process numbering refused) deed h) {j k : Nat} {b c : Party}
    (hb : (M.parties.set i (a.next deed phase))[j]? = some b)
    (hc' : (M.parties.set i (a.next deed phase))[k]? = some c)
    (hmade : b.hands.made = true ∧ c.hands.made = true) (hfound : b.hands.found = c.hands.found) :
    j = k := by
  -- The file of whoever has just become a maker is not that of another thread.
  have hnew : ∀ {l : Nat} {d : Party}, M.parties[l]? = some d → d.hands.made = true →
      (a.hands.after deed).made = true → (a.hands.after deed).found = d.hands.found → l = i := by
    intro l d hd hdmade hamade heq
    rcases made_after hc hamade with hsize | ⟨hbefore, hsame⟩
    · exact absurd ((hs.settled hd).held.found_lt _ (heq.symm.trans hsize)) (Nat.lt_irrefl _)
    · exact hs.makers hd ha ⟨hdmade, hbefore⟩ (heq.symm.trans hsame)
  rcases getElem?_set_cases hb with ⟨hj, rfl⟩ | ⟨-, hold⟩
  · rcases getElem?_set_cases hc' with ⟨hk, -⟩ | ⟨-, hold'⟩
    · exact hj.trans hk.symm
    · exact hj.trans (hnew hold' hmade.2 hmade.1 hfound).symm
  · rcases getElem?_set_cases hc' with ⟨hk, rfl⟩ | ⟨-, hold'⟩
    · exact (hnew hold hmade.1 hmade.2 hfound.symm).trans hk.symm
    · exact hs.makers hold hold' hmade hfound

/-- An operation that its thread may do keeps the bookkeeping of all processes right. -/
theorem Sound.after (hs : M.Sound) (ha : M.parties[i]? = some a)
    (hallows : a.hands.Allows operation) (hd : M.Does a.process operation outcome h)
    (hnext : (a.next ⟨operation, outcome⟩ phase).Orderly) :
    (M.after i a h ⟨operation, outcome⟩ phase).Sound := by
  have hproper := hs.proper ha hallows
  have hsound : h.Sound := by
    cases hd
    exact hs.sees.1.perform hproper
  cases hd with
  | @intro numbering refused hnumbering =>
  have hc := Host.perform_change (h := M.sees a.process numbering refused) hs.formed operation
  generalize ((M.sees a.process numbering refused).perform operation).2 = h at *
  generalize ((M.sees a.process numbering refused).perform operation).1 = outcome at *
  obtain ⟨hextends, hformed⟩ := hc.extends_ hs.formed
  have hbefore := hs.held ha numbering refused
  have hheld := hc.held hs.sees.1 hs.sees.2 hproper hs.formed hallows hbefore
  have hown : (M.after i a h ⟨operation, outcome⟩ phase).host a.process = h := host_setHost_self
  have hothers : ∀ {process}, process ≠ a.process →
      (M.after i a h ⟨operation, outcome⟩ phase).host process =
        { M.host process with disk := h.disk } := host_setHost_of_ne
  constructor
  case formed => exact hformed
  case distinct => exact fun hf hg hidentity => hs.distinct_after hc hproper hnumbering hf hg hidentity
  case hosts =>
    intro process
    by_cases hp : process = a.process
    · rw [hp, hown]
      exact hsound
    · rw [hothers hp]
      exact (hs.hosts process).of_extends hextends
  case remembers =>
    intro process
    by_cases hp : process = a.process
    · rw [hp, hown]
      exact hc.remembers hs.sees.1 hs.formed (hs.remembers a.process)
    · rw [hothers hp]
      intro mapping hin
      have hlt := (hs.hosts process).mapped_lt mapping (Host.lt_of_inUse hin)
      have hknown := hs.remembers process mapping hin
      change (M.host process).known.lookup (h.disk.identity ((M.host process).fileOf mapping)) = _
      rw [hextends.identity_eq _ hlt]
      exact hknown
  case opened =>
    intro process file
    have hcount := countP_set (p := Party.opens process file)
      (y := a.next ⟨operation, outcome⟩ phase) ha
    rw [← hs.opened] at hcount
    by_cases hp : process = a.process
    · subst hp
      have hopened := hc.count_opened (f := file) hallows (hs.count_pos ha)
      simp only [Party.opens, Party.next, true_and, decide_eq_true_eq] at hcount
      rw [hown]
      exact Nat.add_right_cancel (hopened.trans hcount.symm)
    · simp only [Party.opens, Party.next, Ne.symm hp, false_and, decide_false] at hcount
      rw [hothers hp]
      exact hcount.symm
  case users =>
    intro process mapping
    have hcount := countP_set (p := Party.uses process mapping)
      (y := a.next ⟨operation, outcome⟩ phase) ha
    rw [← hs.users] at hcount
    by_cases hp : process = a.process
    · subst hp
      have husers := hc.users_eq (m := mapping) hallows (hs.users_pos ha)
      simp only [Party.uses, Party.next, true_and, decide_eq_true_eq] at hcount
      rw [hown]
      exact Nat.add_right_cancel (husers.trans hcount.symm)
    · simp only [Party.uses, Party.next, Ne.symm hp, false_and, decide_false] at hcount
      rw [hothers hp]
      exact hcount.symm
  case settled =>
    intro j b hb
    rcases getElem?_set_cases hb with ⟨-, rfl⟩ | ⟨-, hb⟩
    · refine ⟨?_, hnext⟩
      change (a.hands.after ⟨operation, outcome⟩).Held
        ((M.after i a h ⟨operation, outcome⟩ phase).host a.process)
      rw [hown]
      exact hheld
    · obtain ⟨hheld', horderly⟩ := (hs.settled hb).setHost hc hextends
      exact ⟨hheld', horderly⟩
  case makers => exact fun hb hc' hmade hfound => hs.makers_after ha hc hb hc' hmade hfound

theorem Does.exists_perform (hd : M.Does process operation outcome h) : ∃ numbering refused,
    outcome = ((M.sees process numbering refused).perform operation).1 ∧
      h = ((M.sees process numbering refused).perform operation).2 := by
  cases hd with
  | @intro numbering refused hnumbering => exact ⟨numbering, refused, rfl, rfl⟩

/-- There is a number that no file has. -/
theorem exists_numbering (M : Machine) :
    ∃ numbering : Numbering, ∀ used other, numbering.1 used ∉ (M.host other).used := by
  let bound := (M.disk.files.toList.map File.identity).foldr max 0
  refine ⟨⟨fun used => max bound (used.foldr max 0) + 1, fun used hmem => ?_⟩, fun used other hmem => ?_⟩
  · have hle := Numbering.le_foldr_max hmem
    dsimp only at hle
    omega
  · obtain ⟨serial, -, hidentity⟩ := List.mem_map.mp hmem
    have hle : M.disk.identity serial ≤ bound := by
      unfold Disk.identity
      split
      · rename_i file hfile
        refine Numbering.le_foldr_max (List.mem_map_of_mem ?_)
        exact Array.mem_toList_iff.mpr (Array.mem_of_getElem? hfile)
      · exact Nat.zero_le _
    change M.disk.identity serial = max bound (used.foldr max 0) + 1 at hidentity
    omega

/-- A system that refuses nothing can always go on. -/
theorem exists_willing (M : Machine) (process : Nat) (operation : Operation) :
    ∃ numbering : Numbering, M.Does process operation
      ((M.sees process numbering fun _ => none).carryOut operation).1
      ((M.sees process numbering fun _ => none).carryOut operation).2 := by
  obtain ⟨numbering, hnumbering⟩ := M.exists_numbering
  have hdoes := @Does.intro M process operation numbering (fun _ => none)
    fun _ _ _ other => hnumbering _ other
  rw [Host.perform_of_willing rfl] at hdoes
  exact ⟨numbering, hdoes⟩

theorem Does.unmap (M : Machine) (process mapping : Nat) :
    M.Does process (.unmap mapping) () ((M.host process).unmap mapping) := by
  have hdoes := @Does.intro M process (.unmap mapping) (M.host process).numbering
    (M.host process).refused (fun _ _ hcreate => nomatch hcreate)
  rw [Host.perform_eq fun _ => rfl] at hdoes
  exact hdoes

/-- Only the hands of the threads count. -/
theorem Sound.of_parties (hs : M.Sound) {parties : List Party}
    (hopened : ∀ process file, parties.countP (Party.opens process file) =
      M.parties.countP (Party.opens process file))
    (husers : ∀ process mapping, parties.countP (Party.uses process mapping) =
      M.parties.countP (Party.uses process mapping))
    (hsettled : ∀ {i : Nat} {b : Party}, parties[i]? = some b → M.Settled b)
    (hmakers : ∀ {i : Nat} {b : Party}, parties[i]? = some b → b.hands.made = true →
      ∃ a, M.parties[i]? = some a ∧ a.hands.made = true ∧ a.hands.found = b.hands.found) :
    Sound { M with parties } where
  formed := hs.formed
  hosts := hs.hosts
  distinct := hs.distinct
  opened process file := (hs.opened process file).trans (hopened process file).symm
  users process mapping := (hs.users process mapping).trans (husers process mapping).symm
  remembers := hs.remembers
  settled hb := ⟨(hsettled hb).held, (hsettled hb).orderly⟩
  makers hb hc hmade hfound := by
    obtain ⟨b', hb', hmade', hfound'⟩ := hmakers hb hmade.1
    obtain ⟨c', hc', hmade'', hfound''⟩ := hmakers hc hmade.2
    exact hs.makers hb' hc' ⟨hmade', hmade''⟩ (hfound'.trans (hfound.trans hfound''.symm))

theorem Sound.begin (hs : M.Sound) (process : Nat) (plan : Plan) : (M.begin process plan).Sound := by
  refine hs.of_parties (fun process' file => ?_) (fun process' mapping => ?_) (fun hb => ?_)
    fun hb hmade => ?_
  · simp [List.countP_append, Party.opens, Party.hands]
  · simp [List.countP_append, Party.uses, Party.hands]
  · rcases getElem?_concat_cases hb with hb | rfl
    · exact hs.settled hb
    · exact ⟨⟨nofun, nofun, nofun, nofun⟩, plan.orderly_script ⟨rfl, rfl⟩⟩
  · rcases getElem?_concat_cases hb with hb | rfl
    · exact ⟨_, hb, hmade, rfl⟩
    · cases hmade

theorem Sound.setPhase (hs : M.Sound) (ha : M.parties[i]? = some a)
    (hphase : Party.Orderly { a with phase }) : (M.setPhase i a phase).Sound := by
  refine hs.of_parties (fun process file => ?_) (fun process mapping => ?_) (fun hb => ?_)
    fun hb hmade => ?_
  · have hcount := countP_set (p := Party.opens process file) (y := { a with phase }) ha
    exact Nat.add_right_cancel hcount
  · have hcount := countP_set (p := Party.uses process mapping) (y := { a with phase }) ha
    exact Nat.add_right_cancel hcount
  · rcases getElem?_set_cases hb with ⟨-, rfl⟩ | ⟨-, hb⟩
    · exact ⟨(hs.settled ha).held, hphase⟩
    · exact hs.settled hb
  · rcases getElem?_set_cases hb with ⟨rfl, rfl⟩ | ⟨-, hb⟩
    · exact ⟨a, ha, hmade, rfl⟩
    · exact ⟨_, hb, hmade, rfl⟩

def setShared (M : Machine) (file : Nat) (q : Shared) : Machine :=
  { M with disk := M.disk.setShared file q }

theorem Sound.setShared (hs : M.Sound) (file : Nat) (q : Shared) : (M.setShared file q).Sound := by
  have hextends := Disk.extends_setShared M.disk file q
  have hidentity : ∀ other, (M.disk.setShared file q).identity other = M.disk.identity other :=
    Disk.identity_modify M.disk file (by intro _; rfl)
  have hserves : ∀ {f}, (M.setShared file q).Serves f → M.Serves f := id
  constructor
  case formed => exact hs.formed.of_nodes rfl hextends.size_le
  case hosts => exact fun process => (hs.hosts process).of_extends hextends
  case distinct =>
    intro f g hf hg heq
    exact hs.distinct (hserves hf) (hserves hg) ((hidentity f).symm.trans (heq.trans (hidentity g)))
  case opened => exact hs.opened
  case users => exact hs.users
  case remembers =>
    intro process mapping hin
    exact (congrArg (fun identity => (M.host process).known.lookup identity) (hidentity _)).trans
      (hs.remembers process mapping hin)
  case settled =>
    intro i a ha
    obtain ⟨hheld, horderly⟩ := hs.settled ha
    exact ⟨⟨fun f hf => Nat.lt_of_lt_of_le (hheld.found_lt f hf) hextends.size_le, hheld.file_eq,
      hheld.mapping_lt, hheld.mapping_eq⟩, horderly⟩
  case makers => exact hs.makers

end Machine

end MappedQueue
