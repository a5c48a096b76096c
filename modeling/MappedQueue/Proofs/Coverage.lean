import Mathlib.Logic.Relation
import MappedQueue.Proofs.Machines

/-!
# How much of a file a mapping covers

A thread that creates a queue file or attaches to one goes on using the mapping it got, and
it takes every slot of the sizing to lie inside. It does if the thread made the mapping: what
it asked for is the length that belongs to the sizing. But the process hands out a mapping
that it has in use to whoever asks for one of the same file, and does not look at the length.
So a thread that joins a mapping made while the file was shorter has slots outside of it, and
in no other case has a thread any.

A history of a process is a sequence of single operations of its threads in any order.
Between two of them the disk may become any other: other programs cut, extend and rewrite
files, put new ones in their place or remove them.
-/

namespace MappedQueue

/-- What a thread sets out to do. -/
inductive Demand where
  | create (path : String) (sizing : Sizing) (mode : Nat)
  | attach (path : String)
  deriving DecidableEq

def Demand.script : Demand → Script (Except Error Store)
  | create path sizing mode => Store.create path sizing mode
  | attach path => Store.attach path

/-- How far a thread is with its demand. -/
inductive Demand.Stage where
  | running (rest : Script (Except Error Store))
  | keeping (store : Store)
  | over

/-- A thread, with its operations so far, latest first. -/
structure Keeper where
  stage : Demand.Stage
  past : List Deed := []

/-- A process and its threads. -/
structure Process where
  host : Host
  keepers : List Keeper := []

namespace Host

/-- How many bytes of its file a mapping has. -/
def lengthOf (h : Host) (mapping : Nat) : Nat := (h.mappings[mapping]?.getD default).length

variable {h h' : Host} {deed : Deed} {m : Nat}

theorem lengthOf_modify (h : Host) (mapping : Nat) {f : Mapping → Mapping}
    (hf : ∀ m, (f m).length = m.length) (other : Nat) :
    lengthOf { h with mappings := h.mappings.modify mapping f } other = h.lengthOf other := by
  simp only [lengthOf]
  rcases getElem?_modify_cases h.mappings mapping f other with hsame | ⟨m, hm, hchanged⟩
  · rw [hsame]
  · rw [hchanged, hm]
    exact hf m

theorem lengthOf_push (h : Host) (m : Mapping) (mapping : Nat) :
    lengthOf { h with mappings := h.mappings.push m } mapping =
      if mapping = h.mappings.size then m.length else h.lengthOf mapping := by
  simp only [lengthOf, Array.getElem?_push]
  split <;> rfl

/-- Mappings keep their lengths. -/
theorem Change.lengthOf_eq (hc : Change h deed h') (hlt : m < h.mappings.size) :
    h'.lengthOf m = h.lengthOf m := by
  cases hc with
  | quiet _ hquiet => rw [lengthOf, lengthOf, hquiet.mappings_eq]
  | join => exact lengthOf_modify h _ (by intro _; rfl) m
  | unmap => exact lengthOf_modify h _ (by intro _; rfl) m
  | map => exact (lengthOf_push h _ m).trans (if_neg (Nat.ne_of_lt hlt))
  | _ => rfl

end Host

namespace Deed

/-- The mapping that a thread got last and the length that it had asked for, after one more
operation. -/
def asked (before : Option (Nat × Nat)) : Deed → Option (Nat × Nat)
  | ⟨.map _ length, .ok mapping⟩ => some (mapping, length)
  | _ => before

end Deed

/-- The rules for what a thread has asked for. -/
def askingRules : Rules (Option (Nat × Nat)) where
  after := Deed.asked
  Allows _ _ := True
  Faults := True

/-- A thread with a store has asked for all the bytes that belong to its sizing. -/
def Store.AskedFor (asked : Option (Nat × Nat)) (result : Except Error Store) : Prop :=
  ∀ store, result = .ok store → asked = some (store.mapping, store.sizing.fileSize)

namespace Store

variable {asked : Option (Nat × Nat)}

theorem askedFor_error {error : Error} : AskedFor asked (.error error) := nofun

/-- The sizing that is read from a file belongs to the length it is compared with. -/
theorem asking_preamble (mapping length : Nat) :
    (Script.through mapping (preamble length)).Obeys askingRules
      (fun asked' result => asked' = asked ∧
        ∀ sizing, result = .ok sizing → length = sizing.fileSize) asked := by
  refine And.intro trivial fun (tag : Nat) _ => ?_
  change Script.Obeys askingRules _ (Script.through mapping
    (if tag = 0 then Access.done (Except.error Error.notReady) else _)) asked
  split
  · exact ⟨rfl, nofun⟩
  · change Script.Obeys askingRules _ (Script.through mapping
      (if tag ≠ Layout.validTag then Access.done (Except.error Error.badHandle) else _)) asked
    split
    · exact ⟨rfl, nofun⟩
    · refine And.intro trivial fun (capacity : Nat) _ =>
        And.intro trivial fun (messageSize : Nat) _ => ?_
      change Script.Obeys askingRules _ (Script.through mapping
        (if (Sizing.mk capacity messageSize).fileSize? = some length then
          Access.done (Except.ok (Sizing.mk capacity messageSize)) else _)) asked
      split
      case isTrue hsize =>
        refine ⟨rfl, fun sizing hsizing => ?_⟩
        cases hsizing
        exact (Sizing.fileSize?_eq_some.mp hsize).2
      case isFalse => exact ⟨rfl, nofun⟩

theorem asking_attach (path : String) : (attach path).Obeys askingRules AskedFor asked := by
  refine .call trivial fun outcome _ => ?_
  cases outcome with
  | error error => exact askedFor_error
  | ok file =>
    refine .call trivial fun (length : Nat) _ => ?_
    split
    · exact .call trivial fun _ _ => askedFor_error
    · refine .call trivial fun mapped _ => .call trivial fun _ _ => ?_
      cases mapped with
      | error error => exact askedFor_error
      | ok mapping =>
        refine (asking_preamble mapping length).bind fun _ result hresult => ?_
        obtain ⟨rfl, hlength⟩ := hresult
        cases result with
        | ok sizing =>
          intro store hstore
          cases hstore
          exact congrArg (fun n => some (mapping, n)) (hlength sizing rfl)
        | error error => exact .call trivial fun _ _ => askedFor_error

theorem asking_create (path : String) (s : Sizing) (mode : Nat) :
    (create path s mode).Obeys askingRules AskedFor asked := by
  unfold create
  cases hsize : s.fileSize? with
  | none => exact askedFor_error
  | some length =>
    refine .call trivial fun outcome _ => ?_
    cases outcome with
    | error error => exact askedFor_error
    | ok file =>
      have hextend : (extend file length).Obeys askingRules
          (fun asked' result => ∀ mapping, result = .ok mapping → asked' = some (mapping, length))
          asked := by
        refine .call trivial fun outcome _ => ?_
        cases outcome with
        | error error => exact nofun
        | ok u =>
          refine ⟨trivial, fun mapped _ => ?_⟩
          cases mapped with
          | error error => exact nofun
          | ok mapping => exact fun _ h => by cases h; rfl
      refine hextend.bind fun asked' result hresult => ?_
      cases result with
      | ok mapping =>
        refine .call trivial fun _ _ store hstore => ?_
        cases hstore
        rw [← (Sizing.fileSize?_eq_some.mp hsize).2]
        exact hresult mapping rfl
      | error error => exact .call trivial fun _ _ => .call trivial fun _ _ => askedFor_error

end Store

namespace Demand

theorem orderly_script {hands : Hands} (e : Demand) (he : hands.Empty) :
    e.script.Orderly Hands.Fits hands := by
  cases e with
  | create path sizing mode =>
    exact Script.Obeys.mono (fun _ _ h => h.1) (Store.orderly_create path sizing mode he)
  | attach path => exact Store.orderly_attach path he

theorem asking_script {asked : Option (Nat × Nat)} (e : Demand) :
    e.script.Obeys askingRules Store.AskedFor asked := by
  cases e with
  | create path sizing mode => exact Store.asking_create path sizing mode
  | attach path => exact Store.asking_attach path

end Demand

namespace Keeper

def hands (k : Keeper) : Hands := k.past.foldr (fun deed hands => hands.after deed) {}

/-- The mapping that the thread got last, and the length that it had asked for. -/
def asked (k : Keeper) : Option (Nat × Nat) := k.past.foldr (fun deed asked => deed.asked asked) none

def uses (mapping : Nat) (k : Keeper) : Bool := k.hands.mapping = some mapping

/-- What the thread goes on with fits what it has done. -/
def Fits (k : Keeper) : Prop :=
  match k.stage with
  | .running rest => rest.Orderly Hands.Fits k.hands ∧ rest.Obeys askingRules Store.AskedFor k.asked
  | .keeping store => k.hands.Fits (.ok store) ∧ Store.AskedFor k.asked (.ok store)
  | .over => k.hands.Empty

end Keeper

namespace Process

/-- The threads of a process do one operation, or a thread begins, ends or gives its store
back, or the disk becomes another. What the system refuses and how it numbers new files may
be different every time. -/
inductive Step (p : Process) : Process → Prop
  | begin (e : Demand) : Step p { p with keepers := p.keepers ++ [⟨.running e.script, []⟩] }
  | operate {i : Nat} {operation : Operation}
      {next : operation.Outcome → Script (Except Error Store)} {past : List Deed}
      (numbering : Numbering) (refused : Operation → Option SystemError)
      (hk : p.keepers[i]? = some ⟨.running (.perform operation next), past⟩)
      {outcome : operation.Outcome} {h : Host}
      (hp : ({ p.host with numbering, refused } : Host).perform operation = (outcome, h)) :
      Step p ⟨h, p.keepers.set i ⟨.running (next outcome), ⟨operation, outcome⟩ :: past⟩⟩
  | keep {i : Nat} {store : Store} {past : List Deed}
      (hk : p.keepers[i]? = some ⟨.running (.done (.ok store)), past⟩) :
      Step p { p with keepers := p.keepers.set i ⟨.keeping store, past⟩ }
  | fail {i : Nat} {error : Error} {past : List Deed}
      (hk : p.keepers[i]? = some ⟨.running (.done (.error error)), past⟩) :
      Step p { p with keepers := p.keepers.set i ⟨.over, past⟩ }
  | drop {i : Nat} {store : Store} {past : List Deed}
      (hk : p.keepers[i]? = some ⟨.keeping store, past⟩) :
      Step p ⟨p.host.unmap store.mapping,
        p.keepers.set i ⟨.over, ⟨.unmap store.mapping, ()⟩ :: past⟩⟩
  | outside (disk : Disk) (hf : disk.Formed) : Step p { p with host := { p.host with disk } }

/-- A part of a history. -/
def Leads : Process → Process → Prop := Relation.ReflTransGen Step

/-- A process without threads that has mapped nothing. -/
structure Starts (p : Process) : Prop where
  formed : p.host.disk.Formed
  mappings_eq : p.host.mappings = #[]
  keepers_eq : p.keepers = []

/-- The bookkeeping of a process is right. -/
structure Sound (p : Process) : Prop where
  formed : p.host.disk.Formed
  users (mapping : Nat) : p.host.users mapping = p.keepers.countP (Keeper.uses mapping)
  fits {i : Nat} {k : Keeper} (hk : p.keepers[i]? = some k) : k.Fits

variable {p q : Process} {i m n : Nat} {k k' : Keeper} {store : Store} {past : List Deed}

theorem Starts.sound (hp : p.Starts) : p.Sound := by
  refine ⟨hp.formed, fun mapping => ?_, fun hk => ?_⟩
  · rw [hp.keepers_eq, Host.users, hp.mappings_eq]
    rfl
  · rw [hp.keepers_eq] at hk
    cases hk

theorem Sound.users_pos (hs : p.Sound) (hk : p.keepers[i]? = some k)
    (hmapping : k.hands.mapping = some m) : 0 < p.host.users m := by
  rw [hs.users]
  exact Machine.countP_pos_of_getElem? hk (decide_eq_true hmapping)

/-- A thread comes to another stage without an operation. -/
theorem Sound.setStage (hs : p.Sound) {stage stage' : Demand.Stage}
    (hk : p.keepers[i]? = some ⟨stage, past⟩) (hfits : Keeper.Fits ⟨stage', past⟩) :
    Sound { p with keepers := p.keepers.set i ⟨stage', past⟩ } := by
  refine ⟨hs.formed, fun mapping => ?_, fun hk' => ?_⟩
  · have hcount := Machine.countP_set (p := Keeper.uses mapping) (y := ⟨stage', past⟩) hk
    exact (hs.users mapping).trans (Nat.add_right_cancel hcount).symm
  · rcases Machine.getElem?_set_cases hk' with ⟨-, rfl⟩ | ⟨-, hk'⟩
    · exact hfits
    · exact hs.fits hk'

/-- An operation that its thread may do keeps the bookkeeping right. -/
theorem Sound.after (hs : p.Sound) (hk : p.keepers[i]? = some k) {h₀ h : Host} {deed : Deed}
    {stage : Demand.Stage} (hc : Host.Change h₀ deed h) (hformed : h₀.disk.Formed)
    (hmappings : h₀.mappings = p.host.mappings) (hallows : k.hands.Allows deed.operation)
    (hfits : Keeper.Fits ⟨stage, deed :: k.past⟩) :
    Sound ⟨h, p.keepers.set i ⟨stage, deed :: k.past⟩⟩ := by
  have husers : ∀ mapping, h₀.users mapping = p.keepers.countP (Keeper.uses mapping) :=
    fun mapping => by rw [← hs.users, Host.users, Host.users, hmappings]
  refine ⟨(hc.extends_ hformed).2, fun mapping => ?_, fun hk' => ?_⟩
  · have hcount := Machine.countP_set (p := Keeper.uses mapping) (y := ⟨stage, deed :: k.past⟩) hk
    have hchange := hc.users_eq (m := mapping) hallows fun hmapping => by
      rw [husers]
      exact Machine.countP_pos_of_getElem? hk (decide_eq_true hmapping)
    rw [← husers] at hcount
    simp only [Keeper.uses, decide_eq_true_eq] at hcount
    exact Nat.add_right_cancel (hchange.trans hcount.symm)
  · rcases Machine.getElem?_set_cases hk' with ⟨-, rfl⟩ | ⟨-, hk'⟩
    · exact hfits
    · exact hs.fits hk'

/-- The thread is about to ask for the first `n` bytes of a file, and its process has another
thread use a mapping of the file that has fewer. -/
structure Joins (p : Process) (i m n : Nat) : Prop where
  asks : ∃ file next past, p.keepers[i]? = some ⟨.running (.perform (.map file n) next), past⟩ ∧
    p.host.known.lookup (p.host.disk.identity file) = some m
  other : ∃ j k, j ≠ i ∧ p.keepers[j]? = some k ∧ k.hands.mapping = some m
  short : p.host.lengthOf m < n

/-- Whose mapping a thread has got: it has as many bytes as the thread asked for, or the
thread joins it. -/
def Serves (p q : Process) (i m n : Nat) : Prop :=
  m < q.host.mappings.size ∧ (n ≤ q.host.lengthOf m ∨ p.Joins i m n)

/-- Mappings stay what they are. -/
def Persists (p q : Process) : Prop :=
  ∀ m < p.host.mappings.size, m < q.host.mappings.size ∧ q.host.lengthOf m = p.host.lengthOf m

/-- An operation gives its thread a mapping of the length it asks for, or the thread joins a
mapping that another uses, or it has what it had. -/
theorem Sound.serves (hs : p.Sound) {operation : Operation} {outcome : operation.Outcome}
    {next : operation.Outcome → Script (Except Error Store)} {h : Host} {numbering : Numbering}
    {refused : Operation → Option SystemError} (ks : List Keeper)
    (hk : p.keepers[i]? = some ⟨.running (.perform operation next), past⟩)
    (hc : Host.Change { p.host with numbering, refused } ⟨operation, outcome⟩ h)
    {before : Option (Nat × Nat)} (hasked : Deed.asked before ⟨operation, outcome⟩ = some (m, n)) :
    before = some (m, n) ∨ p.Serves ⟨h, ks⟩ i m n := by
  obtain ⟨⟨hallows, -⟩, -⟩ := hs.fits hk
  cases operation with
  | map file length =>
    cases outcome with
    | error error => exact Or.inl hasked
    | ok mapping =>
      cases hasked
      have hnone : (Keeper.hands ⟨.running (.perform (.map file n) next), past⟩).mapping = none :=
        hallows.2
      cases hc with
      | quiet hidle => cases hidle { mapping := none }
      | join hknown hin =>
        have hlt := Host.lt_of_inUse hin
        refine Or.inr ⟨by rw [Array.size_modify]; exact hlt, ?_⟩
        rw [Host.lengthOf_modify _ _ (by intro _; rfl)]
        refine (Nat.lt_or_ge (p.host.lengthOf m) n).symm.imp id fun hshort => ?_
        -- Whoever uses the mapping is another thread, for this one has none.
        have hpos : 0 < p.keepers.countP (Keeper.uses m) := by
          rw [← hs.users]
          exact Host.inUse_iff.mp hin
        obtain ⟨k, hmem, huses⟩ := List.countP_pos_iff.mp hpos
        obtain ⟨j, hj⟩ := List.mem_iff_getElem?.mp hmem
        have hmapping : k.hands.mapping = some m := of_decide_eq_true huses
        refine ⟨⟨file, next, past, hk, hknown⟩, ⟨j, k, ?_, hj, hmapping⟩, hshort⟩
        rintro rfl
        cases hj.symm.trans hk
        rw [hnone] at hmapping
        cases hmapping
      | map =>
        have hlength := Host.lengthOf_push p.host ⟨file, n, 1⟩ p.host.mappings.size
        rw [if_pos rfl] at hlength
        refine Or.inr ⟨by rw [Array.size_push]; exact Nat.lt_succ_self _, Or.inl ?_⟩
        exact Nat.le_of_eq hlength.symm
  | createFile | openFile => cases outcome <;> exact Or.inl hasked
  | _ => exact Or.inl hasked

/-- What one step preserves: the bookkeeping, the mappings, and what the threads have asked
for, unless a thread gets a mapping. -/
theorem Sound.step (hs : p.Sound) (hstep : Step p q) : q.Sound ∧ Persists p q ∧
    ∀ {i k'}, q.keepers[i]? = some k' → k'.asked = some (m, n) →
      (∃ k, p.keepers[i]? = some k ∧ k.asked = some (m, n)) ∨ p.Serves q i m n := by
  have hsame : ∀ {q : Process}, q.host.mappings = p.host.mappings → Persists p q := by
    intro q heq m hlt
    rw [Host.lengthOf, Host.lengthOf, heq]
    exact ⟨hlt, rfl⟩
  cases hstep with
  | begin e =>
    refine ⟨⟨hs.formed, fun mapping => ?_, fun hk => ?_⟩, hsame rfl, fun hk hasked => ?_⟩
    · rw [List.countP_append]
      exact hs.users mapping
    · rcases Machine.getElem?_concat_cases hk with hk | rfl
      · exact hs.fits hk
      · exact ⟨e.orderly_script ⟨rfl, rfl⟩, e.asking_script⟩
    · rcases Machine.getElem?_concat_cases hk with hk | rfl
      · exact Or.inl ⟨_, hk, hasked⟩
      · cases hasked
  | @operate i operation next past numbering refused hk outcome h hp =>
    have hfits := hs.fits hk
    have hc := Host.perform_change (h := { p.host with numbering, refused }) hs.formed operation
    rw [hp] at hc
    refine ⟨hs.after hk hc hs.formed rfl hfits.1.1 ⟨?_, ?_⟩, fun m hlt => ?_, fun hk' hasked => ?_⟩
    · exact hfits.1.2 outcome trivial
    · exact hfits.2.2 outcome trivial
    · exact ⟨(hc.fileOf_eq hlt).2, hc.lengthOf_eq hlt⟩
    · rcases Machine.getElem?_set_cases hk' with ⟨rfl, rfl⟩ | ⟨-, hk'⟩
      · exact (hs.serves _ hk hc hasked).imp_left fun hbefore => ⟨_, hk, hbefore⟩
      · exact Or.inl ⟨_, hk', hasked⟩
  | keep hk =>
    have hfits := hs.fits hk
    refine ⟨hs.setStage hk hfits, hsame rfl, fun hk' hasked => ?_⟩
    rcases Machine.getElem?_set_cases hk' with ⟨rfl, rfl⟩ | ⟨-, hk'⟩
    · exact Or.inl ⟨_, hk, hasked⟩
    · exact Or.inl ⟨_, hk', hasked⟩
  | fail hk =>
    refine ⟨hs.setStage hk (hs.fits hk).1, hsame rfl, fun hk' hasked => ?_⟩
    rcases Machine.getElem?_set_cases hk' with ⟨rfl, rfl⟩ | ⟨-, hk'⟩
    · exact Or.inl ⟨_, hk, hasked⟩
    · exact Or.inl ⟨_, hk', hasked⟩
  | @drop i store past hk =>
    have hc : Host.Change p.host ⟨.unmap store.mapping, ()⟩ (p.host.unmap store.mapping) := .unmap
    obtain ⟨hfile, hmapping, -⟩ := (hs.fits hk).1
    refine ⟨hs.after hk hc hs.formed rfl hmapping ⟨hfile, rfl⟩, fun m hlt => ?_, fun hk' hasked => ?_⟩
    · exact ⟨(hc.fileOf_eq hlt).2, hc.lengthOf_eq hlt⟩
    · rcases Machine.getElem?_set_cases hk' with ⟨rfl, rfl⟩ | ⟨-, hk'⟩
      · exact Or.inl ⟨_, hk, hasked⟩
      · exact Or.inl ⟨_, hk', hasked⟩
  | outside disk hf =>
    exact ⟨⟨hf, hs.users, hs.fits⟩, hsame rfl, fun hk hasked => Or.inl ⟨_, hk, hasked⟩⟩

theorem Sound.leads (hs : p.Sound) (hr : p.Leads q) : q.Sound ∧ Persists p q := by
  induction hr with
  | refl => exact ⟨hs, fun m hlt => ⟨hlt, rfl⟩⟩
  | tail _ hstep ih =>
    obtain ⟨hq, hpersists⟩ := ih
    obtain ⟨hr, hpersists', -⟩ := hq.step (m := 0) (n := 0) hstep
    refine ⟨hr, fun m hlt => ?_⟩
    obtain ⟨hlt', hlength⟩ := hpersists m hlt
    obtain ⟨hlt'', hlength'⟩ := hpersists' m hlt'
    exact ⟨hlt'', hlength'.trans hlength⟩

/-- Whoever has got a mapping got one of the length he asked for, or has joined a shorter one
at some time. -/
theorem Starts.served (hp : p.Starts) (hr : p.Leads q) : ∀ {i k},
    q.keepers[i]? = some k → k.asked = some (m, n) → m < q.host.mappings.size ∧
      (n ≤ q.host.lengthOf m ∨ ∃ mid : Process, p.Leads mid ∧ mid.Leads q ∧ mid.Joins i m n) := by
  induction hr with
  | refl =>
    intro i k hk
    rw [hp.keepers_eq] at hk
    cases hk
  | @tail q r hr hstep ih =>
    intro i k hk hasked
    obtain ⟨-, hpersists, hbefore⟩ := (hp.sound.leads hr).1.step hstep
    rcases hbefore hk hasked with ⟨k₀, hk₀, hasked₀⟩ | ⟨hlt, hserves⟩
    · obtain ⟨hlt₀, hserved⟩ := ih hk₀ hasked₀
      obtain ⟨hlt, hlength⟩ := hpersists m hlt₀
      refine ⟨hlt, hserved.imp (fun hle => hlength ▸ hle) ?_⟩
      exact fun ⟨mid, hbefore, hafter, hjoins⟩ => ⟨mid, hbefore, hafter.tail hstep, hjoins⟩
    · exact ⟨hlt, hserves.imp_right fun hjoins => ⟨q, hr, .single hstep, hjoins⟩⟩

/-- The mapping of a store has all the bytes that belong to its sizing. -/
def Covers (p : Process) (store : Store) : Prop :=
  store.sizing.fileSize ≤ p.host.lengthOf store.mapping

instance (p : Process) (store : Store) : Decidable (p.Covers store) :=
  inferInstanceAs (Decidable (_ ≤ _))

/-- Every store has a mapping in use, and no slot of its sizing lies outside of the mapping,
unless its thread has joined a mapping that another thread was using and that had fewer
bytes than were asked for. If it has, the mapping does not cover the store. -/
theorem covered_unless_joined (hp : p.Starts) (hr : p.Leads q)
    (hk : q.keepers[i]? = some ⟨.keeping store, past⟩) :
    q.host.inUse store.mapping = true ∧
    (q.Covers store ↔ ¬ ∃ mid : Process, p.Leads mid ∧ mid.Leads q ∧
      mid.Joins i store.mapping store.sizing.fileSize) ∧
    (q.Covers store → ∀ slot, store.sizing.isSlot slot = true →
      slot + store.sizing.stride ≤ q.host.lengthOf store.mapping) := by
  obtain ⟨hq, -⟩ := hp.sound.leads hr
  obtain ⟨⟨-, hmapping, -⟩, hasked⟩ := hq.fits hk
  refine ⟨Host.inUse_iff.mpr (hq.users_pos hk hmapping), ⟨?_, fun hnot => ?_⟩, ?_⟩
  · rintro hcovers ⟨mid, hbefore, hafter, hjoins⟩
    obtain ⟨hmid, -⟩ := hp.sound.leads hbefore
    obtain ⟨j, k, -, hk', huses⟩ := hjoins.other
    have hlt := Host.lt_of_inUse (Host.inUse_iff.mpr (hmid.users_pos hk' huses))
    obtain ⟨-, hlength⟩ := (hmid.leads hafter).2 _ hlt
    have hshort := hjoins.short
    rw [← hlength] at hshort
    exact absurd hcovers (Nat.not_le_of_lt hshort)
  · exact (hp.served hr hk (hasked store rfl)).2.resolve_right hnot
  · intro hcovers slot hslot
    exact Nat.le_trans (Sizing.add_stride_le_of_isSlot hslot) hcovers

/-- A thread can come to the end of its script without anybody in between. -/
theorem exists_leads_done (ks : List Keeper) {result : Except Error Store} {h' : Host}
    (rest : Script (Except Error Store)) : ∀ (h : Host) (past : List Deed),
      rest.run h = (.ok result, h') → ∃ past',
        Leads ⟨h, ks ++ [⟨.running rest, past⟩]⟩ ⟨h', ks ++ [⟨.running (.done result), past'⟩]⟩ := by
  induction rest with
  | done a =>
    rintro h past hrun
    cases hrun
    exact ⟨past, .refl⟩
  | fault f => rintro h past ⟨⟩
  | perform operation next ih =>
    intro h past hrun
    obtain ⟨past', hleads⟩ := ih _ _ (⟨operation, (h.perform operation).1⟩ :: past) hrun
    have hstep := Step.operate (p := ⟨h, ks ++ [⟨.running (.perform operation next), past⟩]⟩)
      (i := ks.length) h.numbering h.refused List.getElem?_concat_length rfl
    simp only [List.set_append_right _ _ (Nat.le_refl _), Nat.sub_self, List.set_cons_zero] at hstep
    exact ⟨past', .head hstep hleads⟩

/-- A demand that succeeds when nobody comes between can be met in a history. -/
theorem exists_leads_keeping (h : Host) (ks : List Keeper) (e : Demand) (store : Store) {h' : Host}
    (hrun : e.script.run h = (.ok (.ok store), h')) :
    ∃ past, Leads ⟨h, ks⟩ ⟨h', ks ++ [⟨.keeping store, past⟩]⟩ := by
  obtain ⟨past, hleads⟩ := exists_leads_done ks _ h [] hrun
  have hkeep := Step.keep (p := ⟨h', ks ++ [⟨.running (.done (.ok store)), past⟩]⟩)
    List.getElem?_concat_length
  simp only [List.set_append_right _ _ (Nat.le_refl _), Nat.sub_self, List.set_cons_zero] at hkeep
  exact ⟨past, .head (.begin e) (hleads.tail hkeep)⟩

/-- A file of a queue with room for two messages. -/
def twoMessages : Region :=
  (((Region.zeros 248).write .capacity 2).write .messageSize 8).write .tag Layout.validTag

/-- One thread makes a queue with room for one message and keeps it. Then another program
makes a file with room for two of it, and another thread attaches to this file. -/
theorem exists_leads_outgrown : ∃ (p q : Process) (past past' : List Deed), p.Starts ∧ p.Leads q ∧
    q.keepers = [⟨.keeping ⟨0, ⟨1, 8⟩⟩, past⟩, ⟨.keeping ⟨0, ⟨2, 8⟩⟩, past'⟩] ∧
      q.host.lengthOf 0 = 224 := by
  let made := ((Store.create "/q" ⟨1, 8⟩ 0o600).run {}).2
  have hcreate : (Store.create "/q" ⟨1, 8⟩ 0o600).run {} = (.ok (.ok ⟨0, ⟨1, 8⟩⟩), made) :=
    Prod.ext (by decide +kernel) rfl
  let rewritten := made.disk.setShared 0 { region := twoMessages }
  obtain ⟨joined, hattach, hlength⟩ : ∃ joined, (Store.attach "/q").run
      { made with disk := rewritten } = (.ok (.ok ⟨0, ⟨2, 8⟩⟩), joined) ∧ joined.lengthOf 0 = 224 :=
    ⟨_, Prod.ext (by decide +kernel) rfl, by decide +kernel⟩
  obtain ⟨past, hfirst⟩ := exists_leads_keeping {} [] (.create "/q" ⟨1, 8⟩ 0o600) _ hcreate
  obtain ⟨past', hsecond⟩ := exists_leads_keeping _ [⟨.keeping ⟨0, ⟨1, 8⟩⟩, past⟩] (.attach "/q") _
    hattach
  have hstarts : Starts ⟨{}, []⟩ := ⟨Disk.formed_fresh, rfl, rfl⟩
  have hformed : rewritten.Formed := (hstarts.sound.leads hfirst).1.formed.of_nodes rfl
    (Nat.le_of_eq (Disk.size_setShared ..).symm)
  have hleads := (hfirst.tail (.outside rewritten hformed)).trans hsecond
  exact ⟨_, _, past, past', hstarts, hleads, rfl, hlength⟩

/-- The thread that attached has joined the mapping of the other, which does not cover it. -/
theorem covered_unless_joined_outgrown : ∃ (p q : Process) (past past' : List Deed),
    p.Starts ∧ p.Leads q ∧ q.keepers[0]? = some ⟨.keeping ⟨0, ⟨1, 8⟩⟩, past⟩ ∧
      q.keepers[1]? = some ⟨.keeping ⟨0, ⟨2, 8⟩⟩, past'⟩ ∧ q.host.inUse 0 = true ∧
      q.Covers ⟨0, ⟨1, 8⟩⟩ ∧ ¬ q.Covers ⟨0, ⟨2, 8⟩⟩ ∧
      ∃ mid : Process, p.Leads mid ∧ mid.Leads q ∧ mid.Joins 1 0 248 := by
  obtain ⟨p, q, past, past', hp, hr, hkeepers, hlength⟩ := exists_leads_outgrown
  have hk : q.keepers[1]? = some ⟨.keeping ⟨0, ⟨2, 8⟩⟩, past'⟩ := by rw [hkeepers]; rfl
  have hcovers : q.Covers ⟨0, ⟨1, 8⟩⟩ := by rw [Covers, hlength]; decide
  have hshort : ¬ q.Covers ⟨0, ⟨2, 8⟩⟩ := by rw [Covers, hlength]; decide
  obtain ⟨hin, hiff, -⟩ := covered_unless_joined hp hr hk
  refine ⟨p, q, past, past', hp, hr, by rw [hkeepers]; rfl, hk, hin, hcovers, hshort, ?_⟩
  exact not_not.mp fun hnot => hshort (hiff.mpr hnot)

/-- A store may have slots outside of its mapping. -/
theorem store_outgrows_mapping : ¬ ∀ (p q : Process) (i : Nat) (store : Store) (past : List Deed),
    p.Starts → p.Leads q → q.keepers[i]? = some ⟨.keeping store, past⟩ → q.Covers store := by
  intro hall
  obtain ⟨p, q, past, past', hp, hr, hkeepers, hlength⟩ := exists_leads_outgrown
  have hcovers := hall p q 1 ⟨0, ⟨2, 8⟩⟩ past' hp hr (by rw [hkeepers]; rfl)
  rw [Covers, hlength] at hcovers
  exact absurd hcovers (by decide)

end Process

end MappedQueue
