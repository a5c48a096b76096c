import MappedQueue.Proofs.Attaching
import MappedQueue.Proofs.Contests

/-!
# What the threads of a contest have done

A thread has made as many files as it has removed, and one more as long as it has a file of its
own. It removes a file only when the system has not let it use it.
-/

namespace MappedQueue

namespace Deed

/-- A file has been made. -/
def Creates (deed : Deed) : Bool :=
  match deed with
  | ⟨.createFile _ _, .ok _⟩ => true
  | _ => false

/-- A file is to be removed. -/
def Removes (deed : Deed) : Bool :=
  match deed with
  | ⟨.removeFile _, _⟩ => true
  | _ => false

/-- The system has not let a thread use a file that is there. -/
def Breaks : Deed → Prop
  | ⟨.setFileLength _ _, .error _⟩ | ⟨.map _ _, .error _⟩ | ⟨.prepareLock _, .error _⟩ => True
  | _ => False

end Deed

namespace Party

variable {a : Party} {deed : Deed} {phase : Phase}

/-- How many files a thread has made. -/
def created (a : Party) : Nat := a.past.countP Deed.Creates

/-- How often it has removed the file again. -/
def removed (a : Party) : Nat := a.past.countP Deed.Removes

/-- It has made a file that it has not removed again. -/
def Keeping (a : Party) : Prop := a.removed < a.created

/-- It has not been able to use a file. -/
def Broken (a : Party) : Prop := ∃ deed ∈ a.past, deed.Breaks

theorem created_next : (a.next deed phase).created = a.created + if deed.Creates = true then 1 else 0 :=
  List.countP_cons

theorem removed_next : (a.next deed phase).removed = a.removed + if deed.Removes = true then 1 else 0 :=
  List.countP_cons

theorem broken_next : (a.next deed phase).Broken = (deed.Breaks ∨ a.Broken) := by
  simp only [Broken, next, List.mem_cons, exists_eq_or_imp]

/-- What it has made and removed goes with the file that it has. -/
def Tallies (a : Party) : Prop :=
  (a.account.draft = none ∧ a.created = a.removed) ∨
    (a.account.draft ≠ none ∧ a.created = a.removed + 1)

theorem Tallies.keeping_iff (h : a.Tallies) : a.Keeping ↔ a.account.draft ≠ none := by
  unfold Keeping
  rcases h with ⟨hnone, heq⟩ | ⟨hsome, heq⟩
  · rw [heq, hnone]
    simp
  · rw [heq]
    simp [hsome]

end Party

/-- The rules for what is removed: the state is whether a file could not be used. -/
def tidyRules : Rules Prop where
  after broken deed := deed.Breaks ∨ broken
  Allows broken operation := match operation with
    | .removeFile _ => broken
    | _ => True
  Faults := True

/-- A script that ends with an error has not been able to use a file. -/
def Breaking {α ε : Type} (broken : Prop) (result : Except ε α) : Prop :=
  ∀ error, result = .error error → broken

theorem Script.tidy_through {α : Type} {mapping : Nat} (p : Access α) :
    ∀ {broken : Prop}, (through mapping p).Obeys tidyRules (fun _ _ => True) broken := by
  induction p with
  | done a => exact trivial
  | fault f => exact trivial
  | load field next ih => exact ⟨trivial, fun value _ => ih value⟩
  | store field value next ih => exact ⟨trivial, fun u _ => ih u⟩
  | fetch offset count next ih => exact ⟨trivial, fun bytes _ => ih bytes⟩
  | put offset bytes next ih => exact ⟨trivial, fun u _ => ih u⟩

section Tidy

variable {broken : Prop}

namespace Store

theorem tidy_attach (path : String) : (attach path).Obeys tidyRules (fun _ _ => True) broken :=
  Script.looks_attach
    (fun _ operation hlooks => by cases operation <;> first | exact trivial | exact hlooks.elim)
    trivial path broken

theorem tidy_extend (file length : Nat) : (extend file length).Obeys tidyRules Breaking broken := by
  refine .call trivial fun outcome _ => ?_
  cases outcome with
  | error error => exact fun _ _ => Or.inl trivial
  | ok u =>
    refine ⟨trivial, fun mapped _ => ?_⟩
    cases mapped with
    | error error => exact fun _ _ => Or.inl trivial
    | ok mapping => exact nofun

theorem tidy_create (path : String) (s : Sizing) (mode : Nat) :
    (create path s mode).Obeys tidyRules (fun _ _ => True) broken := by
  unfold create
  cases s.fileSize? with
  | none => exact trivial
  | some length =>
    refine .call trivial fun outcome _ => ?_
    cases outcome with
    | error error => exact trivial
    | ok file =>
      refine (tidy_extend file length).bind fun _ result hbreaking => ?_
      cases result with
      | ok mapping => exact .call trivial fun _ _ => trivial
      | error error => exact .call (hbreaking error rfl) fun _ _ => .call trivial fun _ _ => trivial

theorem tidy_initialise (store : Store) : store.initialise.Obeys tidyRules Breaking broken := by
  refine (Script.tidy_through _).bind fun _ _ _ => .call trivial fun prepared _ => ?_
  cases prepared with
  | error error => exact fun _ _ => Or.inl trivial
  | ok u => exact (Script.tidy_through _).bind fun _ _ _ => nofun

end Store

namespace Opening

theorem tidy_attach (path : String) (retries : Nat) : ∀ {broken : Prop},
    (attach path retries).Obeys tidyRules (fun _ _ => True) broken := by
  induction retries with
  | zero =>
    intro broken
    refine (Store.tidy_attach path).bind fun _ result _ => ?_
    split <;> exact trivial
  | succ retries ih =>
    intro broken
    refine (Store.tidy_attach path).bind fun _ result _ => ?_
    split
    · exact .call trivial fun _ _ => ih
    · exact trivial

theorem tidy_finish (path : String) (store : Store) :
    (finish path store).Obeys tidyRules (fun _ _ => True) broken := by
  refine (Store.tidy_initialise store).bind fun _ result hbreaking => ?_
  cases result with
  | ok u => exact trivial
  | error error =>
    exact .call trivial fun _ _ => .call (Or.inr (hbreaking error rfl)) fun _ _ => trivial

theorem tidy_join {path : String} {options : Options} {again : Script (Except Error Store)}
    (hagain : ∀ {broken : Prop}, again.Obeys tidyRules (fun _ _ => True) broken) :
    (join path options again).Obeys tidyRules (fun _ _ => True) broken := by
  refine (tidy_attach path options.retries).bind fun _ result _ => ?_
  cases result with
  | ok store => exact trivial
  | error error =>
    dsimp only
    split
    · exact hagain
    · exact trivial

theorem tidy_round (path : String) (options : Options) (left : Nat) : ∀ {broken : Prop},
    (round path options left).Obeys tidyRules (fun _ _ => True) broken := by
  induction left with
  | zero => exact fun {_} => trivial
  | succ left ih =>
    intro broken
    unfold round
    split
    · refine (Store.tidy_create ..).bind fun _ result _ => ?_
      cases result with
      | ok store => exact tidy_finish path store
      | error error =>
        dsimp only
        split
        · exact tidy_join ih
        · exact trivial
    · exact tidy_join ih

theorem tidy_run (directory name : String) (options : Options) :
    (run directory name options).Obeys tidyRules (fun _ _ => True) broken := by
  unfold run
  split
  · exact trivial
  · split
    · exact trivial
    · refine .call trivial fun made _ => ?_
      cases made with
      | error error => exact trivial
      | ok u => exact tidy_round _ _ _

end Opening

theorem Plan.tidy_script {directory name : String} {plan : Plan} (hseeks : plan.Seeks directory name) :
    plan.script.Obeys tidyRules (fun _ _ => True) broken := by
  cases plan with
  | opens directory' name' options =>
    exact (Opening.tidy_run _ _ options).bind fun _ _ _ => trivial
  | attaches path => exact (Store.tidy_attach path).bind fun _ _ _ => trivial
  | unlinks directory' name' => exact absurd hseeks id

end Tidy

namespace Realm

variable {R : Realm} {M : Machine} {directory name : String} {i : Nat} {a : Party}

/-- What every operation of a contest keeps holds of all its threads. -/
theorem Contest.forall_parties {P : Party → Prop} (hr : R.Contest directory name M)
    (hbegin : ∀ process plan, Plan.Seeks directory name plan →
      P ⟨process, plan, .busy plan.script, []⟩)
    (hperform : ∀ {a : Party} {operation : Operation}
      {next : operation.Outcome → Script (Except Error (Option Store))},
      a.phase = .busy (.perform operation next) →
        a.account.Allows directory name a.plan.sizing operation → P a →
          ∀ outcome, P (a.next ⟨operation, outcome⟩ (.busy (next outcome))))
    (hobtain : ∀ {a : Party} (store : Store) (handle : Handle), P a →
      P { a with phase := .holding store handle })
    (ha : R.machine.parties[i]? = some a) : P a := by
  obtain ⟨hstarts, hruns, hseeks⟩ := hr
  induction hruns generalizing i a with
  | refl =>
    rw [hstarts.parties] at ha
    cases ha
  | @tail R₁ R₂ hruns hstep ih =>
    obtain ⟨j, shown, hstep⟩ := hstep
    have hr₂ : R₂.Contest directory name M := ⟨hstarts, hruns.tail ⟨j, shown, hstep⟩, hseeks⟩
    have hr₁ := hr₂.before hruns hstep
    cases hstep with
    | begin process plan =>
      rcases Machine.getElem?_concat_cases ha with hold | rfl
      · exact ih hold hr₁.seeks
      · exact hbegin process plan (hseeks ha)
    | operate hb hphase hdoes =>
      rcases Machine.getElem?_set_cases ha with ⟨-, rfl⟩ | ⟨-, ha⟩
      · exact hperform hphase (hr₁.contested.allows hb hphase).1 (ih hb hr₁.seeks) _
      · exact ih ha hr₁.seeks
    | obtain hb hphase hplan hidentity =>
      rcases Machine.getElem?_set_cases ha with ⟨-, rfl⟩ | ⟨-, ha⟩
      · exact hobtain _ _ (ih hb hr₁.seeks)
      · exact ih ha hr₁.seeks

theorem Contest.tallies (hr : R.Contest directory name M) (ha : R.machine.parties[i]? = some a) :
    a.Tallies := by
  refine hr.forall_parties (P := Party.Tallies) (fun _ _ _ => Or.inl ⟨rfl, rfl⟩) ?_
    (fun _ _ => id) ha
  intro a operation next hphase hallows h outcome
  -- A deed that neither makes nor removes a file only revises it, if it does anything to it.
  have hrest : ∀ {deed : Deed}, deed.Creates = false → deed.Removes = false →
      ((a.account.after deed).draft ≠ none ↔ a.account.draft ≠ none) →
        (a.next deed (.busy (next outcome))).Tallies := by
    intro deed hcreates hremoves hdraft
    unfold Party.Tallies
    rw [Party.created_next, Party.removed_next, hcreates, hremoves, Party.account_next]
    simp only [Bool.false_eq_true, if_false, Nat.add_zero]
    rcases h with ⟨hnone, heq⟩ | ⟨hsome, heq⟩
    · refine Or.inl ⟨?_, heq⟩
      by_contra hne
      exact hdraft.mp hne hnone
    · exact Or.inr ⟨hdraft.mpr hsome, heq⟩
  cases operation with
  | createFile path mode =>
    cases outcome with
    | error error => exact hrest rfl rfl Iff.rfl
    | ok file =>
      obtain ⟨-, heq⟩ := h.resolve_right fun hsome => hsome.1 hallows.2.2.1
      refine Or.inr ⟨Option.some_ne_none _, ?_⟩
      rw [Party.created_next, Party.removed_next, heq]
      rfl
  | openFile path =>
    cases outcome with
    | error error => exact hrest rfl rfl Iff.rfl
    | ok file =>
      apply hrest rfl rfl
      rw [hallows.2]
      rfl
  | removeFile path =>
    obtain ⟨-, r, hdraft⟩ := hallows
    obtain ⟨-, heq⟩ := h.resolve_left fun hnone => by
      cases hdraft.symm.trans hnone.1
    refine Or.inl ⟨rfl, ?_⟩
    rw [Party.created_next, Party.removed_next, heq]
    rfl
  | makeDirectories path => cases outcome <;> exact hrest rfl rfl Iff.rfl
  | setFileLength file length =>
    cases outcome with
    | error error => exact hrest rfl rfl Iff.rfl
    | ok u => exact hrest rfl rfl (a.account.revise_draft_ne ..)
  | map file length => cases outcome <;> exact hrest rfl rfl Iff.rfl
  | store mapping field value => exact hrest rfl rfl (a.account.revise_draft_ne ..)
  | prepareLock mapping =>
    cases outcome with
    | error error => exact hrest rfl rfl Iff.rfl
    | ok u =>
      have hdraft := a.account.revise_draft_ne .prepared
        (·.setSlice Layout.lockOffset (Region.zeroBytes Layout.lockSize))
      exact hrest rfl rfl hdraft
  | _ => exact hrest rfl rfl Iff.rfl

/-- Whoever has removed a file has not been able to use one. -/
theorem Contest.broken (hr : R.Contest directory name M) (ha : R.machine.parties[i]? = some a)
    (hremoved : 0 < a.removed) : a.Broken := by
  have htidy := hr.forall_parties
    (P := fun a => (0 < a.removed → a.Broken) ∧ ∀ rest, a.phase = .busy rest →
      rest.Obeys tidyRules (fun _ _ => True) a.Broken)
    (fun _ plan hseeks => ⟨fun h => absurd h (Nat.lt_irrefl 0), fun rest hrest => ?_⟩)
    (fun {a operation next} hphase _ h outcome => ?_)
    (fun _ _ h => ⟨h.1, fun _ hrest => nomatch hrest⟩) ha
  · exact htidy.1 hremoved
  · cases hrest
    exact Plan.tidy_script hseeks
  · obtain ⟨hbroken, hrest⟩ := h
    obtain ⟨hallows, hobeys⟩ := hrest _ hphase
    refine ⟨fun hpos => ?_, fun rest hbusy => ?_⟩
    · rw [Party.removed_next] at hpos
      rw [Party.broken_next]
      right
      cases operation with
      | removeFile path => exact hallows
      | _ => exact hbroken hpos
    · cases hbusy
      rw [Party.broken_next]
      exact hobeys outcome trivial

/-- Whoever has seen a length has seen it of a file. -/
theorem Contest.look_file (hr : R.Contest directory name M) (ha : R.machine.parties[i]? = some a)
    {n : Nat} (hlength : a.account.look.length = some n) : ∃ file, a.account.look.file = some file := by
  have hfile := hr.forall_parties (P := fun a => a.account.look.length ≠ none → a.account.look.file ≠ none)
    (fun _ _ _ => id) (fun {a operation next} hphase hallows h outcome => ?_) (fun _ _ => id) ha
  · refine Option.ne_none_iff_exists'.mp (hfile ?_)
    rw [hlength]
    exact Option.some_ne_none n
  · rw [Party.account_next]
    cases operation with
    | makeDirectories path => cases outcome <;> exact h
    | createFile path mode =>
      cases outcome with
      | error error => exact h
      | ok file => exact fun hnone => absurd rfl hnone
    | openFile path =>
      cases outcome with
      | error error => exact fun hnone => absurd rfl hnone
      | ok file => exact fun _ => Option.some_ne_none file
    | fileLength file => exact fun _ => hallows
    | setFileLength file length => cases outcome <;> exact h
    | map file length => cases outcome <;> exact h
    | load mapping field =>
      intro _
      show (a.account.look.read field outcome).file ≠ none
      rw [Account.file_read]
      exact hallows.1
    | prepareLock mapping => cases outcome <;> exact h
    | _ => exact h

end Realm

end MappedQueue
