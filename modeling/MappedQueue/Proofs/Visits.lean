import MappedQueue.Proofs.Realms

/-!
# A process on its own

As long as only one process has anything open, its threads can carry out their plans one
after the other, each with nothing in between. What comes of that is what running their
scripts yields. They can also take turns, each for so many operations at a time.
-/

namespace MappedQueue

namespace Party

/-- Carries out up to `n` operations of a thread's script. -/
def carry : (n : Nat) → Party → Host → Party × Host
  | 0, a, h => (a, h)
  | n + 1, a, h =>
    match a.phase with
    | .busy (.perform operation next) =>
      let (outcome, h) := h.perform operation
      (a.next ⟨operation, outcome⟩ (.busy (next outcome))).carry n h
    | _ => (a, h)

/-- Lets threads take turns. A schedule says which thread comes next, and for how many
operations. -/
def takeTurns : (schedule : List (Nat × Nat)) → List Party → Host → List Party × Host
  | [], parties, h => (parties, h)
  | (i, n) :: rest, parties, h =>
    match parties[i]? with
    | none => takeTurns rest parties h
    | some a =>
      let (a, h) := a.carry n h
      takeTurns rest (parties.set i a) h

/-- What the script of a thread has yielded. -/
def outcome? (a : Party) : Option (Except Error (Option Store)) :=
  match a.phase with
  | .busy (.done outcome) => some outcome
  | _ => none

theorem phase_of_outcome? {a : Party} {outcome : Except Error (Option Store)}
    (ha : a.outcome? = some outcome) : a.phase = .busy (.done outcome) := by
  unfold outcome? at ha
  split at ha <;> cases ha
  assumption

/-- Whoever carries out enough operations carries out the whole script. -/
theorem exists_carry_of_run {rest : Script (Except Error (Option Store))}
    {outcome : Except Error (Option Store)} {a : Party} {h h' : Host}
    (hphase : a.phase = .busy rest) (hrun : rest.run h = (.ok outcome, h')) :
    ∃ n past, a.carry n h = ({ a with phase := .busy (.done outcome), past }, h') := by
  induction rest generalizing a h with
  | done outcome' =>
    cases hrun
    exact ⟨0, a.past, by rw [carry, ← hphase]⟩
  | fault f => cases hrun
  | perform operation next ih =>
    simp only [Script.run] at hrun
    obtain ⟨n, past, hcarry⟩ :=
      ih _ (a := a.next ⟨operation, (h.perform operation).1⟩ _) rfl hrun
    refine ⟨n + 1, past, ?_⟩
    rw [carry, hphase]
    exact hcarry

theorem process_carry (n : Nat) :
    ∀ (a : Party) (h : Host), (a.carry n h).1.process = a.process := by
  induction n with
  | zero => exact fun a h => rfl
  | succ n ih =>
    intro a h
    rw [carry]
    split
    · exact ih _ _
    · rfl

end Party

namespace Machine

/-- Only one process has anything open or mapped, and this is how it sees the system. -/
structure Alone (M : Machine) (process : Nat) (h : Host) : Prop where
  sees_eq : M.sees process h.numbering h.refused = h
  others : ∀ other ≠ process, (M.processes other).opened = [] ∧ (M.processes other).mappings = #[]

variable {M : Machine} {process : Nat} {h : Host}

/-- A number that is free for the process is free for all. -/
theorem Alone.does (halone : M.Alone process h) (operation : Operation) :
    M.Does process operation (h.perform operation).1 (h.perform operation).2 := by
  have hfree : ∀ other, h.numbering.1 (M.host process).used ∉ (M.host other).used := by
    intro other hmem
    apply h.numbering.2 (M.host process).used
    by_cases hother : other = process
    · exact hother ▸ hmem
    · obtain ⟨hopened, hmappings⟩ := halone.others other hother
      have hused : (M.host other).used = M.disk.named.map M.disk.identity := by
        simp only [Machine.host, Host.used, hopened, hmappings]
        simp
      rw [hused] at hmem
      obtain ⟨file, hnamed, hidentity⟩ := List.mem_map.mp hmem
      rw [← hidentity]
      exact Host.Serves.identity_mem_used (Or.inl hnamed)
  have hdoes := @Does.intro M process operation h.numbering h.refused fun _ _ _ => hfree
  rw [halone.sees_eq] at hdoes
  exact hdoes

/-- After an operation the process sees what the operation has come to. -/
theorem Alone.after {i : Nat} {a : Party} (halone : M.Alone a.process h) (h' : Host) (deed : Deed)
    (phase : Phase) : (M.after i a h' deed phase).Alone a.process h' where
  sees_eq := by
    simp only [Machine.sees, Machine.after, Machine.host_setParty, Machine.host_setHost_self]
  others other hother := by
    simp only [Machine.after, Machine.setParty, Machine.setHost, Function.update_of_ne hother]
    exact halone.others other hother

end Machine

namespace Realm

variable {R R' : Realm} {i process : Nat} {a : Party} {h h' : Host}
  {rest : Script (Except Error (Option Store))} {result : Except Error (Option Store)}

/-- Realms between which threads only go on with their plans. -/
def Runs : Realm → Realm → Prop :=
  Relation.ReflTransGen fun R R' => ∃ i shown, Step R (.plan i) shown R'

/-- A run in which only threads of a kind do something. -/
def RunsOf (kind : Nat → Prop) : Realm → Realm → Prop :=
  Relation.ReflTransGen fun R R' => ∃ i shown, kind i ∧ Step R (.plan i) shown R'

theorem RunsOf.runs {kind : Nat → Prop} (hruns : RunsOf kind R R') : Runs R R' :=
  Relation.ReflTransGen.mono (fun _ _ ⟨i, shown, _, hstep⟩ => ⟨i, shown, hstep⟩) _ _ hruns

/-- A thread can carry out some operations with nothing in between. -/
theorem exists_carry (kind : Nat → Prop) (hkind : kind i) (n : Nat) :
    ∀ {R : Realm} {a : Party} {h : Host}, R.machine.parties[i]? = some a →
      R.machine.Alone a.process h →
        ∃ M, RunsOf kind R { R with machine := M } ∧ M.Alone a.process (a.carry n h).2 ∧
          M.parties = R.machine.parties.set i (a.carry n h).1 := by
  induction n with
  | zero =>
    intro R a h ha halone
    obtain ⟨hlt, hget⟩ := List.getElem?_eq_some_iff.mp ha
    exact ⟨R.machine, .refl, halone, (hget ▸ List.set_getElem_self hlt).symm⟩
  | succ n ih =>
    intro R a h ha halone
    obtain ⟨hlt, hget⟩ := List.getElem?_eq_some_iff.mp ha
    rw [Party.carry]
    split
    · rename_i operation next hphase
      have hstep := Step.operate ha hphase (halone.does operation)
      generalize h.perform operation = done at *
      obtain ⟨outcome, h₁⟩ := done
      let M₁ := R.machine.after i a h₁ ⟨operation, outcome⟩ (.busy (next outcome))
      obtain ⟨M, hruns, halone', hparties⟩ :=
        ih (R := { R with machine := M₁ }) (List.getElem?_set_self hlt) (halone.after h₁ _ _)
      refine ⟨M, .head ⟨i, [], hkind, hstep⟩ hruns, halone', hparties.trans ?_⟩
      exact List.set_set ..
    · exact ⟨R.machine, .refl, halone, (hget ▸ List.set_getElem_self hlt).symm⟩

/-- Threads of one process can take turns as a schedule says. -/
theorem exists_turns (kind : Nat → Prop) (schedule : List (Nat × Nat))
    (hkind : ∀ turn ∈ schedule, kind turn.1) : ∀ {R : Realm} {h : Host},
      (∀ a ∈ R.machine.parties, a.process = process) → R.machine.Alone process h →
        ∃ M, RunsOf kind R { R with machine := M } ∧ (∀ a ∈ M.parties, a.process = process) ∧
          M.Alone process (Party.takeTurns schedule R.machine.parties h).2 ∧
          M.parties = (Party.takeTurns schedule R.machine.parties h).1 := by
  induction schedule with
  | nil => exact fun {R h} hprocess halone => ⟨R.machine, .refl, hprocess, halone, rfl⟩
  | cons turn rest ih =>
    intro R h hprocess halone
    obtain ⟨i, n⟩ := turn
    obtain ⟨hfirst, hrest⟩ := List.forall_mem_cons.mp hkind
    rw [Party.takeTurns]
    split
    · exact ih hrest hprocess halone
    · rename_i a ha
      have ha' : a.process = process := hprocess a (List.mem_of_getElem? ha)
      obtain ⟨M, hruns, halone₁, hparties⟩ := exists_carry kind hfirst n ha (ha' ▸ halone)
      rw [ha'] at halone₁
      have hprocess' : ∀ b ∈ M.parties, b.process = process := by
        intro b hb
        rw [hparties] at hb
        rcases List.mem_or_eq_of_mem_set hb with hb | rfl
        · exact hprocess b hb
        · exact (a.process_carry n h).trans ha'
      obtain ⟨M', hruns', hprocess'', halone', hparties'⟩ :=
        ih hrest (R := { R with machine := M }) hprocess' halone₁
      rw [hparties] at halone' hparties'
      exact ⟨M', hruns.trans hruns', hprocess'', halone', hparties'⟩

/-- Threads of one process can come, each with its plan. -/
theorem exists_begun (process : Nat) (plans : List Plan) : ∀ {R : Realm} {h : Host},
    R.machine.Alone process h →
      ∃ M, Runs R { R with machine := M } ∧ M.Alone process h ∧ M.parties =
        R.machine.parties ++ plans.map fun plan => ⟨process, plan, .busy plan.script, []⟩ := by
  induction plans with
  | nil => exact fun {R h} halone => ⟨R.machine, .refl, halone, (List.append_nil _).symm⟩
  | cons plan rest ih =>
    intro R h halone
    obtain ⟨M, hruns, halone', hparties⟩ :=
      ih (R := { R with machine := R.machine.begin process plan }) ⟨halone.sees_eq, halone.others⟩
    refine ⟨M, .head ⟨_, [], .begin process plan⟩ hruns, halone', hparties.trans ?_⟩
    exact List.append_assoc ..

/-- The script of a thread can be carried out with nothing in between. -/
theorem exists_run (ha : R.machine.parties[i]? = some a) (hphase : a.phase = .busy rest)
    (halone : R.machine.Alone a.process h) (hrun : rest.run h = (.ok result, h')) :
    ∃ M past, Runs R { R with machine := M } ∧ M.Alone a.process h' ∧
      M.parties = R.machine.parties.set i { a with phase := .busy (.done result), past } := by
  obtain ⟨n, past, hcarry⟩ := Party.exists_carry_of_run hphase hrun
  obtain ⟨M, hruns, halone', hparties⟩ :=
    exists_carry (fun _ => True) trivial n ha halone
  rw [hcarry] at halone' hparties
  exact ⟨M, past, hruns.runs, halone', hparties⟩

/-- A thread can come and carry out its plan with nothing in between. -/
theorem exists_carried (plan : Plan) (result : Except Error (Option Store))
    (halone : R.machine.Alone process h)
    (hrun : plan.script.run h = (.ok result, h')) :
    ∃ M past, Runs R { R with machine := M } ∧ M.Alone process h' ∧
      M.parties = R.machine.parties ++ [⟨process, plan, .busy (.done result), past⟩] := by
  have hbegun : (R.machine.begin process plan).Alone process h := ⟨halone.sees_eq, halone.others⟩
  obtain ⟨M, past, hruns, halone', hparties⟩ := exists_run
    (R := { R with machine := R.machine.begin process plan }) (i := R.machine.parties.length)
    (a := ⟨process, plan, .busy plan.script, []⟩) List.getElem?_concat_length rfl hbegun hrun
  refine ⟨M, past, .head ⟨_, [], .begin process plan⟩ hruns, halone', hparties.trans ?_⟩
  rw [Machine.begin, List.set_append_right _ _ (Nat.le_refl _), Nat.sub_self]
  rfl

/-- And it gets its handle if it has opened a queue. -/
theorem exists_opened (directory name : String) (options : Options) (store : Store)
    (halone : R.machine.Alone process h)
    (hrun : (Plan.opens directory name options).script.run h = (.ok (.ok (some store)), h')) :
    ∃ M past, Runs R { R with machine := M } ∧ M.Alone process h' ∧
      M.parties = R.machine.parties ++ [⟨process, .opens directory name options,
        .holding store ⟨store.sizing, 1, options.nonblocking⟩, past⟩] := by
  obtain ⟨M, past, hruns, halone', hparties⟩ := exists_carried _ _ halone hrun
  have ha : M.parties[R.machine.parties.length]? =
      some ⟨process, .opens directory name options, .busy (.done (.ok (some store))), past⟩ := by
    rw [hparties]
    exact List.getElem?_concat_length
  have hidentity : 0 < 1 ∧ 1 < 2 ^ 32 := by decide
  refine ⟨_, past, hruns.tail ⟨_, [], .obtain ha rfl rfl hidentity⟩,
    ⟨halone'.sees_eq, halone'.others⟩, ?_⟩
  simp only [Machine.setPhase, Machine.setParty, hparties]
  rw [List.set_append_right _ _ (Nat.le_refl _), Nat.sub_self]
  rfl

theorem Reachable.runs (hr : R.Reachable) (hruns : Runs R R') : R'.Reachable := by
  obtain ⟨M, hstarts, hrun⟩ := hr
  refine ⟨M, hstarts, hrun.trans (Relation.ReflTransGen.mono (fun _ _ h => ?_) _ _ hruns)⟩
  obtain ⟨i, shown, hstep⟩ := h
  exact ⟨_, shown, hstep⟩

end Realm

theorem Machine.starts_fresh : Machine.Starts { disk := Disk.fresh } where
  formed := Disk.formed_fresh
  distinct := by decide
  opened _ := rfl
  mappings _ := rfl
  known _ := rfl
  parties := rfl

theorem Machine.alone_fresh (process : Nat) : Machine.Alone { disk := Disk.fresh } process {} :=
  ⟨rfl, fun _ _ => ⟨rfl, rfl⟩⟩

end MappedQueue
