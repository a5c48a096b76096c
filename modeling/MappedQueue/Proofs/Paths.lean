import MappedQueue.Proofs.System

/-!
# Runs of special kinds

A path is a run in which every step is of one kind. Kinds of interest leave out some of the
steps that a system can take, restrict the states between the steps, or add steps that the
calls of a queue take only where something below them fails.
-/

namespace MappedQueue.System

/-- A sequence of steps of a kind, and all that could be seen of it, first things first. -/
inductive Path (kind : System → List Happening → System → Prop) (S₀ : System) :
    List Happening → System → Prop
  | start : Path kind S₀ [] S₀
  | step {history shown : List Happening} {S S' : System} (hpath : Path kind S₀ history S)
      (hstep : kind S shown S') : Path kind S₀ (history ++ shown) S'

/-- The steps of a kind that lead to a state with a property. -/
def Throughout (kind : System → List Happening → System → Prop) (P : System → Prop)
    (S : System) (shown : List Happening) (S' : System) : Prop :=
  kind S shown S' ∧ P S'

/-- Steps by which no thread wakes up or moves on of itself: what is shared changes only by a
step of a call, so that a sleeper is out of the sleepers only if a call has woken it. -/
def Prompted (S : System) (shown : List Happening) (S' : System) : Prop :=
  Step S shown S' ∧ (S'.shared = S.shared ∨
    ∃ thread w h around pick next, S.workers thread = some w ∧ S.handles w.number = some h ∧
      w.call.step thread h around pick S.shared = some next ∧ S' = S.advance thread w h next)

/-- Prompted steps of one thread, which sees `around` itself whatever it does. -/
inductive PromptedBy (thread : Nat) (around : Surroundings) (S : System) :
    List Happening → System → Prop
  /-- The thread opens a handle or begins a call. -/
  | enters {S' : System} (hstep : Step S [] S') (hshared : S'.shared = S.shared)
      (hbusy : ∀ other, S.workers other ≠ none → S'.workers other = S.workers other)
      (hothers : ∀ other, other ≠ thread → S'.workers other = S.workers other) :
      PromptedBy thread around S [] S'
  | acts {pick : Nat} {w : Worker} {h : Handle} {next : Advance}
      (hworker : S.workers thread = some w) (hhandle : S.handles w.number = some h)
      (hstep : w.call.step thread h around pick S.shared = some next) :
      PromptedBy thread around S (news thread h next) (S.advance thread w h next)

variable {kind kind' : System → List Happening → System → Prop} {S₀ S S' : System}
  {history shown : List Happening} {thread : Nat} {around : Surroundings}

theorem PromptedBy.prompted (hstep : PromptedBy thread around S shown S') : Prompted S shown S' := by
  cases hstep with
  | enters hstep hshared => exact ⟨hstep, Or.inl hshared⟩
  | acts hworker hhandle hstep =>
    exact ⟨.act hworker hhandle hstep,
      Or.inr ⟨thread, _, _, around, _, _, hworker, hhandle, hstep, rfl⟩⟩

theorem PromptedBy.others (hstep : PromptedBy thread around S shown S') (other : Nat)
    (hne : other ≠ thread) : S'.workers other = S.workers other := by
  cases hstep with
  | enters _ _ _ hothers => exact hothers other hne
  | acts => exact Function.update_of_ne hne _ _

theorem Path.single (hstep : kind S shown S') : Path kind S shown S' := .step .start hstep

theorem Path.trans (hp : Path kind S₀ history S) (hp' : Path kind S shown S') :
    Path kind S₀ (history ++ shown) S' := by
  induction hp' with
  | start =>
    rw [List.append_nil]
    exact hp
  | step _ hstep ih =>
    rw [← List.append_assoc]
    exact .step ih hstep

theorem Path.mono (hkind : ∀ S shown S', kind S shown S' → kind' S shown S')
    (hp : Path kind S₀ history S) : Path kind' S₀ history S := by
  induction hp with
  | start => exact .start
  | step _ hstep ih => exact .step ih (hkind _ _ _ hstep)

theorem Path.run (hp : Path Step S₀ history S) : Run S₀ history S := by
  induction hp with
  | start => exact .start
  | step _ hstep ih => exact .step ih hstep

theorem Path.run_of_throughout {P : System → Prop}
    (hp : Path (Throughout Step P) S₀ history S) : Run S₀ history S :=
  (hp.mono fun _ _ _ hstep => hstep.1).run

theorem Path.run_of_prompted (hp : Path Prompted S₀ history S) : Run S₀ history S :=
  (hp.mono fun _ _ _ hstep => hstep.1).run

theorem Path.prompted (hp : Path (PromptedBy thread around) S₀ history S) :
    Path Prompted S₀ history S :=
  hp.mono fun _ _ _ hstep => hstep.prompted

/-- A run comes to a state with a property on a path of such states, or it has come there from
the last state without it. -/
theorem Run.last_entry (P : System → Prop) (hr : Run S₀ history S) (hS : P S) :
    P S₀ ∧ Path (Throughout Step P) S₀ history S ∨
      ∃ before shown after S₁ S₂, history = before ++ shown ++ after ∧ Run S₀ before S₁ ∧
        Step S₁ shown S₂ ∧ ¬ P S₁ ∧ P S₂ ∧ Path (Throughout Step P) S₂ after S := by
  induction hr with
  | start => exact Or.inl ⟨hS, .start⟩
  | @step history shown S S' hrun hstep ih =>
    by_cases hbefore : P S
    · rcases ih hbefore with ⟨hstart, hpath⟩ | ⟨before, entry, after, S₁, S₂, rfl, hrun₁, hentry,
        hnot, hin, hpath⟩
      · exact Or.inl ⟨hstart, hpath.step ⟨hstep, hS⟩⟩
      · exact Or.inr ⟨before, entry, after ++ shown, S₁, S₂, List.append_assoc _ _ _, hrun₁, hentry,
          hnot, hin, hpath.step ⟨hstep, hS⟩⟩
    · exact Or.inr ⟨history, shown, [], S, S', (List.append_nil _).symm, hrun, hstep, hbefore, hS,
        .start⟩

end MappedQueue.System
