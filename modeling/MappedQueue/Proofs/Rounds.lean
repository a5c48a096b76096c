import MappedQueue.Proofs.Abandoned

/-!
# How long an opening goes on

A round tries at most once to make the file, and it looks at the file at most once more than
there are retries. So an opening comes to an end, whatever its operations come to and whatever
others do in between.
-/

namespace MappedQueue

/-- A file is to be made. -/
def Deed.Makes (deed : Deed) : Bool :=
  match deed.operation with
  | .createFile _ _ => true
  | _ => false

/-- How often an opening has tried to make the file, and how often to attach to it. -/
structure Effort where
  creations : Nat := 0
  attempts : Nat := 0

/-- The count goes on with an operation. -/
def Effort.after (e : Effort) (deed : Deed) : Effort :=
  match deed.operation with
  | .createFile _ _ => { e with creations := e.creations + 1 }
  | .openFile _ => { e with attempts := e.attempts + 1 }
  | _ => e

theorem Effort.foldl_after (deeds : List Deed) : ∀ e : Effort, deeds.foldl Effort.after e =
    ⟨e.creations + deeds.countP Deed.Makes, e.attempts + deeds.countP Deed.Opens⟩ := by
  induction deeds with
  | nil => exact fun _ => rfl
  | cons deed deeds ih =>
    obtain ⟨operation, outcome⟩ := deed
    intro e
    rw [List.foldl_cons, ih, List.countP_cons, List.countP_cons]
    cases operation <;> simp [Effort.after, Deed.Makes, Deed.Opens] <;> omega

def effortRules : Rules Effort where
  after := Effort.after
  Allows _ _ := True
  Faults := True

namespace Script

variable {α β : Type} {p : Script α} {creations creations' attempts attempts' : Nat}

/-- Whatever its operations come to, a script does not try more often than that. -/
def Takes (p : Script α) (creations attempts : Nat) : Prop :=
  ∀ e : Effort, p.Obeys effortRules (fun e' _ =>
    e'.creations ≤ e.creations + creations ∧ e'.attempts ≤ e.attempts + attempts) e

theorem takes_done {a : α} : (Script.done a).Takes creations attempts :=
  fun _ => ⟨Nat.le_add_right _ _, Nat.le_add_right _ _⟩

theorem Takes.mono (hp : p.Takes creations attempts) (hcreations : creations ≤ creations')
    (hattempts : attempts ≤ attempts') : p.Takes creations' attempts' := by
  intro e
  refine (hp e).mono fun e' _ h => ?_
  omega

theorem Takes.bind {k : α → Script β} (hp : p.Takes creations attempts)
    (hk : ∀ a, (k a).Takes creations' attempts') :
    (p >>= k).Takes (creations + creations') (attempts + attempts') := by
  intro e
  refine (hp e).bind fun e₁ a h₁ => ((hk a) e₁).mono fun e₂ _ h₂ => ?_
  omega

/-- A part that tries neither does not count. -/
theorem Takes.rest {k : α → Script β} (hp : p.Takes 0 0) (hk : ∀ a, (k a).Takes creations attempts) :
    (p >>= k).Takes creations attempts :=
  (hp.bind hk).mono (Nat.le_of_eq (Nat.zero_add _)) (Nat.le_of_eq (Nat.zero_add _))

/-- An operation that tries neither does not count. -/
theorem takes_idle {operation : Operation} {k : operation.Outcome → Script β}
    (hidle : ∀ (e : Effort) outcome, e.after ⟨operation, outcome⟩ = e)
    (hk : ∀ outcome, (k outcome).Takes creations attempts) :
    (Script.call operation >>= k).Takes creations attempts := by
  refine fun e => .call trivial fun outcome _ => ?_
  rw [show effortRules.after e ⟨operation, outcome⟩ = e from hidle e outcome]
  exact hk outcome e

theorem takes_creation {path : String} {mode : Nat} {k : Except SystemError Nat → Script β}
    (hk : ∀ outcome, (k outcome).Takes creations attempts) :
    (Script.call (.createFile path mode) >>= k).Takes (creations + 1) attempts := by
  refine fun e => .call trivial fun outcome _ => (hk outcome _).mono fun e' _ h => ?_
  simp only [effortRules, Effort.after] at h
  omega

theorem takes_attempt {path : String} {k : Except SystemError Nat → Script β}
    (hk : ∀ outcome, (k outcome).Takes creations attempts) :
    (Script.call (.openFile path) >>= k).Takes creations (attempts + 1) := by
  refine fun e => .call trivial fun outcome _ => (hk outcome _).mono fun e' _ h => ?_
  simp only [effortRules, Effort.after] at h
  omega

theorem takes_through {mapping : Nat} (p : Access α) : (through mapping p).Takes 0 0 := by
  intro e
  induction p with
  | done a => exact takes_done e
  | fault f => trivial
  | load field next ih => exact ⟨trivial, fun value _ => ih value⟩
  | store field value next ih => exact ⟨trivial, fun u _ => ih u⟩
  | fetch offset count next ih => exact ⟨trivial, fun bytes _ => ih bytes⟩
  | put offset bytes next ih => exact ⟨trivial, fun u _ => ih u⟩

end Script

open Script

namespace Store

theorem takes_attach (path : String) : (attach path).Takes 0 1 := by
  apply takes_attempt
  intro opened
  cases opened with
  | error error => exact takes_done
  | ok file =>
    refine takes_idle (fun _ _ => rfl) fun (length : Nat) => ?_
    split
    · exact takes_idle (fun _ _ => rfl) fun _ => takes_done
    · refine takes_idle (fun _ _ => rfl) fun mapped => takes_idle (fun _ _ => rfl) fun _ => ?_
      cases mapped with
      | error error => exact takes_done
      | ok mapping =>
        refine (takes_through _).rest fun verdict => ?_
        cases verdict with
        | ok sizing => exact takes_done
        | error error => exact takes_idle (fun _ _ => rfl) fun _ => takes_done

theorem takes_extend (file length : Nat) : (extend file length).Takes 0 0 := by
  refine takes_idle (fun _ _ => rfl) fun stretched => ?_
  cases stretched with
  | error error => exact takes_done
  | ok u => exact fun _ => ⟨trivial, fun mapped _ => takes_done _⟩

theorem takes_create (path : String) (s : Sizing) (mode : Nat) : (create path s mode).Takes 1 0 := by
  unfold create
  cases s.fileSize? with
  | none => exact takes_done
  | some length =>
    apply takes_creation
    intro made
    cases made with
    | error error => exact takes_done
    | ok file =>
      refine (takes_extend file length).rest fun extended => ?_
      cases extended with
      | ok mapping => exact takes_idle (fun _ _ => rfl) fun _ => takes_done
      | error error =>
        exact takes_idle (fun _ _ => rfl) fun _ => takes_idle (fun _ _ => rfl) fun _ => takes_done

theorem takes_initialise (store : Store) : store.initialise.Takes 0 0 := by
  refine (takes_through _).rest fun _ => takes_idle (fun _ _ => rfl) fun prepared => ?_
  cases prepared with
  | error error => exact takes_done
  | ok u => exact (takes_through _).rest fun _ => takes_done

end Store

namespace Opening

theorem takes_attach (path : String) (retries : Nat) : (attach path retries).Takes 0 (retries + 1) := by
  induction retries with
  | zero =>
    show (attach path 0).Takes (0 + 0) (1 + 0)
    unfold attach
    apply (Store.takes_attach path).bind
    intro answer
    split <;> exact takes_done
  | succ retries ih =>
    rw [Nat.add_comm (retries + 1) 1]
    show (attach path (retries + 1)).Takes (0 + 0) (1 + (retries + 1))
    unfold attach
    apply (Store.takes_attach path).bind
    intro answer
    split
    · exact takes_idle (fun _ _ => rfl) fun _ => ih
    · exact takes_done

theorem takes_finish (path : String) (store : Store) : (finish path store).Takes 0 0 := by
  refine (Store.takes_initialise store).rest fun initialised => ?_
  cases initialised with
  | ok u => exact takes_done
  | error error =>
    exact takes_idle (fun _ _ => rfl) fun _ => takes_idle (fun _ _ => rfl) fun _ => takes_done

theorem takes_join (path : String) (options : Options) {again : Script (Except Error Store)}
    {creations attempts : Nat} (hagain : again.Takes creations attempts) :
    (join path options again).Takes creations (options.retries + 1 + attempts) := by
  refine ((takes_attach path options.retries).bind fun answer => ?_).mono
    (Nat.le_of_eq (Nat.zero_add creations)) (Nat.le_refl _)
  cases answer with
  | ok store => exact takes_done
  | error error =>
    dsimp only
    split
    · exact hagain
    · exact takes_done

theorem takes_round (path : String) (options : Options) (left : Nat) :
    (round path options left).Takes left (left * (options.retries + 1)) := by
  induction left with
  | zero => exact takes_done
  | succ left ih =>
    have hjoin := takes_join path options ih
    have hshare : options.retries + 1 + left * (options.retries + 1) =
        (left + 1) * (options.retries + 1) := by rw [Nat.succ_mul, Nat.add_comm]
    rw [hshare] at hjoin
    unfold round
    split
    · have hcreate := Store.takes_create path options.sizing options.mode
      rw [Nat.add_comm left 1, ← Nat.zero_add ((1 + left) * (options.retries + 1))]
      apply hcreate.bind
      intro created
      cases created with
      | ok store => exact (takes_finish path store).mono (Nat.zero_le _) (Nat.zero_le _)
      | error error =>
        rw [Nat.add_comm 1 left]
        dsimp only
        split
        · exact hjoin
        · exact takes_done
    · exact hjoin.mono (Nat.le_succ _) (Nat.le_refl _)

/-- An opening has so many rounds at most. -/
theorem takes_run (directory name : String) (options : Options) :
    (run directory name options).Takes rounds (rounds * (options.retries + 1)) := by
  unfold run
  split
  · exact takes_done
  · split
    · exact takes_done
    · refine takes_idle (fun _ _ => rfl) fun made => ?_
      cases made with
      | error error => exact takes_done
      | ok u => exact takes_round _ _ _

end Opening

end MappedQueue
