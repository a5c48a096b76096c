import MappedQueue.Opening

/-!
# What openings do with files

Whatever the system answers, a thread that opens a queue has at most one file open at a time
and at most one mapping, which is of the file it opened last. It changes no file but one
that it has made itself, and it ends with a mapping and no open file, or with neither.
-/

namespace MappedQueue

/-- An operation that is over, and what it came to. -/
structure Deed where
  operation : Operation
  outcome : operation.Outcome

/-- What a thread has of the files it works on. -/
structure Hands where
  /-- The file it has open. -/
  file : Option Nat := none
  mapping : Option Nat := none
  /-- The file that it opened last. -/
  found : Option Nat := none
  /-- Whether it has made that file. -/
  made : Bool := false
  deriving DecidableEq

namespace Hands

def after (hands : Hands) : Deed → Hands
  | ⟨.createFile _ _, .ok file⟩ => { hands with file := some file, found := some file, made := true }
  | ⟨.openFile _, .ok file⟩ => { hands with file := some file, found := some file, made := false }
  | ⟨.closeFile _, _⟩ => { hands with file := none }
  | ⟨.map _ _, .ok mapping⟩ => { hands with mapping := some mapping }
  | ⟨.unmap _, _⟩ => { hands with mapping := none }
  | _ => hands

def Empty (hands : Hands) : Prop := hands.file = none ∧ hands.mapping = none

/-- What a thread may do: it works on the file it has open and through its own mapping, it
opens no second one, and it changes no file but one that it has made. -/
def Allows (hands : Hands) : Operation → Prop
  | .makeDirectories _ | .removeFile _ | .pause => True
  | .createFile _ _ | .openFile _ => hands.Empty
  | .closeFile file | .fileLength file => hands.file = some file
  | .setFileLength file _ => hands.file = some file ∧ hands.made = true
  | .map file _ => hands.file = some file ∧ hands.mapping = none
  | .unmap mapping | .load mapping _ | .fetch mapping _ _ => hands.mapping = some mapping
  | .store mapping _ _ | .put mapping _ _ | .prepareLock mapping =>
    hands.mapping = some mapping ∧ hands.made = true

/-- The file that a thread opened last is the one that it opened before, unless it has just
opened or made one. -/
theorem found_after (hands : Hands) (deed : Deed) : (hands.after deed).found = hands.found ∨
    (∃ path file, deed = ⟨.openFile path, .ok file⟩ ∧ (hands.after deed).found = some file) ∨
      ∃ path mode file, deed = ⟨.createFile path mode, .ok file⟩ ∧ (hands.after deed).found = some file := by
  obtain ⟨operation, outcome⟩ := deed
  cases operation with
  | openFile path =>
    cases outcome with
    | ok file => exact Or.inr (Or.inl ⟨path, file, rfl, rfl⟩)
    | error error => exact Or.inl rfl
  | createFile path mode =>
    cases outcome with
    | ok file => exact Or.inr (Or.inr ⟨path, mode, file, rfl, rfl⟩)
    | error error => exact Or.inl rfl
  | map file length => cases outcome <;> exact Or.inl rfl
  | _ => exact Or.inl rfl

end Hands

/-- Rules for a script: the state it is in after an operation, what it may do in a state and
what that may come to, and whether it may run into a fault. -/
structure Rules (σ : Type) where
  after : σ → Deed → σ
  Allows : σ → Operation → Prop
  Expects : σ → Deed → Prop := fun _ _ => True
  Faults : Prop := False

namespace Script

variable {α β σ : Type} {rules : Rules σ}

/-- Whatever can be expected of its operations, a script does what the rules allow, and it ends
in a state that fits its result. -/
def Obeys (rules : Rules σ) (fits : σ → α → Prop) : Script α → σ → Prop
  | done a, state => fits state a
  | fault _, _ => rules.Faults
  | perform operation next, state =>
    rules.Allows state operation ∧ ∀ outcome, rules.Expects state ⟨operation, outcome⟩ →
      (next outcome).Obeys rules fits (rules.after state ⟨operation, outcome⟩)

theorem Obeys.bind {fits : σ → α → Prop} {fits' : σ → β → Prop} {p : Script α} {k : α → Script β} :
    ∀ {state : σ}, p.Obeys rules fits state →
      (∀ state a, fits state a → (k a).Obeys rules fits' state) →
        (p >>= k).Obeys rules fits' state := by
  change ∀ {state : σ}, _ → _ → (p.bind k).Obeys rules fits' state
  induction p with
  | done a => exact fun h hk => hk _ a h
  | fault f => exact fun h _ => h
  | perform operation next ih =>
    exact fun h hk => ⟨h.1, fun outcome he => ih outcome (h.2 outcome he) hk⟩

theorem Obeys.mono {fits fits' : σ → α → Prop} {p : Script α}
    (hfits : ∀ state a, fits state a → fits' state a) :
    ∀ {state : σ}, p.Obeys rules fits state → p.Obeys rules fits' state := by
  induction p with
  | done a => exact hfits _ a
  | fault f => exact id
  | perform operation next ih => exact fun h => ⟨h.1, fun outcome he => ih outcome (h.2 outcome he)⟩

theorem Obeys.call {fits : σ → β → Prop} {operation : Operation}
    {k : operation.Outcome → Script β} {state : σ} (hallows : rules.Allows state operation)
    (hk : ∀ outcome, rules.Expects state ⟨operation, outcome⟩ →
      (k outcome).Obeys rules fits (rules.after state ⟨operation, outcome⟩)) :
    (Script.call operation >>= k).Obeys rules fits state := ⟨hallows, hk⟩

/-- The rules for what a thread has in its hands. -/
def handRules : Rules Hands where
  after := Hands.after
  Allows := Hands.Allows
  Faults := True

/-- Whatever its operations come to, a script does what the thread may do, and it ends with
what fits its result. -/
def Orderly (fits : Hands → α → Prop) : Script α → Hands → Prop := Obeys handRules fits

theorem Orderly.bind {fits : Hands → α → Prop} {fits' : Hands → β → Prop} {p : Script α}
    {k : α → Script β} {hands : Hands} (hp : p.Orderly fits hands)
    (hk : ∀ hands a, fits hands a → (k a).Orderly fits' hands) :
    (p >>= k).Orderly fits' hands := Obeys.bind hp hk

theorem Orderly.call {fits : Hands → β → Prop} {operation : Operation}
    {k : operation.Outcome → Script β} {hands : Hands} (hallows : hands.Allows operation)
    (hk : ∀ outcome, (k outcome).Orderly fits (hands.after ⟨operation, outcome⟩)) :
    (Script.call operation >>= k).Orderly fits hands := ⟨hallows, fun outcome _ => hk outcome⟩

/-- A program that only reads does so through the thread's mapping. -/
def Reads : Access α → Prop
  | .done _ | .fault _ => True
  | .load _ next => ∀ value, Reads (next value)
  | .fetch _ _ next => ∀ bytes, Reads (next bytes)
  | .store _ _ _ | .put _ _ _ => False

theorem orderly_through {mapping : Nat} {hands : Hands} (hmapping : hands.mapping = some mapping)
    (p : Access α) (hp : hands.made = true ∨ Reads p) :
    (through mapping p).Orderly (fun hands' _ => hands' = hands) hands := by
  induction p with
  | done a => exact rfl
  | fault f => exact trivial
  | load field next ih => exact ⟨hmapping, fun value _ => ih value (hp.imp_right fun h => h value)⟩
  | fetch offset count next ih =>
    exact ⟨hmapping, fun bytes _ => ih bytes (hp.imp_right fun h => h bytes)⟩
  | store field value next ih =>
    have hmade := hp.resolve_right id
    exact ⟨⟨hmapping, hmade⟩, fun u _ => ih u (Or.inl hmade)⟩
  | put offset bytes next ih =>
    have hmade := hp.resolve_right id
    exact ⟨⟨hmapping, hmade⟩, fun u _ => ih u (Or.inl hmade)⟩

end Script

/-- What goes with the result of an opening. -/
def Hands.Fits (hands : Hands) : Except Error Store → Prop
  | .ok store => hands.file = none ∧ hands.mapping = some store.mapping ∧ hands.found ≠ none
  | .error _ => hands.Empty

namespace Store

theorem reads_preamble (length : Nat) : Script.Reads (preamble length) := by
  intro tag
  change Script.Reads (if tag = 0 then Access.done (Except.error Error.notReady) else _)
  split
  · exact trivial
  · change Script.Reads (if tag ≠ Layout.validTag then Access.done (Except.error Error.badHandle) else _)
    split
    · exact trivial
    · intro capacity messageSize
      change Script.Reads (if _ then Access.done _ else Access.done _)
      split <;> exact trivial

theorem orderly_attach {hands : Hands} (path : String) (he : hands.Empty) :
    (attach path).Orderly Hands.Fits hands := by
  refine .call he fun outcome => ?_
  cases outcome with
  | error error => exact he
  | ok file =>
    refine .call rfl fun length => ?_
    split
    · exact .call rfl fun _ => ⟨rfl, he.2⟩
    · refine .call ⟨rfl, he.2⟩ fun mapped => ?_
      refine .call ?_ fun _ => ?_
      · cases mapped <;> rfl
      · cases mapped with
        | error error => exact ⟨rfl, he.2⟩
        | ok mapping =>
          refine Script.Orderly.bind (Script.orderly_through rfl _ (Or.inr (reads_preamble length))) ?_
          rintro _ result rfl
          cases result with
          | ok sizing => exact ⟨rfl, rfl, fun h => by cases h⟩
          | error error => exact .call rfl fun _ => ⟨rfl, rfl⟩

theorem orderly_extend {hands : Hands} {file : Nat} (length : Nat) (hfile : hands.file = some file)
    (hmapping : hands.mapping = none) (hmade : hands.made = true) :
    (extend file length).Orderly (fun hands' result => hands' = match result with
      | .ok mapping => { hands with mapping := some mapping }
      | .error _ => hands) hands := by
  refine .call ⟨hfile, hmade⟩ fun outcome => ?_
  cases outcome with
  | error error => exact rfl
  | ok u =>
    refine ⟨⟨hfile, hmapping⟩, fun mapped _ => ?_⟩
    cases mapped <;> exact rfl

/-- What goes with the result of a creation: a thread that has a queue file has made it. -/
def Creates (hands : Hands) (result : Except Error Store) : Prop :=
  hands.Fits result ∧ ∀ store, result = .ok store → hands.made = true

theorem orderly_create {hands : Hands} (path : String) (s : Sizing) (mode : Nat) (he : hands.Empty) :
    (create path s mode).Orderly Creates hands := by
  have hfails : ∀ {hands : Hands} {error : Error}, hands.Empty → Creates hands (.error error) :=
    fun h => ⟨h, fun _ h => by cases h⟩
  unfold create
  cases s.fileSize? with
  | none => exact hfails he
  | some length =>
    refine .call he fun outcome => ?_
    cases outcome with
    | error error => exact hfails he
    | ok file =>
      refine Script.Orderly.bind (orderly_extend length rfl he.2 rfl) fun hands' result hresult => ?_
      cases result with
      | ok mapping =>
        rw [hresult]
        exact .call rfl fun _ => ⟨⟨rfl, rfl, fun h => by cases h⟩, fun _ _ => rfl⟩
      | error error =>
        rw [hresult]
        refine .call trivial fun removed => ?_
        cases removed <;> exact .call rfl fun _ => hfails ⟨rfl, he.2⟩

theorem orderly_initialise {hands : Hands} {store : Store} (hmapping : hands.mapping = some store.mapping)
    (hmade : hands.made = true) :
    store.initialise.Orderly (fun hands' _ => hands' = hands) hands := by
  refine (Script.orderly_through hmapping _ (Or.inl hmade)).bind ?_
  rintro _ _ rfl
  refine .call ⟨hmapping, hmade⟩ fun prepared => ?_
  cases prepared with
  | error error => exact rfl
  | ok u =>
    refine (Script.orderly_through hmapping _ (Or.inl hmade)).bind ?_
    rintro _ _ rfl
    exact rfl

end Store

namespace Opening

theorem orderly_attach (path : String) (retries : Nat) : ∀ {hands : Hands}, hands.Empty →
    (attach path retries).Orderly Hands.Fits hands := by
  induction retries with
  | zero =>
    intro hands he
    refine (Store.orderly_attach path he).bind fun hands result hfits => ?_
    split
    · exact hfits
    · exact hfits
  | succ retries ih =>
    intro hands he
    refine (Store.orderly_attach path he).bind fun hands result hfits => ?_
    split
    · exact .call trivial fun _ => ih hfits
    · exact hfits

theorem orderly_finish {hands : Hands} (path : String) (store : Store)
    (hfits : Store.Creates hands (.ok store)) : (finish path store).Orderly Hands.Fits hands := by
  obtain ⟨⟨hfile, hmapping, hfound⟩, hmade⟩ := hfits
  refine (Store.orderly_initialise hmapping (hmade store rfl)).bind ?_
  rintro _ result rfl
  cases result with
  | ok u => exact ⟨hfile, hmapping, hfound⟩
  | error error =>
    refine .call hmapping fun _ => .call trivial fun removed => ?_
    cases removed <;> exact ⟨hfile, rfl⟩

theorem orderly_join {hands : Hands} (path : String) (options : Options) (he : hands.Empty)
    {again : Script (Except Error Store)}
    (hagain : ∀ {hands : Hands}, hands.Empty → again.Orderly Hands.Fits hands) :
    (join path options again).Orderly Hands.Fits hands := by
  refine (orderly_attach path options.retries he).bind fun hands result hfits => ?_
  cases result with
  | ok store => exact hfits
  | error error =>
    dsimp only
    split
    · exact hagain hfits
    · exact hfits

theorem orderly_round (path : String) (options : Options) (left : Nat) : ∀ {hands : Hands},
    hands.Empty → (round path options left).Orderly Hands.Fits hands := by
  induction left with
  | zero => exact fun he => he
  | succ left ih =>
    intro hands he
    unfold round
    split
    · refine (Store.orderly_create path _ _ he).bind fun hands result hcreates => ?_
      cases result with
      | ok store => exact orderly_finish path store hcreates
      | error error =>
        dsimp only
        split
        · exact orderly_join path options hcreates.1 ih
        · exact hcreates.1
    · exact orderly_join path options he ih

theorem orderly_run {hands : Hands} (directory name : String) (options : Options) (he : hands.Empty) :
    (run directory name options).Orderly Hands.Fits hands := by
  unfold run
  split
  · exact he
  · split
    · exact he
    · refine .call trivial fun made => ?_
      cases made with
      | error error => exact he
      | ok u => exact orderly_round _ options rounds he

theorem orderly_unlink {hands : Hands} (directory name : String) (he : hands.Empty) :
    (unlink directory name).Orderly (fun hands _ => hands.Empty) hands := by
  unfold unlink
  split
  · exact he
  · refine .call trivial fun removed => ?_
    cases removed <;> exact he

end Opening

/-- What a thread sets out to do. -/
inductive Plan where
  | opens (directory name : String) (options : Options)
  /-- To attach to the file at a path, without a second try. -/
  | attaches (path : String)
  | unlinks (directory name : String)
  deriving DecidableEq

/-- The script of a plan, and the queue file that it yields if it yields one. -/
def Plan.script : Plan → Script (Except Error (Option Store))
  | opens directory name options => do return (← Opening.run directory name options).map some
  | attaches path => do return (← Store.attach path).map some
  | unlinks directory name => do return (← Opening.unlink directory name).map fun _ => none

/-- What goes with the result of a plan. -/
def Hands.Ends (hands : Hands) : Except Error (Option Store) → Prop
  | .ok (some store) => hands.Fits (.ok store)
  | _ => hands.Empty

theorem Plan.orderly_script {hands : Hands} (plan : Plan) (he : hands.Empty) :
    plan.script.Orderly Hands.Ends hands := by
  cases plan with
  | opens directory name options =>
    refine (Opening.orderly_run directory name options he).bind fun hands result hfits => ?_
    cases result <;> exact hfits
  | attaches path =>
    refine (Store.orderly_attach path he).bind fun hands result hfits => ?_
    cases result <;> exact hfits
  | unlinks directory name =>
    refine (Opening.orderly_unlink directory name he).bind fun hands result hempty => ?_
    cases result <;> exact hempty

end MappedQueue
