import MappedQueue.Proofs.System

/-!
# One at a time

A call stands at one of several points while it holds the lock, and takes its turns at some of
them. In every state of a run the thread of such a call is the one that the lock knows as its
holder. So no two calls are inside at once, and a turn is taken by the holder.
-/

namespace MappedQueue

variable {q q' : Shared} {S S' : System} {history shown : List Happening} {c c' : Call}
  {h : Handle} {around : Surroundings} {me pick : Nat} {next : Advance} {w w' : Worker}

/-- Whether a call that stands at a point holds the lock. -/
def Point.Inside : Point → Prop
  | .inside | .waitCancelled | .waitInterrupted | .waitClock _ => True
  | .backCancelled _ | .backInterrupted _ | .backClock | .looking | .quitting _ => True
  | _ => False

/-- A call takes its turns inside. -/
theorem Ideal.inside_of_turn {a : Ideal} {herald : Herald} {taken : Turn × Ideal}
    (ht : a.turn h herald c = some taken) : c.point.Inside := by
  unfold turn at ht
  split at ht <;> rename_i hpoint
  · rw [hpoint]; trivial
  · rw [hpoint]; trivial
  · rw [hpoint]; trivial
  · cases ht

namespace Call

theorem inside_of_program {herald : Herald} {turn : Access Turn}
    (hp : c.program h herald = some turn) : c.point.Inside := by
  obtain hpoint | hpoint | ⟨setback, hpoint⟩ := point_of_program hp <;> rw [hpoint] <;> trivial

/-- A turn keeps the lock unless it ends the call. -/
theorem takeTurn_holder (turn : Access Turn) (hnext : c.takeTurn h pick q turn = next) :
    (next.call.point.Inside ∧ next.shared.holder = q.holder) ∨
      ¬ next.call.point.Inside := by
  subst hnext
  unfold takeTurn
  split
  · exact Or.inr id
  · split
    · exact Or.inl ⟨trivial, rfl⟩
    · exact Or.inr id

/-- After a step a call that is inside holds the lock, and the step took it from nobody else. -/
structure Excludes (me : Nat) (q q' : Shared) (point : Point) : Prop where
  holder_eq : point.Inside → q'.holder = some me
  others : ∀ other, other ≠ me → q.holder = some other → q'.holder = some other

variable {point : Point}

theorem Excludes.stay (hsame : q'.holder = q.holder) (hin : point.Inside → q.holder = some me) :
    Excludes me q q' point :=
  ⟨fun hpoint => hsame.trans (hin hpoint), fun _ _ hother => hsame.trans hother⟩

theorem Excludes.enter (hfree : q.holder = none) (hholder : q'.holder = some me) :
    Excludes me q q' point := by
  refine ⟨fun _ => hholder, fun other _ hother => ?_⟩
  rw [hother] at hfree
  cases hfree

theorem Excludes.leave (hholder : q.holder = some me) (hout : ¬ point.Inside) :
    Excludes me q q' point := by
  refine ⟨fun hpoint => absurd hpoint hout, fun other hne hother => ?_⟩
  rw [hholder] at hother
  exact absurd (Option.some.inj hother).symm hne

theorem Excludes.of_turn (turn : Access Turn) (hholder : q.holder = some me)
    (hnext : c.takeTurn h pick q turn = next) : Excludes me q next.shared next.call.point := by
  rcases takeTurn_holder turn hnext with ⟨-, hsame⟩ | hout
  · exact .stay hsame fun _ => hholder
  · exact .leave hholder hout

/-- On a way a call stays inside or stays outside. -/
theorem Way.inside_iff {before : Point} (hway : Way me h around q c before point) :
    point.Inside ↔ before.Inside := by
  cases hway <;> exact Iff.rfl

/-- A step excludes the other threads if the thread that takes it holds the lock when inside. -/
theorem step_excludes (hin : c.point.Inside → q.holder = some me)
    (hstep : c.step me h around pick q = some next) :
    Excludes me q next.shared next.call.point := by
  cases pace_of_step hstep with
  | goes hpoint hway => exact .stay rfl fun hinside => hin (hpoint ▸ hway.inside_iff.mp hinside)
  | enters _ hfree => exact .enter hfree rfl
  | returns _ hfree => exact .enter hfree rfl
  | sleeps hpoint => exact .leave (hin (by rw [hpoint]; trivial)) id
  | turns hturn => exact .of_turn _ (hin (inside_of_program hturn)) rfl

/-- Nobody waits once more because something has failed. -/
theorem outside_of_fail (h : Handle) (error : SystemError) (q : Shared) (c : Call) :
    ¬ (c.takeTurn h 0 q (Turn.fail h c.buffer error c.request)).call.point.Inside := by
  obtain ⟨r, hfail⟩ := c.takeTurn_fail h error q
  rw [hfail]
  exact id

/-- A failure gives the lock back that the call holds or has taken for the purpose. -/
theorem falter_excludes {error : SystemError} (hin : c.point.Inside → q.holder = some me)
    (hf : c.falter me h error q = some next) : Excludes me q next.shared next.call.point := by
  cases failure_of_falter hf with
  | barred => exact .stay rfl False.elim
  | early hpoint => exact .leave (hin (by rw [hpoint]; trivial)) (outside_of_fail _ _ _ _)
  | late _ hfree =>
    refine ⟨fun hinside => absurd hinside (outside_of_fail _ _ _ _), fun other _ hother => ?_⟩
    cases hother.symm.trans hfree

/-- The end of a slice does nothing to the lock, and brings nobody inside. -/
theorem expire_excludes (he : c.expire me q = some (q', c')) : Excludes me q q' c'.point := by
  cases expiry_of_expire he with
  | atDoor => exact .stay rfl False.elim
  | asleep => exact .stay rfl False.elim

end Call

namespace System

/-- Whoever is inside is the one that the lock knows as its holder. -/
def Exclusive (S : System) : Prop :=
  ∀ thread w, S.workers thread = some w → w.call.point.Inside → S.shared.holder = some thread

theorem Exclusive.setWorker (hx : S.Exclusive) {thread : Nat} {worker : Option Worker}
    {point : Point} (he : Call.Excludes thread S.shared q' point)
    (hworker : ∀ w ∈ worker, w.call.point.Inside → point.Inside) :
    Exclusive { S.setWorker thread worker with shared := q' } := by
  intro t w hw hinside
  change Function.update S.workers thread worker t = some w at hw
  by_cases ht : t = thread
  · subst ht
    rw [Function.update_self] at hw
    exact he.holder_eq (hworker w hw hinside)
  · rw [Function.update_of_ne ht] at hw
    exact he.others t ht (hx t w hw hinside)

/-- What a worker becomes is inside only if its call is. -/
theorem inside_of_onward (hw : w' ∈ onward w next) (hinside : w'.call.point.Inside) :
    next.call.point.Inside := by
  unfold onward at hw
  split at hw
  · split at hw
    · cases hw
      exact hinside.elim
    · cases hw
  · cases hw
    exact hinside

theorem Exclusive.advance (hx : S.Exclusive) {thread : Nat}
    (he : Call.Excludes thread S.shared next.shared next.call.point) :
    (S.advance thread w h next).Exclusive :=
  Exclusive.setWorker (S := S.setHandle _ _) hx he fun _ hw hinside =>
    inside_of_onward hw hinside

theorem Step.exclusive (hstep : Step S shown S') (hx : S.Exclusive) : S'.Exclusive := by
  have hbegin : ∀ t, Call.Excludes t S.shared S.shared .arriving := fun _ => .stay rfl False.elim
  cases hstep with
  | attach => exact hx
  | call => exact hx.setWorker (hbegin _) (by rintro w ⟨⟩; exact id)
  | leave => exact hx.setWorker (hbegin _) (by rintro w ⟨⟩; exact id)
  | act hworker hhandle hstep => exact hx.advance (Call.step_excludes (hx _ _ hworker) hstep)
  | falter hworker hhandle hfalter =>
    exact hx.advance (Call.falter_excludes (hx _ _ hworker) hfalter)
  | expire hworker hexpire =>
    exact hx.setWorker (Call.expire_excludes hexpire) (by rintro w ⟨⟩; exact id)
  | stir => exact hx

theorem Run.exclusive (hr : Run (idle q) history S) : S.Exclusive := by
  induction hr with
  | start => exact fun _ _ hw => nomatch hw
  | step _ hs ih => exact hs.exclusive ih

/-- Two threads that are inside are one. -/
theorem Exclusive.unique (hx : S.Exclusive) {t t' : Nat} (hw : S.workers t = some w)
    (hw' : S.workers t' = some w') (hinside : w.call.point.Inside)
    (hinside' : w'.call.point.Inside) : t = t' :=
  Option.some.inj ((hx t w hw hinside).symm.trans (hx t' w' hw' hinside'))

/-- Whoever changes a byte holds the lock. -/
theorem Exclusive.holder_of_ne (hx : S.Exclusive) {thread : Nat}
    (hworker : S.workers thread = some w)
    (hstep : w.call.step thread h around pick S.shared = some next)
    (hne : next.shared.region ≠ S.shared.region) : S.shared.holder = some thread := by
  cases ht : ({} : Ideal).turn h around.herald w.call with
  | none => exact absurd (Call.step_quiet ht hstep).region_eq hne
  | some taken => exact hx thread w hworker (Ideal.inside_of_turn ht)

end System

end MappedQueue
