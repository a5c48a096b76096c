import MappedQueue.Proofs.Exclusion

/-!
# What a step of a call can be

A step of a call takes a turn, or it falls asleep, or it only moves the call on. What the
points have to do with waiting is said here once for all of them: a call that has come to wait
goes on waiting until it takes a turn, and the sleepers of a queue are those that fell asleep
and have not been woken.
-/

namespace MappedQueue

variable {h : Handle} {q : Shared} {c : Call} {around : Surroundings} {me pick : Nat}
  {next : Advance} {condition : Condition}

namespace Point

/-- Whether a call that stands at a point has found that it has to wait and has kept the lock
ever since. -/
def Drowsy : Point → Prop
  | .waitCancelled | .waitInterrupted | .waitClock _ => True
  | _ => False

def IsAsleep : Point → Prop
  | .asleep _ => True
  | _ => False

theorem Drowsy.inside {point : Point} (hd : point.Drowsy) : point.Inside := by
  cases point <;> trivial

end Point

namespace Shared

/-- Waking takes one of the threads asleep on the condition out of the sleepers, or there is
none. -/
theorem stillAsleep_cases (sleepers : List (Nat × Condition)) (condition : Condition)
    (pick : Nat) :
    (stillAsleep sleepers condition pick = sleepers ∧
        ∀ thread, (thread, condition) ∉ sleepers) ∨
      ∃ thread, (thread, condition) ∈ sleepers ∧
        stillAsleep sleepers condition pick = sleepers.erase (thread, condition) := by
  unfold stillAsleep
  dsimp only
  split
  case h_1 sleeper hsleeper =>
    obtain ⟨hmem, hcondition⟩ := List.mem_filter.mp (List.mem_of_getElem? hsleeper)
    obtain ⟨thread, _⟩ := sleeper
    cases of_decide_eq_true hcondition
    exact Or.inr ⟨thread, hmem, rfl⟩
  case h_2 hnone =>
    refine Or.inl ⟨rfl, fun thread hmem => ?_⟩
    have hcandidate : (thread, condition) ∈ sleepers.filter (·.2 = condition) :=
      List.mem_filter.mpr ⟨hmem, decide_eq_true rfl⟩
    -- The index is taken modulo the number of candidates, so only their absence yields nobody.
    have hpos := List.length_pos_of_mem hcandidate
    exact absurd (List.getElem?_eq_none_iff.mp hnone) (Nat.not_le.mpr (Nat.mod_lt _ hpos))

theorem sleepers_wake_sublist (q : Shared) (condition : Condition) (pick : Nat) :
    (q.wake condition pick).sleepers.Sublist q.sleepers := by
  rw [Call.sleepers_wake]
  rcases stillAsleep_cases q.sleepers condition pick with ⟨hsame, -⟩ | ⟨thread, -, herase⟩
  · rw [hsame]
  · rw [herase]
    exact List.erase_sublist

end Shared

namespace Call

/-- What a step of a call means to those who wait. -/
inductive Move (me : Nat) (h : Handle) (around : Surroundings) (pick : Nat) (q : Shared)
    (c : Call) : Advance → Prop
  /-- The call moves on. It may take the lock if that is free, and a sleeper moves on only if it
  has been woken. -/
  | goes {point : Point} {q' : Shared} (hlock : q.Seized me q')
      (hwaits : point.waits = c.point.waits) (hdrowsy : point.Drowsy → c.point.Drowsy)
      (hasleep : ¬ point.IsAsleep)
      (hwoken : c.point.IsAsleep → (me, c.request.condition) ∉ q.sleepers) :
      Move me h around pick q c
        { call := { c with point }, shared := q', nonblocking := h.nonblocking }
  | sleeps {seen : Nat} (hpoint : c.point = .waitClock seen) :
      Move me h around pick q c
        { call := { c with point := .asleep seen }
          shared := { q with holder := none, sleepers := q.sleepers ++ [(me, c.request.condition)] }
          nonblocking := h.nonblocking }
  | turns {turn : Access Turn} (hturn : c.program h around.herald = some turn) :
      Move me h around pick q c (c.takeTurn h pick q turn)

section Way

variable {before point : Point}

theorem Way.waits_eq (hway : Way me h around q c before point) : point.waits = before.waits := by
  cases hway <;> rfl

theorem Way.drowsy (hway : Way me h around q c before point) (hd : point.Drowsy) :
    before.Drowsy := by
  cases hway <;> first | exact hd.elim | trivial

theorem Way.not_asleep (hway : Way me h around q c before point) : ¬ point.IsAsleep := by
  cases hway <;> exact id

theorem Way.gone (hway : Way me h around q c before point) (ha : before.IsAsleep) :
    (me, c.request.condition) ∉ q.sleepers := by
  cases hway <;> first | exact ha.elim | assumption

end Way

theorem step_move (hstep : c.step me h around pick q = some next) :
    Move me h around pick q c next := by
  cases pace_of_step hstep with
  | goes hpoint hway =>
    exact .goes .same (hpoint ▸ hway.waits_eq) (hpoint ▸ hway.drowsy) hway.not_asleep
      (hpoint ▸ hway.gone)
  | enters hpoint hfree =>
    exact .goes (.taken hfree) (by rw [hpoint]; rfl) False.elim id
      (by rw [hpoint]; exact False.elim)
  | @returns seen woken hpoint hfree =>
    cases woken || q.orphaned <;>
      exact .goes (.taken hfree) (by rw [hpoint]; rfl) False.elim id
        (by rw [hpoint]; exact False.elim)
  | sleeps hpoint => exact .sleeps hpoint
  | turns hturn => exact .turns hturn

/-- The end of a slice neither begins nor ends a wait, but the thread is no sleeper any more. -/
theorem expire_move {q' : Shared} {c' : Call} (he : c.expire me q = some (q', c')) :
    ∃ point, c' = { c with point } ∧ point.waits = c.point.waits ∧ ¬ point.Drowsy ∧
      ¬ point.IsAsleep ∧ q'.region = q.region ∧
      (¬ c.point.IsAsleep ∧ q' = q ∨
        q'.sleepers = q.sleepers.erase (me, c.request.condition)) := by
  cases expiry_of_expire he with
  | atDoor hpoint =>
    rw [hpoint]
    exact ⟨_, rfl, rfl, id, id, rfl, Or.inl ⟨id, rfl⟩⟩
  | asleep hpoint =>
    rw [hpoint]
    exact ⟨_, rfl, rfl, id, id, rfl, Or.inr rfl⟩

/-- Whoever fails is no sleeper, and wakes nobody. -/
theorem falter_move {error : SystemError} (hf : c.falter me h error q = some next) :
    next.call = { c with point := .answered (.error (.system error)) } ∧
      next.shared.sleepers = q.sleepers ∧ ¬ c.point.IsAsleep := by
  cases failure_of_falter hf with
  | barred hpoint => exact ⟨rfl, rfl, by rw [hpoint]; exact id⟩
  | early hpoint =>
    obtain ⟨r, hfail⟩ := c.takeTurn_fail h error q
    rw [hfail, hpoint]
    exact ⟨rfl, rfl, id⟩
  | late hpoint =>
    obtain ⟨r, hfail⟩ := c.takeTurn_fail h error (q.seize me)
    rw [hfail, hpoint]
    exact ⟨rfl, rfl, id⟩

/-- A turn wakes at most one sleeper. -/
theorem takeTurn_sleepers (turn : Access Turn) :
    (c.takeTurn h pick q turn).shared.sleepers.Sublist q.sleepers := by
  unfold takeTurn
  split
  · exact List.Sublist.refl _
  · split
    · exact List.Sublist.refl _
    · dsimp only
      split
      · exact Shared.sleepers_wake_sublist _ _ _
      · exact List.Sublist.refl _

end Call

end MappedQueue
