import MappedQueue.Proofs.Turns

/-!
# Steps of a call

A step of a call either takes a turn under the lock or leaves the bytes of the queue alone.
A turn does to the queue what it does to the messages and the registration; every other
step only moves the call on, and if it ends the call, it ends it with an error.
-/

namespace MappedQueue

variable {s : Sizing} {h : Handle} {a b : Ideal} {q : Shared} {c : Call} {around : Surroundings}
  {me pick : Nat} {next : Advance} {t : Turn}

/-- Whether a point is between the look at the arguments and the end of the call. -/
def Point.Onward : Point → Prop
  | .arriving | .answered _ | .broken _ => False
  | _ => True

/-- Whether a call that stands at a point has found that it has to wait and has not taken the
turn yet that ends its waiting. -/
def Point.waits : Point → Bool
  | .waitCancelled | .waitInterrupted | .waitClock _ | .asleep _ | .roused _ _ => true
  | .backCancelled _ | .backInterrupted _ | .backClock | .looking | .quitting _ => true
  | _ => false

/-- Whether a call is a receive that has come to wait and has not stopped waiting. -/
def Call.receiving (c : Call) : Bool :=
  match c.request with
  | .receive _ => c.point.waits
  | _ => false

/-- A call that has got beyond the look at its arguments has acceptable ones. -/
def Call.Admitted (h : Handle) (c : Call) : Prop :=
  c.point.Onward → Call.refusal? h c.buffer c.request = none

/-- Of a handle only the sizing matters to the arguments of a call. -/
theorem Call.Admitted.congr {h' : Handle} (hs : h'.sizing = h.sizing) (hc : c.Admitted h) :
    c.Admitted h' := by
  intro hp
  rw [← hc hp]
  cases c.request <;> simp only [refusal?, hs]

/-- The region was found broken. -/
def Call.Broken (c : Call) : Prop := ∃ fault, c.point = .broken fault

namespace Ideal

/-- The turn that a call takes next, if it stands in front of one. -/
def turn (h : Handle) (herald : Herald) (c : Call) (a : Ideal) : Option (Turn × Ideal) :=
  match c.point with
  | .inside => some (a.first h herald c.buffer c.request)
  | .looking => some (a.again h c.buffer c.request)
  | .quitting setback => some (a.giveUp h c.buffer setback c.request)
  | _ => none

/-- A turn is the first one of a call, another one, or the one in which it gives up. -/
theorem turn_cases {herald : Herald} (ht : a.turn h herald c = some (t, b)) :
    (c.point = .inside ∧ t = (a.first h herald c.buffer c.request).1 ∧
        b = (a.first h herald c.buffer c.request).2) ∨
      (c.point = .looking ∧ t = (a.again h c.buffer c.request).1 ∧
        b = (a.again h c.buffer c.request).2) ∨
      ∃ setback, c.point = .quitting setback ∧ t = (a.giveUp h c.buffer setback c.request).1 ∧
        b = (a.giveUp h c.buffer setback c.request).2 := by
  unfold turn at ht
  split at ht <;> rename_i hpoint
  · rw [Option.some.inj ht]
    exact Or.inl ⟨hpoint, rfl, rfl⟩
  · rw [Option.some.inj ht]
    exact Or.inr (Or.inl ⟨hpoint, rfl, rfl⟩)
  · rename_i setback
    refine Or.inr (Or.inr ⟨setback, hpoint, ?_⟩)
    rw [Option.some.inj ht]
    exact ⟨rfl, rfl⟩
  · cases ht

end Ideal

/-- Where a turn leaves a call. -/
def Turn.point (t : Turn) : Point :=
  match t.verdict with
  | .finish answer _ => .answered answer
  | .wait => .waitCancelled

theorem Turn.point_cases (t : Turn) :
    (t.verdict = .wait ∧ t.point = .waitCancelled) ∨
      ∃ answer wake, t.verdict = .finish answer wake ∧ t.point = .answered answer := by
  unfold point
  cases t.verdict with
  | wait => exact Or.inl ⟨rfl, rfl⟩
  | finish answer wake => exact Or.inr ⟨answer, wake, rfl, rfl⟩

theorem Turn.not_broken (t : Turn) {request : Request} {buffer : ByteArray} :
    ¬ Call.Broken ⟨request, buffer, t.point⟩ := by
  rintro ⟨fault, hfault⟩
  obtain ⟨-, hpoint⟩ | ⟨_, _, -, hpoint⟩ := t.point_cases <;> cases hpoint.symm.trans hfault

/-- A turn that leaves a call answered is its last one. -/
theorem Turn.finish_of_point {answer : Answer} (hp : t.point = .answered answer) :
    ∃ wake, t.verdict = .finish answer wake := by
  obtain ⟨-, hwaits⟩ | ⟨other, wake, hverdict, hanswered⟩ := t.point_cases
  · cases hwaits.symm.trans hp
  · cases hanswered.symm.trans hp
    exact ⟨wake, hverdict⟩

theorem Turn.buffer_unheard (t : Turn) (error : SystemError) :
    (t.unheard error).buffer = t.buffer := by
  unfold unheard
  split <;> rfl

theorem Turn.delivery_unheard (t : Turn) (error : SystemError) :
    (t.unheard error).delivery = t.delivery := by
  unfold unheard
  split <;> rfl

/-- A turn that cannot wake whom it has to ends the call all the same. -/
theorem Turn.point_unheard (t : Turn) (error : SystemError) :
    (t.unheard error).point = t.point ∨
      (t.unheard error).point = .answered (.error (.system error)) ∧
        ∃ answer, t.point = .answered answer := by
  unfold unheard
  split
  · rename_i answer condition hverdict
    exact Or.inr ⟨rfl, answer, by rw [Turn.point, hverdict]⟩
  · exact Or.inl rfl

/-- Who holds the lock after a turn: a call that is over gives it back. -/
def Turn.holder (t : Turn) (before : Option Nat) : Option Nat :=
  match t.verdict with
  | .finish _ _ => none
  | .wait => before

/-- Everything shared is as it was, but for a thread that may have taken the lock. -/
inductive Shared.Seized (thread : Nat) (q : Shared) : Shared → Prop
  | same : Seized thread q q
  | taken (hfree : q.holder = none) : Seized thread q (q.seize thread)

namespace Shared.Seized

variable {q' : Shared}

theorem region_eq (hq : q.Seized me q') : q'.region = q.region := by
  cases hq <;> rfl

theorem sleepers_eq (hq : q.Seized me q') : q'.sleepers = q.sleepers := by
  cases hq <;> rfl

end Shared.Seized

/-- Who is left of the sleepers when one who sleeps on a condition has been woken. -/
def Shared.stillAsleep (sleepers : List (Nat × Condition)) (condition : Condition) (pick : Nat) :
    List (Nat × Condition) :=
  let candidates := sleepers.filter (·.2 = condition)
  match candidates[pick % candidates.length]? with
  | some sleeper => sleepers.erase sleeper
  | none => sleepers

/-- Who is left of the sleepers after a turn: a call that is over may wake somebody. -/
def Turn.sleepers (t : Turn) (pick : Nat) (before : List (Nat × Condition)) :
    List (Nat × Condition) :=
  match t.verdict with
  | .finish _ (some condition) => Shared.stillAsleep before condition pick
  | _ => before

namespace Call

@[simp] theorem region_wake (q : Shared) (condition : Condition) (pick : Nat) :
    (q.wake condition pick).region = q.region := by
  unfold Shared.wake
  dsimp only
  split <;> rfl

@[simp] theorem holder_wake (q : Shared) (condition : Condition) (pick : Nat) :
    (q.wake condition pick).holder = q.holder := by
  unfold Shared.wake
  dsimp only
  split <;> rfl

@[simp] theorem orphaned_wake (q : Shared) (condition : Condition) (pick : Nat) :
    (q.wake condition pick).orphaned = q.orphaned := by
  unfold Shared.wake
  dsimp only
  split <;> rfl

theorem sleepers_wake (q : Shared) (condition : Condition) (pick : Nat) :
    (q.wake condition pick).sleepers = Shared.stillAsleep q.sleepers condition pick := by
  unfold Shared.wake Shared.stillAsleep
  dsimp only
  cases (q.sleepers.filter (·.2 = condition))[
    pick % (q.sleepers.filter (·.2 = condition)).length]? <;> rfl

/-- What a turn leaves behind that does not come to a fault. -/
theorem takeTurn_of_ok {turn : Access Turn} {r : Region} (hrun : turn.run q.region = (.ok t, r))
    (hnext : c.takeTurn h pick q turn = next) :
    next.call = { c with point := t.point, buffer := t.buffer } ∧
      next.shared.region = r ∧ next.nonblocking = t.nonblocking ∧
      next.delivery = t.delivery ∧ next.shared.holder = t.holder q.holder ∧
      next.shared.sleepers = t.sleepers pick q.sleepers := by
  subst hnext
  simp only [takeTurn, hrun, Turn.point, Turn.holder, Turn.sleepers]
  cases t.verdict with
  | wait => exact ⟨rfl, rfl, rfl, rfl, rfl, rfl⟩
  | finish answer wake =>
    cases wake with
    | none => exact ⟨rfl, rfl, rfl, rfl, rfl, rfl⟩
    | some condition =>
      dsimp only
      rw [region_wake, holder_wake, sleepers_wake]
      exact ⟨rfl, rfl, rfl, rfl, rfl, rfl⟩

@[simp] theorem orphaned_takeTurn (h : Handle) (pick : Nat) (q : Shared) (c : Call)
    (turn : Access Turn) : (c.takeTurn h pick q turn).shared.orphaned = q.orphaned := by
  unfold takeTurn
  split
  · rfl
  · split
    · rfl
    · dsimp only
      split
      · exact orphaned_wake ..
      · rfl

/-- The program of the turn that a call takes next, if it stands in front of one. -/
def program (h : Handle) (herald : Herald) (c : Call) : Option (Access Turn) :=
  match c.point with
  | .inside => some (Turn.first h herald c.buffer c.request)
  | .looking => some (Turn.again h c.buffer c.request)
  | .quitting setback => some (Turn.giveUp h c.buffer setback c.request)
  | _ => none

theorem point_of_program {herald : Herald} {turn : Access Turn}
    (hp : c.program h herald = some turn) :
    c.point = .inside ∨ c.point = .looking ∨ ∃ setback, c.point = .quitting setback := by
  unfold program at hp
  split at hp <;> rename_i hpoint
  · exact Or.inl hpoint
  · exact Or.inr (Or.inl hpoint)
  · exact Or.inr (Or.inr ⟨_, hpoint⟩)
  · cases hp

theorem turn_of_program {herald : Herald} {turn : Access Turn}
    (hp : c.program h herald = some turn) (a : Ideal) : ∃ t b, a.turn h herald c = some (t, b) := by
  unfold Ideal.turn
  obtain hpoint | hpoint | ⟨setback, hpoint⟩ := point_of_program hp <;> rw [hpoint] <;>
    exact ⟨_, _, rfl⟩

/-- A call that stands in front of a turn takes it. -/
theorem step_of_program {turn : Access Turn} (hp : c.program h around.herald = some turn) :
    c.step me h around pick q = some (c.takeTurn h pick q turn) := by
  unfold program at hp
  unfold step
  split at hp
  case h_4 => cases hp
  all_goals
    rename_i hpoint
    cases hp
    simp only [hpoint]

/-- The program of a turn does to the bytes what the turn does to the messages. -/
theorem run_program {herald : Herald} (hs : h.sizing.Valid) (hh : h.Fits)
    (hfits : c.request.Fits) (hc : c.Admitted h) (hr : Refines h.sizing q.region a)
    (ht : a.turn h herald c = some (t, b)) :
    ∃ turn r, c.program h herald = some turn ∧ turn.run q.region = (.ok t, r) ∧
      Refines h.sizing r b := by
  unfold Ideal.turn at ht
  unfold program
  split at ht
  · rename_i hpoint
    rw [Admitted, hpoint] at hc
    obtain ⟨r, hrun, hr'⟩ := hr.run_first hs hh hfits (hc trivial) herald
    rw [Option.some.inj ht] at hrun hr'
    exact ⟨_, r, rfl, hrun, hr'⟩
  · rename_i hpoint
    rw [Admitted, hpoint] at hc
    obtain ⟨r, hrun, hr'⟩ := hr.run_again hs (hc trivial)
    rw [Option.some.inj ht] at hrun hr'
    exact ⟨_, r, rfl, hrun, hr'⟩
  · rename_i setback hpoint
    obtain ⟨r, hrun, hr'⟩ := hr.run_giveUp c.buffer setback c.request
    rw [Option.some.inj ht] at hrun hr'
    exact ⟨_, r, rfl, hrun, hr'⟩
  · cases ht

/-- A call that stands in front of a turn can take it. -/
theorem exists_step_of_turn {herald : Herald} (ht : a.turn h herald c = some (t, b)) :
    ∃ next, c.step me h around pick q = some next := by
  unfold Ideal.turn at ht
  unfold step
  split at ht
  case h_4 => cases ht
  all_goals
    rename_i hpoint
    simp only [hpoint]
    exact ⟨_, rfl⟩

/-- A call that stands in front of a turn takes it, and the turn does to the bytes what it
does to the messages. -/
theorem step_turn (hs : h.sizing.Valid) (hh : h.Fits) (hfits : c.request.Fits) (hc : c.Admitted h)
    (hr : Refines h.sizing q.region a) (ht : a.turn h around.herald c = some (t, b))
    (hstep : c.step me h around pick q = some next) :
    next.call = { c with point := t.point, buffer := t.buffer } ∧
      Refines h.sizing next.shared.region b ∧ next.nonblocking = t.nonblocking ∧
      next.delivery = t.delivery ∧ next.shared.holder = t.holder q.holder ∧
      next.shared.sleepers = t.sleepers pick q.sleepers := by
  obtain ⟨turn, r, hprogram, hrun, hr'⟩ := run_program hs hh hfits hc hr ht
  rw [step_of_program hprogram] at hstep
  obtain ⟨hcall, hregion, hrest⟩ := takeTurn_of_ok hrun (Option.some.inj hstep)
  exact ⟨hcall, hregion ▸ hr', hrest⟩

/-- A step that only moves the call on. If it ends the call, it ends it with an error that
is none of the queue's. -/
structure Quiet (h : Handle) (q : Shared) (c : Call) (next : Advance) : Prop where
  region_eq : next.shared.region = q.region
  nonblocking_eq : next.nonblocking = h.nonblocking
  delivery_eq : next.delivery = none
  request_eq : next.call.request = c.request
  buffer_eq : next.call.buffer = c.buffer
  not_broken : ¬ next.call.Broken
  answered : ∀ answer, next.call.point = .answered answer →
    ∃ error, answer = .error error ∧ error ≠ .busy
  admitted : c.Admitted h → next.call.Admitted h

theorem Quiet.onward {point : Point} {q' : Shared} (hq : q'.region = q.region)
    (hp : point.Onward) (hc : c.point.Onward) :
    Quiet h q c { call := { c with point }, shared := q', nonblocking := h.nonblocking } where
  region_eq := hq
  nonblocking_eq := rfl
  delivery_eq := rfl
  request_eq := rfl
  buffer_eq := rfl
  not_broken := by
    rintro ⟨fault, rfl⟩
    exact hp
  answered := by
    rintro answer rfl
    exact hp.elim
  admitted ha _ := ha hc

theorem Quiet.refused {error : Error} (he : error ≠ .busy) :
    Quiet h q c
      { call := { c with point := .answered (.error error) }, shared := q,
        nonblocking := h.nonblocking } where
  region_eq := rfl
  nonblocking_eq := rfl
  delivery_eq := rfl
  request_eq := rfl
  buffer_eq := rfl
  not_broken := by
    rintro ⟨fault, hfault⟩
    cases hfault
  answered := by
    rintro answer hanswer
    cases hanswer
    exact ⟨error, rfl, he⟩
  admitted _ hp := hp.elim

theorem refusal_ne_busy {buffer : ByteArray} {request : Request} {error : Error}
    (he : refusal? h buffer request = some error) : error ≠ .busy := by
  rintro rfl
  cases request <;> simp only [refusal?] at he
  case send =>
    split at he
    · cases he
    · split at he <;> cases he
  case receive => split at he <;> cases he
  all_goals cases he

/-- Only transfers have arguments that can be refused. -/
theorem refusal_of_not_transfers {buffer : ByteArray} {request : Request}
    (ht : request.transfers = false) : refusal? h buffer request = none := by
  cases request <;> first | rfl | cases ht

theorem arrive_cases (h : Handle) (around : Surroundings) (q : Shared) (c : Call) :
    (c.arrive h around q = .knocking ∧ refusal? h c.buffer c.request = none) ∨
      ∃ error, c.arrive h around q = .answered (.error error) ∧ error ≠ .busy := by
  unfold arrive
  cases ht : c.request.transfers with
  | false => exact Or.inl ⟨rfl, refusal_of_not_transfers ht⟩
  | true =>
    simp only [Bool.not_true, Bool.false_eq_true, if_false]
    split
    · exact Or.inr ⟨_, rfl, by decide⟩
    · split
      · exact Or.inr ⟨_, rfl, by decide⟩
      · cases hrefusal : refusal? h c.buffer c.request with
        | none => exact Or.inl ⟨rfl, rfl⟩
        | some error => exact Or.inr ⟨error, rfl, refusal_ne_busy hrefusal⟩

theorem refusal_of_knocking (hknock : c.arrive h around q = .knocking) :
    refusal? h c.buffer c.request = none := by
  obtain ⟨-, haccepted⟩ | ⟨error, herror, -⟩ := c.arrive_cases h around q
  · exact haccepted
  · cases hknock.symm.trans herror

/-- A way from one point of a call to the next on which nothing shared changes. -/
inductive Way (me : Nat) (h : Handle) (around : Surroundings) (q : Shared) (c : Call) :
    Point → Point → Prop
  | accepted (hknock : c.arrive h around q = .knocking) : Way me h around q c .arriving .knocking
  | refused {error : Error} (harrive : c.arrive h around q = .answered (.error error))
      (hbusy : error ≠ .busy) : Way me h around q c .arriving (.answered (.error error))
  | untagged (hneeds : c.request.needsTag = true) (htag : q.tagged = false) :
      Way me h around q c .knocking (.answered (.error .badHandle))
  | tagged (htag : c.request.needsTag = true → q.tagged = true) :
      Way me h around q c .knocking (.atDoor around.interruptions)
  | doorCancelled {seen : Nat} (hcancelled : around.cancelled = true) :
      Way me h around q c (.doorCancelled seen) (.answered (.error .cancelled))
  | doorOn {seen : Nat} (hgoes : around.cancelled = false) :
      Way me h around q c (.doorCancelled seen) (.doorInterrupted seen)
  | doorInterrupted {seen : Nat} (hcame : around.interruptions ≠ seen)
      (hpolicy : c.request.lockPolicy = .fail) :
      Way me h around q c (.doorInterrupted seen) (.answered (.error .interrupted))
  | doorAgain {seen : Nat} (hcalm : around.interruptions ≠ seen → c.request.lockPolicy ≠ .fail) :
      Way me h around q c (.doorInterrupted seen) (.atDoor around.interruptions)
  | waitCancelled (hcancelled : around.cancelled = true) :
      Way me h around q c .waitCancelled (.quitting .cancelled)
  | waitOn (hgoes : around.cancelled = false) :
      Way me h around q c .waitCancelled .waitInterrupted
  | waitCounted : Way me h around q c .waitInterrupted (.waitClock around.interruptions)
  | waitLate {seen : Nat} (hlate : c.late around.now = true) :
      Way me h around q c (.waitClock seen) (.quitting .timedOut)
  | woken {seen : Nat} (hgone : (me, c.request.condition) ∉ q.sleepers) :
      Way me h around q c (.asleep seen) (.roused seen true)
  | backCancelled {seen : Nat} (hcancelled : around.cancelled = true) :
      Way me h around q c (.backCancelled seen) (.quitting .cancelled)
  | backOn {seen : Nat} (hgoes : around.cancelled = false) :
      Way me h around q c (.backCancelled seen) (.backInterrupted seen)
  | backInterrupted {seen : Nat} (hcame : around.interruptions ≠ seen)
      (hpolicy : c.request.waitPolicy = .fail) :
      Way me h around q c (.backInterrupted seen) (.quitting .interrupted)
  | backCalm {seen : Nat} (hcalm : around.interruptions ≠ seen → c.request.waitPolicy ≠ .fail) :
      Way me h around q c (.backInterrupted seen) .backClock
  | backLate (hlate : c.late around.now = true) :
      Way me h around q c .backClock (.quitting .timedOut)
  | backEarly (hearly : c.late around.now = false) : Way me h around q c .backClock .looking

/-- All that a step of a call can be: the call goes on, takes the lock for the first time or
takes it back, falls asleep, or takes a turn. -/
inductive Pace (me : Nat) (h : Handle) (around : Surroundings) (pick : Nat) (q : Shared)
    (c : Call) : Advance → Prop
  | goes {before point : Point} (hpoint : c.point = before)
      (hway : Way me h around q c before point) :
      Pace me h around pick q c
        { call := { c with point }, shared := q, nonblocking := h.nonblocking }
  | enters {seen : Nat} (hpoint : c.point = .atDoor seen) (hfree : q.holder = none) :
      Pace me h around pick q c
        { call := { c with point := .inside }, shared := q.seize me, nonblocking := h.nonblocking }
  | returns {seen : Nat} {woken : Bool} (hpoint : c.point = .roused seen woken)
      (hfree : q.holder = none) :
      Pace me h around pick q c
        { call := { c with point := if woken || q.orphaned then .looking else .backCancelled seen }
          shared := q.seize me, nonblocking := h.nonblocking }
  | sleeps {seen : Nat} (hpoint : c.point = .waitClock seen)
      (hearly : c.late around.now = false) :
      Pace me h around pick q c
        { call := { c with point := .asleep seen }
          shared := { q with holder := none, sleepers := q.sleepers ++ [(me, c.request.condition)] }
          nonblocking := h.nonblocking }
  | turns {turn : Access Turn} (hturn : c.program h around.herald = some turn) :
      Pace me h around pick q c (c.takeTurn h pick q turn)

theorem pace_of_step (hstep : c.step me h around pick q = some next) :
    Pace me h around pick q c next := by
  unfold step at hstep
  dsimp only at hstep
  cases hpoint : c.point <;> simp only [hpoint] at hstep
  case arriving =>
    cases hstep
    rcases c.arrive_cases h around q with ⟨hknock, -⟩ | ⟨error, herror, hbusy⟩
    · rw [hknock]
      exact .goes hpoint (.accepted hknock)
    · rw [herror]
      exact .goes hpoint (.refused herror hbusy)
  case knocking =>
    split at hstep <;> cases hstep <;> rename_i htag
    · rw [Bool.and_eq_true, Bool.not_eq_true'] at htag
      exact .goes hpoint (.untagged htag.1 htag.2)
    · refine .goes hpoint (.tagged fun hneeds => ?_)
      simpa only [hneeds, Bool.true_and, Bool.not_eq_true', Bool.not_eq_false] using htag
  case atDoor =>
    split at hstep <;> cases hstep
    rename_i hfree
    exact .enters hpoint (Option.isNone_iff_eq_none.mp hfree)
  case doorCancelled =>
    split at hstep <;> cases hstep <;> rename_i hcancelled
    · exact .goes hpoint (.doorCancelled hcancelled)
    · exact .goes hpoint (.doorOn (eq_false_of_ne_true hcancelled))
  case doorInterrupted =>
    split at hstep <;> cases hstep <;> rename_i hcame
    · exact .goes hpoint (.doorInterrupted hcame.1 hcame.2)
    · exact .goes hpoint (.doorAgain (not_and.mp hcame))
  case waitCancelled =>
    split at hstep <;> cases hstep <;> rename_i hcancelled
    · exact .goes hpoint (.waitCancelled hcancelled)
    · exact .goes hpoint (.waitOn (eq_false_of_ne_true hcancelled))
  case waitInterrupted =>
    cases hstep
    exact .goes hpoint .waitCounted
  case waitClock =>
    split at hstep <;> cases hstep <;> rename_i hlate
    · exact .goes hpoint (.waitLate hlate)
    · exact .sleeps hpoint (eq_false_of_ne_true hlate)
  case asleep =>
    split at hstep <;> cases hstep
    rename_i hgone
    exact .goes hpoint (.woken fun hmem => hgone (List.contains_iff_mem.mpr hmem))
  case roused =>
    split at hstep <;> cases hstep
    rename_i hfree
    exact .returns hpoint (Option.isNone_iff_eq_none.mp hfree)
  case backCancelled =>
    split at hstep <;> cases hstep <;> rename_i hcancelled
    · exact .goes hpoint (.backCancelled hcancelled)
    · exact .goes hpoint (.backOn (eq_false_of_ne_true hcancelled))
  case backInterrupted =>
    split at hstep <;> cases hstep <;> rename_i hcame
    · exact .goes hpoint (.backInterrupted hcame.1 hcame.2)
    · exact .goes hpoint (.backCalm (not_and.mp hcame))
  case backClock =>
    split at hstep <;> cases hstep <;> rename_i hlate
    · exact .goes hpoint (.backLate hlate)
    · exact .goes hpoint (.backEarly (eq_false_of_ne_true hlate))
  case inside | looking | quitting =>
    cases hstep
    exact .turns (by rw [program, hpoint])
  case answered | broken => cases hstep

/-- All these are steps. -/
theorem step_of_pace (hpace : Pace me h around pick q c next) :
    c.step me h around pick q = some next := by
  cases hpace with
  | goes hpoint hway =>
    cases hway with
    | tagged htag => simpa [step, hpoint] using htag
    | doorAgain hcalm => simpa [step, hpoint] using hcalm
    | backCalm hcalm => simpa [step, hpoint] using hcalm
    | _ => simp [step, *]
  | enters hpoint hfree => simp [step, hpoint, hfree]
  | returns hpoint hfree => simp [step, hpoint, hfree]
  | sleeps hpoint hearly => simp [step, hpoint, hearly]
  | turns hturn => exact step_of_program hturn

/-- Nobody dies in a step, so a lock in order stays in order. -/
theorem orphaned_of_step (ho : q.orphaned = false)
    (hstep : c.step me h around pick q = some next) : next.shared.orphaned = false := by
  cases pace_of_step hstep with
  | goes | sleeps => exact ho
  | enters | returns => rfl
  | turns => exact (orphaned_takeTurn ..).trans ho

/-- Every other step leaves the bytes alone and does not answer with a success. -/
theorem step_quiet (ht : a.turn h around.herald c = none)
    (hstep : c.step me h around pick q = some next) : Quiet h q c next := by
  cases pace_of_step hstep with
  | goes hpoint hway =>
    cases hway with
    | accepted hknock =>
      exact {
        region_eq := rfl, nonblocking_eq := rfl, delivery_eq := rfl, request_eq := rfl
        buffer_eq := rfl
        not_broken := by rintro ⟨fault, hfault⟩; cases hfault
        answered := by rintro answer hanswer; cases hanswer
        admitted := fun _ _ => refusal_of_knocking hknock }
    | refused _ hbusy => exact .refused hbusy
    | untagged | doorCancelled | doorInterrupted => exact .refused (by decide)
    | _ => exact .onward rfl trivial (by rw [hpoint]; trivial)
  | enters hpoint => exact .onward rfl trivial (by rw [hpoint]; trivial)
  | @returns seen woken hpoint =>
    refine .onward rfl ?_ (by rw [hpoint]; trivial)
    cases woken || q.orphaned <;> trivial
  | sleeps hpoint => exact .onward rfl trivial (by rw [hpoint]; trivial)
  | turns hturn =>
    -- At the points at which a call takes a turn the messages have one as well.
    obtain ⟨t, b, htaken⟩ := turn_of_program hturn a
    rw [ht] at htaken
    cases htaken

/-- How a slice can end: at the door while another thread has the lock, or in a sleep that nobody
has ended. -/
inductive Expiry (me : Nat) (q : Shared) (c : Call) : Shared → Call → Prop
  | atDoor {seen : Nat} (hpoint : c.point = .atDoor seen) (hheld : q.holder ≠ none) :
      Expiry me q c q { c with point := .doorCancelled seen }
  | asleep {seen : Nat} (hpoint : c.point = .asleep seen)
      (hmem : (me, c.request.condition) ∈ q.sleepers) :
      Expiry me q c { q with sleepers := q.sleepers.erase (me, c.request.condition) }
        { c with point := .roused seen false }

theorem expiry_of_expire {q' : Shared} {c' : Call} (he : c.expire me q = some (q', c')) :
    Expiry me q c q' c' := by
  unfold expire at he
  dsimp only at he
  split at he <;> rename_i hpoint
  · split at he <;> cases he
    rename_i hheld
    exact .atDoor hpoint (Option.isSome_iff_ne_none.mp hheld)
  · split at he <;> cases he
    rename_i hmem
    exact .asleep hpoint (List.contains_iff_mem.mp hmem)
  · cases he

/-- How the lock or a wait can fail: at the door, before the thread sleeps, or afterwards when it
takes the lock back. -/
inductive Failure (me : Nat) (h : Handle) (error : SystemError) (q : Shared) (c : Call) :
    Advance → Prop
  | barred {seen : Nat} (hpoint : c.point = .atDoor seen) :
      Failure me h error q c
        { call := { c with point := .answered (.error (.system error)) }, shared := q
          nonblocking := h.nonblocking }
  | early {seen : Nat} (hpoint : c.point = .waitClock seen) :
      Failure me h error q c (c.takeTurn h 0 q (Turn.fail h c.buffer error c.request))
  | late {seen : Nat} {woken : Bool} (hpoint : c.point = .roused seen woken)
      (hfree : q.holder = none) :
      Failure me h error q c
        (c.takeTurn h 0 (q.seize me) (Turn.fail h c.buffer error c.request))

theorem failure_of_falter {error : SystemError} (hf : c.falter me h error q = some next) :
    Failure me h error q c next := by
  unfold falter at hf
  dsimp only at hf
  split at hf <;> rename_i hpoint
  · cases hf
    exact .barred hpoint
  · cases hf
    exact .early hpoint
  · split at hf <;> cases hf
    rename_i hfree
    exact .late hpoint (Option.isNone_iff_eq_none.mp hfree)
  · cases hf

theorem orphaned_of_falter {error : SystemError} (ho : q.orphaned = false)
    (hf : c.falter me h error q = some next) : next.shared.orphaned = false := by
  cases failure_of_falter hf with
  | barred => exact ho
  | early => exact (orphaned_takeTurn ..).trans ho
  | late => exact orphaned_takeTurn ..

/-- Whatever the bytes are, a call that fails is over, and gives the lock back. -/
theorem takeTurn_fail (h : Handle) (error : SystemError) (q : Shared) (c : Call) :
    ∃ r, c.takeTurn h 0 q (Turn.fail h c.buffer error c.request) =
      { call := { c with point := .answered (.error (.system error)) }
        shared := { q with region := r, holder := none }, nonblocking := h.nonblocking } := by
  have hrun : ∃ r, (Turn.fail h c.buffer error c.request).run q.region =
      (.ok { verdict := .finish (.error (.system error)) none, buffer := c.buffer,
             nonblocking := h.nonblocking }, r) := by
    cases c.request <;> exact ⟨_, rfl⟩
  obtain ⟨r, hrun⟩ := hrun
  exact ⟨r, by simp only [takeTurn, hrun]⟩

/-- What the failure of the lock or of a wait leaves behind: the call is over, and a receive that
was waiting is not counted any more. -/
structure Falters (s : Sizing) (a : Ideal) (h : Handle) (c : Call) (error : SystemError)
    (next : Advance) : Prop where
  call_eq : next.call = { c with point := .answered (.error (.system error)) }
  nonblocking_eq : next.nonblocking = h.nonblocking
  delivery_eq : next.delivery = none
  refines : Refines s next.shared.region (a.stopWaiting c.receiving)

theorem Falters.of_turn {error : SystemError} (hr : Refines s q.region a)
    (hwaits : c.point.waits = true) :
    Falters s a h c error (c.takeTurn h 0 q (Turn.fail h c.buffer error c.request)) := by
  obtain ⟨r', hrun, hr'⟩ := hr.run_fail h c.buffer error c.request
  obtain ⟨hcall, hregion, hmode, hdelivery, -⟩ := takeTurn_of_ok hrun rfl
  refine ⟨hcall, hmode, hdelivery, ?_⟩
  rw [hregion, receiving, hwaits]
  cases hrequest : c.request <;> rw [hrequest] at hr' <;> exact hr'

theorem falter_falters {error : SystemError} (hr : Refines s q.region a)
    (hf : c.falter me h error q = some next) : Falters s a h c error next := by
  cases failure_of_falter hf with
  | barred hpoint =>
    refine ⟨rfl, rfl, rfl, ?_⟩
    rw [receiving, hpoint]
    cases c.request <;> exact hr
  | early hpoint => exact .of_turn hr (by rw [hpoint]; rfl)
  | late hpoint => exact .of_turn (q := q.seize me) hr (by rw [hpoint]; rfl)

/-- A wake-up can fail in a turn only. -/
theorem program_of_unheard {error : SystemError}
    (hu : c.unheard h around error q = some next) :
    ∃ turn, c.program h around.herald = some turn ∧
      c.takeTurn h 0 q (Turn.unheard error <$> turn) = next := by
  unfold unheard at hu
  unfold program
  split at hu <;> cases hu <;> rename_i hpoint <;> rw [hpoint] <;> exact ⟨_, rfl, rfl⟩

/-- The turn has done to the bytes what it does to the messages, and only its answer is another
one. -/
theorem unheard_turn {error : SystemError} (hs : h.sizing.Valid) (hh : h.Fits)
    (hfits : c.request.Fits) (hc : c.Admitted h) (hr : Refines h.sizing q.region a)
    (hu : c.unheard h around error q = some next) :
    ∃ t b, a.turn h around.herald c = some (t, b) ∧ Refines h.sizing next.shared.region b ∧
      next.call = { c with point := (t.unheard error).point, buffer := t.buffer } ∧
      next.delivery = t.delivery := by
  obtain ⟨turn, hprogram, hnext⟩ := program_of_unheard hu
  obtain ⟨t, b, ht⟩ := turn_of_program hprogram a
  obtain ⟨turn', r, hprogram', hrun, hr'⟩ := run_program hs hh hfits hc hr ht
  cases hprogram.symm.trans hprogram'
  have hrun' : (Turn.unheard error <$> turn).run q.region = (.ok (t.unheard error), r) :=
    Access.run_bind_of_ok hrun
  obtain ⟨hcall, hregion, -, hdelivery, -⟩ := takeTurn_of_ok hrun' hnext
  rw [t.buffer_unheard error] at hcall
  exact ⟨t, b, ht, hregion ▸ hr', hcall, hdelivery.trans (t.delivery_unheard error)⟩

/-- The end of a slice leaves the bytes and the arguments alone. -/
theorem expire_quiet {q' : Shared} {c' : Call} (he : c.expire me q = some (q', c')) :
    q'.region = q.region ∧ ∃ point, c' = { c with point } ∧ point.Onward ∧ c.point.Onward := by
  cases expiry_of_expire he with
  | atDoor hpoint => exact ⟨rfl, _, rfl, trivial, by rw [hpoint]; trivial⟩
  | asleep hpoint => exact ⟨rfl, _, rfl, trivial, by rw [hpoint]; trivial⟩

section Notify

variable {event : Event}

/-- Whoever finds another one registered who is alive is refused and changes nothing. -/
theorem step_register_busy (hr : Refines h.sizing q.region a) (hpoint : c.point = .inside)
    (hrequest : c.request = .notify (some event)) (hb : a.Busy around.herald.alive h.identity) :
    c.step me h around pick q =
      some { call := { c with point := .answered (.error .busy) },
             shared := { q with holder := none }, nonblocking := h.nonblocking } := by
  have hrun : (Turn.first h around.herald c.buffer c.request).run q.region =
      (.ok { verdict := .finish (.error .busy) none, buffer := c.buffer,
             nonblocking := h.nonblocking }, q.region) := by
    rw [hrequest, Turn.first, Access.run_bind_of_ok (hr.run_register_busy hb event)]
    rfl
  unfold step
  simp only [hpoint, takeTurn, hrun]

/-- Whoever withdraws without being registered changes nothing. -/
theorem step_withdraw_other (hr : Refines h.sizing q.region a) (hh : h.Fits)
    (hpoint : c.point = .inside) (hrequest : c.request = .notify none)
    (hother : ∀ held ∈ a.registered, held.owner ≠ h.identity) :
    c.step me h around pick q =
      some { call := { c with point := .answered (.ok .notified) },
             shared := { q with holder := none }, nonblocking := h.nonblocking } := by
  have hrun : (Turn.first h around.herald c.buffer c.request).run q.region =
      (.ok { verdict := .finish (.ok .notified) none, buffer := c.buffer,
             nonblocking := h.nonblocking }, q.region) := by
    rw [hrequest, Turn.first, Access.run_bind_of_ok (hr.run_withdraw_other hh.1 hother)]
    rfl
  unfold step
  simp only [hpoint, takeTurn, hrun]

/-- While another one is registered, or nobody, a withdrawal leaves the bytes alone in
all its steps. -/
theorem region_of_withdraw_other (hr : Refines h.sizing q.region a) (hh : h.Fits)
    (hrequest : c.request = .notify none) (hother : ∀ held ∈ a.registered, held.owner ≠ h.identity)
    (hstep : c.step me h around pick q = some next) :
    next.shared.region = q.region ∧ next.delivery = none := by
  cases ht : a.turn h around.herald c with
  | none =>
    have hquiet := step_quiet ht hstep
    exact ⟨hquiet.region_eq, hquiet.delivery_eq⟩
  | some taken =>
    unfold Ideal.turn at ht
    split at ht
    case h_1 hpoint =>
      rw [step_withdraw_other hr hh hpoint hrequest hother] at hstep
      cases hstep
      exact ⟨rfl, rfl⟩
    case h_2 hpoint =>
      unfold step at hstep
      simp only [hpoint, hrequest] at hstep
      cases hstep
      exact ⟨rfl, rfl⟩
    case h_3 setback hpoint =>
      unfold step at hstep
      simp only [hpoint, hrequest] at hstep
      cases hstep
      exact ⟨rfl, rfl⟩
    case h_4 => cases ht

/-- A call that asks for a registration is refused as busy only when it holds the lock and
finds another one registered who is alive. -/
theorem busy_of_step (hs : h.sizing.Valid) (hh : h.Fits) (hfits : c.request.Fits)
    (hc : c.Admitted h) (hr : Refines h.sizing q.region a)
    (hrequest : c.request = .notify (some event))
    (hstep : c.step me h around pick q = some next)
    (hanswer : next.call.point = .answered (.error .busy)) :
    c.point = .inside ∧ a.Busy around.herald.alive h.identity := by
  cases ht : a.turn h around.herald c with
  | none =>
    obtain ⟨error, herror, hne⟩ := (step_quiet ht hstep).answered _ hanswer
    cases herror
    exact absurd rfl hne
  | some taken =>
    obtain ⟨hcall, -⟩ := step_turn hs hh hfits hc hr ht hstep
    rw [hcall] at hanswer
    unfold Ideal.turn at ht
    rw [hrequest] at ht
    split at ht
    case h_1 hpoint =>
      refine ⟨hpoint, ?_⟩
      by_cases hb : a.Busy around.herald.alive h.identity
      · exact hb
      · rw [Ideal.first, if_neg hb] at ht
        cases ht
        cases hanswer
    case h_2 =>
      cases ht
      cases hanswer
    case h_3 setback _ =>
      cases ht
      cases setback <;> cases hanswer
    case h_4 => cases ht

/-- A call that holds the lock and is not refused as busy is registered. -/
theorem step_register_free (hs : h.sizing.Valid) (hh : h.Fits) (hfits : c.request.Fits)
    (hr : Refines h.sizing q.region a) (hpoint : c.point = .inside)
    (hrequest : c.request = .notify (some event)) (hb : ¬ a.Busy around.herald.alive h.identity)
    (hstep : c.step me h around pick q = some next) :
    next.call.point = .answered (.ok .notified) ∧
      next.shared.region.registered = some ⟨h.identity, event⟩ := by
  have hturn : a.turn h around.herald c =
      some ({ verdict := .finish (.ok .notified) none, buffer := c.buffer,
              nonblocking := h.nonblocking }, { a with registered := some ⟨h.identity, event⟩ }) := by
    simp only [Ideal.turn, hpoint, hrequest, Ideal.first, if_neg hb]
  have hc : c.Admitted h := fun _ => by
    rw [hrequest]
    rfl
  obtain ⟨hcall, hrefines, -⟩ := step_turn hs hh hfits hc hr hturn hstep
  rw [hcall]
  exact ⟨rfl, hrefines.registered_eq⟩

end Notify

end Call

end MappedQueue
