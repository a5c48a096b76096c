import Mathlib.Data.Finset.Card
import MappedQueue.Proofs.Moves
import MappedQueue.Proofs.Progress

/-!
# How many receivers wait

A receive that finds nothing counts itself among the waiting receivers before it waits, and
takes itself out again in the turn that ends its waiting, whatever ends it: a message, the
deadline, a cancellation, an interruption, or a wait that fails. A wake-up that fails changes
nothing about that. So the count in the region is
the number of receives that are waiting, in every state.
-/

namespace MappedQueue

variable {s : Sizing} {q : Shared} {S S' : System} {a b : Ideal} {history shown : List Happening}
  {thread pick : Nat} {w : Worker} {h : Handle} {around : Surroundings} {next : Advance}
  {c : Call} {t : Turn} {herald : Herald} {error : SystemError}

/-- The count of waiting receivers after a step of a thread that waited to receive or not
`before`, and does or not `after`. -/
def recount (before after : Bool) (waiting : Nat) : Nat :=
  match before, after with
  | false, true => (waiting + 1) % 2 ^ 32
  | true, false => waiting - 1
  | _, _ => waiting

theorem Call.receiving_of_waits_eq {point : Point} (hwaits : point.waits = c.point.waits) :
    Call.receiving { c with point } = c.receiving := by
  unfold receiving
  rw [hwaits]

theorem Call.receiving_of_not_waits (hwaits : c.point.waits = false) : c.receiving = false := by
  unfold receiving
  rw [hwaits]
  split <;> rfl

theorem Call.receiving_of_ne (hr : ∀ deadline, c.request ≠ .receive deadline) :
    c.receiving = false := by
  unfold receiving
  split
  · rename_i deadline hrequest
    exact absurd hrequest (hr deadline)
  · rfl

theorem recount_same (receiving : Bool) (waiting : Nat) :
    recount receiving receiving waiting = waiting := by
  cases receiving <;> rfl

namespace Ideal

theorem waiting_trySend (h : Handle) (m : Message) (a : Ideal) :
    (a.trySend h m).2.waiting = a.waiting := by
  unfold trySend
  split <;> rfl

theorem waiting_fired (a : Ideal) : a.fired.waiting = a.waiting := by
  unfold fired
  split <;> rfl

/-- Only receives are counted. -/
theorem waiting_first {buffer : ByteArray} {request : Request}
    (hr : ∀ deadline, request ≠ .receive deadline) :
    (a.first h herald buffer request).2.waiting = a.waiting := by
  cases request with
  | send bytes priority deadline => exact (waiting_trySend ..).trans (waiting_fired a)
  | receive deadline => exact absurd rfl (hr deadline)
  | attributes => rfl
  | setNonblocking on => rfl
  | notify event =>
    cases event with
    | none => rfl
    | some event =>
      rw [first]
      split <;> rfl
  | linger condition policy deadline => rfl

theorem waiting_again {buffer : ByteArray} {request : Request}
    (hr : ∀ deadline, request ≠ .receive deadline) :
    (a.again h buffer request).2.waiting = a.waiting := by
  cases request with
  | send bytes priority deadline => exact waiting_trySend ..
  | receive deadline => exact absurd rfl (hr deadline)
  | _ => rfl

theorem waiting_giveUp {buffer : ByteArray} {setback : Setback} {request : Request}
    (hr : ∀ deadline, request ≠ .receive deadline) :
    (a.giveUp h buffer setback request).2.waiting = a.waiting := by
  cases request with
  | receive deadline => exact absurd rfl (hr deadline)
  | _ => rfl

theorem waiting_of_turn_receive {deadline : Option Nat} (hr : c.request = .receive deadline)
    (ht : a.turn h herald c = some (t, b)) :
    b.waiting = recount c.point.waits t.point.waits a.waiting := by
  obtain ⟨messages, waiting, registered⟩ := a
  rcases turn_cases ht with ⟨hpoint, rfl, rfl⟩ | ⟨hpoint, rfl, rfl⟩ | ⟨setback, hpoint, rfl, rfl⟩
  · rw [hpoint, hr, first]
    cases messages with
    | nil => cases h.nonblocking <;> rfl
    | cons m rest => rfl
  · rw [hpoint, hr, again]
    cases messages <;> rfl
  · rw [hpoint, hr]
    rfl

/-- A turn counts a receive that begins to wait, and does not count it any more when it stops. -/
theorem waiting_of_turn (ht : a.turn h herald c = some (t, b)) :
    b.waiting = recount c.receiving (Call.receiving { c with point := t.point }) a.waiting := by
  by_cases hr : ∃ deadline, c.request = .receive deadline
  · obtain ⟨deadline, hr⟩ := hr
    rw [waiting_of_turn_receive hr ht, Call.receiving, Call.receiving, hr]
  · simp only [not_exists] at hr
    have hafter : Call.receiving { c with point := t.point } = false := Call.receiving_of_ne hr
    rw [Call.receiving_of_ne hr, hafter, recount_same]
    rcases turn_cases ht with ⟨-, rfl, rfl⟩ | ⟨-, rfl, rfl⟩ | ⟨setback, -, rfl, rfl⟩
    · exact waiting_first hr
    · exact waiting_again hr
    · exact waiting_giveUp hr

end Ideal

namespace System

/-- Whether a thread is in a receive that waits. -/
def receiving (S : System) (thread : Nat) : Bool := (S.workers thread).any (·.call.receiving)

/-- Only threads of `T` are in calls. -/
def Within (T : Finset Nat) (S : System) : Prop :=
  ∀ thread w, S.workers thread = some w → thread ∈ T

/-- A call that is over does not wait, whatever its thread begins with next. -/
theorem receiving_onward (w : Worker) (next : Advance) :
    (onward w next).any (·.call.receiving) = next.call.receiving := by
  unfold onward
  split
  · rename_i answer hanswer
    have hover : next.call.receiving = false :=
      Call.receiving_of_not_waits (by rw [hanswer]; rfl)
    rw [hover]
    split <;> rfl
  · rfl

/-- One thread has taken a step, and the count has changed by that thread. -/
structure Recounted (s : Sizing) (S S' : System) (a b : Ideal) (thread : Nat) : Prop where
  inv : Inv s S' b
  others : ∀ other, other ≠ thread → S'.receiving other = S.receiving other
  waiting_eq : b.waiting = recount (S.receiving thread) (S'.receiving thread) a.waiting

theorem Recounted.of_workers {worker : Option Worker} (hi : Inv s S' b)
    (hworkers : S'.workers = Function.update S.workers thread worker)
    (hwaiting : b.waiting =
      recount (S.receiving thread) (worker.any (·.call.receiving)) a.waiting) :
    Recounted s S S' a b thread where
  inv := hi
  others other hne := by
    rw [receiving, receiving, hworkers, Function.update_of_ne hne]
  waiting_eq := by
    have hafter : S'.receiving thread = worker.any (·.call.receiving) := by
      rw [receiving, hworkers, Function.update_self]
    rw [hwaiting, hafter]

theorem receiving_eq (hworker : S.workers thread = some w) :
    S.receiving thread = w.call.receiving := by
  rw [receiving, hworker]
  rfl

theorem receiving_of_idle (hidle : S.workers thread = none) : S.receiving thread = false := by
  rw [receiving, hidle]
  rfl

/-- Without a turn a call waits after a step if it did before. -/
theorem receiving_of_quiet (ht : a.turn h around.herald c = none)
    (hstep : c.step thread h around pick q = some next) :
    next.call.receiving = c.receiving := by
  cases Call.step_move hstep with
  | goes hholder hwaits => exact Call.receiving_of_waits_eq hwaits
  | sleeps hpoint => exact Call.receiving_of_waits_eq (by rw [hpoint]; rfl)
  | turns hturn =>
    obtain ⟨t, b, hsome⟩ := Call.turn_of_program hturn a
    rw [ht] at hsome
    cases hsome

theorem recounted_act (hi : Inv s S a) (hworker : S.workers thread = some w)
    (hhandle : S.handles w.number = some h)
    (hstep : w.call.step thread h around pick S.shared = some next) :
    ∃ b, Recounted s S (S.advance thread w h next) a b thread := by
  have hbefore := receiving_eq hworker
  cases ht : a.turn h around.herald w.call with
  | none =>
    obtain ⟨hafter, -⟩ := act_quiet hi hworker hhandle (Call.step_quiet ht hstep)
    refine ⟨a, Recounted.of_workers hafter rfl ?_⟩
    rw [receiving_onward, receiving_of_quiet ht hstep, hbefore, recount_same]
  | some taken =>
    obtain ⟨t, b⟩ := taken
    obtain ⟨hafter, -⟩ := act_turn hi hworker hhandle ht hstep
    obtain ⟨hcall, -⟩ := hi.step_turn hworker hhandle ht hstep
    refine ⟨b, Recounted.of_workers hafter rfl ?_⟩
    rw [receiving_onward, hcall, hbefore]
    exact Ideal.waiting_of_turn ht

/-- A failure ends a call, and a receive that was waiting is not counted any more. -/
theorem recounted_falter (hi : Inv s S a) (hworker : S.workers thread = some w)
    (hhandle : S.handles w.number = some h)
    (hfalter : w.call.falter thread h error S.shared = some next) :
    ∃ b, Recounted s S (S.advance thread w h next) a b thread := by
  have hf := Call.falter_falters hi.refines hfalter
  obtain ⟨hinv, -⟩ := act_falter hi hworker hhandle hf
  have hover : next.call.receiving = false :=
    Call.receiving_of_not_waits (by rw [hf.call_eq]; rfl)
  refine ⟨_, Recounted.of_workers hinv rfl ?_⟩
  rw [receiving_onward, hover, receiving_eq hworker]
  cases w.call.receiving <;> rfl

/-- A turn that cannot wake whom it has to counts as it does otherwise. -/
theorem recounted_unheard (hi : Inv s S a) (hworker : S.workers thread = some w)
    (hhandle : S.handles w.number = some h)
    (hunheard : w.call.unheard h around error S.shared = some next) :
    ∃ b, Recounted s S (S.advance thread w h next) a b thread := by
  obtain ⟨t, b, ht, hcall, -, hinv⟩ := hi.unheard hworker hhandle hunheard
  have hafter : next.call.receiving = Call.receiving { w.call with point := t.point } := by
    rw [hcall]
    obtain hsame | ⟨hfailed, answer, hanswered⟩ := t.point_unheard error
    · rw [hsame]
      rfl
    · rw [hfailed, hanswered]
      rfl
  refine ⟨b, Recounted.of_workers hinv rfl ?_⟩
  rw [receiving_onward, hafter, receiving_eq hworker]
  exact Ideal.waiting_of_turn ht

theorem Step.recounted (hstep : Step S shown S') (hi : Inv s S a) :
    ∃ b thread, Recounted s S S' a b thread := by
  obtain ⟨b, hb, -⟩ := hstep.effect hi
  -- Steps that leave the bytes alone leave the queue with the meaning that it had.
  have hsame : S'.shared.region = S.shared.region → b = a := fun hregion =>
    hb.refines.unique (hregion ▸ hi.refines)
  cases hstep with
  | attach =>
    obtain rfl := hsame rfl
    exact ⟨b, 0, hb, fun _ _ => rfl, (recount_same _ _).symm⟩
  | call hidle =>
    obtain rfl := hsame rfl
    refine ⟨b, _, Recounted.of_workers hb rfl ?_⟩
    rw [receiving_of_idle hidle]
    exact (congrArg (recount false · b.waiting) (Call.receiving_of_not_waits rfl)).symm
  | leave hidle =>
    obtain rfl := hsame rfl
    refine ⟨b, _, Recounted.of_workers hb rfl ?_⟩
    rw [receiving_of_idle hidle]
    rfl
  | @act thread pick w h around next hworker hhandle hstep =>
    obtain ⟨b, hafter⟩ := recounted_act hi hworker hhandle hstep
    exact ⟨b, thread, hafter⟩
  | falter hworker hhandle hfalter =>
    obtain ⟨b, hafter⟩ := recounted_falter hi hworker hhandle hfalter
    exact ⟨b, _, hafter⟩
  | expire hworker hexpire =>
    obtain ⟨point, rfl, hwaits, -, -, hregion, -⟩ := Call.expire_move hexpire
    obtain rfl := hsame hregion
    refine ⟨b, _, Recounted.of_workers hb rfl ?_⟩
    rw [receiving_eq hworker, Option.any_some, Call.receiving_of_waits_eq hwaits, recount_same]
  | stir =>
    obtain rfl := hsame rfl
    exact ⟨b, 0, hb, fun _ _ => rfl, (recount_same _ _).symm⟩

theorem Motion.recounted (hmotion : Motion S shown S') (hi : Inv s S a) :
    ∃ b thread, Recounted s S S' a b thread := by
  cases hmotion with
  | step hstep => exact hstep.recounted hi
  | unheard hworker hhandle hunheard =>
    obtain ⟨b, hafter⟩ := recounted_unheard hi hworker hhandle hunheard
    exact ⟨b, _, hafter⟩

/-- The threads of `T` that are in a receive that waits. -/
def receivers (T : Finset Nat) (S : System) : Finset Nat := T.filter (S.receiving · = true)

theorem Within.mem_of_receiving {T : Finset Nat} (hw : Within T S)
    (hreceiving : S.receiving thread = true) : thread ∈ T := by
  cases hworker : S.workers thread with
  | none =>
    rw [receiving_of_idle hworker] at hreceiving
    cases hreceiving
  | some w => exact hw thread w hworker

/-- A thread that begins to wait is one more receiver. -/
theorem card_receivers_of_begins {T : Finset Nat} (hw : Within T S')
    (hothers : ∀ other, other ≠ thread → S'.receiving other = S.receiving other)
    (hbefore : S.receiving thread = false) (hafter : S'.receiving thread = true) :
    (receivers T S').card = (receivers T S).card + 1 := by
  have hnot : thread ∉ receivers T S := by
    simp [receivers, hbefore]
  have hinsert : receivers T S' = insert thread (receivers T S) := by
    ext other
    by_cases hne : other = thread
    · subst hne
      simp [receivers, hafter, hw.mem_of_receiving hafter]
    · simp [receivers, hothers other hne, hne]
  rw [hinsert, Finset.card_insert_of_notMem hnot]

/-- The number of threads in a receive that waits follows the count. -/
theorem card_receivers {T : Finset Nat} (hT : T.card < 2 ^ 32) (hw : Within T S)
    (hw' : Within T S')
    (hothers : ∀ other, other ≠ thread → S'.receiving other = S.receiving other) :
    (receivers T S').card =
      recount (S.receiving thread) (S'.receiving thread) (receivers T S).card := by
  cases hbefore : S.receiving thread <;> cases hafter : S'.receiving thread
  case false.true =>
    have hcard := card_receivers_of_begins hw' hothers hbefore hafter
    have hle : (receivers T S').card ≤ T.card := Finset.card_filter_le _ _
    rw [hcard, recount, Nat.mod_eq_of_lt (by omega)]
  case true.false =>
    -- Seen from the end of the step, the thread begins to wait.
    have hcard := card_receivers_of_begins hw (fun other hne => (hothers other hne).symm) hafter
      hbefore
    rw [hcard]
    rfl
  all_goals
    refine congrArg Finset.card (Finset.filter_congr fun other _ => ?_)
    by_cases hne : other = thread
    · rw [hne, hbefore, hafter]
    · rw [hothers other hne]

theorem Path.counts {T : Finset Nat} (hm : Made s q) (hT : T.card < 2 ^ 32)
    (hp : Path (Throughout Motion (Within T)) (idle q) history S) :
    Within T S ∧ ∃ a, Inv s S a ∧ a.waiting = (receivers T S).card := by
  obtain ⟨hs, hfresh⟩ := hm.fresh
  induction hp with
  | start =>
    refine ⟨(fun _ _ hw => nomatch hw), {}, Inv.idle hs hfresh, ?_⟩
    have hnobody : receivers T (idle q) = ∅ :=
      Finset.filter_false_of_mem fun _ _ => Bool.false_ne_true
    rw [hnobody]
    rfl
  | step _ hstep ih =>
    obtain ⟨hw, a, hi, hcount⟩ := ih
    obtain ⟨b, thread, hinv, hothers, hwaiting⟩ := hstep.1.recounted hi
    refine ⟨hstep.2, b, hinv, ?_⟩
    rw [hwaiting, hcount]
    exact (card_receivers hT hw hstep.2 hothers).symm

/-- In every state that fewer than `2 ^ 32` threads can bring a queue to, whatever fails, the count
of waiting receivers is the number of receives that wait. So it is positive whenever a receive takes
itself out, it has room whenever one counts itself in, and it is zero when none waits. -/
theorem waiting_counts_receivers {T : Finset Nat} (hm : Made s q) (hT : T.card < 2 ^ 32)
    (hp : Path (Throughout Motion (Within T)) (idle q) history S) :
    S.shared.region.read .waiting = (receivers T S).card ∧
      (∀ thread, S.receiving thread = true → 0 < S.shared.region.read .waiting) ∧
      (∀ thread w, S.workers thread = some w → S.receiving thread = false →
        S.shared.region.read .waiting + 1 < 2 ^ 32) ∧
      ((∀ thread, S.receiving thread = false) → S.shared.region.read .waiting = 0) := by
  obtain ⟨hw, a, hi, hcount⟩ := hp.counts hm hT
  have hread := hi.refines.waiting_eq.trans hcount
  refine ⟨hread, fun thread hreceiving => ?_, fun thread w hworker hnot => ?_, fun hnone => ?_⟩
  · rw [hread]
    exact Finset.card_pos.mpr
      ⟨thread, Finset.mem_filter.mpr ⟨hw.mem_of_receiving hreceiving, hreceiving⟩⟩
  · have hmem : thread ∈ T := hw thread w hworker
    have hsub : receivers T S ⊆ T.erase thread := by
      intro other hother
      obtain ⟨hin, hreceiving⟩ := Finset.mem_filter.mp hother
      refine Finset.mem_erase.mpr ⟨?_, hin⟩
      rintro rfl
      rw [hnot] at hreceiving
      cases hreceiving
    have hle := Finset.card_le_card hsub
    rw [Finset.card_erase_of_mem hmem] at hle
    have hpos := Finset.card_pos.mpr ⟨thread, hmem⟩
    omega
  · rw [hread, receivers, Finset.card_eq_zero, Finset.filter_eq_empty_iff]
    intro thread _
    rw [hnone thread]
    exact Bool.false_ne_true

/-- A path of one thread is a path of the threads among which it is. -/
theorem Path.among {T : Finset Nat} {S₀ : System}
    (hp : Path (PromptedBy thread around) S₀ history S)
    (hin : thread ∈ T) (hw : Within T S₀) :
    Path (Throughout Motion (Within T)) S₀ history S ∧ Within T S := by
  induction hp with
  | start => exact ⟨.start, hw⟩
  | @step history shown S S' _ hstep ih =>
    obtain ⟨hpath, hbefore⟩ := ih
    have hafter : Within T S' := by
      intro other w hworker
      by_cases hne : other = thread
      · exact hne ▸ hin
      · rw [hstep.others other hne] at hworker
        exact hbefore other w hworker
    exact ⟨.step hpath ⟨.step hstep.prompted.1, hafter⟩, hafter⟩

theorem sleeping_receiver_counted : ∃ q history S, Made ⟨2, 4⟩ q ∧ ({0} : Finset Nat).card < 2 ^ 32 ∧
    Path (Throughout Motion (Within {0})) (idle q) history S ∧ S.shared.holder = none ∧
    S.receiving 0 = true ∧ S.shared.region.read .waiting = (receivers {0} S).card ∧
    S.shared.region.read .waiting = 1 := by
  obtain ⟨q, hm⟩ := exists_made (s := ⟨2, 4⟩) (by decide)
  let around : Surroundings := ⟨false, 0, 0, .smooth⟩
  obtain ⟨S₀, hattach, hrest₀⟩ := exists_rest hm 0 around 0 1 false (by decide)
  obtain ⟨S, hsleep, hrest⟩ := hrest₀.sleep (b := { waiting := 1 }) 0 around (.receive none)
    ⟨#[0, 0, 0, 0]⟩ rfl rfl trivial rfl rfl rfl
  have hnobody : Within {0} (idle q) := fun _ _ hw => nomatch hw
  obtain ⟨hpath, -⟩ := (hattach.trans hsleep).among (Finset.mem_singleton_self 0) hnobody
  obtain ⟨hcount, -⟩ := waiting_counts_receivers hm (by decide) hpath
  refine ⟨q, _, S, hm, by decide, hpath, hrest.holder_eq, ?_, hcount,
    hrest.inv.refines.waiting_eq⟩
  rw [receiving, hrest.workers_eq, Function.update_self]
  rfl

end System

end MappedQueue
