import MappedQueue.Proofs.Moves
import MappedQueue.Proofs.Runs

/-!
# Who sleeps

The sleepers of a queue are threads whose calls are asleep, each on the condition of its
request and each once. A transfer falls asleep only while it holds the lock and only after it
has found that its condition does not hold, so nobody can have made it hold in between.
-/

namespace MappedQueue

variable {s : Sizing} {q : Shared} {S S' : System} {a b : Ideal} {history shown : List Happening}
  {thread : Nat} {w w' : Worker} {condition : Condition} {h : Handle} {c : Call} {t : Turn}
  {herald : Herald}

/-- What a condition says of a queue that holds `queued` messages. -/
def Condition.Holds (s : Sizing) (queued : Nat) : Condition → Prop
  | .notFull => queued < s.capacity
  | .notEmpty => 0 < queued

instance (s : Sizing) (queued : Nat) : DecidablePred (Condition.Holds s queued)
  | .notFull => inferInstanceAs (Decidable (_ < _))
  | .notEmpty => inferInstanceAs (Decidable (_ < _))

namespace Ideal

theorem full_of_wait {m : Message} (hwait : (a.trySend h m).1 = .wait) :
    ¬ (a.trySend h m).2.messages.length < h.sizing.capacity := by
  unfold trySend at hwait ⊢
  by_cases hroom : a.messages.length < h.sizing.capacity
  · rw [if_pos hroom] at hwait
    cases hwait
  · rw [if_neg hroom]
    exact hroom

theorem not_holds_of_first {buffer : ByteArray} {request : Request}
    (hwait : (a.first h herald buffer request).1.verdict = .wait)
    (htransfers : request.transfers = true) :
    ¬ request.condition.Holds h.sizing (a.first h herald buffer request).2.messages.length := by
  cases request with
  | send bytes priority deadline => exact full_of_wait hwait
  | receive deadline =>
    obtain ⟨messages, waiting, registered⟩ := a
    unfold first at hwait ⊢
    cases messages with
    | nil => cases h.nonblocking <;> exact Nat.lt_irrefl 0
    | cons m rest => cases hwait
  | _ => cases htransfers

theorem not_holds_of_again {buffer : ByteArray} {request : Request}
    (hwait : (a.again h buffer request).1.verdict = .wait)
    (htransfers : request.transfers = true) :
    ¬ request.condition.Holds h.sizing (a.again h buffer request).2.messages.length := by
  cases request with
  | send bytes priority deadline => exact full_of_wait hwait
  | receive deadline =>
    obtain ⟨messages, waiting, registered⟩ := a
    unfold again at hwait ⊢
    cases messages with
    | nil => exact Nat.lt_irrefl 0
    | cons m rest => cases hwait
  | _ => cases htransfers

/-- A transfer that has to wait has found that its condition does not hold. -/
theorem not_holds_of_wait (ht : a.turn h herald c = some (t, b)) (hwait : t.verdict = .wait)
    (htransfers : c.request.transfers = true) :
    ¬ c.request.condition.Holds h.sizing b.messages.length := by
  rcases turn_cases ht with ⟨-, rfl, rfl⟩ | ⟨-, rfl, rfl⟩ | ⟨setback, -, rfl, rfl⟩
  · exact not_holds_of_first hwait htransfers
  · exact not_holds_of_again hwait htransfers
  · cases hrequest : c.request <;> rw [hrequest] at hwait <;> cases hwait

/-- The turn that makes a condition hold wakes a sleeper of that condition. -/
theorem wakes_of_holds (hcapacity : 0 < h.sizing.capacity)
    (ht : a.turn h herald c = some (t, b)) (hbefore : ¬ condition.Holds h.sizing a.messages.length)
    (hafter : condition.Holds h.sizing b.messages.length) :
    ∃ answer, t.verdict = .finish answer (some condition) := by
  have hsame : b.messages ≠ a.messages := fun hmessages => hbefore (hmessages ▸ hafter)
  cases turn_does hcapacity ht with
  | send hrequest hroom hverdict hmessages =>
    rw [hmessages, Backlog.length_insert] at hafter
    cases condition with
    | notFull => exact absurd hroom hbefore
    | notEmpty =>
      have hempty : a.messages = [] := List.length_eq_zero_iff.mp (Nat.eq_zero_of_not_pos hbefore)
      exact ⟨_, by rw [hverdict, if_pos hempty]⟩
  | @receive m rest deadline hrequest hhead hverdict hbuffer hmessages =>
    rw [hmessages] at hafter
    rw [hhead, List.length_cons] at hbefore
    cases condition with
    | notFull =>
      have hfull : rest.length + 1 = h.sizing.capacity :=
        Nat.le_antisymm hafter (Nat.not_lt.mp hbefore)
      exact ⟨_, by rw [hverdict, if_pos hfull]⟩
    | notEmpty => exact absurd (Nat.succ_pos _) hbefore
  | register _ _ _ hmessages => exact absurd hmessages hsame
  | withdraw _ _ _ hmessages => exact absurd hmessages hsame
  | decline _ _ _ hmessages => exact absurd hmessages hsame
  | wait _ _ _ hmessages => exact absurd hmessages hsame

end Ideal

namespace System

/-- The sleepers are threads whose calls are asleep on their conditions, and no thread is
among them twice. -/
structure Sleeping (S : System) : Prop where
  nodup : S.shared.sleepers.Nodup
  asleep : ∀ thread condition, (thread, condition) ∈ S.shared.sleepers →
    ∃ w, S.workers thread = some w ∧ w.call.point.IsAsleep ∧ w.call.request.condition = condition

/-- What a step does to the sleepers. -/
inductive Stirs (S S' : System) : Prop
  /-- Whoever sleeps after the step slept before. -/
  | fewer (hsublist : S'.shared.sleepers.Sublist S.shared.sleepers)
      (hsame : ∀ thread condition, (thread, condition) ∈ S'.shared.sleepers →
        S'.workers thread = S.workers thread)
  /-- A thread falls asleep, and does nothing else. -/
  | more {thread : Nat} {w w' : Worker}
      (hsleepers : S'.shared.sleepers = S.shared.sleepers ++ [(thread, w.call.request.condition)])
      (hnew : ∀ condition, (thread, condition) ∉ S.shared.sleepers)
      (hbefore : S.workers thread = some w) (hdrowsy : w.call.point.Drowsy)
      (hafter : S'.workers thread = some w') (hasleep : w'.call.point.IsAsleep)
      (hrequest : w'.call.request = w.call.request)
      (hregion : S'.shared.region = S.shared.region)
      (hothers : ∀ other, other ≠ thread → S'.workers other = S.workers other)

theorem Sleeping.idle (hf : Fresh s q) : (idle q).Sleeping where
  nodup := by
    change q.sleepers.Nodup
    rw [hf.sleepers_eq]
    exact List.nodup_nil
  asleep thread condition hmem := by
    change _ ∈ q.sleepers at hmem
    rw [hf.sleepers_eq] at hmem
    cases hmem

/-- A thread that can take a step of its call is no sleeper. -/
theorem Sleeping.not_mem_of_move (hs : S.Sleeping) (hworker : S.workers thread = some w)
    {around : Surroundings} {pick : Nat} {next : Advance}
    (hmove : Call.Move thread h around pick S.shared w.call next) (condition : Condition) :
    (thread, condition) ∉ S.shared.sleepers := by
  intro hmem
  obtain ⟨w', hw', hasleep, rfl⟩ := hs.asleep thread condition hmem
  cases hworker.symm.trans hw'
  cases hmove with
  | goes hholder hwaits hdrowsy hawake hwoken => exact hwoken hasleep hmem
  | sleeps hpoint =>
    rw [hpoint] at hasleep
    exact hasleep
  | turns hturn =>
    have hinside := Call.inside_of_program hturn
    cases hpoint : w.call.point <;> rw [hpoint] at hasleep hinside <;> trivial

/-- Nobody falls asleep where one thread that is no sleeper has changed. -/
theorem Stirs.of_workers {worker : Option Worker}
    (hsublist : S'.shared.sleepers.Sublist S.shared.sleepers)
    (hworkers : S'.workers = Function.update S.workers thread worker)
    (hawake : ∀ condition, (thread, condition) ∉ S'.shared.sleepers) : Stirs S S' := by
  refine .fewer hsublist fun other condition hmem => ?_
  rw [hworkers]
  refine Function.update_of_ne ?_ _ _
  rintro rfl
  exact hawake condition hmem

theorem Sleeping.not_mem_of_idle (hs : S.Sleeping) (hidle : S.workers thread = none)
    (condition : Condition) : (thread, condition) ∉ S.shared.sleepers := by
  intro hmem
  obtain ⟨w, hw, -⟩ := hs.asleep thread condition hmem
  rw [hidle] at hw
  cases hw

/-- After the end of a slice its thread is no sleeper any more. -/
theorem Sleeping.stirs_expire {c' : Call} (hs : S.Sleeping) (hworker : S.workers thread = some w)
    (hexpire : w.call.expire thread S.shared = some (q, c')) :
    Stirs S { S.setWorker thread (some { w with call := c' }) with shared := q } := by
  obtain ⟨point, rfl, -, -, -, -, hsleepers⟩ := Call.expire_move hexpire
  have hcondition : ∀ condition, (thread, condition) ∈ S.shared.sleepers →
      w.call.point.IsAsleep ∧ w.call.request.condition = condition := by
    intro condition hmem
    obtain ⟨w', hw', hasleep⟩ := hs.asleep thread condition hmem
    cases hworker.symm.trans hw'
    exact hasleep
  rcases hsleepers with ⟨hawake, rfl⟩ | herase
  · exact .of_workers (List.Sublist.refl _) rfl fun condition hmem =>
      hawake (hcondition condition hmem).1
  · have hsublist : q.sleepers.Sublist S.shared.sleepers := by
      rw [herase]
      exact List.erase_sublist
    refine .of_workers hsublist rfl fun condition hmem => ?_
    -- The one entry of the thread is gone.
    obtain ⟨-, rfl⟩ := hcondition condition (hsublist.subset hmem)
    change _ ∈ q.sleepers at hmem
    rw [herase] at hmem
    exact hs.nodup.not_mem_erase hmem

theorem Step.stirs (hstep : Step S shown S') (hs : S.Sleeping) : Stirs S S' := by
  cases hstep with
  | attach => exact .fewer (List.Sublist.refl _) fun _ _ _ => rfl
  | call hidle => exact .of_workers (List.Sublist.refl _) rfl (hs.not_mem_of_idle hidle)
  | leave hidle => exact .of_workers (List.Sublist.refl _) rfl (hs.not_mem_of_idle hidle)
  | @act thread pick w h around next hworker hhandle hstep =>
    have hmove := Call.step_move hstep
    have hnew := hs.not_mem_of_move hworker hmove
    have hfewer : next.shared.sleepers.Sublist S.shared.sleepers →
        Stirs S (S.advance thread w h next) := fun hsublist =>
      .of_workers hsublist rfl fun condition hmem => hnew condition (hsublist.subset hmem)
    cases hmove with
    | goes hlock => exact hfewer (by rw [hlock.sleepers_eq])
    | turns => exact hfewer (Call.takeTurn_sleepers _)
    | @sleeps seen hpoint =>
      have hdrowsy : w.call.point.Drowsy := by
        rw [hpoint]
        trivial
      exact .more rfl hnew hworker hdrowsy (Function.update_self ..) trivial rfl rfl
        fun other hne => Function.update_of_ne hne _ _
  | falter hworker hhandle hfalter =>
    obtain ⟨-, hsleepers, hawake⟩ := Call.falter_move hfalter
    refine .of_workers (hsleepers ▸ List.Sublist.refl _) rfl fun condition hmem => ?_
    obtain ⟨w', hw', hasleep, -⟩ := hs.asleep _ condition (hsleepers ▸ hmem)
    cases hworker.symm.trans hw'
    exact hawake hasleep
  | expire hworker hexpire => exact hs.stirs_expire hworker hexpire
  | stir sleeper => exact .fewer List.erase_sublist fun _ _ _ => rfl

theorem Stirs.sleeping (hstirs : Stirs S S') (hs : S.Sleeping) : S'.Sleeping := by
  cases hstirs with
  | fewer hsublist hsame =>
    refine ⟨hs.nodup.sublist hsublist, fun thread condition hmem => ?_⟩
    rw [hsame thread condition hmem]
    exact hs.asleep thread condition (hsublist.subset hmem)
  | @more thread w w' hsleepers hnew hbefore hdrowsy hafter hasleep hrequest hregion hothers =>
    refine ⟨?_, fun other condition hmem => ?_⟩
    · rw [hsleepers]
      exact List.nodup_append.mpr ⟨hs.nodup, List.nodup_singleton _, by
        rintro x hx y hy rfl
        cases List.mem_singleton.mp hy
        exact hnew _ hx⟩
    · rw [hsleepers] at hmem
      rcases List.mem_append.mp hmem with hold | hnewest
      · have hne : other ≠ thread := by
          rintro rfl
          exact hnew condition hold
        rw [hothers other hne]
        exact hs.asleep other condition hold
      · cases List.mem_singleton.mp hnewest
        exact ⟨w', hafter, hasleep, congrArg Request.condition hrequest⟩

/-- A transfer that has found that it has to wait finds its condition unfulfilled as long as it
keeps the lock. -/
def Drowsing (s : Sizing) (S : System) : Prop :=
  ∀ thread w, S.workers thread = some w → w.call.request.transfers = true →
    w.call.point.Drowsy →
    ¬ w.call.request.condition.Holds s (S.shared.region.read .queued)

/-- A thread that comes to wait goes on with its call. -/
theorem call_of_onward {next : Advance} (ho : onward w next = some w')
    (hdrowsy : w'.call.point.Drowsy) : w'.call = next.call := by
  unfold onward at ho
  split at ho
  · split at ho <;> cases ho
    exact hdrowsy.elim
  · cases ho
    rfl

section Act

variable {around : Surroundings} {pick : Nat} {next : Advance} (hd : Drowsing s S) (hi : Inv s S a)
  (hworker : S.workers thread = some w) (hhandle : S.handles w.number = some h)
  (hstep : w.call.step thread h around pick S.shared = some next)
include hd hi hworker hhandle hstep

/-- A call that has to wait after a step has found in a turn that its condition does not hold. -/
theorem Drowsing.not_holds_of_step (htransfers : next.call.request.transfers = true)
    (hdrowsy : next.call.point.Drowsy) :
    ¬ next.call.request.condition.Holds s (next.shared.region.read .queued) := by
  cases Call.step_move hstep with
  | goes hlock hwaits hbefore =>
    rw [hlock.region_eq]
    exact hd thread w hworker htransfers (hbefore hdrowsy)
  | sleeps => exact hdrowsy.elim
  | @turns turn hturn =>
    obtain ⟨rfl, -⟩ := hi.handles _ h hhandle
    obtain ⟨t, b, ht⟩ := Call.turn_of_program hturn a
    obtain ⟨hnext, hrefines, -⟩ := hi.step_turn hworker hhandle ht hstep
    rw [hnext] at htransfers hdrowsy ⊢
    rw [hrefines.read_queued]
    refine Ideal.not_holds_of_wait (c := w.call) ht ?_ htransfers
    obtain ⟨hverdict, -⟩ | ⟨answer, wake, -, hanswered⟩ := t.point_cases
    · exact hverdict
    · rw [hanswered] at hdrowsy
      exact hdrowsy.elim

/-- A thread that has changed a byte was the only one inside. -/
theorem Drowsing.of_act (hx : S.Exclusive) : Drowsing s (S.advance thread w h next) := by
  intro other w' hw' htransfers hdrowsy
  change Function.update S.workers thread (onward w next) other = some w' at hw'
  change ¬ w'.call.request.condition.Holds s (next.shared.region.read .queued)
  by_cases hne : other = thread
  · subst hne
    rw [Function.update_self] at hw'
    have hcall := call_of_onward hw' hdrowsy
    rw [hcall] at htransfers hdrowsy ⊢
    exact hd.not_holds_of_step hi hworker hhandle hstep htransfers hdrowsy
  · rw [Function.update_of_ne hne] at hw'
    by_cases hregion : next.shared.region = S.shared.region
    · rw [hregion]
      exact hd other w' hw' htransfers hdrowsy
    · -- Whoever writes holds the lock, and so does the drowsy one.
      have hholder := hx.holder_of_ne hworker hstep hregion
      rw [hx other w' hw' hdrowsy.inside] at hholder
      exact absurd (Option.some.inj hholder) hne

end Act

theorem Drowsing.setWorker (hd : Drowsing s S) {worker : Option Worker}
    (hqueued : q.region.read .queued = S.shared.region.read .queued)
    (hawake : ∀ w ∈ worker, ¬ w.call.point.Drowsy) :
    Drowsing s { S.setWorker thread worker with shared := q } := by
  intro other w hw htransfers hdrowsy
  change ¬ w.call.request.condition.Holds s (q.region.read .queued)
  rw [hqueued]
  change Function.update S.workers thread worker other = some w at hw
  rw [Function.update_apply] at hw
  split at hw
  · exact absurd hdrowsy (hawake w hw)
  · exact hd other w hw htransfers hdrowsy

theorem Step.drowsing (hstep : Step S shown S') (hd : Drowsing s S) (hi : Inv s S a)
    (hx : S.Exclusive) : Drowsing s S' := by
  cases hstep with
  | attach => exact hd
  | call => exact hd.setWorker (q := S.shared) rfl (by rintro w ⟨⟩; exact id)
  | leave => exact hd.setWorker (q := S.shared) rfl (by rintro w ⟨⟩; exact id)
  | act hworker hhandle hstep => exact hd.of_act hi hworker hhandle hstep hx
  | falter hworker hhandle hfalter =>
    -- A failure may end the count of a receiver, but leaves the messages alone.
    have hf := Call.falter_falters hi.refines hfalter
    refine Drowsing.setWorker (S := S.setHandle _ _) hd
      (hf.refines.read_queued.trans hi.refines.read_queued.symm) fun w' hw hdrowsy => ?_
    rw [call_of_onward hw hdrowsy, hf.call_eq] at hdrowsy
    exact hdrowsy
  | expire hworker hexpire =>
    obtain ⟨point, rfl, -, hawake, -, hregion, -⟩ := Call.expire_move hexpire
    exact hd.setWorker (by rw [hregion]) (by rintro w ⟨⟩; exact hawake)
  | stir => exact hd

/-- What holds of the sleepers in every state of a run. -/
theorem Run.sleepers (hm : Made s q) (hr : Run (idle q) history S) :
    S.Sleeping ∧ Drowsing s S := by
  obtain ⟨hs, hfresh⟩ := hm.fresh
  induction hr with
  | start => exact ⟨.idle hfresh, fun _ _ hw => nomatch hw⟩
  | step hrun hstep ih =>
    obtain ⟨a, hi⟩ := hrun.inv (Inv.idle hs hfresh)
    exact ⟨(hstep.stirs ih.1).sleeping ih.1, hstep.drowsing ih.2 hi hrun.exclusive⟩

end System

end MappedQueue
