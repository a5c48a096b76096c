import MappedQueue.Proofs.Progress
import MappedQueue.Proofs.Sleepers

/-!
# Who is not woken

A turn wakes one sleeper when it makes a condition hold, and none while the condition goes on to
hold. So a transfer can be asleep although its condition holds, but only if it slept already
when the condition came about, beside another thread that was woken in its place.
-/

namespace MappedQueue

variable {s : Sizing} {q : Shared} {S S' S₀ S₁ S₂ : System} {a : Ideal}
  {before shown after history : List Happening} {thread : Nat} {w : Worker}
  {condition : Condition}

namespace System

/-- A condition holds of the queue of a system. -/
def Holding (s : Sizing) (condition : Condition) (S : System) : Prop :=
  condition.Holds s (S.shared.region.read .queued)

/-- A transfer of a thread is asleep on a condition. -/
structure SleepsOn (S : System) (condition : Condition) (thread : Nat) (w : Worker) : Prop where
  worker_eq : S.workers thread = some w
  transfers_eq : w.call.request.transfers = true
  mem : (thread, condition) ∈ S.shared.sleepers

/-- A step wakes a thread other than `thread` that was asleep on the same condition, and no
more. -/
def WakesOther (condition : Condition) (thread : Nat) (S₁ S₂ : System) : Prop :=
  ∃ other, other ≠ thread ∧ (other, condition) ∈ S₁.shared.sleepers ∧
    S₂.shared.sleepers = S₁.shared.sleepers.erase (other, condition)

/-- A condition came about in a step from `S₁` to `S₂`, and has held ever since. -/
def CameAbout (s : Sizing) (condition : Condition) (S₀ : System) (history : List Happening)
    (S S₁ S₂ : System) : Prop :=
  ∃ before shown after, history = before ++ shown ++ after ∧ Run S₀ before S₁ ∧
    Step S₁ shown S₂ ∧ ¬ Holding s condition S₁ ∧ Holding s condition S₂ ∧
    Path (Throughout Step (Holding s condition)) S₂ after S

/-- Nobody falls asleep on a condition that holds. -/
theorem Step.sleepsOn_before (hstep : Step S shown S') (hs : S.Sleeping) (hd : Drowsing s S)
    (hholds : Holding s condition S') (hsleeps : S'.SleepsOn condition thread w) :
    S.SleepsOn condition thread w := by
  obtain ⟨hworker, htransfers, hmem⟩ := hsleeps
  cases hstep.stirs hs with
  | fewer hsublist hsame =>
    exact ⟨(hsame thread condition hmem).symm.trans hworker, htransfers, hsublist.subset hmem⟩
  | @more sleeper w₀ w' hsleepers hnew hbefore hdrowsy hafter hasleep hrequest hregion hothers =>
    rw [hsleepers] at hmem
    rcases List.mem_append.mp hmem with hold | hnewest
    · have hne : thread ≠ sleeper := by
        rintro rfl
        exact hnew condition hold
      exact ⟨(hothers thread hne).symm.trans hworker, htransfers, hold⟩
    · cases List.mem_singleton.mp hnewest
      cases hworker.symm.trans hafter
      rw [hrequest] at htransfers
      rw [Holding, hregion] at hholds
      exact absurd hholds (hd thread w₀ hbefore htransfers hdrowsy)

/-- The step in which a condition comes about wakes a sleeper of that condition. -/
theorem Step.wakes (hstep : Step S shown S') (hi : Inv s S a)
    (hbefore : ¬ Holding s condition S) (hafter : Holding s condition S') :
    ∃ pick, S'.shared.sleepers = Shared.stillAsleep S.shared.sleepers condition pick := by
  have hsame : S'.shared.region ≠ S.shared.region := by
    intro hregion
    rw [Holding, hregion] at hafter
    exact hbefore hafter
  cases hstep with
  | attach => exact absurd rfl hsame
  | call => exact absurd rfl hsame
  | leave => exact absurd rfl hsame
  | stir => exact absurd rfl hsame
  | expire hworker hexpire =>
    obtain ⟨point, -, -, -, -, hregion, -⟩ := Call.expire_move hexpire
    exact absurd hregion hsame
  | @falter thread w h error next hworker hhandle hfalter =>
    -- A failure leaves the messages alone.
    have hqueued : next.shared.region.read .queued = S.shared.region.read .queued :=
      (Call.falter_falters hi.refines hfalter).refines.read_queued.trans
        hi.refines.read_queued.symm
    rw [Holding, show (S.advance thread w h next).shared = next.shared from rfl,
      hqueued] at hafter
    exact absurd hafter hbefore
  | @act thread pick w h around next hworker hhandle hstep =>
    cases ht : a.turn h around.herald w.call with
    | none => exact absurd (Call.step_quiet ht hstep).region_eq hsame
    | some taken =>
      obtain ⟨rfl, -⟩ := hi.handles _ h hhandle
      obtain ⟨-, hrefines, -, -, -, hsleepers⟩ := hi.step_turn hworker hhandle ht hstep
      rw [Holding, hi.refines.read_queued] at hbefore
      rw [Holding, show (S.advance thread w h next).shared = next.shared from rfl,
        hrefines.read_queued] at hafter
      obtain ⟨answer, hverdict⟩ := Ideal.wakes_of_holds hi.valid.1.1 ht hbefore hafter
      refine ⟨pick, hsleepers.trans ?_⟩
      rw [Turn.sleepers, hverdict]

/-- A thread that sleeps on is not the one that is woken. -/
theorem Step.wakesOther (hstep : Step S shown S') (hi : Inv s S a) (hs : S.Sleeping)
    (hbefore : ¬ Holding s condition S) (hafter : Holding s condition S')
    (hmem : (thread, condition) ∈ S.shared.sleepers)
    (hmem' : (thread, condition) ∈ S'.shared.sleepers) : WakesOther condition thread S S' := by
  obtain ⟨pick, hwake⟩ := hstep.wakes hi hbefore hafter
  obtain ⟨-, hnobody⟩ | ⟨other, hother, herase⟩ :=
    Shared.stillAsleep_cases S.shared.sleepers condition pick
  · exact absurd hmem (hnobody thread)
  · rw [herase] at hwake
    refine ⟨other, ?_, hother, hwake⟩
    rintro rfl
    rw [hwake] at hmem'
    exact hs.nodup.not_mem_erase hmem'

/-- Whoever sleeps at the end of a stretch in which the condition held, slept at its
beginning. -/
theorem Path.sleepsOn_before (hm : Made s q) (hr : Run (idle q) before S₀)
    (hp : Path (Throughout Step (Holding s condition)) S₀ after S)
    (hsleeps : S.SleepsOn condition thread w) : S₀.SleepsOn condition thread w := by
  induction hp with
  | start => exact hsleeps
  | step hpath hstep ih =>
    obtain ⟨hs, hd⟩ := (hr.trans hpath.run_of_throughout).sleepers hm
    exact ih (hstep.1.sleepsOn_before hs hd hstep.2 hsleeps)

/-- Every thread that is in a call sleeps, and the lock is free: whoever was woken has run. -/
def Settled (S : System) : Prop :=
  S.shared.holder = none ∧ ∀ thread w, S.workers thread = some w →
    w.call.point.IsAsleep ∧ (thread, w.call.request.condition) ∈ S.shared.sleepers

/-- The second of two sends that fell asleep on a full queue. -/
def straggler : Worker := ⟨0, .request, ⟨.send ⟨#[4]⟩ 0 none, .empty, .asleep 0⟩⟩

/-- Two sends are asleep on a full queue, two messages are taken, and the send that is woken
sends its message. The other one sleeps on, although there is room for a message. -/
theorem exists_straggler : ∃ q history S, Made ⟨2, 4⟩ q ∧ Path Prompted (idle q) history S ∧
    Rest ⟨2, 4⟩ S { messages := [⟨⟨#[3]⟩, 0⟩] } 0 ⟨⟨2, 4⟩, 1, false⟩
      (Function.update (fun _ => none) 2 (some straggler)) [(2, .notFull)] := by
  obtain ⟨q, hm⟩ := exists_made (s := ⟨2, 4⟩) (by decide)
  let around : Surroundings := ⟨false, 0, 0, .smooth⟩
  let buffer : ByteArray := ⟨#[0, 0, 0, 0]⟩
  obtain ⟨S₀, hattach, hrest₀⟩ := exists_rest hm 0 around 0 1 false (by decide)
  obtain ⟨S₁, hsend₁, hrest₁⟩ := hrest₀.call (b := { messages := [⟨⟨#[1]⟩, 0⟩] }) 0 around
    (.send ⟨#[1]⟩ 0 none) .empty rfl rfl trivial rfl rfl rfl
  obtain ⟨S₂, hsend₂, hrest₂⟩ := hrest₁.call (b := { messages := [⟨⟨#[1]⟩, 0⟩, ⟨⟨#[2]⟩, 0⟩] }) 0
    around (.send ⟨#[2]⟩ 0 none) .empty rfl rfl trivial rfl rfl rfl
  obtain ⟨S₃, hsleep₃, hrest₃⟩ := hrest₂.sleep 1 around (.send ⟨#[3]⟩ 0 none) .empty rfl rfl trivial
    rfl rfl rfl
  obtain ⟨S₄, hsleep₄, hrest₄⟩ := hrest₃.sleep 2 around (.send ⟨#[4]⟩ 0 none) .empty rfl rfl trivial
    rfl rfl rfl
  obtain ⟨S₅, hreceive₅, hrest₅⟩ := hrest₄.call (b := { messages := [⟨⟨#[2]⟩, 0⟩] }) 0 around
    (.receive none) buffer rfl rfl trivial rfl rfl rfl
  obtain ⟨S₆, hreceive₆, hrest₆⟩ := hrest₅.call (b := {}) 0 around
    (.receive none) buffer rfl rfl trivial rfl rfl rfl
  -- The first wake-up has reached the thread that fell asleep first, and there was no second one.
  obtain ⟨S₇, hsend₇, hrest₇⟩ := hrest₆.woken (b := { messages := [⟨⟨#[3]⟩, 0⟩] }) 1 around rfl
    (by decide) rfl rfl
  have hfull := (hattach.trans hsend₁).trans hsend₂
  have hasleep := (hfull.prompted.trans hsleep₃.prompted).trans hsleep₄.prompted
  have hpath := (hasleep.trans (hreceive₅.trans hreceive₆).prompted).trans hsend₇.prompted
  have hworkers : ∀ first : Option Worker,
      Function.update (Function.update (Function.update (fun _ => none) 1 first) 2
        (some straggler)) 1 none = Function.update (fun _ => none) 2 (some straggler) := by
    intro first
    have hne : (1 : Nat) ≠ 2 := by decide
    rw [Function.update_comm hne, Function.update_idem]
    exact Function.update_eq_self_iff.mpr rfl
  refine ⟨q, _, S₇, hm, hpath, ?_⟩
  rw [← hworkers (some ⟨0, .request, ⟨.send ⟨#[3]⟩ 0 none, .empty, .asleep 0⟩⟩)]
  exact hrest₇

/-- Not every transfer is woken whose condition holds. -/
theorem sleeps_beside_room : ∃ q history S, Made ⟨2, 4⟩ q ∧
    Path Prompted (idle q) history S ∧ S.Settled ∧
    ∃ w, S.SleepsOn .notFull 2 w ∧ w.call.request = .send ⟨#[4]⟩ 0 none ∧
      Holding ⟨2, 4⟩ .notFull S := by
  obtain ⟨q, history, S, hm, hpath, hrest⟩ := exists_straggler
  have hworker : S.workers 2 = some straggler := hrest.workers_eq ▸ Function.update_self ..
  refine ⟨q, history, S, hm, hpath, ⟨hrest.holder_eq, fun thread w hw => ?_⟩, straggler,
    ⟨hworker, rfl, hrest.sleepers_eq ▸ List.mem_singleton_self _⟩, rfl, ?_⟩
  · rw [hrest.workers_eq, Function.update_apply] at hw
    split at hw
    · rename_i hthread
      cases hw
      rw [hthread, hrest.sleepers_eq]
      exact ⟨trivial, List.mem_singleton_self _⟩
    · cases hw
  · rw [Holding, hrest.inv.refines.read_queued]
    decide

/-- If a transfer is asleep although its condition holds, the condition has come about after
the transfer fell asleep, and the step in which it came about woke another thread. -/
theorem woken_in_its_place (hm : Made s q) (hr : Run (idle q) history S)
    (hsleeps : S.SleepsOn condition thread w) (hholds : Holding s condition S) :
    (∃ S₁ S₂, CameAbout s condition (idle q) history S S₁ S₂) ∧
      ∀ S₁ S₂, CameAbout s condition (idle q) history S S₁ S₂ →
        S₁.SleepsOn condition thread w ∧ WakesOther condition thread S₁ S₂ := by
  constructor
  · rcases hr.last_entry (Holding s condition) hholds with
      ⟨-, hpath⟩ | ⟨before, shown, after, S₁, S₂, hentry⟩
    · -- Nobody sleeps in the state that the run starts from.
      have hfirst := Path.sleepsOn_before hm .start hpath hsleeps
      cases hfirst.worker_eq
    · exact ⟨S₁, S₂, before, shown, after, hentry⟩
  · rintro S₁ S₂ ⟨before, shown, after, rfl, hrun, hstep, hbefore, hafter, hpath⟩
    obtain ⟨hs, hfresh⟩ := hm.fresh
    obtain ⟨a, hi⟩ := hrun.inv (Inv.idle hs hfresh)
    obtain ⟨hsleeping, hdrowsing⟩ := hrun.sleepers hm
    have hthen := Path.sleepsOn_before hm (hrun.step hstep) hpath hsleeps
    have hbefore' := hstep.sleepsOn_before hsleeping hdrowsing hafter hthen
    exact ⟨hbefore', hstep.wakesOther hi hsleeping hbefore hafter hbefore'.mem hthen.mem⟩

theorem straggler_woken_in_its_place : ∃ q history S, Made ⟨2, 4⟩ q ∧
    Run (idle q) history S ∧ S.SleepsOn .notFull 2 straggler ∧ Holding ⟨2, 4⟩ .notFull S ∧
    ∃ S₁ S₂, CameAbout ⟨2, 4⟩ .notFull (idle q) history S S₁ S₂ ∧
      S₁.SleepsOn .notFull 2 straggler ∧ WakesOther .notFull 2 S₁ S₂ := by
  obtain ⟨q, history, S, hm, hpath, hrest⟩ := exists_straggler
  have hsleeps : S.SleepsOn .notFull 2 straggler :=
    ⟨hrest.workers_eq ▸ Function.update_self .., rfl,
      hrest.sleepers_eq ▸ List.mem_singleton_self _⟩
  have hholds : Holding ⟨2, 4⟩ .notFull S := by
    rw [Holding, hrest.inv.refines.read_queued]
    decide
  obtain ⟨⟨S₁, S₂, hcame⟩, hwoken⟩ :=
    woken_in_its_place hm hpath.run_of_prompted hsleeps hholds
  exact ⟨q, history, S, hm, hpath.run_of_prompted, hsleeps, hholds, S₁, S₂, hcame,
    hwoken S₁ S₂ hcame⟩

end System

end MappedQueue
