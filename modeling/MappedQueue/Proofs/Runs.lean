import MappedQueue.Proofs.Creation
import MappedQueue.Proofs.Effects
import MappedQueue.Proofs.System

/-!
# What runs do to the queue

In every state of a run the region holds a queue, every call has acceptable arguments where
it needs them, and no call has come to a fault. A step changes the messages and the
registration only by taking one turn, and what it shows is what the turn did.
-/

namespace MappedQueue

variable {s : Sizing} {q : Shared} {S S' : System} {a b : Ideal} {history shown : List Happening}

/-- What a turn shows. -/
def Turn.news (thread : Nat) (h : Handle) (request : Request) (t : Turn) : List Happening :=
  (t.delivery.map fun d => Happening.delivered thread d.toDelivery d.report).toList ++
    match t.verdict with
    | .finish answer _ => [.answered thread h.identity request answer t.buffer]
    | .wait => []

/-- What one step of the system does to the meaning of the region, and what it shows. -/
inductive Effect (s : Sizing) (a : Ideal) : List Happening → Ideal → Prop
  | silent : Effect s a [] a
  /-- A call is over without a turn, or with one in which it gives up because something failed. -/
  | refused (thread identity : Nat) (request : Request) {error : Error} (buffer : ByteArray)
      {b : Ideal} (hbusy : error ≠ .busy) (hmessages : b.messages = a.messages)
      (hregistered : b.registered = a.registered) :
      Effect s a [.answered thread identity request (.error error) buffer] b
  | turn {thread : Nat} {h : Handle} {herald : Herald} {c : Call} {t : Turn} {b : Ideal}
      (hs : h.sizing = s) (hh : h.Fits) (hturn : a.turn h herald c = some (t, b)) :
      Effect s a (t.news thread h c.request) b

/-- A worker that is where calls can come to. -/
structure Worker.Sane (s : Sizing) (w : Worker) : Prop where
  fits : w.call.request.Fits
  admitted : ∀ h : Handle, h.sizing = s → w.call.Admitted h
  not_broken : ¬ w.call.Broken
  withdraws : w.purpose ≠ .request → w.call.request = .notify none

namespace System

/-- What holds in every state of a run. -/
structure Inv (s : Sizing) (S : System) (a : Ideal) : Prop where
  valid : s.Valid
  refines : Refines s S.shared.region a
  handles : ∀ number h, S.handles number = some h → h.sizing = s ∧ h.Fits
  workers : ∀ thread w, S.workers thread = some w → w.Sane s

theorem Inv.idle (hs : s.Valid) (hf : Fresh s q) : Inv s (idle q) {} where
  valid := hs
  refines := {
    represents := hf.represents
    waiting_eq := hf.waiting_eq
    registered_eq := if_pos hf.owner_eq }
  handles _ _ h := by cases h
  workers _ _ h := by cases h

/-- Whoever attaches to a queue finds its sizing. -/
theorem run_preamble {r : Region} (hs : s.Valid) (hr : Refines s r a) :
    (Store.preamble r.size).run r = (.ok (.ok s), r) := by
  obtain ⟨used, free, harranged, -⟩ := hr.represents
  have hsizing : (⟨r.read .capacity, r.read .messageSize⟩ : Sizing) = s := by
    rw [harranged.capacity_eq, harranged.messageSize_eq]
  rw [Store.preamble, Access.run_get_bind, harranged.tag_eq, if_neg (by decide),
    if_neg (by simp), Access.run_get_bind, Access.run_get_bind, hsizing,
    if_pos (by rw [hr.size_eq, Sizing.fileSize?_of_valid hs])]
  rfl

theorem Inv.set_handle (hi : Inv s S a) (number : Nat) {handle : Option Handle}
    (hh : ∀ h, handle = some h → h.sizing = s ∧ h.Fits) :
    ∀ other h, Function.update S.handles number handle other = some h → h.sizing = s ∧ h.Fits := by
  intro other h ho
  rw [Function.update_apply] at ho
  split at ho
  · exact hh h ho
  · exact hi.handles other h ho

theorem Inv.set_worker (hi : Inv s S a) (thread : Nat) {worker : Option Worker}
    (hw : ∀ w, worker = some w → w.Sane s) :
    ∀ other w, Function.update S.workers thread worker other = some w → w.Sane s := by
  intro other w ho
  rw [Function.update_apply] at ho
  split at ho
  · exact hw w ho
  · exact hi.workers other w ho

theorem sane_start {number : Nat} {purpose : Purpose} {request : Request} {buffer : ByteArray}
    (hfits : request.Fits) (hw : purpose ≠ .request → request = .notify none) :
    Worker.Sane s ⟨number, purpose, { request, buffer }⟩ where
  fits := hfits
  admitted _ _ hp := hp.elim
  not_broken := by
    rintro ⟨fault, hfault⟩
    cases hfault
  withdraws := hw

theorem sane_withdrawal (number : Nat) (purpose : Purpose) :
    (withdrawal number purpose).Sane s := sane_start trivial fun _ => rfl

/-- A worker goes on sanely if its call does. -/
theorem sane_onward {w w' : Worker} {h : Handle} {next : Advance} (hw : w.Sane s)
    (hs : h.sizing = s) (hrequest : next.call.request = w.call.request)
    (hadmitted : next.call.Admitted h) (hbroken : ¬ next.call.Broken)
    (ho : onward w next = some w') : w'.Sane s := by
  unfold onward at ho
  split at ho
  · split at ho
    · cases ho
      exact sane_withdrawal ..
    · cases ho
  · cases ho
    exact {
      fits := hrequest ▸ hw.fits
      admitted := fun h' hs' => hadmitted.congr (hs'.trans hs.symm)
      not_broken := hbroken
      withdraws := fun hp => hrequest.trans (hw.withdraws hp) }

theorem handleAfter_fits {w : Worker} {h h' : Handle} {next : Advance} (hh : h.sizing = s ∧ h.Fits)
    (ho : handleAfter w h next = some h') : h'.sizing = s ∧ h'.Fits := by
  unfold handleAfter at ho
  split at ho
  · cases ho
  · cases ho
  · cases ho
    exact hh

/-- What holds in every state goes on to hold when a call has moved on sanely. -/
theorem Inv.advance (hi : Inv s S a) {thread : Nat} {w : Worker} {h : Handle} {next : Advance}
    (hworker : S.workers thread = some w) (hhandle : S.handles w.number = some h)
    (hrefines : Refines s next.shared.region b) (hrequest : next.call.request = w.call.request)
    (hadmitted : w.call.Admitted h → next.call.Admitted h) (hbroken : ¬ next.call.Broken) :
    Inv s (S.advance thread w h next) b := by
  have hs := hi.handles _ h hhandle
  have hw := hi.workers _ w hworker
  exact {
    valid := hi.valid
    refines := hrefines
    handles := hi.set_handle _ fun h' ho => handleAfter_fits hs ho
    workers := hi.set_worker _ fun w' ho =>
      sane_onward hw hs.1 hrequest (hadmitted (hw.admitted h hs.1)) hbroken ho }

/-- A step of a call that only moves it on. -/
theorem act_quiet (hi : Inv s S a) {thread : Nat} {w : Worker} {h : Handle} {next : Advance}
    (hworker : S.workers thread = some w) (hhandle : S.handles w.number = some h)
    (hq : Call.Quiet h S.shared w.call next) :
    Inv s (S.advance thread w h next) a ∧ Effect s a (news thread h next) a := by
  refine ⟨hi.advance hworker hhandle ?_ hq.request_eq hq.admitted hq.not_broken, ?_⟩
  · rw [hq.region_eq]
    exact hi.refines
  · unfold news
    rw [hq.delivery_eq]
    cases hpoint : next.call.point <;> try exact .silent
    rename_i answer
    obtain ⟨error, rfl, hbusy⟩ := hq.answered answer hpoint
    exact .refused _ _ _ _ hbusy rfl rfl

/-- A call that stands in front of a turn takes it. -/
theorem Inv.step_turn (hi : Inv s S a) {thread pick : Nat} {w : Worker} {h : Handle}
    {next : Advance} {around : Surroundings} {t : Turn} (hworker : S.workers thread = some w)
    (hhandle : S.handles w.number = some h) (ht : a.turn h around.herald w.call = some (t, b))
    (hstep : w.call.step thread h around pick S.shared = some next) :
    next.call = { w.call with point := t.point, buffer := t.buffer } ∧
      Refines s next.shared.region b ∧ next.nonblocking = t.nonblocking ∧
      next.delivery = t.delivery ∧ next.shared.holder = t.holder S.shared.holder ∧
      next.shared.sleepers = t.sleepers pick S.shared.sleepers := by
  obtain ⟨rfl, hh⟩ := hi.handles _ h hhandle
  have hw := hi.workers _ w hworker
  exact Call.step_turn hi.valid hh hw.fits (hw.admitted h rfl) hi.refines ht hstep

/-- A call that goes on after a turn has the arguments that it had. -/
theorem Inv.admitted_of_turn (hi : Inv s S a) {number : Nat} {h : Handle} {herald : Herald}
    {c : Call} {t : Turn} {point : Point} (hhandle : S.handles number = some h)
    (ht : a.turn h herald c = some (t, b)) (hpoint : point.Onward → t.point.Onward)
    (hc : c.Admitted h) : Call.Admitted h { c with point, buffer := t.buffer } := by
  obtain ⟨rfl, -⟩ := hi.handles _ h hhandle
  intro hp
  rw [← hc (Ideal.onward_of_turn ht)]
  exact congrArg (Call.refusal? h · c.request)
    ((Ideal.turn_does hi.valid.1.1 ht).buffer_eq (hpoint hp))

/-- A step of a call that takes a turn. -/
theorem act_turn (hi : Inv s S a) {thread pick : Nat} {w : Worker} {h : Handle} {next : Advance}
    {around : Surroundings} {t : Turn}
    (hworker : S.workers thread = some w)
    (hhandle : S.handles w.number = some h) (ht : a.turn h around.herald w.call = some (t, b))
    (hstep : w.call.step thread h around pick S.shared = some next) :
    Inv s (S.advance thread w h next) b ∧ Effect s a (news thread h next) b := by
  obtain ⟨hs, hh⟩ := hi.handles _ h hhandle
  obtain ⟨hcall, hrefines, hnonblocking, hdelivery, -⟩ := hi.step_turn hworker hhandle ht hstep
  refine ⟨hi.advance hworker hhandle hrefines (by rw [hcall]) ?_ ?_, ?_⟩
  · rw [hcall]
    exact hi.admitted_of_turn hhandle ht id
  · rw [hcall]
    exact t.not_broken
  · have hnews : news thread h next = t.news thread h w.call.request := by
      unfold news Turn.news
      rw [hdelivery, hcall, Turn.point]
      cases t.verdict <;> rfl
    rw [hnews]
    exact .turn hs hh ht

/-- A call that ends because the lock or a wait has failed. -/
theorem act_falter (hi : Inv s S a) {thread : Nat} {w : Worker} {h : Handle} {next : Advance}
    {error : SystemError} (hworker : S.workers thread = some w)
    (hhandle : S.handles w.number = some h)
    (hf : Call.Falters s a h w.call error next) :
    Inv s (S.advance thread w h next) (a.stopWaiting w.call.receiving) ∧
      Effect s a (news thread h next) (a.stopWaiting w.call.receiving) := by
  refine ⟨hi.advance hworker hhandle hf.refines (by rw [hf.call_eq]) ?_ ?_, ?_⟩
  · rw [hf.call_eq]
    exact fun _ honward => honward.elim
  · rw [hf.call_eq]
    exact nofun
  · unfold news
    rw [hf.delivery_eq, hf.call_eq]
    exact .refused _ _ _ _ nofun rfl rfl

/-- A turn that cannot wake whom it has to. -/
theorem Inv.unheard (hi : Inv s S a) {thread : Nat} {w : Worker} {h : Handle} {next : Advance}
    {around : Surroundings} {error : SystemError} (hworker : S.workers thread = some w)
    (hhandle : S.handles w.number = some h)
    (hunheard : w.call.unheard h around error S.shared = some next) :
    ∃ t b, a.turn h around.herald w.call = some (t, b) ∧
      next.call = { w.call with point := (t.unheard error).point, buffer := t.buffer } ∧
      next.delivery = t.delivery ∧ Inv s (S.advance thread w h next) b := by
  obtain ⟨rfl, hh⟩ := hi.handles _ h hhandle
  have hw := hi.workers _ w hworker
  obtain ⟨t, b, ht, hrefines, hcall, hdelivery⟩ :=
    Call.unheard_turn hi.valid hh hw.fits (hw.admitted h rfl) hi.refines hunheard
  refine ⟨t, b, ht, hcall, hdelivery, hi.advance hworker hhandle hrefines (by rw [hcall]) ?_ ?_⟩
  · rw [hcall]
    refine hi.admitted_of_turn hhandle ht fun honward => ?_
    obtain hsame | ⟨hfailed, -⟩ := t.point_unheard error
    · exact hsame ▸ honward
    · rw [hfailed] at honward
      exact honward.elim
  · rw [hcall]
    exact (t.unheard error).not_broken

/-- Every step keeps what holds in every state, and has one of the effects. -/
theorem Step.effect (hi : Inv s S a) (hstep : Step S shown S') :
    ∃ b, Inv s S' b ∧ Effect s a shown b := by
  cases hstep with
  | attach hunused hidentity hpreamble =>
    rw [run_preamble hi.valid hi.refines] at hpreamble
    cases hpreamble
    refine ⟨a, ⟨hi.valid, hi.refines, hi.set_handle _ ?_, hi.workers⟩, .silent⟩
    rintro h ⟨⟩
    exact ⟨rfl, hidentity⟩
  | call hidle hopen hkept hfits =>
    refine ⟨a, ⟨hi.valid, hi.refines, hi.handles, hi.set_worker _ ?_⟩, .silent⟩
    rintro w ⟨⟩
    exact sane_start hfits fun hne => absurd rfl hne
  | leave hidle hopen hunused hpurpose =>
    refine ⟨a, ⟨hi.valid, hi.refines, hi.handles, hi.set_worker _ ?_⟩, .silent⟩
    rintro w ⟨⟩
    exact sane_withdrawal ..
  | @act thread pick w h around next hworker hhandle hstep =>
    -- Only a turn touches the bytes; every other step of a call leaves the ideal as it is.
    cases ht : a.turn h around.herald w.call with
    | none => exact ⟨a, act_quiet hi hworker hhandle (Call.step_quiet ht hstep)⟩
    | some taken => exact ⟨taken.2, act_turn hi hworker hhandle ht hstep⟩
  | falter hworker hhandle hfalter =>
    exact ⟨_, act_falter hi hworker hhandle (Call.falter_falters hi.refines hfalter)⟩
  | @expire thread w q c hworker hexpire =>
    obtain ⟨hregion, point, rfl, honward, honward'⟩ := Call.expire_quiet hexpire
    have hw := hi.workers _ w hworker
    refine ⟨a, ⟨hi.valid, by rw [hregion]; exact hi.refines, hi.handles, hi.set_worker _ ?_⟩,
      .silent⟩
    rintro w' ⟨⟩
    exact {
      fits := hw.fits
      admitted := fun h hs _ => hw.admitted h hs honward'
      not_broken := by
        rintro ⟨fault, rfl⟩
        exact honward
      withdraws := hw.withdraws }
  | stir sleeper => exact ⟨a, ⟨hi.valid, hi.refines, hi.handles, hi.workers⟩, .silent⟩

/-- Whatever fails, what holds in every state goes on to hold. -/
theorem Motion.inv (hmotion : Motion S shown S') (hi : Inv s S a) : ∃ b, Inv s S' b := by
  cases hmotion with
  | step hstep =>
    obtain ⟨b, hb, -⟩ := hstep.effect hi
    exact ⟨b, hb⟩
  | unheard hworker hhandle hunheard =>
    obtain ⟨t, b, -, -, -, hb⟩ := hi.unheard hworker hhandle hunheard
    exact ⟨b, hb⟩

theorem Step.orphaned_eq (hstep : Step S shown S') (ho : S.shared.orphaned = false) :
    S'.shared.orphaned = false := by
  cases hstep with
  | attach | call | leave | stir => exact ho
  | act _ _ hstep => exact Call.orphaned_of_step ho hstep
  | falter _ _ hfalter => exact Call.orphaned_of_falter ho hfalter
  | expire _ hexpire => cases Call.expiry_of_expire hexpire <;> exact ho

theorem Run.orphaned_eq (hr : Run S history S') (ho : S.shared.orphaned = false) :
    S'.shared.orphaned = false := by
  induction hr with
  | start => exact ho
  | step _ hstep ih => exact hstep.orphaned_eq ih

/-- What every effect carries on, every run carries on. -/
theorem Run.effects {P : List Happening → Ideal → Prop} (hi : Inv s S a) (hstart : P [] a)
    (hstep : ∀ history shown a b, P history a → Effect s a shown b → P (history ++ shown) b)
    (hr : Run S history S') : ∃ b, Inv s S' b ∧ P history b := by
  induction hr with
  | start => exact ⟨a, hi, hstart⟩
  | step _ hs ih =>
    obtain ⟨b, hb, hp⟩ := ih
    obtain ⟨b', hb', he⟩ := hs.effect hb
    exact ⟨b', hb', hstep _ _ _ _ hp he⟩

theorem Run.inv (hr : Run S history S') (hi : Inv s S a) : ∃ b, Inv s S' b := by
  obtain ⟨b, hb, -⟩ := hr.effects (P := fun _ _ => True) hi trivial fun _ _ _ _ _ _ => trivial
  exact ⟨b, hb⟩

end System

end MappedQueue
