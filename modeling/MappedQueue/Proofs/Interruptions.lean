import MappedQueue.Proofs.Refusals

/-!
# Interruptions and sleepers

A call that is inside a wait when an interruption comes learns of it at the end of its slice, and
gives up. A call that is woken before only looks at the queue. If it finds what it waits for, it is
over, and so it is if it must not wait any longer. But if the message that it was woken for has
gone to another receiver, or the room to another sender, it begins to wait again, counts the
interruptions anew, and has lost the one that came.
-/

namespace MappedQueue

variable {s : Sizing} {q : Shared} {a b : Ideal} {W W' W₁ U V V' : World}
  {shown history : List Happening} {thread me pick identity seen : Nat} {w v : Worker} {h : Handle}
  {c : Call} {around : Surroundings} {herald : Herald} {next : Advance} {answer : Answer}
  {request : Request} {buffer : ByteArray} {t : Turn}

namespace Point

/-- Where a call stands that is inside a wait and has begun the slice with `seen` in mind. -/
inductive InWait (seen : Nat) : Point → Prop
  | asleep : InWait seen (.asleep seen)
  | roused (woken : Bool) : InWait seen (.roused seen woken)
  | backCancelled : InWait seen (.backCancelled seen)
  | backInterrupted : InWait seen (.backInterrupted seen)

/-- Where a call stands that has not been woken from its sleep with `seen` in mind, or has given
up because it was cancelled or interrupted. -/
inductive Heeds (seen : Nat) : Point → Prop
  | asleep : Heeds seen (.asleep seen)
  | roused : Heeds seen (.roused seen false)
  | backCancelled : Heeds seen (.backCancelled seen)
  | backInterrupted : Heeds seen (.backInterrupted seen)
  | cancelled : Heeds seen (.quitting .cancelled)
  | interrupted : Heeds seen (.quitting .interrupted)

/-- Where a call stands that has been woken and has not looked at the queue yet. -/
inductive Called : Point → Prop
  | roused (seen : Nat) : Called (.roused seen true)
  | looking : Called .looking

/-- Inside a wait a call has been woken, or it has not. -/
theorem InWait.heeds {point : Point} (hi : point.InWait seen) :
    point.Heeds seen ∨ point = .roused seen true := by
  cases hi with
  | asleep => exact Or.inl .asleep
  | roused woken =>
    cases woken with
    | false => exact Or.inl .roused
    | true => exact Or.inr rfl
  | backCancelled => exact Or.inl .backCancelled
  | backInterrupted => exact Or.inl .backInterrupted

end Point

namespace Call

/-- A call that has an interruption to take note of takes note of it unless it is woken. -/
theorem heeds_of_step (hh : c.point.Heeds seen) (htransfers : c.request.transfers = true)
    (hcame : around.interruptions ≠ seen) (horphaned : q.orphaned = false)
    (hstep : c.step me h around pick q = some next) :
    next.call.point.Heeds seen ∨ next.call.point = .roused seen true ∨
      ∃ setback, c.point = .quitting setback := by
  have hpolicy : c.request.waitPolicy = .fail := by
    cases hrequest : c.request <;> rw [hrequest] at htransfers <;> first | rfl | cases htransfers
  cases pace_of_step hstep with
  | goes hpoint hway =>
    rw [hpoint] at hh
    cases hway with
    | woken =>
      cases hh
      exact Or.inr (Or.inl rfl)
    | backCancelled => exact Or.inl .cancelled
    | backOn =>
      cases hh
      exact Or.inl .backInterrupted
    | backInterrupted => exact Or.inl .interrupted
    | backCalm hcalm =>
      cases hh
      exact absurd hpolicy (hcalm hcame)
    | _ => cases hh
  | enters hpoint | sleeps hpoint =>
    rw [hpoint] at hh
    cases hh
  | returns hpoint =>
    rw [hpoint] at hh
    cases hh
    dsimp only
    rw [horphaned]
    exact Or.inl .backCancelled
  | turns hturn =>
    obtain hpoint | hpoint | ⟨setback, hpoint⟩ := point_of_program hturn
    · rw [hpoint] at hh
      cases hh
    · rw [hpoint] at hh
      cases hh
    · exact Or.inr (Or.inr ⟨setback, hpoint⟩)

theorem heeds_of_expire {q' : Shared} {c' : Call} (hh : c.point.Heeds seen)
    (he : c.expire me q = some (q', c')) : c'.point.Heeds seen := by
  cases expiry_of_expire he with
  | atDoor hpoint =>
    rw [hpoint] at hh
    cases hh
  | asleep hpoint =>
    rw [hpoint] at hh
    cases hh
    exact .roused

/-- A call that has been woken comes to look at the queue. -/
theorem called_of_step (hc : c.point.Called) (hstep : c.step me h around pick q = some next) :
    next.call.point.Called ∨ c.point = .looking := by
  cases pace_of_step hstep with
  | goes hpoint hway =>
    rw [hpoint] at hc
    cases hc <;> cases hway
  | enters hpoint | sleeps hpoint =>
    rw [hpoint] at hc
    cases hc
  | returns hpoint =>
    rw [hpoint] at hc
    cases hc
    exact Or.inl .looking
  | turns hturn =>
    obtain hpoint | hpoint | ⟨setback, hpoint⟩ := point_of_program hturn
    · rw [hpoint] at hc
      cases hc
    · exact Or.inr hpoint
    · rw [hpoint] at hc
      cases hc

end Call

/-- A transfer that looks at the queue again is over if it finds what it waits for. Otherwise it
is refused, or it waits. -/
theorem Ideal.turn_looking (ht : a.turn h herald c = some (t, b)) (hpoint : c.point = .looking)
    (htransfers : c.request.transfers = true) :
    (c.request.condition.Holds h.sizing a.messages.length ∧
        ∃ reply wake, t.verdict = .finish (.ok reply) wake) ∨
      (¬ c.request.condition.Holds h.sizing a.messages.length ∧
        (t.verdict = .finish (.error .wouldBlock) none ∨ t.verdict = .wait)) := by
  have hagain : t = (a.again h c.buffer c.request).1 := by
    obtain ⟨hother, -⟩ | ⟨-, ht, -⟩ | ⟨setback, hother, -⟩ := turn_cases ht
    · cases hother.symm.trans hpoint
    · exact ht
    · cases hother.symm.trans hpoint
  subst hagain
  cases hrequest : c.request with
  | send bytes priority deadline =>
    show (a.messages.length < _ ∧ _) ∨ (¬ a.messages.length < _ ∧ _)
    rw [again]
    unfold trySend
    by_cases hroom : a.messages.length < h.sizing.capacity
    · rw [if_pos hroom]
      exact Or.inl ⟨hroom, _, _, rfl⟩
    · rw [if_neg hroom]
      refine Or.inr ⟨hroom, ?_⟩
      cases h.nonblocking
      · exact Or.inr rfl
      · exact Or.inl rfl
  | receive deadline =>
    show (0 < a.messages.length ∧ _) ∨ (¬ 0 < a.messages.length ∧ _)
    rw [again]
    cases hmessages : a.messages with
    | nil => exact Or.inr ⟨Nat.lt_irrefl 0, Or.inr rfl⟩
    | cons m rest => exact Or.inl ⟨Nat.succ_pos _, _, _, rfl⟩
  | _ =>
    rw [hrequest] at htransfers
    cases htransfers

namespace World

/-- A thread has been woken from its sleep. -/
def Woken (thread : Nat) (W : World) : Prop :=
  ∃ w seen, W.system.workers thread = some w ∧ w.call.point = .roused seen true

/-- A thread looks at the queue, and what it waits for is not there. -/
def LooksInVain (s : Sizing) (thread : Nat) (W : World) : Prop :=
  ∃ w, W.system.workers thread = some w ∧ w.call.point = .looking ∧
    ¬ w.call.request.condition.Holds s (W.system.shared.region.read .queued)

/-- How a transfer fares in `W` that was inside a wait in `W₀` when an interruption had just
come. -/
inductive Fares (s : Sizing) (thread : Nat) (W₀ W : World) (seen : Nat) (c : Call) : Prop
  | heeds (hh : c.point.Heeds seen)
  | called (hc : c.point.Called) (hwoken : Sometime thread W₀ W (Woken thread))
  | missed (hwoken : Sometime thread W₀ W (Woken thread))
      (hvain : Sometime thread W₀ W (LooksInVain s thread))

section Turns

variable (hm : Made s q) (hr : Reachable q W) (hworker : W.system.workers thread = some w)
  (hhandle : W.system.handles w.number = some h) (htransfers : w.call.request.transfers = true)
include hm hr hworker hhandle htransfers

/-- A transfer that gives up is over with what it has met with. -/
theorem answered_of_quitting {setback : Setback} (hpoint : w.call.point = .quitting setback)
    (hstep : w.call.step thread h around pick W.system.shared = some next) :
    next.call.point = .answered (.error setback.error) := by
  obtain ⟨a, hi⟩ := hr.inv hm
  obtain ⟨b, hturn⟩ := a.turn_quitting h around.herald w.call.buffer setback htransfers
  rw [← hpoint] at hturn
  obtain ⟨hcall, -⟩ := hi.step_turn hworker hhandle hturn hstep
  rw [hcall]
  rfl

/-- A transfer that looks at the queue again is over if it finds what it waits for. Otherwise it
is refused, or it waits. -/
theorem looks_of_step (hpoint : w.call.point = .looking)
    (hstep : w.call.step thread h around pick W.system.shared = some next) :
    let queued := W.system.shared.region.read .queued
    (w.call.request.condition.Holds s queued ∧
        ∃ reply, next.call.point = .answered (.ok reply)) ∨
      (¬ w.call.request.condition.Holds s queued ∧
        (next.call.point = .answered (.error .wouldBlock) ∨
          next.call.point = .waitCancelled)) := by
  intro queued
  obtain ⟨a, hi⟩ := hr.inv hm
  obtain ⟨rfl, -⟩ := hi.handles _ h hhandle
  have hturn : a.turn h around.herald w.call = some (a.again h w.call.buffer w.call.request) := by
    unfold Ideal.turn
    rw [hpoint]
  obtain ⟨hcall, -⟩ := hi.step_turn hworker hhandle hturn hstep
  show (w.call.request.condition.Holds _ (W.system.shared.region.read .queued) ∧ _) ∨
    (¬ w.call.request.condition.Holds _ (W.system.shared.region.read .queued) ∧ _)
  rw [hcall, hi.refines.read_queued]
  unfold Turn.point
  obtain ⟨hholds, reply, wake, hverdict⟩ | ⟨hnot, hverdict | hverdict⟩ :=
    Ideal.turn_looking hturn hpoint htransfers
  · rw [hverdict]
    exact Or.inl ⟨hholds, reply, rfl⟩
  · rw [hverdict]
    exact Or.inr ⟨hnot, Or.inl rfl⟩
  · rw [hverdict]
    exact Or.inr ⟨hnot, Or.inr rfl⟩

end Turns

/-- What a step of its call makes of a transfer that has an interruption to take note of. -/
theorem Fares.acts {W₀ : World} (hm : Made s q) (hr : Reachable q W)
    (hf : Fares s thread W₀ W seen w.call) (hd : During thread W₀ W)
    (hworker : W.system.workers thread = some w) (hhandle : W.system.handles w.number = some h)
    (htransfers : w.call.request.transfers = true)
    (hcame : (W.around thread herald).interruptions ≠ seen)
    (hstep : w.call.step thread h (W.around thread herald) pick W.system.shared = some next)
    (hopen : ∀ answer, next.call.point ≠ .answered answer) (hd' : During thread W V)
    (hafter : V.system.workers thread = some v) (hcall : v.call = next.call) :
    Fares s thread W₀ V seen v.call := by
  cases hf with
  | heeds hh =>
    obtain hheeds | hroused | ⟨setback, hquitting⟩ :=
      Call.heeds_of_step hh htransfers hcame (hr.orphaned_eq hm) hstep
    · exact .heeds (hcall ▸ hheeds)
    · rw [← hcall] at hroused
      exact .called (hroused ▸ .roused seen) ⟨V, hd.trans hd', .refl, v, seen, hafter, hroused⟩
    · exact absurd (answered_of_quitting hm hr hworker hhandle htransfers hquitting hstep) (hopen _)
  | called hc hwoken =>
    obtain hcalled | hlooking := Call.called_of_step hc hstep
    · exact .called (hcall ▸ hcalled) (hwoken.mono hd')
    · obtain ⟨-, reply, hanswer⟩ | ⟨hnot, -⟩ :=
        looks_of_step hm hr hworker hhandle htransfers hlooking hstep
      · exact absurd hanswer (hopen _)
      · exact .missed (hwoken.mono hd') ⟨W, hd, hd', w, hworker, hlooking, hnot⟩
  | missed hwoken hvain => exact .missed (hwoken.mono hd') (hvain.mono hd')

/-- The end of a slice does not make a transfer miss an interruption. -/
theorem Fares.expires {W₀ : World} {q' : Shared} {c' : Call} (hf : Fares s thread W₀ W seen c)
    (he : c.expire me q = some (q', c')) : Fares s thread W₀ W seen c' := by
  cases hf with
  | heeds hh => exact .heeds (Call.heeds_of_expire hh he)
  | called hc hwoken =>
    cases Call.expiry_of_expire he <;> rename_i hpoint _ <;> rw [hpoint] at hc <;> cases hc
  | missed hwoken hvain => exact .missed hwoken hvain

theorem Fares.mono {W₀ : World} (hf : Fares s thread W₀ W seen c) (hd : During thread W V) :
    Fares s thread W₀ V seen c := by
  cases hf with
  | heeds hh => exact .heeds hh
  | called hc hwoken => exact .called hc (hwoken.mono hd)
  | missed hwoken hvain => exact .missed (hwoken.mono hd) (hvain.mono hd)

end World

end MappedQueue
