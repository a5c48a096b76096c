import MappedQueue.Proofs.Deaths

/-!
# What can happen to a queue that is not respected

Beside what threads do there are writes into the file that belong to no call, and threads die that
have the lock, whatever they leave behind. Nothing is known of the bytes then, but the file is as
long as ever, and the handles are what they were: every call has its own, and one that is being
given up has no other call.
-/

namespace MappedQueue

open Layout (headerSize)

variable {q : Shared} {S S' : System} {W W' : World} {h : Handle} {c : Call} {w : Worker}
  {around : Surroundings} {me thread pick : Nat} {next : Advance} {error : SystemError}
  {shown : List Happening}

/-- A program leaves a region as long as it is. -/
theorem Access.size_run {α : Type} (p : Access α) : ∀ r : Region, (p.run r).2.size = r.size := by
  induction p with
  | done a => exact fun _ => rfl
  | fault f => exact fun _ => rfl
  | load field next ih => exact fun r => ih _ r
  | fetch offset count next ih => exact fun r => ih _ r
  | store field value next ih => exact fun r => (ih () _).trans (r.size_write field value)
  | put offset bytes next ih => exact fun r => (ih () _).trans (r.size_setSlice offset bytes)

namespace Call

theorem size_takeTurn (turn : Access Turn) :
    (c.takeTurn h pick q turn).shared.region.size = q.region.size := by
  have hsize := turn.size_run q.region
  unfold takeTurn
  split <;> rename_i hrun <;> rw [hrun] at hsize
  · exact hsize
  · split
    · exact hsize
    · dsimp only
      split
      · rw [region_wake]
        exact hsize
      · exact hsize

theorem size_step (hstep : c.step me h around pick q = some next) :
    next.shared.region.size = q.region.size := by
  cases step_move hstep with
  | goes hlock => exact congrArg Region.size hlock.region_eq
  | sleeps => rfl
  | turns => exact size_takeTurn _

theorem size_falter (hfalter : c.falter me h error q = some next) :
    next.shared.region.size = q.region.size := by
  cases failure_of_falter hfalter with
  | barred => rfl
  | early => exact size_takeTurn _
  | late => exact size_takeTurn _

end Call

theorem Store.headerSize_le_of_preamble {length : Nat} {r r' : Region} {s : Sizing}
    (hrun : (preamble length).run r = (.ok (.ok s), r')) : headerSize ≤ length := by
  rw [preamble, Access.run_get_bind] at hrun
  split at hrun
  · cases hrun
  split at hrun
  · cases hrun
  rw [Access.run_get_bind, Access.run_get_bind] at hrun
  dsimp only at hrun
  split at hrun
  · rename_i hlength
    obtain ⟨-, rfl⟩ := Sizing.fileSize?_eq_some.mp hlength
    exact Nat.le_add_right _ _
  · cases hrun

namespace System

theorem identity_of_handleAfter {h' : Handle} (ho : handleAfter w h next = some h') :
    h'.identity = h.identity := by
  unfold handleAfter at ho
  split at ho <;> cases ho
  rfl

/-- The handles of a system, whatever has become of the bytes. -/
structure Orderly (S : System) : Prop where
  kept : S.Kept
  handles : ∀ number h, S.handles number = some h →
    0 < h.identity ∧ headerSize ≤ S.shared.region.size

theorem Orderly.of_handles (ho : S.Orderly) (hkept : S'.Kept)
    (hsize : S'.shared.region.size = S.shared.region.size)
    (hhandles : ∀ number h', S'.handles number = some h' →
      ∃ h, S.handles number = some h ∧ h'.identity = h.identity) : S'.Orderly := by
  refine ⟨hkept, fun number h' hh' => ?_⟩
  obtain ⟨h, hh, hidentity⟩ := hhandles number h' hh'
  rw [hidentity, hsize]
  exact ho.handles number h hh

theorem Orderly.same_handles (ho : S.Orderly) (hkept : S'.Kept)
    (hsize : S'.shared.region.size = S.shared.region.size) (hsame : S'.handles = S.handles) :
    S'.Orderly :=
  ho.of_handles hkept hsize fun _ h' hh' => ⟨h', hsame ▸ hh', rfl⟩

theorem Orderly.advance (ho : S.Orderly) (hworker : S.workers thread = some w)
    (hhandle : S.handles w.number = some h)
    (hsize : next.shared.region.size = S.shared.region.size) :
    (S.advance thread w h next).Orderly := by
  refine ho.of_handles (ho.kept.advance hworker) hsize fun number h' hh' => ?_
  change Function.update S.handles w.number _ number = some h' at hh'
  by_cases hnumber : number = w.number
  · subst hnumber
    rw [Function.update_self] at hh'
    exact ⟨h, hhandle, identity_of_handleAfter hh'⟩
  · rw [Function.update_of_ne hnumber] at hh'
    exact ⟨h', hh', rfl⟩

theorem Step.orderly (hstep : Step S shown S') (ho : S.Orderly) : S'.Orderly := by
  have hkept := hstep.kept ho.kept
  cases hstep with
  | @attach number identity nonblocking sizing hunused hidentity hpreamble =>
    refine ⟨hkept, fun other h' hh' => ?_⟩
    change Function.update S.handles number _ other = some h' at hh'
    by_cases hother : other = number
    · subst hother
      rw [Function.update_self] at hh'
      cases hh'
      exact ⟨hidentity.1, Store.headerSize_le_of_preamble hpreamble⟩
    · rw [Function.update_of_ne hother] at hh'
      exact ho.handles other h' hh'
  | call => exact ho.same_handles hkept rfl rfl
  | leave => exact ho.same_handles hkept rfl rfl
  | act hworker hhandle hstep => exact ho.advance hworker hhandle (Call.size_step hstep)
  | falter hworker hhandle hfalter => exact ho.advance hworker hhandle (Call.size_falter hfalter)
  | expire hworker hexpire =>
    exact ho.same_handles hkept (congrArg Region.size (Call.expire_quiet hexpire).1) rfl
  | stir => exact ho.same_handles hkept rfl rfl

/-- Who is in no call any more does not matter. -/
theorem Kept.rid (hk : S.Kept) (thread : Nat) :
    Kept { S.setWorker thread none with shared := q } := by
  have hbefore : ∀ t v, Function.update S.workers thread none t = some v →
      S.workers t = some v := by
    intro t v hv
    obtain ⟨-, hnone⟩ | ⟨-, hold⟩ := worker_cases hv
    · cases hnone
    · exact hold
  exact ⟨fun t v hv => hk.isOpen t v (hbefore t v hv),
    fun t v hv hpurpose other v' hv' => hk.alone t v (hbefore t v hv) hpurpose other v'
      (hbefore other v' hv')⟩

end System

namespace World

/-- What can happen if not everybody keeps to the rules. -/
inductive Happens (W : World) : List Happening → World → Prop
  | step {shown : List Happening} {W' : World} (hstep : Step W shown W') : Happens W shown W'
  /-- Somebody writes into the file what he likes. -/
  | written {region : Region} (hsize : region.size = W.system.shared.region.size) :
      Happens W [] { W with system := { W.system with shared := { W.system.shared with region } } }
  /-- A thread dies that holds the lock. -/
  | dies {thread : Nat} {region : Region} (hholder : W.system.shared.holder = some thread)
      (hsize : region.size = W.system.shared.region.size) :
      Happens W [] (W.bereave thread region)

/-- Whether a world can come about from a queue that nobody has opened, whatever its bytes are
and whoever has the lock. -/
def Occurs (W : World) : Prop :=
  ∃ (W₀ : World) (q : Shared), W₀.system = System.idle q ∧
    Relation.ReflTransGen (fun V V' => ∃ shown, Happens V shown V') W₀ W

theorem Happens.orderly (hhappens : W.Happens shown W') (ho : W.system.Orderly) :
    W'.system.Orderly := by
  cases hhappens with
  | step hstep =>
    obtain hsame | hwithin := hstep.within
    · exact hsame ▸ ho
    · exact hwithin.orderly ho
  | written hsize => exact ho.same_handles ⟨ho.kept.isOpen, ho.kept.alone⟩ hsize rfl
  | dies hholder hsize => exact ho.same_handles (ho.kept.rid _) hsize rfl

theorem Occurs.orderly (ho : W.Occurs) : W.system.Orderly := by
  obtain ⟨W₀, q, hidle, hrun⟩ := ho
  induction hrun with
  | refl =>
    rw [hidle]
    exact ⟨⟨(fun _ _ hw => nomatch hw), fun _ _ hw => nomatch hw⟩, fun _ _ hh => nomatch hh⟩
  | tail _ hhappens ih =>
    obtain ⟨shown, hhappens⟩ := hhappens
    exact hhappens.orderly ih

end World

end MappedQueue
