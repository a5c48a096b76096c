import MappedQueue.Proofs.Mishaps
import MappedQueue.Proofs.Withdrawals

/-!
# Giving a handle up

A thread gives a handle up by withdrawing the registration of its identity. If a close fails at
that, the handle is dropped, which is a second attempt, and after that the handle is gone whatever
has become of it. All the while anything may happen: the others go on with their calls, threads
are cancelled and interrupted, the lock fails, somebody writes into the file, and threads die with
the lock.

As long as no slice has ended in an attempt, the number of steps that the thread has taken in it
tells where it stands, and it has not come to the point at which it would look for a cancellation.
-/

namespace MappedQueue

open Layout (headerSize)

variable {q q' : Shared} {S S' : System} {W₀ W W' : World} {h : Handle} {c : Call}
  {w w' : Worker} {around : Surroundings} {me thread number pick slices acts : Nat}
  {next : Advance} {point : Point} {purpose : Purpose} {shown : List Happening}
  {failures : List Error}

namespace System

/-- A worker that gives a handle up. -/
def leaving (number : Nat) (purpose : Purpose) (point : Point) : Worker :=
  ⟨number, purpose, { request := .notify none, point }⟩

/-- What the end of an attempt to give a handle up shows. -/
def parting (thread : Nat) (h : Handle) (answer : Answer) : Happening :=
  .answered thread h.identity (.notify none) answer ByteArray.empty

/-- A thread goes on, or begins with something else. -/
def turnsTo (S : System) (thread : Nat) (w : Worker) (q : Shared) : System :=
  { S.setWorker thread (some w) with shared := q }

/-- A thread is done with a handle, which is gone. -/
def leaves (S : System) (thread number : Nat) (q : Shared) : System :=
  { (S.setHandle number none).setWorker thread none with shared := q }

end System

/-- Where a thread can stand in an attempt in which some slices have ended and it has taken some
steps. It looks for a cancellation only after the end of a slice. -/
def Point.Since (slices acts : Nat) : Point → Prop
  | .arriving => slices = 0 ∧ acts = 0
  | .knocking => slices = 0 ∧ acts = 1
  | .atDoor _ => slices = 0 → acts = 2
  | .doorCancelled _ | .doorInterrupted _ => 0 < slices
  | .inside => slices = 0 → acts = 3
  | _ => False

namespace Point

theorem Since.leaving (hs : point.Since slices acts) : point.Leaving := by
  cases point <;> trivial

theorem Since.acts_le (hs : point.Since 0 acts) : acts ≤ 3 := by
  cases point <;> simp only [Since, true_and, forall_const, Nat.lt_irrefl] at hs <;> omega

theorem Since.approaches {before : Point} (hs : before.Since slices acts)
    (ha : before.Approaches point) : point.Since slices (acts + 1) := by
  cases ha with
  | arrives => exact ⟨hs.1, congrArg (· + 1) hs.2⟩
  | knocks => exact fun _ => congrArg (· + 1) hs.2
  | enters => exact fun hslices => congrArg (· + 1) (hs hslices)
  | stays => exact hs
  | returns => exact fun hslices => absurd hs (by rw [hslices]; exact Nat.lt_irrefl 0)

end Point

theorem Call.Withdraws.nonblocking_eq (hw : c.Withdraws me h around q next) :
    next.nonblocking = h.nonblocking := by
  cases hw <;> rfl

namespace System

/-- A handle is there as long as a call goes on that may take it away. -/
theorem handleAfter_of_onward (ho : onward w next = some w')
    (hmode : next.nonblocking = h.nonblocking) : handleAfter w h next = some h := by
  obtain ⟨-, -, hopen⟩ := kept_onward (h := h) ho
  obtain ⟨h', hafter⟩ := Option.ne_none_iff_exists'.mp hopen
  rw [hafter]
  unfold handleAfter at hafter
  split at hafter <;> cases hafter
  rw [hmode]

theorem advance_of_onward_some (hhandle : S.handles w.number = some h)
    (ho : onward w next = some w') (hmode : next.nonblocking = h.nonblocking) :
    S.advance thread w h next = S.turnsTo thread w' next.shared := by
  have hsame : S.setHandle w.number (some h) = S :=
    congrArg (System.mk S.shared · S.workers) (hhandle ▸ Function.update_eq_self w.number S.handles)
  rw [advance, ho, handleAfter_of_onward ho hmode, hsame, turnsTo]

/-- What others do changes neither a thread that gives a handle up nor the handle. -/
theorem Kept.advance_beside {actor : Nat} {v : Worker} (hk : S.Kept)
    (hworker : S.workers thread = some w) (hpurpose : w.purpose ≠ .request)
    (hactor : S.workers actor = some v) (hne : thread ≠ actor) :
    (S.advance actor v h next).workers thread = S.workers thread ∧
      (S.advance actor v h next).handles w.number = S.handles w.number := by
  have hapart : w.number ≠ v.number := fun hnumber =>
    hne (hk.alone thread w hworker hpurpose actor v hactor hnumber.symm).symm
  exact ⟨Function.update_of_ne hne .., Function.update_of_ne hapart ..⟩

/-- As long as a thread gives a handle up the handle is there. -/
theorem Kept.same_handle (hk : S.Kept) (hstep : Step S shown S')
    (hworker : S.workers thread = some w) (hhandle : S.handles w.number = some h)
    (hpurpose : w.purpose ≠ .request) (hrequest : w.call.request = .notify none)
    (hleaving : w.call.point.Leaving) (hsize : headerSize ≤ S.shared.region.size)
    (hsame : S'.workers thread = S.workers thread) : S'.handles w.number = some h := by
  cases hstep with
  | @attach number _ _ _ hunused =>
    refine (Function.update_of_ne ?_ ..).trans hhandle
    rintro rfl
    cases hunused.symm.trans hhandle
  | call | leave | expire | stir => exact hhandle
  | @act actor _ v h' _ next hactor hopen hact =>
    by_cases hne : thread = actor
    · subst hne
      cases hactor.symm.trans hworker
      cases hopen.symm.trans hhandle
      have hmode := (Call.step_withdraws hsize hrequest hleaving hact).nonblocking_eq
      rw [workers_advance, hworker] at hsame
      exact (Function.update_self ..).trans (handleAfter_of_onward hsame hmode)
    · exact (hk.advance_beside hworker hpurpose hactor hne).2.trans hhandle
  | @falter actor v h' error next hactor hopen hfalter =>
    by_cases hne : thread = actor
    · subst hne
      cases hactor.symm.trans hworker
      cases hopen.symm.trans hhandle
      have hmode := congrArg Advance.nonblocking (Call.falter_leaving hleaving hfalter).2
      rw [workers_advance, hworker] at hsame
      exact (Function.update_self ..).trans (handleAfter_of_onward hsame hmode)
    · exact (hk.advance_beside hworker hpurpose hactor hne).2.trans hhandle

theorem onward_of_approaches {before : Point} (ha : before.Approaches point)
    (hcall : next.call = (leaving number purpose point).call) :
    onward (leaving number purpose before) next = some (leaving number purpose point) := by
  unfold onward
  rw [hcall]
  cases ha <;> rfl

end System

namespace World

/-- What can become of a thread that gives a handle up. -/
inductive Lot (W : World) (thread : Nat) (w : Worker) (h : Handle) :
    List Happening → World → Prop
  | beside {shown : List Happening} {W' : World}
      (hworker : W'.system.workers thread = W.system.workers thread)
      (hhandle : W'.system.handles w.number = some h) (hshown : ¬ Answered thread shown) :
      Lot W thread w h shown W'
  | acts {pick : Nat} {herald : Herald} {next : Advance}
      (hstep : w.call.step thread h (W.around thread herald) pick W.system.shared = some next) :
      Lot W thread w h (System.news thread h next)
        { W with system := W.system.advance thread w h next }
  | falters {error : SystemError} {next : Advance}
      (hfalter : w.call.falter thread h error W.system.shared = some next) :
      Lot W thread w h (System.news thread h next)
        { W with system := W.system.advance thread w h next }
  | expires {q : Shared} {c : Call} (hexpire : w.call.expire thread W.system.shared = some (q, c)) :
      Lot W thread w h [] { W with system := W.system.turnsTo thread { w with call := c } q }
  | dies {region : Region} (hholder : W.system.shared.holder = some thread) :
      Lot W thread w h [] (W.bereave thread region)

theorem not_answered_nil : ¬ Answered thread [] := by
  rintro ⟨identity, request, answer, buffer, hmem⟩
  cases hmem

theorem not_answered_news {actor : Nat} (hne : thread ≠ actor) (h : Handle) (next : Advance)
    : ¬ Answered thread (System.news actor h next) := by
  rintro ⟨identity, request, answer, buffer, hmem⟩
  unfold System.news at hmem
  obtain hdelivered | hanswered := List.mem_append.mp hmem
  · cases hdelivery : next.delivery <;> rw [hdelivery] at hdelivered
    · cases hdelivered
    · cases List.mem_singleton.mp hdelivered
  · split at hanswered
    · cases List.mem_singleton.mp hanswered
      exact hne rfl
    · cases hanswered

/-- What happens to a thread that gives a handle up, and to the handle, in a step of the rules. -/
theorem Step.lot (hstep : Step W shown W') (hk : W.system.Kept)
    (hworker : W.system.workers thread = some w) (hhandle : W.system.handles w.number = some h)
    (hpurpose : w.purpose ≠ .request) (hrequest : w.call.request = .notify none)
    (hleaving : w.call.point.Leaving) (hsize : headerSize ≤ W.system.shared.region.size) :
    Lot W thread w h shown W' := by
  cases hstep with
  | tick | interrupt | tell => exact .beside rfl hhandle not_answered_nil
  | @act actor pick herald v h' next hactor hopen hact =>
    by_cases hne : thread = actor
    · subst hne
      cases hactor.symm.trans hworker
      cases hopen.symm.trans hhandle
      exact .acts hact
    · obtain ⟨hsame, hkept⟩ := hk.advance_beside hworker hpurpose hactor hne
      exact .beside hsame (hkept.trans hhandle) (not_answered_news hne _ _)
  | @falter actor v h' error next hactor hopen hfalter =>
    by_cases hne : thread = actor
    · subst hne
      cases hactor.symm.trans hworker
      cases hopen.symm.trans hhandle
      exact .falters hfalter
    · obtain ⟨hsame, hkept⟩ := hk.advance_beside hworker hpurpose hactor hne
      exact .beside hsame (hkept.trans hhandle) (not_answered_news hne _ _)
  | @expire actor v q c hactor hexpire =>
    by_cases hne : thread = actor
    · subst hne
      cases hactor.symm.trans hworker
      exact .expires hexpire
    · exact .beside (Function.update_of_ne hne ..) hhandle not_answered_nil
  | other hstep hbusy =>
    have hsame := hbusy thread (by rw [hworker]; exact nofun)
    exact .beside hsame (hk.same_handle hstep hworker hhandle hpurpose hrequest hleaving hsize hsame)
      not_answered_nil

theorem Happens.lot (hhappens : W.Happens shown W') (hk : W.system.Kept)
    (hworker : W.system.workers thread = some w) (hhandle : W.system.handles w.number = some h)
    (hpurpose : w.purpose ≠ .request) (hrequest : w.call.request = .notify none)
    (hleaving : w.call.point.Leaving) (hsize : headerSize ≤ W.system.shared.region.size) :
    Lot W thread w h shown W' := by
  cases hhappens with
  | step hstep => exact hstep.lot hk hworker hhandle hpurpose hrequest hleaving hsize
  | written => exact .beside rfl hhandle not_answered_nil
  | @dies actor region hholder =>
    by_cases hne : thread = actor
    · subst hne
      exact .dies hholder
    · exact .beside (Function.update_of_ne hne ..) hhandle not_answered_nil

/-- How a thread has fared that gives up a handle from `W₀` on: the errors that its attempts have
ended with, and how many slices have ended in the attempt that goes on and how many steps it has
taken in it. -/
inductive Farewell (thread : Nat) (W₀ : World) : List Error → Nat → Nat → World → Prop
  | begins : Farewell thread W₀ [] 0 0 W₀
  | beside {failures : List Error} {slices acts : Nat} {shown : List Happening} {W W' : World}
      (hf : Farewell thread W₀ failures slices acts W) (hhappens : W.Happens shown W')
      (hsame : W'.system.workers thread = W.system.workers thread) :
      Farewell thread W₀ failures slices acts W'
  | acts {failures : List Error} {slices acts pick : Nat} {herald : Herald} {W : World}
      {w : Worker} {h : Handle} {next : Advance} (hf : Farewell thread W₀ failures slices acts W)
      (hworker : W.system.workers thread = some w) (hhandle : W.system.handles w.number = some h)
      (hstep : w.call.step thread h (W.around thread herald) pick W.system.shared = some next)
      (hopen : ∀ answer, next.call.point ≠ .answered answer) :
      Farewell thread W₀ failures slices (acts + 1)
        { W with system := W.system.advance thread w h next }
  | waits {failures : List Error} {slices acts : Nat} {W : World} {w : Worker} {q : Shared}
      {c : Call} (hf : Farewell thread W₀ failures slices acts W)
      (hworker : W.system.workers thread = some w)
      (hexpire : w.call.expire thread W.system.shared = some (q, c)) :
      Farewell thread W₀ failures (slices + 1) acts
        { W with system := W.system.turnsTo thread { w with call := c } q }
  | fails {failures : List Error} {slices acts pick : Nat} {herald : Herald} {W : World}
      {w : Worker} {h : Handle} {next : Advance} {error : Error}
      (hf : Farewell thread W₀ failures slices acts W)
      (hworker : W.system.workers thread = some w) (hhandle : W.system.handles w.number = some h)
      (hstep : w.call.step thread h (W.around thread herald) pick W.system.shared = some next)
      (hanswer : next.call.point = .answered (.error error)) (hpurpose : w.purpose = .close) :
      Farewell thread W₀ (failures ++ [error]) 0 0
        { W with system := W.system.advance thread w h next }

  | barred {failures : List Error} {slices acts : Nat} {W : World} {w : Worker} {h : Handle}
      {error : SystemError} {next : Advance} (hf : Farewell thread W₀ failures slices acts W)
      (hworker : W.system.workers thread = some w) (hhandle : W.system.handles w.number = some h)
      (hfalter : w.call.falter thread h error W.system.shared = some next)
      (hpurpose : w.purpose = .close) :
      Farewell thread W₀ (failures ++ [.system error]) 0 0
        { W with system := W.system.advance thread w h next }

/-- A thread gives up a handle, for this purpose in the attempt that goes on. -/
structure Gives (thread number : Nat) (h : Handle) (purpose : Purpose) (slices acts : Nat)
    (W : World) : Prop where
  orderly : W.system.Orderly
  handle_eq : W.system.handles number = some h
  purpose_ne : purpose ≠ .request
  worker : ∃ point, point.Since slices acts ∧
    W.system.workers thread = some (System.leaving number purpose point)

/-- Why an attempt may fail. -/
inductive Excuse (W : World) (thread slices : Nat) : Error → Prop
  | broken (htag : W.system.shared.tagged = false) : Excuse W thread slices .badHandle
  | cancelled (hslices : 0 < slices) (hcancelled : W.cancelled thread = true) :
      Excuse W thread slices .cancelled
  /-- The lock fails that the thread asks for. -/
  | barred {w : Worker} {seen : Nat} {error : SystemError}
      (hworker : W.system.workers thread = some w) (hpoint : w.call.point = .atDoor seen) :
      Excuse W thread slices (.system error)

/-- What one step of the world means to a thread that gives up a handle. -/
inductive Parts (thread number : Nat) (h : Handle) (purpose : Purpose) (slices : Nat) (W : World) :
    List Happening → World → Prop
  /-- The thread stands where it stood, so it has done nothing, and the handle is still there. -/
  | beside {shown : List Happening} {W' : World}
      (hworker : W'.system.workers thread = W.system.workers thread)
      (hhandle : W'.system.handles number = some h) (hshown : ¬ Answered thread shown) :
      Parts thread number h purpose slices W shown W'
  /-- The thread goes on, and takes the lock if it is free. -/
  | goes {point : Point} {q : Shared} (hlock : W.system.shared.Seized thread q) :
      Parts thread number h purpose slices W []
        { W with system := W.system.turnsTo thread (System.leaving number purpose point) q }
  /-- The registration has ended, if it was that of the identity, and the handle is gone. -/
  | withdrawn {region : Region}
      (hregion : W.system.shared.region.Withdrawn h.identity region) :
      Parts thread number h purpose slices W [System.parting thread h (.ok .notified)]
        { W with
          system := W.system.leaves thread number
            { W.system.shared with region, holder := none } }
  /-- A close has failed, and the handle is dropped. -/
  | fails {error : Error} (hpurpose : purpose = .close) (hexcuse : Excuse W thread slices error) :
      Parts thread number h purpose slices W [System.parting thread h (.error error)]
        { W with
          system := W.system.turnsTo thread (System.withdrawal number .drop) W.system.shared }
  /-- The second attempt has failed, or the only one; the handle is gone all the same. -/
  | gone {error : Error} (hpurpose : purpose = .drop) (hexcuse : Excuse W thread slices error) :
      Parts thread number h purpose slices W [System.parting thread h (.error error)]
        { W with system := W.system.leaves thread number W.system.shared }
  | dies {region : Region} (hholder : W.system.shared.holder = some thread) :
      Parts thread number h purpose slices W [] (W.bereave thread region)

namespace Gives

theorem size_le (hg : Gives thread number h purpose slices acts W) :
    headerSize ≤ W.system.shared.region.size := (hg.orderly.handles number h hg.handle_eq).2

theorem lot (hg : Gives thread number h purpose slices acts W) (hhappens : W.Happens shown W')
    (hsince : point.Since slices acts)
    (hworker : W.system.workers thread = some (System.leaving number purpose point)) :
    Lot W thread (System.leaving number purpose point) h shown W' :=
  hhappens.lot hg.orderly.kept hworker hg.handle_eq hg.purpose_ne rfl hsince.leaving hg.size_le

/-- What a step of the thread is. -/
theorem withdraws (hg : Gives thread number h purpose slices acts W)
    (hsince : point.Since slices acts)
    (hstep : (System.leaving number purpose point).call.step thread h around pick
      W.system.shared = some next) :
    (System.leaving number purpose point).call.Withdraws thread h around W.system.shared next :=
  Call.step_withdraws hg.size_le rfl hsince.leaving hstep

theorem same_handle (hg : Gives thread number h purpose slices acts W)
    (hhappens : W.Happens shown W') (hbusy : W'.system.workers thread ≠ none) :
    W'.system.handles number = some h := by
  obtain ⟨point, hsince, hworker⟩ := hg.worker
  cases hg.lot hhappens hsince hworker with
  | beside _ hhandle => exact hhandle
  | acts hstep =>
    rw [System.workers_advance] at hbusy
    obtain ⟨w', honward⟩ := Option.ne_none_iff_exists'.mp hbusy
    have hmode := (hg.withdraws hsince hstep).nonblocking_eq
    exact (Function.update_self ..).trans (System.handleAfter_of_onward honward hmode)
  | falters hfalter =>
    rw [System.workers_advance] at hbusy
    obtain ⟨w', honward⟩ := Option.ne_none_iff_exists'.mp hbusy
    have hmode := congrArg Advance.nonblocking (Call.falter_leaving hsince.leaving hfalter).2
    exact (Function.update_self ..).trans (System.handleAfter_of_onward honward hmode)
  | expires hexpire => exact hg.handle_eq
  | dies hholder => exact absurd (Function.update_self ..) hbusy

/-- The thread gives the handle up still, if it has got to another point. -/
theorem after (hg : Gives thread number h purpose slices acts W) (hhappens : W.Happens shown W')
    {purpose' : Purpose} {slices' acts' : Nat} (hpurpose : purpose' ≠ .request)
    (hsince : point.Since slices' acts')
    (hworker : W'.system.workers thread = some (System.leaving number purpose' point)) :
    Gives thread number h purpose' slices' acts' W' :=
  ⟨hhappens.orderly hg.orderly, hg.same_handle hhappens (by rw [hworker]; exact nofun), hpurpose,
    point, hsince, hworker⟩

theorem waits (hg : Gives thread number h purpose slices acts W)
    (hworker : W.system.workers thread = some w)
    (hexpire : w.call.expire thread W.system.shared = some (q, c)) :
    Gives thread number h purpose (slices + 1) acts
      { W with system := W.system.turnsTo thread { w with call := c } q } := by
  have hhappens := Happens.step (.expire hworker hexpire)
  obtain ⟨point, hsince, hw⟩ := hg.worker
  cases hw.symm.trans hworker
  obtain ⟨-, -, seen, -, rfl⟩ := Call.expire_withdraws hsince.leaving hexpire
  have hafter : (Point.doorCancelled seen).Since (slices + 1) acts := Nat.succ_pos slices
  exact hg.after hhappens hg.purpose_ne hafter (Function.update_self ..)

/-- A close that has failed is followed by a drop. -/
theorem fails (hg : Gives thread number h purpose slices acts W) {h' : Handle} {error : Error}
    (hworker : W.system.workers thread = some w)
    (hhappens : W.Happens shown { W with system := W.system.advance thread w h' next })
    (hanswer : next.call.point = .answered (.error error)) (hpurpose : w.purpose = .close) :
    purpose = .close ∧ Gives thread number h .drop 0 0
      { W with system := W.system.advance thread w h' next } := by
  obtain ⟨point, hsince, hw⟩ := hg.worker
  cases hw.symm.trans hworker
  obtain rfl : purpose = .close := hpurpose
  have hfresh : Point.arriving.Since 0 0 := ⟨rfl, rfl⟩
  refine ⟨rfl, hg.after hhappens nofun hfresh ?_⟩
  rw [System.workers_advance, System.onward, hanswer]
  rfl

end Gives

theorem Gives.parts_of_approach (hg : Gives thread number h purpose slices acts W)
    {before : Point} (happroaches : before.Approaches point)
    (hlock : W.system.shared.Seized thread next.shared)
    (hcall : next.call = (System.leaving number purpose point).call)
    (hmode : next.nonblocking = h.nonblocking) (hdelivery : next.delivery = none) :
    Parts thread number h purpose slices W (System.news thread h next)
      { W with
        system := W.system.advance thread (System.leaving number purpose before) h next } := by
  have hnews : System.news thread h next = [] := by
    rw [System.news, hdelivery, hcall]
    cases happroaches <;> rfl
  have honward := System.onward_of_approaches happroaches hcall
  rw [hnews, System.advance_of_onward_some hg.handle_eq honward hmode]
  exact .goes hlock

theorem Gives.parts_of_refusal (hg : Gives thread number h purpose slices acts W) {error : Error}
    (hexcuse : Excuse W thread slices error)
    (hcall : next.call = (System.leaving number purpose (.answered (.error error))).call)
    (hshared : next.shared = W.system.shared) (hmode : next.nonblocking = h.nonblocking)
    (hdelivery : next.delivery = none) :
    Parts thread number h purpose slices W (System.news thread h next)
      { W with system := W.system.advance thread (System.leaving number purpose point) h next } := by
  have hnews : System.news thread h next = [System.parting thread h (.error error)] := by
    rw [System.news, hdelivery, hcall]
    rfl
  rw [hnews]
  cases purpose with
  | request => exact absurd rfl hg.purpose_ne
  | close =>
    have honward : System.onward (System.leaving number .close point) next =
        some (System.withdrawal number .drop) := by
      rw [System.onward, hcall]
      rfl
    rw [System.advance_of_onward_some hg.handle_eq honward hmode, hshared]
    exact .fails rfl hexcuse
  | drop =>
    rw [System.advance, System.onward, System.handleAfter, hcall, hshared]
    exact .gone rfl hexcuse

theorem Gives.parts (hg : Gives thread number h purpose slices acts W)
    (hhappens : W.Happens shown W') : Parts thread number h purpose slices W shown W' := by
  obtain ⟨point, hsince, hworker⟩ := hg.worker
  cases hg.lot hhappens hsince hworker with
  | beside hsame hhandle hshown => exact .beside hsame hhandle hshown
  | dies hholder => exact .dies hholder
  | expires hexpire =>
    obtain ⟨rfl, -, seen, -, rfl⟩ := Call.expire_withdraws hsince.leaving hexpire
    exact .goes .same
  | falters hfalter =>
    obtain ⟨⟨seen, hpoint⟩, rfl⟩ := Call.falter_leaving hsince.leaving hfalter
    exact hg.parts_of_refusal (.barred hworker hpoint) rfl rfl rfl rfl
  | acts hstep =>
    cases hg.withdraws hsince hstep with
    | goes happroaches hlock => exact hg.parts_of_approach happroaches hlock rfl rfl rfl
    | refused hpoint htag => exact hg.parts_of_refusal (.broken htag) rfl rfl rfl rfl
    | cancelled hpoint hcancelled =>
      obtain rfl : point = _ := hpoint
      exact hg.parts_of_refusal (.cancelled hsince hcancelled) rfl rfl rfl rfl
    | withdrawn hpoint hregion =>
      cases purpose with
      | request => exact absurd rfl hg.purpose_ne
      | close => exact .withdrawn hregion
      | drop => exact .withdrawn hregion

/-- While no slice has ended the thread can take its next step, unless it asks for the lock and
somebody else has it, and with the fourth step the attempt succeeds. -/
theorem Gives.prompt (hg : Gives thread number h purpose 0 acts W)
    (hf : Farewell thread W₀ failures 0 acts W) (htagged : W.system.shared.tagged = true)
    (hfree : acts = 2 → W.system.shared.holder = none) :
    ∃ shown W', W.Happens shown W' ∧
      (acts < 3 ∧ Farewell thread W₀ failures 0 (acts + 1) W' ∨
        acts = 3 ∧ shown = [System.parting thread h (.ok .notified)]) := by
  obtain ⟨point, hsince, hworker⟩ := hg.worker
  have hdoor : ∀ seen, (System.leaving number purpose point).call.point = .atDoor seen →
      W.system.shared.holder = none := by
    rintro seen hpoint
    obtain rfl : point = .atDoor seen := hpoint
    exact hfree (hsince rfl)
  obtain ⟨next, hstep⟩ : ∃ next, (System.leaving number purpose point).call.step thread h
      (W.around thread .smooth) 0 W.system.shared = some next :=
    Call.exists_step_leaving rfl hsince.leaving hdoor
  have hhappens := Happens.step (.act hworker hg.handle_eq hstep)
  refine ⟨_, _, hhappens, ?_⟩
  cases hg.withdraws hsince hstep with
  | @goes point' _ happroaches =>
    have hnext := (hsince.approaches happroaches).acts_le
    refine Or.inl ⟨by omega, hf.acts hworker hg.handle_eq hstep ?_⟩
    intro answer hanswer
    obtain rfl : point' = _ := hanswer
    exact (happroaches.leaving :)
  | refused _ htag => exact absurd (htagged.symm.trans htag) nofun
  | cancelled hpoint =>
    obtain rfl : point = _ := hpoint
    exact absurd hsince (Nat.lt_irrefl 0)
  | withdrawn hpoint =>
    obtain rfl : point = _ := hpoint
    exact Or.inr ⟨hsince rfl, rfl⟩

end World

end MappedQueue
