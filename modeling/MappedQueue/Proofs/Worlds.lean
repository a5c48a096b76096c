import Mathlib.Logic.Relation
import MappedQueue.Proofs.Moves
import MappedQueue.Proofs.Progress

/-!
# What threads see around them

A step of a system leaves open what a thread sees around itself. A world settles it: there is
one clock, every thread has a token that tells whether it is cancelled, and every process
counts its interruptions in a word of 64 bits. A run of a world is a sequence, in any order, of
steps of threads, movements of the clock, cancellations and their withdrawals, and
interruptions. The lock and waits may fail, and the clock may be set back.
-/

namespace MappedQueue

/-- A queue with its users, and what they can see around themselves. -/
structure World where
  system : System
  /-- The process that a thread belongs to. -/
  process : Nat → Nat := fun _ => 0
  cancelled : Nat → Bool := fun _ => false
  /-- How often a process has been interrupted. -/
  interruptions : Nat → Nat := fun _ => 0
  now : Nat := 0

variable {s : Sizing} {q : Shared} {S S' : System} {a : Ideal} {W W' W₁ W₂ : World}
  {shown history : List Happening} {thread other : Nat} {w w' : Worker} {h : Handle}
  {next : Advance} {error : SystemError}

namespace World

/-- How often the process of a thread has been interrupted. -/
def count (W : World) (thread : Nat) : Nat := W.interruptions (W.process thread)

def around (W : World) (thread : Nat) (herald : Herald) : Surroundings where
  cancelled := W.cancelled thread
  interruptions := W.count thread % 2 ^ 64
  now := W.now
  herald := herald

/-- Cancels a thread, or withdraws the cancellation. -/
def tell (W : World) (thread : Nat) (cancelled : Bool) : World :=
  { W with cancelled := Function.update W.cancelled thread cancelled }

def interrupt (W : World) (process : Nat) : World :=
  { W with interruptions :=
      Function.update W.interruptions process (W.interruptions process + 1) }

inductive Step (W : World) : List Happening → World → Prop
  | tick (now : Nat) : Step W [] { W with now }
  | interrupt (process : Nat) : Step W [] (W.interrupt process)
  | tell (thread : Nat) (cancelled : Bool) : Step W [] (W.tell thread cancelled)
  /-- A thread takes a step of its call, and sees what there is to be seen. -/
  | act {thread pick : Nat} {herald : Herald} {w : Worker} {h : Handle} {next : Advance}
      (hworker : W.system.workers thread = some w) (hhandle : W.system.handles w.number = some h)
      (hstep : w.call.step thread h (W.around thread herald) pick W.system.shared = some next) :
      Step W (System.news thread h next)
        { W with system := W.system.advance thread w h next }
  | falter {thread : Nat} {w : Worker} {h : Handle} {error : SystemError} {next : Advance}
      (hworker : W.system.workers thread = some w) (hhandle : W.system.handles w.number = some h)
      (hfalter : w.call.falter thread h error W.system.shared = some next) :
      Step W (System.news thread h next)
        { W with system := W.system.advance thread w h next }
  | expire {thread : Nat} {w : Worker} {q : Shared} {c : Call}
      (hworker : W.system.workers thread = some w)
      (hexpire : w.call.expire thread W.system.shared = some (q, c)) :
      Step W []
        { W with system :=
            { W.system.setWorker thread (some { w with call := c }) with shared := q } }
  /-- A handle is opened, a call begins, or a sleeper wakes up for no reason: no call goes on. -/
  | other {S : System} (hstep : System.Step W.system [] S)
      (hbusy : ∀ thread, W.system.workers thread ≠ none →
        S.workers thread = W.system.workers thread) :
      Step W [] { W with system := S }

/-- A sequence of steps of a kind, and all that could be seen of it, first things first. -/
inductive Path (kind : World → List Happening → World → Prop) (W₀ : World) :
    List Happening → World → Prop
  | start : Path kind W₀ [] W₀
  | step {history shown : List Happening} {W W' : World} (hpath : Path kind W₀ history W)
      (hstep : kind W shown W') : Path kind W₀ (history ++ shown) W'

def Leads (W W' : World) : Prop := ∃ shown, Step W shown W'

/-- Whether a world can come about from a queue that nobody uses. -/
def Reachable (q : Shared) (W : World) : Prop :=
  ∃ W₀ : World, W₀.system = System.idle q ∧ Relation.ReflTransGen Leads W₀ W

end World

namespace System

theorem workers_advance (S : System) (thread : Nat) (w : Worker) (h : Handle) (next : Advance) :
    (S.advance thread w h next).workers thread = onward w next := Function.update_self ..

/-- Every call has its handle, and a handle that is being given up has no other call. -/
structure Kept (S : System) : Prop where
  isOpen : ∀ thread w, S.workers thread = some w → S.handles w.number ≠ none
  alone : ∀ thread w, S.workers thread = some w → w.purpose ≠ .request →
    ∀ other w', S.workers other = some w' → w'.number = w.number → other = thread

/-- A call that goes on keeps its handle, and is not the first to give it up. -/
theorem kept_onward (ho : onward w next = some w') :
    w'.number = w.number ∧ (w'.purpose ≠ .request → w.purpose ≠ .request) ∧
      handleAfter w h next ≠ none := by
  unfold onward at ho
  unfold handleAfter
  cases hpoint : next.call.point with
  | answered answer =>
    simp only [hpoint] at ho ⊢
    cases hpurpose : w.purpose <;> cases answer <;> simp only [hpurpose] at ho <;> cases ho
    exact ⟨rfl, fun _ => nofun, nofun⟩
  | _ =>
    simp only [hpoint] at ho ⊢
    cases ho
    exact ⟨rfl, id, nofun⟩

theorem purpose_of_handleAfter (ho : handleAfter w h next = none) : w.purpose ≠ .request := by
  unfold handleAfter at ho
  intro hrequest
  rw [hrequest] at ho
  split at ho
  · rename_i hpurpose
    cases hpurpose
  · rename_i hpurpose
    cases hpurpose
  · cases ho

/-- A thread that is in a call after one worker has changed. -/
theorem worker_cases {workers : Nat → Option Worker} {worker : Option Worker}
    (hw : Function.update workers thread worker other = some w) :
    other = thread ∧ worker = some w ∨ other ≠ thread ∧ workers other = some w := by
  rw [Function.update_apply] at hw
  split at hw
  · exact Or.inl ⟨‹_›, hw⟩
  · exact Or.inr ⟨‹_›, hw⟩

/-- Handles are kept by a step in which one thread goes on with its call, or ends it. -/
theorem Kept.goes (hk : S.Kept) (worker : Option Worker) (handle : Option Handle)
    (hworker : S.workers thread = some w)
    (hafter : ∀ w', worker = some w' → w'.number = w.number ∧
      (w'.purpose ≠ .request → w.purpose ≠ .request) ∧ handle ≠ none)
    (hclosed : handle = none → w.purpose ≠ .request) :
    Kept { (S.setHandle w.number handle).setWorker thread worker with shared := q } := by
  -- Every worker stands for one that was there before, on the same handle.
  have hbefore : ∀ t w', Function.update S.workers thread worker t = some w' →
      ∃ v, S.workers t = some v ∧ w'.number = v.number ∧
        (w'.purpose ≠ .request → v.purpose ≠ .request) := by
    intro t w' hw'
    obtain ⟨rfl, hmine⟩ | ⟨-, hold⟩ := worker_cases hw'
    · obtain ⟨hnumber, hpurpose, -⟩ := hafter w' hmine
      exact ⟨w, hworker, hnumber, hpurpose⟩
    · exact ⟨w', hold, rfl, id⟩
  constructor
  · intro t w' hw'
    show Function.update S.handles w.number handle w'.number ≠ none
    obtain ⟨v, hv, hnumber, -⟩ := hbefore t w' hw'
    by_cases hsame : v.number = w.number
    · rw [hnumber, hsame, Function.update_self]
      intro hgone
      -- Whoever closes the handle has it for himself, and closes it with the end of his call.
      obtain rfl := hk.alone thread w hworker (hclosed hgone) t v hv hsame
      obtain ⟨-, hmine⟩ | ⟨hne, -⟩ := worker_cases hw'
      · exact (hafter w' hmine).2.2 hgone
      · exact hne rfl
    · rw [hnumber, Function.update_of_ne hsame]
      exact hk.isOpen t v hv
  · intro t w₁ hw₁ hpurpose other w₂ hw₂ hnumber
    obtain ⟨v₁, hv₁, hnumber₁, hpurpose₁⟩ := hbefore t w₁ hw₁
    obtain ⟨v₂, hv₂, hnumber₂, -⟩ := hbefore other w₂ hw₂
    exact hk.alone t v₁ hv₁ (hpurpose₁ hpurpose) other v₂ hv₂ (by omega)

theorem Kept.advance (hk : S.Kept) (hworker : S.workers thread = some w) :
    (S.advance thread w h next).Kept :=
  hk.goes _ _ hworker (fun _ ho => kept_onward ho) purpose_of_handleAfter

theorem Kept.begins (hk : S.Kept) (hopen : S.handles w.number ≠ none)
    (halone : ∀ other w', S.workers other = some w' → w'.number = w.number →
      w'.purpose = .request ∧ w.purpose = .request) :
    (S.setWorker thread (some w)).Kept := by
  constructor
  · intro other w' hw'
    obtain ⟨-, hnew⟩ | ⟨-, hold⟩ := worker_cases hw'
    · cases hnew
      exact hopen
    · exact hk.isOpen other w' hold
  · intro t w₁ hw₁ hpurpose other w₂ hw₂ hnumber
    obtain ⟨rfl, hnew₁⟩ | ⟨-, hold₁⟩ := worker_cases hw₁ <;>
      obtain ⟨rfl, hnew₂⟩ | ⟨-, hold₂⟩ := worker_cases hw₂
    · rfl
    · cases hnew₁
      exact absurd (halone other w₂ hold₂ hnumber).2 hpurpose
    · cases hnew₂
      exact absurd (halone t w₁ hold₁ hnumber.symm).1 hpurpose
    · exact hk.alone t w₁ hold₁ hpurpose other w₂ hold₂ hnumber

theorem Step.kept (hstep : Step S shown S') (hk : S.Kept) : S'.Kept := by
  cases hstep with
  | @attach number identity nonblocking sizing hunused =>
    refine ⟨fun thread w hw => ?_, hk.alone⟩
    show Function.update S.handles number _ w.number ≠ none
    by_cases hnumber : w.number = number
    · rw [hnumber, Function.update_self]
      exact nofun
    · rw [Function.update_of_ne hnumber]
      exact hk.isOpen thread w hw
  | call hidle hopen hkept =>
    exact hk.begins hopen fun other w' hw' hnumber => ⟨hkept other w' hw' hnumber, rfl⟩
  | leave hidle hopen hunused =>
    exact hk.begins hopen fun other w' hw' hnumber => absurd hnumber (hunused other w' hw')
  | act hworker | falter hworker => exact hk.advance hworker
  | @expire thread w q c hworker hexpire =>
    have hopen := hk.isOpen thread w hworker
    have hgoes := hk.goes (q := q) (some { w with call := c }) (S.handles w.number) hworker
      (fun w' hw' => by cases hw'; exact ⟨rfl, id, hopen⟩) fun hgone => absurd hgone hopen
    rw [setHandle, Function.update_eq_self] at hgoes
    exact hgoes
  | stir => exact ⟨hk.isOpen, hk.alone⟩

theorem Run.kept (hr : Run S history S') (hk : S.Kept) : S'.Kept := by
  induction hr with
  | start => exact hk
  | step _ hstep ih => exact hstep.kept ih

end System

namespace World

/-- What a step of a world is to its system. -/
theorem Step.within (hstep : Step W shown W') :
    W'.system = W.system ∨ System.Step W.system shown W'.system := by
  cases hstep with
  | tick | interrupt | tell => exact Or.inl rfl
  | act hworker hhandle hstep => exact Or.inr (.act hworker hhandle hstep)
  | falter hworker hhandle hfalter => exact Or.inr (.falter hworker hhandle hfalter)
  | expire hworker hexpire => exact Or.inr (.expire hworker hexpire)
  | other hstep hbusy => exact Or.inr hstep

/-- What happens in a world is a run of its system. -/
theorem exists_run (hleads : Relation.ReflTransGen Leads W W') :
    ∃ history, System.Run W.system history W'.system := by
  induction hleads with
  | refl => exact ⟨[], .start⟩
  | tail _ hleads ih =>
    obtain ⟨history, hrun⟩ := ih
    obtain ⟨shown, hstep⟩ := hleads
    obtain hsame | hwithin := hstep.within
    · exact ⟨history, hsame ▸ hrun⟩
    · exact ⟨_, hrun.step hwithin⟩

namespace Reachable

theorem trans (hr : Reachable q W) (hleads : Relation.ReflTransGen Leads W W') :
    Reachable q W' := by
  obtain ⟨W₀, hidle, hrun⟩ := hr
  exact ⟨W₀, hidle, hrun.trans hleads⟩

theorem run (hr : Reachable q W) : ∃ history, System.Run (System.idle q) history W.system := by
  obtain ⟨W₀, hidle, hleads⟩ := hr
  rw [← hidle]
  exact exists_run hleads

theorem inv (hm : Made s q) (hr : Reachable q W) : ∃ a, System.Inv s W.system a := by
  obtain ⟨hs, hfresh⟩ := hm.fresh
  obtain ⟨history, hrun⟩ := hr.run
  exact hrun.inv (.idle hs hfresh)

/-- Nobody dies in a world, so the lock stays in order. -/
theorem orphaned_eq (hm : Made s q) (hr : Reachable q W) :
    W.system.shared.orphaned = false := by
  obtain ⟨-, hfresh⟩ := hm.fresh
  obtain ⟨history, hrun⟩ := hr.run
  exact hrun.orphaned_eq hfresh.orphaned_eq

theorem exclusive (hr : Reachable q W) : W.system.Exclusive := by
  obtain ⟨history, hrun⟩ := hr.run
  exact hrun.exclusive

theorem kept (hr : Reachable q W) : W.system.Kept := by
  obtain ⟨history, hrun⟩ := hr.run
  exact hrun.kept ⟨(fun _ _ hw => nomatch hw), fun _ _ hw => nomatch hw⟩

end Reachable

/-- What becomes in a step of a thread that is in a call. -/
inductive Fate (W W' : World) (shown : List Happening) (thread : Nat) (w : Worker) : Prop
  | same (hsame : W'.system.workers thread = some w)
  | acts {pick : Nat} {herald : Herald} {h : Handle} {next : Advance}
      (hhandle : W.system.handles w.number = some h)
      (hstep : w.call.step thread h (W.around thread herald) pick W.system.shared = some next)
      (hshown : shown = System.news thread h next)
      (hworld : W' = { W with system := W.system.advance thread w h next })
  | falters {h : Handle} {error : SystemError} {next : Advance}
      (hhandle : W.system.handles w.number = some h)
      (hfalter : w.call.falter thread h error W.system.shared = some next)
      (hshown : shown = System.news thread h next)
      (hworld : W' = { W with system := W.system.advance thread w h next })
  | expires {q : Shared} {c : Call}
      (hexpire : w.call.expire thread W.system.shared = some (q, c))
      (hafter : W'.system.workers thread = some { w with call := c })

theorem Step.fate (hstep : Step W shown W') (hworker : W.system.workers thread = some w) :
    Fate W W' shown thread w := by
  cases hstep with
  | tick now => exact .same hworker
  | interrupt process => exact .same hworker
  | tell thread cancelled => exact .same hworker
  | @act actor pick herald w₁ h next hactor hhandle hstep =>
    by_cases hne : thread = actor
    · subst hne
      cases hactor.symm.trans hworker
      exact .acts hhandle hstep rfl rfl
    · exact .same ((Function.update_of_ne hne ..).trans hworker)
  | @falter actor w₁ h error next hactor hhandle hfalter =>
    by_cases hne : thread = actor
    · subst hne
      cases hactor.symm.trans hworker
      exact .falters hhandle hfalter rfl rfl
    · exact .same ((Function.update_of_ne hne ..).trans hworker)
  | @expire actor w₁ q c hactor hexpire =>
    by_cases hne : thread = actor
    · subst hne
      cases hactor.symm.trans hworker
      exact .expires hexpire (Function.update_self ..)
    · exact .same ((Function.update_of_ne hne ..).trans hworker)
  | other hstep hbusy =>
    refine .same ((hbusy thread ?_).trans hworker)
    rw [hworker]
    exact nofun

/-- A thread that is in no call can only begin one. -/
theorem Step.arriving (hstep : Step W shown W') (hidle : W.system.workers thread = none)
    (hworker : W'.system.workers thread = some w) : w.call.point = .arriving := by
  have hactor : ∀ {actor : Nat} {w₁ : Worker} {worker : Option Worker},
      W.system.workers actor = some w₁ →
        Function.update W.system.workers actor worker thread ≠ some w := by
    intro actor w₁ worker hactor hafter
    have hne : thread ≠ actor := by
      intro heq
      rw [heq, hactor] at hidle
      cases hidle
    rw [Function.update_of_ne hne, hidle] at hafter
    cases hafter
  have hnew : ∀ {beginner : Nat} {v : Worker}, v.call.point = .arriving →
      Function.update W.system.workers beginner (some v) thread = some w →
        w.call.point = .arriving := by
    intro beginner v hpoint hafter
    rw [Function.update_apply, hidle] at hafter
    split at hafter <;> cases hafter
    exact hpoint
  cases hstep with
  | tick now => exact absurd (hidle.symm.trans hworker) nofun
  | interrupt process => exact absurd (hidle.symm.trans hworker) nofun
  | tell thread cancelled => exact absurd (hidle.symm.trans hworker) nofun
  | act hworking hhandle hstep => exact absurd hworker (hactor hworking)
  | falter hworking hhandle hfalter => exact absurd hworker (hactor hworking)
  | expire hworking hexpire => exact absurd hworker (hactor hworking)
  | @other S hother hbusy =>
    generalize hshown : ([] : List Happening) = none_shown at hother
    cases hother with
    | attach => exact absurd (hidle.symm.trans hworker) nofun
    | call => exact hnew rfl hworker
    | leave => exact hnew rfl hworker
    | act hworking => exact absurd hworker (hactor hworking)
    | falter hworking => exact absurd hworker (hactor hworking)
    | expire hworking => exact absurd hworker (hactor hworking)
    | stir => exact absurd (hidle.symm.trans hworker) nofun

/-- Where the call of a thread comes from that is in one after a step. -/
inductive Origin (W : World) (thread : Nat) (w' : Worker) : Prop
  /-- The call begins; if it takes the place of another one, that was part of giving up a handle. -/
  | begins (hpoint : w'.call.point = .arriving)
      (hbefore : ∀ w, W.system.workers thread = some w → w.purpose ≠ .request)
  | stays (hworker : W.system.workers thread = some w')
  | acts {pick : Nat} {herald : Herald} {w : Worker} {h : Handle} {next : Advance}
      (hworker : W.system.workers thread = some w) (hhandle : W.system.handles w.number = some h)
      (hstep : w.call.step thread h (W.around thread herald) pick W.system.shared = some next)
      (hcall : w'.call = next.call) (hopen : ∀ answer, next.call.point ≠ .answered answer)
  | expires {w : Worker} {q : Shared} (hworker : W.system.workers thread = some w)
      (hexpire : w.call.expire thread W.system.shared = some (q, w'.call))

/-- A worker that goes on goes on with its call, or with the next one if it gives up a handle. -/
theorem call_of_onward (ho : System.onward w next = some w') :
    (w'.call = next.call ∧ ∀ answer, next.call.point ≠ .answered answer) ∨
      (w'.call.point = .arriving ∧ w.purpose ≠ .request) := by
  unfold System.onward at ho
  split at ho
  · split at ho
    · rename_i hpurpose _
      cases ho
      exact Or.inr ⟨rfl, by rw [hpurpose]; exact nofun⟩
    · cases ho
  · rename_i hopen
    cases ho
    exact Or.inl ⟨rfl, hopen⟩

theorem Step.origin (hm : Made s q) (hr : Reachable q W) (hstep : Step W shown W')
    (hworker : W'.system.workers thread = some w') : Origin W thread w' := by
  cases hbefore : W.system.workers thread with
  | none =>
    refine .begins (hstep.arriving hbefore hworker) fun w hw => ?_
    rw [hbefore] at hw
    cases hw
  | some w =>
    have hgoes : ∀ {h next}, W' = { W with system := W.system.advance thread w h next } →
        System.onward w next = some w' := by
      intro h next hworld
      rw [← hworker, hworld]
      exact (System.workers_advance ..).symm
    have hends : w'.call.point = .arriving ∧ w.purpose ≠ .request → Origin W thread w' := by
      intro hnew
      refine .begins hnew.1 fun v hv => ?_
      cases hbefore.symm.trans hv
      exact hnew.2
    cases hstep.fate hbefore with
    | same hsame =>
      cases hsame.symm.trans hworker
      exact .stays hbefore
    | acts hhandle hact hshown hworld =>
      obtain ⟨hcall, hopen⟩ | hnew := call_of_onward (hgoes hworld)
      · exact .acts hbefore hhandle hact hcall hopen
      · exact hends hnew
    | falters hhandle hfalter hshown hworld =>
      obtain ⟨a, hi⟩ := hr.inv hm
      obtain ⟨-, hopen⟩ | hnew := call_of_onward (hgoes hworld)
      · exact absurd (congrArg Call.point (Call.falter_falters hi.refines hfalter).call_eq) (hopen _)
      · exact hends hnew
    | expires hexpire hafter =>
      cases hafter.symm.trans hworker
      exact .expires hbefore hexpire

/-- Interruptions are never taken back. -/
theorem Step.count_le (hstep : Step W shown W') (thread : Nat) :
    W.count thread ≤ W'.count thread := by
  cases hstep with
  | interrupt process =>
    show W.interruptions (W.process thread) ≤
      Function.update W.interruptions process (W.interruptions process + 1) (W.process thread)
    rw [Function.update_apply]
    split
    · rename_i heq
      rw [heq]
      omega
    · exact Nat.le_refl _
  | _ => exact Nat.le_refl _

/-- A step after which a thread is in a call. -/
def Stays (thread : Nat) (W W' : World) : Prop :=
  Leads W W' ∧ W'.system.workers thread ≠ none

/-- From one world to another while a thread is in a call. -/
abbrev During (thread : Nat) : World → World → Prop := Relation.ReflTransGen (Stays thread)

theorem During.leads (hd : During thread W W') : Relation.ReflTransGen Leads W W' :=
  Relation.ReflTransGen.mono (fun _ _ hstays => hstays.1) _ _ hd

theorem During.count_le (hd : During thread W W') (other : Nat) :
    W.count other ≤ W'.count other := by
  induction hd with
  | refl => exact Nat.le_refl _
  | tail _ hstays ih =>
    obtain ⟨⟨shown, hstep⟩, -⟩ := hstays
    exact Nat.le_trans ih (hstep.count_le other)

theorem During.exists_worker (hd : During thread W W')
    (hworker : W.system.workers thread ≠ none) : ∃ w, W'.system.workers thread = some w := by
  cases hd with
  | refl => exact Option.ne_none_iff_exists'.mp hworker
  | tail _ hstays => exact Option.ne_none_iff_exists'.mp hstays.2

/-- The call of a thread that stands at its beginning in `W₁` is on its way in `W`. -/
structure Began (thread : Nat) (W₁ W : World) : Prop where
  arriving : ∃ w, W₁.system.workers thread = some w ∧ w.call.point = .arriving
  during : During thread W₁ W

/-- Every call has a beginning. -/
theorem Reachable.exists_began (hr : Reachable q W) (hworker : W.system.workers thread ≠ none) :
    ∃ W₁, Reachable q W₁ ∧ Began thread W₁ W := by
  obtain ⟨W₀, hstart, hrun⟩ := hr
  induction hrun with
  | refl =>
    rw [hstart] at hworker
    exact absurd rfl hworker
  | @tail W W' hrun hleads ih =>
    cases hbefore : W.system.workers thread with
    | none =>
      obtain ⟨shown, hstep⟩ := hleads
      obtain ⟨w, hw⟩ := Option.ne_none_iff_exists'.mp hworker
      exact ⟨W', ⟨W₀, hstart, hrun.tail ⟨shown, hstep⟩⟩, ⟨w, hw, hstep.arriving hbefore hw⟩, .refl⟩
    | some w =>
      obtain ⟨W₁, hr₁, hbegan⟩ := ih (by rw [hbefore]; exact nofun)
      exact ⟨W₁, hr₁, hbegan.arriving, hbegan.during.tail ⟨hleads, hworker⟩⟩

/-- Whether a call of a thread is over in a history. -/
def Answered (thread : Nat) (history : List Happening) : Prop :=
  ∃ identity request answer buffer, .answered thread identity request answer buffer ∈ history

/-- A call is over only with an answer. -/
theorem Step.answered (hstep : Step W shown W') (hworker : W.system.workers thread = some w)
    (hover : W'.system.workers thread = none) : Answered thread shown := by
  have hnews : ∀ {h next}, System.onward w next = none →
      Answered thread (System.news thread h next) := by
    intro h next honward
    unfold System.onward at honward
    split at honward
    · rename_i answer hanswer
      refine ⟨h.identity, next.call.request, answer, next.call.buffer, ?_⟩
      unfold System.news
      rw [hanswer]
      exact List.mem_append_right _ (List.mem_singleton_self _)
    · cases honward
  cases hstep.fate hworker with
  | same hsame => cases hsame.symm.trans hover
  | acts hhandle hact hshown hworld =>
    rw [hworld, System.workers_advance] at hover
    exact hshown ▸ hnews hover
  | falters hhandle hfalter hshown hworld =>
    rw [hworld, System.workers_advance] at hover
    exact hshown ▸ hnews hover
  | expires hexpire hafter => cases hafter.symm.trans hover

/-- A thread is in its call as long as the call has no answer. -/
theorem Path.during (hp : Path Step W history W') (hworker : W.system.workers thread ≠ none)
    (hopen : ¬ Answered thread history) : During thread W W' := by
  induction hp with
  | start => exact .refl
  | @step history shown V V' _ hstep ih =>
    have hbefore : During thread W V := ih fun ⟨identity, request, answer, buffer, hmem⟩ =>
      hopen ⟨identity, request, answer, buffer, List.mem_append_left _ hmem⟩
    refine hbefore.tail ⟨⟨shown, hstep⟩, fun hover => ?_⟩
    obtain ⟨w, hw⟩ := hbefore.exists_worker hworker
    obtain ⟨identity, request, answer, buffer, hmem⟩ := hstep.answered hw hover
    exact hopen ⟨identity, request, answer, buffer, List.mem_append_right _ hmem⟩

theorem Path.leads (hp : Path Step W history W') : Relation.ReflTransGen Leads W W' := by
  induction hp with
  | start => exact .refl
  | step _ hstep ih => exact ih.tail ⟨_, hstep⟩

theorem Path.trans {kind : World → List Happening → World → Prop} (hp : Path kind W history W₁)
    (hp' : Path kind W₁ shown W') : Path kind W (history ++ shown) W' := by
  induction hp' with
  | start =>
    rw [List.append_nil]
    exact hp
  | step _ hstep ih =>
    rw [← List.append_assoc]
    exact .step ih hstep

/-- A path of a thread that sees what a world says is a path of the world. -/
theorem Path.of_prompted {herald : Herald} {around : Surroundings} {S S' : System}
    (hp : System.Path (System.PromptedBy thread around) S shown S') (hsystem : W.system = S)
    (haround : around = W.around thread herald) : Path Step W shown { W with system := S' } := by
  subst haround hsystem
  induction hp with
  | start => exact .start
  | @step history shown S S' _ hstep ih =>
    refine .step ih ?_
    cases hstep with
    | enters hstep hshared hbusy => exact .other hstep hbusy
    | acts hworker hhandle hstep => exact .act hworker hhandle hstep

end World

end MappedQueue
