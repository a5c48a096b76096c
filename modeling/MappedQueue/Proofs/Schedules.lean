import MappedQueue.Proofs.Clients

/-!
# Schedules are runs

A client lets its threads take steps, and slices end, in an order of its own. Whatever it does
on the way, to the queue in a file it is a run of the system, so what holds in every state
of a run holds in every state that a client comes to.
-/

namespace MappedQueue

namespace Client

variable {p p' p'' : Client} {s : Sizing} {a : Ideal} {file t : Nat} {thread : Thread}
  {queue : Queue} {c : Call}

/-- A client with a sane queue in a file, and with jobs whose numbers fit into what they are
stored in. -/
structure Sound (s : Sizing) (file : Nat) (p : Client) : Prop where
  file_lt : file < p.host.disk.files.size
  fits : ∀ t, ∀ job ∈ (p.thread t).jobs, job.request.Fits
  inv : ∃ a, System.Inv s (p.system file) a

/-- What the client does from one state to another is a run of the system. -/
def Leads (s : Sizing) (file : Nat) (p p' : Client) : Prop :=
  p.Sound s file → p'.Sound s file ∧ ∃ history, System.Run (p.system file) history (p'.system file)

theorem Leads.refl (s : Sizing) (file : Nat) (p : Client) : Leads s file p p :=
  fun hp => ⟨hp, [], .start⟩

theorem Leads.trans (h : Leads s file p p') (h' : Leads s file p' p'') : Leads s file p p'' := by
  intro hp
  obtain ⟨hp', history, hrun⟩ := h hp
  obtain ⟨hp'', history', hrun'⟩ := h' hp'
  exact ⟨hp'', history ++ history', hrun.trans hrun'⟩

/-- What a change of a client has to keep beside the system. -/
structure Keeps (p p' : Client) : Prop where
  size_eq : p'.host.disk.files.size = p.host.disk.files.size
  jobs : ∀ t, (p'.thread t).jobs ⊆ (p.thread t).jobs

theorem Leads.of_run (hk : Keeps p p')
    (hrun : ∀ a, p.Sound s file → System.Inv s (p.system file) a →
      ∃ history, System.Run (p.system file) history (p'.system file)) : Leads s file p p' := by
  intro hp
  obtain ⟨a, hi⟩ := hp.inv
  obtain ⟨history, hrun⟩ := hrun a hp hi
  exact ⟨⟨hk.size_eq ▸ hp.file_lt, fun t job hjob => hp.fits t job (hk.jobs t hjob), hrun.inv hi⟩,
    history, hrun⟩

/-- A change that the system does not see. -/
theorem Leads.of_system_eq (hk : Keeps p p') (hsystem : p'.system file = p.system file) :
    Leads s file p p' :=
  .of_run hk fun _ _ _ => ⟨[], hsystem ▸ .start⟩

theorem Keeps.trans (h : Keeps p p') (h' : Keeps p' p'') : Keeps p p'' :=
  ⟨h'.size_eq.trans h.size_eq, fun t => List.Subset.trans (h'.jobs t) (h.jobs t)⟩

theorem keeps_setThread (ht : t < p.threads.size) {f : Thread → Thread}
    (hf : (f (p.thread t)).jobs ⊆ (p.thread t).jobs) : Keeps p (p.setThread t f) := by
  refine ⟨rfl, fun other => ?_⟩
  rw [thread_setThread ht]
  split
  · rename_i heq
    rw [heq]
    exact hf
  · exact List.Subset.refl _

theorem keeps_settleCall (ht : t < p.threads.size) (c : Call) : Keeps p (p.settleCall t c) := by
  unfold settleCall
  split
  · exact keeps_setThread ht (List.Subset.refl _)
  · exact ⟨rfl, fun _ => List.Subset.refl _⟩
  · exact keeps_setThread ht (List.Subset.refl _)

theorem keeps_step (hstep : p.step t = some p') : Keeps p p' := by
  rcases step_cases hstep with ⟨job, jobs, hc, hj, rfl⟩ | ⟨c, queue, next, hc, hqueue, hnext, rfl⟩
  · exact keeps_setThread (lt_of_job hj) (hj ▸ List.subset_cons_self job jobs)
  · have hcarry : Keeps p (p.carry (p.thread t).queue queue next) :=
      ⟨Disk.size_setShared .., fun _ => List.Subset.refl _⟩
    refine Keeps.trans ?_ (keeps_settleCall ?_ next.call)
    · cases next.delivery with
      | none => exact hcarry
      | some delivery => exact ⟨hcarry.size_eq, hcarry.jobs⟩
    · cases next.delivery <;> exact lt_of_call hc

theorem leads_step (hstep : p.step t = some p') : Leads s file p p' :=
  .of_run (keeps_step hstep) fun _ hp hi => run_step hi hp.file_lt (hp.fits t) hstep

/-- The end of a slice is one of the system, or none. -/
theorem run_expire (hfile : file < p.host.disk.files.size) (hc : (p.thread t).call = some c)
    (hqueue : p.queues[(p.thread t).queue]? = some queue) {q : Shared} {c' : Call}
    (hexpire : c.expire t (p.shared queue) = some (q, c')) :
    ∃ history, System.Run (p.system file) history
      (((p.putShared (p.host.fileOf queue.store.mapping) q).setThread t
        ({ · with call := some c' })).system file) := by
  have ht := lt_of_call hc
  refine ⟨[], ?_⟩
  by_cases hmap : p.host.fileOf queue.store.mapping = file
  · have hu : p.uses file (p.thread t).queue = true := (uses_iff hqueue).mpr hmap
    have hshared : (p.system file).shared = p.shared queue := by
      rw [Client.shared, Host.shared, hmap]
      rfl
    rw [← hshared] at hexpire
    have hstep : System.Step (p.system file) []
        { (p.system file).setWorker t (some ⟨(p.thread t).queue, .request, c'⟩) with shared := q } :=
      .expire (w := ⟨(p.thread t).queue, .request, c⟩) (worker_of_call hu hc) hexpire
    have hend : ((p.putShared file q).setThread t ({ · with call := some c' })).system file =
        { (p.system file).setWorker t (some ⟨(p.thread t).queue, .request, c'⟩) with shared := q } := by
      rw [system_setThread (by exact ht), system_putShared hfile]
      exact congrArg (System.setWorker _ t) (worker_of_call hu rfl)
    rw [hmap, hend]
    exact .single hstep
  · have hu : p.uses file (p.thread t).queue ≠ true := fun hu => hmap ((uses_iff hqueue).mp hu)
    rw [system_setThread_of_not_uses (by exact ht) (by exact hu) rfl, system_putShared_of_ne hmap]
    exact .start

theorem leads_expire (p : Client) (t : Nat) : Leads s file p (p.expire t) := by
  cases hc : (p.thread t).call with
  | none =>
    have hsame : p.expire t = p := by simp only [expire, hc]
    rw [hsame]
    exact .refl s file p
  | some c =>
    cases hqueue : p.queues[(p.thread t).queue]? with
    | none =>
      have hsame : p.expire t = p := by simp only [expire, hc, hqueue]
      rw [hsame]
      exact .refl s file p
    | some queue =>
      rw [expire_of_call (getElem?_of_lt (lt_of_call hc)) hc hqueue]
      cases hexpire : c.expire t (p.shared queue) with
      | none => exact .refl s file p
      | some ended =>
        have hput : Keeps p (p.putShared (p.host.fileOf queue.store.mapping) ended.1) :=
          ⟨Disk.size_setShared .., fun _ => List.Subset.refl _⟩
        exact .of_run (hput.trans (keeps_setThread (by exact lt_of_call hc) (List.Subset.refl _)))
          fun _ hp _ => run_expire hp.file_lt hc hqueue hexpire

theorem leads_burst (t limit : Nat) : ∀ (moved : Bool) (p : Client),
    Leads s file p (burst t limit moved p).2 := by
  induction limit with
  | zero => exact fun _ p => .refl s file p
  | succ limit ih =>
    intro moved p
    rw [burst]
    split
    · exact .refl s file p
    · cases hstep : p.step t with
      | none => exact .refl s file p
      | some p' => exact (leads_step hstep).trans (ih true p')

theorem leads_foldl {α β : Type} (get : α → Client) {f : α → β → α} (l : List β)
    (hf : ∀ x b, Leads s file (get x) (get (f x b))) :
    ∀ x, Leads s file (get x) (get (l.foldl f x)) := by
  induction l with
  | nil => exact fun x => .refl s file (get x)
  | cons b l ih => exact fun x => (hf x b).trans (ih (f x b))

theorem leads_sweep (p : Client) : Leads s file p p.sweep.2 := by
  unfold sweep
  refine leads_foldl Prod.snd _ (fun x t => ?_) (false, p)
  exact leads_burst t burstLimit false x.2

theorem leads_settle (turns : Nat) : ∀ p : Client, Leads s file p (p.settle turns) := by
  induction turns with
  | zero => exact fun p => .refl s file p
  | succ turns ih =>
    intro p
    have hsweep : Leads s file p p.sweep.2 := p.leads_sweep
    rw [settle]
    cases hp : p.sweep with
    | mk moved p' =>
      rw [hp] at hsweep
      cases moved with
      | true => exact hsweep.trans (ih p')
      | false => exact hsweep

/-- The queue does not see time pass. -/
theorem leads_now (p : Client) (now : Nat) : Leads s file p { p with now } :=
  .of_system_eq ⟨rfl, fun _ => List.Subset.refl _⟩ rfl

theorem leads_advanceTo (p : Client) (moment : Nat) : Leads s file p (p.advanceTo moment) := by
  refine (p.leads_now (max p.now moment)).trans (leads_foldl id _ (fun p t => ?_) _)
  simp only [id]
  split
  · exact p.leads_expire t
  · exact .refl s file p

theorem leads_passUntil (moment slices : Nat) : ∀ p : Client,
    Leads s file p (passUntil moment slices p) := by
  induction slices with
  | zero => exact fun p => .refl s file p
  | succ slices ih =>
    intro p
    refine (leads_settle patience p).trans ?_
    rw [passUntil]
    split
    · split
      · exact (leads_advanceTo _ _).trans (ih _)
      · exact leads_advanceTo _ moment
    · exact leads_advanceTo _ moment

/-- The queue does not see interruptions arrive. -/
theorem leads_raise (p : Client) (count : Nat) : Leads s file p (p.raise count) :=
  .of_system_eq ⟨rfl, fun _ => List.Subset.refl _⟩ rfl

theorem leads_await (done : Client → Bool) (raising : Bool) (slices : Nat) : ∀ p : Client,
    Leads s file p (p.await done raising slices) := by
  induction slices with
  | zero => exact fun p => .refl s file p
  | succ slices ih =>
    intro p
    rw [await]
    split
    · exact .refl s file p
    · refine (leads_settle patience p).trans ?_
      generalize settle patience p = p
      dsimp only
      split
      · exact .refl s file p
      · have hraise : Leads s file p (if raising then p.raise 1 else p) := by
          split
          · exact leads_raise p 1
          · exact .refl s file p
        refine hraise.trans ?_
        simp only [raise]
        generalize (if raising then _ else p) = p
        split
        · exact (p.leads_advanceTo _).trans (ih _)
        · exact .refl s file p

/-- Calls that have yet to be made are nothing to the queue. -/
theorem leads_assign {f : Thread → Thread} (hcall : (f (p.thread t)).call = none)
    (hidle : (p.thread t).call = none) (hfits : ∀ job ∈ (f (p.thread t)).jobs, job.request.Fits) :
    Leads s file p (p.setThread t f) := by
  intro hp
  by_cases ht : t < p.threads.size
  · have hsystem : (p.setThread t f).system file = p.system file := by
      have hnone : p.worker file (f (p.thread t)) = (p.system file).workers t := by
        simp only [system, worker, hcall, hidle, Option.map_none, ite_self]
      rw [system_setThread ht, hnone]
      exact congrArg (System.mk _ _) (Function.update_eq_self t _)
    refine ⟨⟨hp.file_lt, fun other => ?_, hsystem ▸ hp.inv⟩, [], hsystem ▸ .start⟩
    rw [thread_setThread ht]
    split
    · exact hfits
    · exact hp.fits other
  · have hsame : p.setThread t f = p := by
      refine congrArg (fun threads => { p with threads }) (modify_eq_self fun thread hthread => ?_)
      exact absurd (Array.getElem?_eq_some_iff.mp hthread).1 ht
    rw [hsame]
    exact Leads.refl s file p hp

/-- Whatever a call of the main thread does, and the other threads while it waits, the queue in
a file sees a run. -/
theorem leads_call {job : Job} (hidle : (p.thread main).call = none) (hfits : job.request.Fits)
    (number : Nat) : Leads s file p (p.call number job).2 := by
  refine (leads_assign (f := fun t => { t with queue := number, jobs := [job], outcomes := [] })
    hidle hidle ?_).trans ((leads_burst main burstLimit false _).trans (leads_await _ _ _ _))
  exact fun job hjob => List.mem_singleton.mp hjob ▸ hfits

end Client

end MappedQueue
