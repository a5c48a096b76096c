import MappedQueue.Proofs.Progress
import MappedQueue.Proofs.Steps

/-!
# Clients are users of the system

The threads of a client and its handles on one file are users of the queue in that file, and
all that the client does is a run of the system, in whatever order it lets its threads take
steps. What the client does on other files is no step at all.
-/

namespace MappedQueue

namespace Client

variable {p p' : Client} {s : Sizing} {a : Ideal} {file number t : Nat} {thread : Thread}
  {queue : Queue} {next : Advance} {c : Call} {job : Job}

/-- Whether the handle of a number is open on a file. -/
def uses (p : Client) (file number : Nat) : Bool :=
  match p.queues[number]? with
  | some queue => p.host.fileOf queue.store.mapping = file
  | none => false

/-- A thread as a user of the queue in a file. -/
def worker (p : Client) (file : Nat) (thread : Thread) : Option Worker :=
  if p.uses file thread.queue then thread.call.map (⟨thread.queue, .request, ·⟩) else none

/-- The queue in a file, and its users in the client. -/
def system (p : Client) (file : Nat) : System where
  shared := p.host.disk.shared file
  handles number := if p.uses file number then p.queues[number]?.map Queue.handle else none
  workers t := p.worker file (p.thread t)

theorem uses_iff (hqueue : p.queues[number]? = some queue) :
    p.uses file number = true ↔ p.host.fileOf queue.store.mapping = file := by
  rw [uses, hqueue]
  exact decide_eq_true_iff

theorem getElem?_of_lt (ht : t < p.threads.size) : p.threads[t]? = some (p.thread t) := by
  rw [Client.thread, Array.getElem?_eq_getElem ht]
  rfl

theorem thread_setThread (ht : t < p.threads.size) (f : Thread → Thread) (other : Nat) :
    (p.setThread t f).thread other = if other = t then f (p.thread t) else p.thread other := by
  simp only [Client.thread, setThread, Array.getElem?_modify]
  by_cases he : t = other
  · subst he
    rw [if_pos rfl, if_pos rfl, Array.getElem?_eq_getElem ht]
    rfl
  · rw [if_neg he, if_neg (Ne.symm he)]

theorem system_setThread (ht : t < p.threads.size) (f : Thread → Thread) :
    (p.setThread t f).system file =
      (p.system file).setWorker t (p.worker file (f (p.thread t))) := by
  simp only [system, System.setWorker, System.mk.injEq]
  refine ⟨rfl, rfl, ?_⟩
  funext other
  rw [thread_setThread ht, Function.update_apply]
  split <;> rfl

/-- A thread whose handle is open on another file is no user of this one. -/
theorem worker_of_not_uses (hu : p.uses file thread.queue ≠ true) : p.worker file thread = none :=
  if_neg hu

theorem worker_of_call (hu : p.uses file thread.queue = true) (hc : thread.call = some c) :
    p.worker file thread = some ⟨thread.queue, .request, c⟩ := by
  rw [worker, if_pos hu, hc]
  rfl

/-- What a thread does through a handle on another file does not matter. -/
theorem system_setThread_of_not_uses (ht : t < p.threads.size)
    (hu : p.uses file (p.thread t).queue ≠ true) {f : Thread → Thread}
    (hf : (f (p.thread t)).queue = (p.thread t).queue) :
    (p.setThread t f).system file = p.system file := by
  have hsame : p.worker file (f (p.thread t)) = (p.system file).workers t := by
    rw [worker_of_not_uses (by rw [hf]; exact hu)]
    exact (worker_of_not_uses hu).symm
  rw [system_setThread ht, hsame]
  exact congrArg (System.mk _ _) (Function.update_eq_self t _)

theorem system_putShared (hfile : file < p.host.disk.files.size) (q : Shared) :
    (p.putShared file q).system file = { p.system file with shared := q } :=
  congrArg (System.mk · _ _) (Disk.shared_setShared hfile)

/-- What happens to other files does not matter. -/
theorem system_putShared_of_ne {other : Nat} (hne : other ≠ file) (q : Shared) :
    (p.putShared other q).system file = p.system file :=
  congrArg (System.mk · _ _) (Disk.shared_setShared_of_ne hne.symm)

theorem uses_setMode (p : Client) (number : Nat) (mode : Bool) (other : Nat) :
    (p.setMode number mode).uses file other = p.uses file other := by
  simp only [uses, setMode, setQueue]
  rcases getElem?_modify_cases p.queues number _ other with hsame | ⟨queue, hqueue, hchanged⟩
  · rw [hsame]
    rfl
  · rw [hchanged, hqueue]
    rfl

theorem system_setMode (hqueue : p.queues[number]? = some queue)
    (hmap : p.host.fileOf queue.store.mapping = file) (mode : Bool) :
    (p.setMode number mode).system file =
      (p.system file).setHandle number (some { queue.handle with nonblocking := mode }) := by
  simp only [system, System.setHandle, System.mk.injEq, worker, uses_setMode]
  refine ⟨rfl, ?_, rfl⟩
  funext other
  simp only [setMode, setQueue, Array.getElem?_modify, Function.update_apply]
  by_cases he : other = number
  · subst he
    rw [if_pos rfl, if_pos rfl, if_pos ((uses_iff hqueue).mpr hmap), hqueue]
    rfl
  · rw [if_neg he, if_neg (Ne.symm he)]

theorem system_setMode_of_not_uses (hu : p.uses file number ≠ true) (mode : Bool) :
    (p.setMode number mode).system file = p.system file := by
  simp only [system, System.mk.injEq, worker, uses_setMode]
  refine ⟨rfl, ?_, rfl⟩
  funext other
  simp only [setMode, setQueue, Array.getElem?_modify]
  by_cases he : number = other
  · subst he
    rw [if_neg hu, if_neg hu]
  · rw [if_neg he]

/-- What a step of a call leaves behind, if its handle is open on the file. -/
theorem system_carry (hfile : file < p.host.disk.files.size)
    (hqueue : p.queues[number]? = some queue)
    (hmap : p.host.fileOf queue.store.mapping = file) (next : Advance) :
    (p.carry number queue next).system file =
      { (p.system file).setHandle number
          (some { queue.handle with nonblocking := next.nonblocking }) with
        shared := next.shared } := by
  rw [carry, hmap, system_putShared (by exact hfile), system_setMode hqueue hmap]

/-- What a step of a call leaves behind, if its handle is open on another file. -/
theorem system_carry_of_ne (hqueue : p.queues[number]? = some queue)
    (hmap : p.host.fileOf queue.store.mapping ≠ file) (next : Advance) :
    (p.carry number queue next).system file = p.system file := by
  have hu : p.uses file number ≠ true := fun hu => hmap ((uses_iff hqueue).mp hu)
  rw [carry, system_putShared_of_ne hmap, system_setMode_of_not_uses hu]

/-- Where a step of a call brings a thread, as a user of the queue. -/
theorem system_settleCall (ht : t < p.threads.size) (hu : p.uses file (p.thread t).queue = true)
    (hbroken : ¬ next.call.Broken) (c : Call) :
    (p.settleCall t next.call).system file =
      (p.system file).setWorker t
        (System.onward ⟨(p.thread t).queue, .request, c⟩ next) := by
  unfold System.onward settleCall
  cases hpoint : next.call.point with
  | answered answer =>
    refine (system_setThread ht _).trans (congrArg ((p.system file).setWorker t) ?_)
    exact (if_pos (by exact hu)).trans rfl
  | broken fault => exact absurd ⟨fault, hpoint⟩ hbroken
  | _ =>
    refine (system_setThread ht _).trans (congrArg ((p.system file).setWorker t) ?_)
    exact worker_of_call hu rfl

theorem lt_of_call (hc : (p.thread t).call = some c) : t < p.threads.size := by
  refine Nat.lt_of_not_le fun hle => ?_
  rw [Client.thread, Array.getElem?_eq_none hle] at hc
  cases hc

theorem lt_of_job {jobs : List Job} (hj : (p.thread t).jobs = job :: jobs) :
    t < p.threads.size := by
  refine Nat.lt_of_not_le fun hle => ?_
  rw [Client.thread, Array.getElem?_eq_none hle] at hj
  cases hj

/-- The beginning of a call. -/
theorem run_job (hfits : job.request.Fits) (hc : (p.thread t).call = none) {jobs : List Job}
    (hj : (p.thread t).jobs = job :: jobs) : ∃ history,
      System.Run (p.system file) history ((p.setThread t
        ({ · with call := some { request := job.request, buffer := job.buffer }, jobs })).system
          file) := by
  by_cases hu : p.uses file (p.thread t).queue = true
  · refine ⟨[], .single ?_⟩
    rw [system_setThread (lt_of_job hj), worker_of_call (by exact hu) rfl]
    refine .call ?_ ?_ ?_ hfits
    · change p.worker file (p.thread t) = none
      rw [worker, hc]
      exact ite_self _
    · change (if p.uses file (p.thread t).queue then _ else _) ≠ none
      rw [if_pos hu]
      intro hqueue
      rw [uses, Option.map_eq_none_iff.mp hqueue] at hu
      cases hu
    · intro other w hw
      simp only [system, worker] at hw
      split at hw
      · obtain ⟨c, -, rfl⟩ := Option.map_eq_some_iff.mp hw
        intro
        rfl
      · cases hw
  · refine ⟨[], ?_⟩
    rw [system_setThread_of_not_uses (lt_of_job hj) hu rfl]
    exact .start

theorem handleAfter_request {h : Handle} (number : Nat) (c : Call) (next : Advance) :
    System.handleAfter ⟨number, .request, c⟩ h next =
      some { h with nonblocking := next.nonblocking } := by
  unfold System.handleAfter
  split
  · rename_i hp
    cases hp
  · rename_i hp
    cases hp
  · rfl

/-- A call that the step of a sane system has brought on has not come to a fault. -/
theorem not_broken_of_act {S : System} (hi : System.Inv s S a) {around : Surroundings} {h : Handle}
    {pick : Nat} (hworker : S.workers t = some ⟨number, .request, c⟩)
    (hhandle : S.handles number = some h) (hstep : c.step t h around pick S.shared = some next) :
    ¬ next.call.Broken := by
  rintro ⟨fault, hpoint⟩
  obtain ⟨b, hb, -⟩ := (System.Step.act hworker hhandle hstep).effect hi
  have hafter : (S.advance t ⟨number, .request, c⟩ h next).workers t =
      some ⟨number, .request, next.call⟩ := by
    refine (Function.update_self ..).trans ?_
    unfold System.onward
    rw [hpoint]
  exact (hb.workers t _ hafter).not_broken ⟨fault, hpoint⟩

/-- A step of a call through a handle that is open on the file. -/
theorem run_call (hi : System.Inv s (p.system file) a) (hfile : file < p.host.disk.files.size)
    (hc : (p.thread t).call = some c) (hqueue : p.queues[(p.thread t).queue]? = some queue)
    (hmap : p.host.fileOf queue.store.mapping = file)
    (hstep : c.step t queue.handle (p.surroundings t queue) 0 (p.shared queue) = some next)
    {p₁ : Client} (hp₁ : p₁.threads = p.threads ∧
      p₁.system file = (p.carry (p.thread t).queue queue next).system file ∧
      ∀ number, p₁.uses file number = p.uses file number) :
    ∃ history, System.Run (p.system file) history ((p₁.settleCall t next.call).system file) := by
  obtain ⟨hthreads, hsystem, huses⟩ := hp₁
  have hu : p.uses file (p.thread t).queue = true := (uses_iff hqueue).mpr hmap
  have hthread : p₁.thread t = p.thread t := by
    rw [Client.thread, Client.thread, hthreads]
  have hworker : (p.system file).workers t = some ⟨(p.thread t).queue, .request, c⟩ :=
    worker_of_call hu hc
  have hhandle : (p.system file).handles (p.thread t).queue = some queue.handle := by
    refine (if_pos hu).trans ?_
    rw [hqueue]
    rfl
  have hshared : (p.system file).shared = p.shared queue := by
    rw [Client.shared, Host.shared, hmap]
    rfl
  rw [← hshared] at hstep
  have hend := system_settleCall (p := p₁) (hthreads ▸ lt_of_call hc)
    (by rw [hthread, huses]; exact hu) (not_broken_of_act hi hworker hhandle hstep) c
  rw [hsystem, hthread, system_carry hfile hqueue hmap, ← handleAfter_request _ c next] at hend
  rw [hend]
  exact ⟨_, .single (.act hworker hhandle hstep)⟩

/-- A step of a call through a handle that is open on another file. -/
theorem system_settleCall_of_not_uses (hu : p.uses file (p.thread t).queue ≠ true)
    (ht : t < p.threads.size) (c : Call) : (p.settleCall t c).system file = p.system file := by
  unfold settleCall
  split
  · exact system_setThread_of_not_uses ht hu rfl
  · rfl
  · exact system_setThread_of_not_uses ht hu rfl

/-- A step of a thread is a step of the system, or none. -/
theorem run_step (hi : System.Inv s (p.system file) a) (hfile : file < p.host.disk.files.size)
    (hfits : ∀ job ∈ (p.thread t).jobs, job.request.Fits) (hstep : p.step t = some p') :
    ∃ history, System.Run (p.system file) history (p'.system file) := by
  rcases step_cases hstep with ⟨job, jobs, hc, hj, rfl⟩ | ⟨c, queue, next, hc, hqueue, hnext, rfl⟩
  · exact run_job (hfits job (hj ▸ List.mem_cons_self)) hc hj
  · by_cases hmap : p.host.fileOf queue.store.mapping = file
    · refine run_call hi hfile hc hqueue hmap hnext ?_
      cases next.delivery <;> exact ⟨rfl, rfl, p.uses_setMode _ _⟩
    · have hu : p.uses file (p.thread t).queue ≠ true := fun hu => hmap ((uses_iff hqueue).mp hu)
      have hcarry := system_carry_of_ne hqueue hmap next
      refine ⟨[], ?_⟩
      rw [system_settleCall_of_not_uses]
      · cases next.delivery <;> exact hcarry ▸ .start
      · cases next.delivery <;> exact (uses_setMode p _ _ _).symm ▸ hu
      · cases next.delivery <;> exact lt_of_call hc

end Client

end MappedQueue
