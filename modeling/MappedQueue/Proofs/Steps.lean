import MappedQueue.Client.Schedule
import MappedQueue.Proofs.Calls
import MappedQueue.Proofs.Hosts

/-!
# Steps of a client

A step of a thread that is in a call does to the client what the step of the call does to the
queue, the handle and the thread, and hands the delivery over if there is one.
-/

namespace MappedQueue.Client

variable {p : Client} {t : Nat} {thread : Thread} {c : Call} {queue : Queue} {next : Advance}

def putShared (p : Client) (file : Nat) (q : Shared) : Client :=
  { p with host := { p.host with disk := p.host.disk.setShared file q } }

theorem putShared_self (p : Client) (file : Nat) :
    p.putShared file (p.host.disk.shared file) = p := by
  rw [putShared, Disk.setShared_shared]

theorem access_eq {α : Type} (p : Client) (queue : Queue) (f : Shared → α × Shared) :
    p.access queue f = ((f (p.shared queue)).1,
      p.putShared (p.host.fileOf queue.store.mapping) (f (p.shared queue)).2) := by
  simp only [access, takeHost, Host.access_eq]
  rfl

/-- The client with another blocking mode of the handle of a number. -/
def setMode (p : Client) (number : Nat) (nonblocking : Bool) : Client :=
  p.setQueue number fun queue => { queue with handle := { queue.handle with nonblocking } }

/-- The client with what a step of a call leaves behind on the queue and in its handle. -/
def carry (p : Client) (number : Nat) (queue : Queue) (next : Advance) : Client :=
  (p.setMode number next.nonblocking).putShared (p.host.fileOf queue.store.mapping) next.shared

theorem thread_of_getElem? (hthread : p.threads[t]? = some thread) : p.thread t = thread := by
  rw [Client.thread, hthread]
  rfl

theorem step_of_call (hthread : p.threads[t]? = some thread) (hcall : thread.call = some c)
    (hqueue : p.queues[thread.queue]? = some queue)
    (hstep : c.step t queue.handle (p.surroundings t queue) 0 (p.shared queue) = some next) :
    p.step t = some ((match next.delivery with
      | some delivery => (p.carry thread.queue queue next).deliver queue.notifier delivery.toDelivery
      | none => p.carry thread.queue queue next).settleCall t next.call) := by
  have hget := thread_of_getElem? hthread
  simp only [step, hget, hcall, hqueue, access_eq, hstep]
  rfl

/-- A thread that takes a step begins its next call, or takes a step of the call it is in. -/
theorem step_cases {p' : Client} (hp : p.step t = some p') :
    (∃ job jobs, (p.thread t).call = none ∧ (p.thread t).jobs = job :: jobs ∧ p' = p.setThread t
      ({ · with call := some { request := job.request, buffer := job.buffer }, jobs })) ∨
    ∃ c queue next, (p.thread t).call = some c ∧ p.queues[(p.thread t).queue]? = some queue ∧
      c.step t queue.handle (p.surroundings t queue) 0 (p.shared queue) = some next ∧
      p' = (match next.delivery with
        | some delivery =>
          (p.carry (p.thread t).queue queue next).deliver queue.notifier delivery.toDelivery
        | none => p.carry (p.thread t).queue queue next).settleCall t next.call := by
  cases hcall : (p.thread t).call with
  | none =>
    cases hjobs : (p.thread t).jobs with
    | nil =>
      simp only [step, hcall, hjobs] at hp
      cases hp
    | cons job jobs =>
      simp only [step, hcall, hjobs] at hp
      cases hp
      exact Or.inl ⟨job, jobs, rfl, rfl, rfl⟩
  | some c =>
    simp only [step, hcall, access_eq] at hp
    cases hqueue : p.queues[(p.thread t).queue]? with
    | none =>
      rw [hqueue] at hp
      cases hp
    | some queue =>
      rw [hqueue] at hp
      cases hstep : c.step t queue.handle (p.surroundings t queue) 0 (p.shared queue) with
      | none =>
        simp only [hstep] at hp
        cases hp
      | some next =>
        simp only [hstep] at hp
        cases hp
        exact Or.inr ⟨c, queue, next, rfl, rfl, hstep, rfl⟩

/-- The end of a slice changes the call that is blocked. -/
theorem expire_of_call (hthread : p.threads[t]? = some thread) (hcall : thread.call = some c)
    (hqueue : p.queues[thread.queue]? = some queue) :
    p.expire t = match c.expire t (p.shared queue) with
      | some (q, c') =>
        (p.putShared (p.host.fileOf queue.store.mapping) q).setThread t ({ · with call := some c' })
      | none => p := by
  have hget := thread_of_getElem? hthread
  simp only [expire, hget, hcall, hqueue, access_eq]
  cases c.expire t (p.shared queue) with
  | some ended => rfl
  | none => exact p.putShared_self _

theorem step_of_idle (hthread : p.threads[t]? = some thread) (hcall : thread.call = none)
    (hjobs : thread.jobs = []) : p.step t = none := by
  have hget := thread_of_getElem? hthread
  simp only [step, hget, hcall, hjobs]

/-- A thread that is in no call begins its next one. -/
theorem step_of_job {job : Job} {jobs : List Job} (hthread : p.threads[t]? = some thread)
    (hcall : thread.call = none) (hjobs : thread.jobs = job :: jobs) :
    p.step t = some (p.setThread t
      ({ · with call := some { request := job.request, buffer := job.buffer }, jobs })) := by
  have hget := thread_of_getElem? hthread
  simp only [step, hget, hcall, hjobs]

/-- To set the mode that a handle has changes nothing. -/
theorem setMode_self {number : Nat} (hqueue : p.queues[number]? = some queue) :
    p.setMode number queue.handle.nonblocking = p := by
  have hqueues : p.queues.modify number (fun other => { other with
      handle := { other.handle with nonblocking := queue.handle.nonblocking } }) = p.queues := by
    refine modify_eq_self fun other hother => ?_
    rw [hqueue] at hother
    cases hother
    rfl
  exact congrArg (fun queues => { p with queues }) hqueues

theorem settleCall_answered {answer : Answer} (hc : c.point = .answered answer) :
    p.settleCall t c = p.setThread t fun thread =>
      { thread with call := none, outcomes := ⟨answer, c.buffer⟩ :: thread.outcomes } := by
  rw [settleCall, hc]

theorem settleCall_onward (hc : c.point.Onward) : ∃ sliceEnd, p.settleCall t c =
    p.setThread t ({ · with call := some c, sliceEnd }) := by
  unfold settleCall
  split
  · rename_i h
    rw [h] at hc
    exact hc.elim
  · rename_i h
    rw [h] at hc
    exact hc.elim
  · exact ⟨_, rfl⟩

/-- A client whose main thread is `t`, with `q` for the file of a queue, and otherwise like
`base`. -/
def Within (base : Client) (file : Nat) (t : Thread) (q : Shared) (p : Client) : Prop :=
  ∃ threads : Array Thread, threads[main]? = some t ∧ p = { base.putShared file q with threads }

namespace Within

variable {base : Client} {file number : Nat} {q q' : Shared} {m : Thread} {c' : Call}

theorem shared_eq (hw : Within base file m q p) (hfile : file < base.host.disk.files.size)
    (hmap : base.host.fileOf queue.store.mapping = file) : p.shared queue = q := by
  obtain ⟨threads, -, rfl⟩ := hw
  change (base.host.disk.setShared file q).shared (base.host.fileOf queue.store.mapping) = q
  rw [hmap]
  exact Disk.shared_setShared hfile

theorem surroundings_eq (hw : Within base file m q p) (queue : Queue) :
    p.surroundings main queue =
      ⟨m.cancelled, base.interruptions, base.now, queue.notifier.herald base.notices⟩ := by
  obtain ⟨threads, hthread, rfl⟩ := hw
  simp only [surroundings, thread, hthread, Option.getD_some]
  rfl

theorem thread_eq (hw : Within base file m q p) : p.threads[main]? = some m := by
  obtain ⟨threads, hthread, rfl⟩ := hw
  exact hthread

theorem queues_eq (hw : Within base file m q p) : p.queues = base.queues := by
  obtain ⟨threads, hthread, rfl⟩ := hw
  rfl

theorem fault_eq (hw : Within base file m q p) : p.fault = base.fault := by
  obtain ⟨threads, hthread, rfl⟩ := hw
  rfl

theorem setThread (hw : Within base file m q p) (f : Thread → Thread) :
    Within base file (f m) q (p.setThread main f) := by
  obtain ⟨threads, hthread, rfl⟩ := hw
  refine ⟨threads.modify main f, ?_, rfl⟩
  rw [Array.getElem?_modify, if_pos rfl, hthread]
  rfl

theorem carry (hw : Within base file m q p) (hmap : base.host.fileOf queue.store.mapping = file)
    (number : Nat) (next : Advance) :
    Within (base.setMode number next.nonblocking) file m next.shared
      (p.carry number queue next) := by
  obtain ⟨threads, hthread, rfl⟩ := hw
  have hdisk : (base.host.disk.setShared file q).setShared (base.host.fileOf queue.store.mapping)
      next.shared = base.host.disk.setShared file next.shared := by
    rw [hmap, Disk.setShared_setShared]
  exact ⟨threads, hthread, congrArg (fun disk => ({ base.setMode number next.nonblocking with
    host := { base.host with disk }, threads } : Client)) hdisk⟩

end Within

end MappedQueue.Client
