import MappedQueue.Proofs.Creation
import MappedQueue.Proofs.Prompt
import MappedQueue.Proofs.Steps

/-!
# Sessions

A session is a sequence of calls that one thread makes through handles on one queue. If none
of the calls waits, all of them end as they would on the abstract queue, whatever the
other threads of the client are about: they do not get a turn.
-/

namespace MappedQueue

namespace Client

variable {base p : Client} {file number n : Nat} {queue : Queue} {q : Shared} {c : Call}
  {around : Surroundings} {last : Advance} {s : Sizing}

/-- The main thread when its only call is over. -/
def rested (number : Nat) (outcome : Outcome) (sliceEnd : Nat) : Thread :=
  { queue := number, sliceEnd, outcomes := [outcome] }

def view (base : Client) (queue : Queue) : Surroundings :=
  ⟨false, base.interruptions, base.now, queue.notifier.herald base.notices⟩

theorem Within.step_call {m : Thread} (hw : Within base file { m with call := some c } q p)
    (hfile : file < base.host.disk.files.size) (hqueue : base.queues[m.queue]? = some queue)
    (hmap : base.host.fileOf queue.store.mapping = file) {next : Advance}
    (hstep : c.step main queue.handle { base.view queue with cancelled := m.cancelled } 0 q =
      some next)
    (hdelivery : next.delivery = none) :
    ∃ p', p.step main = some (p'.settleCall main next.call) ∧
      Within (base.setMode m.queue next.nonblocking) file { m with call := some c }
        next.shared p' := by
  have haround : p.surroundings main queue = { base.view queue with cancelled := m.cancelled } :=
    hw.surroundings_eq queue
  have hstep' : c.step main queue.handle (p.surroundings main queue) 0 (p.shared queue) =
      some next := by
    rw [haround, hw.shared_eq hfile hmap]
    exact hstep
  have hqueue' : p.queues[m.queue]? = some queue := hw.queues_eq ▸ hqueue
  refine ⟨p.carry m.queue queue next, ?_, hw.carry hmap m.queue next⟩
  rw [step_of_call hw.thread_eq rfl hqueue' hstep', hdelivery]

/-- A call of the main thread that comes to its end in `n` steps does so in one burst. -/
theorem Within.burst_call (hfile : file < base.host.disk.files.size)
    (hmap : base.host.fileOf queue.store.mapping = file) (hfault : base.fault = none)
    {cancelled : Bool}
    (hpasses : Call.Passes main queue.handle { base.view queue with cancelled } n q c last)
    (hdelivery : last.delivery = none) :
    ∀ (moved : Bool) (limit : Nat) {p : Client} {m : Thread},
      base.queues[m.queue]? = some queue → m.jobs = [] → m.cancelled = cancelled →
      Within base file { m with call := some c } q p → n < limit →
      ∃ answer sliceEnd p', last.call.point = .answered answer ∧
        burst main limit moved p = (true, p') ∧
        Within (base.setMode m.queue last.nonblocking) file
          { m with
            call := none, sliceEnd, outcomes := ⟨answer, last.call.buffer⟩ :: m.outcomes }
          last.shared p' := by
  -- Each step of the way is one round of the burst; one more round finds the thread at rest.
  induction hpasses with
  | @ends q c last answer hstep hanswer =>
    rintro moved limit p m hqueue hjobs rfl hw hlimit
    obtain ⟨p₁, hp, hw₁⟩ := hw.step_call hfile hqueue hmap hstep hdelivery
    obtain ⟨l, rfl⟩ : ∃ l, limit = l + 2 := ⟨limit - 2, by omega⟩
    rw [settleCall_answered hanswer] at hp
    have hw₂ := hw₁.setThread fun thread =>
      { thread with call := none, outcomes := ⟨answer, last.call.buffer⟩ :: thread.outcomes }
    refine ⟨answer, m.sliceEnd, _, hanswer, ?_, hw₂⟩
    rw [burst, hw.fault_eq, hfault, hp]
    dsimp only
    rw [burst, hw₂.fault_eq, step_of_idle hw₂.thread_eq rfl hjobs]
    simp [setMode, setQueue, hfault]
  | @goes n q q' c c' last hstep honward hrest ih =>
    rintro moved limit p m hqueue hjobs rfl hw hlimit
    obtain ⟨p₁, hp, hw₁⟩ := hw.step_call hfile hqueue hmap hstep rfl
    obtain ⟨l, rfl⟩ : ∃ l, limit = l + 1 := ⟨limit - 1, by omega⟩
    obtain ⟨sliceEnd, hsettle⟩ := settleCall_onward (p := p₁) (t := main) honward
    rw [setMode_self hqueue] at hw₁
    rw [hsettle] at hp
    have hw₂ := hw₁.setThread fun thread => { thread with call := some c', sliceEnd }
    obtain ⟨answer, sliceEnd', p', hanswer, hburst, hw'⟩ := ih hdelivery true l
      (m := { m with sliceEnd }) hqueue hjobs rfl hw₂ (Nat.lt_of_succ_lt_succ hlimit)
    refine ⟨answer, sliceEnd', p', hanswer, ?_, hw'⟩
    rw [burst, hw.fault_eq, hfault, hp]
    exact hburst

theorem await_of_done {done : Client → Bool} (hdone : done p = true) (raising : Bool) :
    ∀ slices : Nat, p.await done raising slices = p
  | 0 => rfl
  | slices + 1 => by simp [await, hdone]

/-- A call of the main thread that comes to its end in a few steps yields its outcome. -/
theorem call_of_comes {t : Thread} (hfault : p.fault = none) (hthread : p.threads[main]? = some t)
    (hcall : t.call = none) (hfile : file < p.host.disk.files.size)
    (hqueue : p.queues[number]? = some queue) (hmap : p.host.fileOf queue.store.mapping = file)
    (job : Job) (hn : n ≤ 8)
    (hpasses : Call.Passes main queue.handle { p.view queue with cancelled := t.cancelled } n
      (p.host.disk.shared file) ⟨job.request, job.buffer, .arriving⟩ last)
    (hdelivery : last.delivery = none) :
    ∃ answer sliceEnd p', last.call.point = .answered answer ∧
      p.call number job = (some ⟨answer, last.call.buffer⟩, p') ∧
      Within (p.setMode number last.nonblocking) file
        { rested number ⟨answer, last.call.buffer⟩ sliceEnd with cancelled := t.cancelled }
        last.shared p' := by
  have hself : Within p file t (p.host.disk.shared file) p :=
    ⟨p.threads, hthread, by rw [putShared_self]⟩
  have hready := hself.setThread fun t => { t with queue := number, jobs := [job], outcomes := [] }
  have hbegin := step_of_job hready.thread_eq hcall rfl
  have hbegun := hready.setThread
    ({ · with call := some { request := job.request, buffer := job.buffer }, jobs := [] })
  obtain ⟨answer, sliceEnd, p', hanswer, hburst, hw⟩ :=
    Within.burst_call hfile hmap hfault hpasses hdelivery true 65535
      (m := { t with queue := number, jobs := [], outcomes := [] }) hqueue rfl rfl hbegun (by omega)
  have hall : burst main burstLimit false
      (p.setThread main fun t => { t with queue := number, jobs := [job], outcomes := [] }) =
        (true, p') := by
    change burst main (65535 + 1) false _ = _
    rw [burst, hready.fault_eq, hfault, hbegin]
    exact hburst
  have hdone : (p'.thread main).idle = true := by
    rw [thread_of_getElem? hw.thread_eq]
    rfl
  refine ⟨answer, sliceEnd, p', hanswer, ?_, hw⟩
  rw [call, hall]
  dsimp only
  rw [await_of_done (by exact hdone), thread_of_getElem? hw.thread_eq]
  rfl

def Free (p : Client) : Prop :=
  p.fault = none ∧ ∃ t, p.threads[main]? = some t ∧ t.call = none ∧ t.cancelled = false

/-- Runs an errand through the handle of a number. -/
def serve (p : Client) (number : Nat) : Errand → Option Outcome × Client
  | .send m deadline => p.call number { request := .send m.bytes m.priority deadline }
  | .receive buffer deadline => p.call number { request := .receive deadline, buffer }
  | .receiveNew => p.receiveNew number
  | .attributes => p.call number { request := .attributes }
  | .setNonblocking on => p.call number { request := .setNonblocking on }

/-- An errand is a job, of whose outcome the caller gets what the errand yields. -/
theorem serve_of_call (hqueue : p.queues[number]? = some queue) {errand : Errand}
    {outcome : Outcome} {p' : Client}
    (hcall : p.call number (errand.job queue.handle.sizing) = (some outcome, p')) :
    p.serve number errand = (some (errand.yields outcome), p') := by
  cases errand with
  | receiveNew =>
    rw [serve, receiveNew, hqueue]
    dsimp only
    rw [show p.call number (.receiveNew queue.handle.sizing) = _ from hcall]
    rfl
  | _ => exact hcall

/-- Runs an errand, after some time may have passed. -/
def visit (p : Client) (v : Visit) : Option Outcome × Client :=
  { p with now := max p.now v.moment }.serve v.number v.errand

/-- Runs errands one after the other, and yields their outcomes. -/
def visits : List Visit → Client → List (Option Outcome) × Client
  | [], p => ([], p)
  | v :: rest, p =>
    let (outcome, p) := p.visit v
    let (outcomes, p) := visits rest p
    (outcome :: outcomes, p)

/-- Whether the handle of a number is open on the queue in `file`. -/
def On (p : Client) (s : Sizing) (file number : Nat) : Prop :=
  ∃ queue, p.queues[number]? = some queue ∧ p.host.fileOf queue.store.mapping = file ∧
    queue.handle.sizing = s ∧ queue.handle.Fits

def modes (p : Client) (number : Nat) : Bool :=
  match p.queues[number]? with
  | some queue => queue.handle.nonblocking
  | none => false

/-- The queue in `file` holds what an abstract queue holds, and nobody uses it. -/
structure Shows (s : Sizing) (file : Nat) (p : Client) (a : PriorityQueue) : Prop where
  free : p.Free
  file_lt : file < p.host.disk.files.size
  holder_eq : (p.host.disk.shared file).holder = none
  refines : Refines s (p.host.disk.shared file).region a.ideal
  nonblocking_eq : ∀ number queue, p.queues[number]? = some queue →
    queue.handle.nonblocking = a.nonblocking number

variable {a : PriorityQueue} {v : Visit}

/-- A call that is over leaves the client with another queue in the file. -/
theorem Within.shows {outcome : Outcome} {mode : Bool} {p' : Client} {b : PriorityQueue}
    (hw : Within (p.setMode number mode) file (rested number outcome n) q p')
    (hp : Shows s file p a) (hholder : q.holder = none) (hrefines : Refines s q.region b.ideal)
    (hmode : mode = b.nonblocking number)
    (hothers : ∀ other, other ≠ number → b.nonblocking other = a.nonblocking other) :
    Shows s file p' b ∧ p'.now = p.now ∧ ∀ other, p.On s file other → p'.On s file other := by
  obtain ⟨threads, hthread, rfl⟩ := hw
  have hshared : (p.host.disk.setShared file q).shared file = q := Disk.shared_setShared hp.file_lt
  refine ⟨⟨⟨hp.free.1, _, hthread, rfl, rfl⟩, ?_, ?_, ?_, ?_⟩, rfl, ?_⟩
  · exact (Disk.size_setShared p.host.disk file q).symm ▸ hp.file_lt
  · exact (congrArg Shared.holder hshared).trans hholder
  · change Refines s ((p.host.disk.setShared file q).shared file).region b.ideal
    rw [hshared]
    exact hrefines
  · intro other queue hqueue
    simp only [putShared, setMode, setQueue, Array.getElem?_modify] at hqueue
    split at hqueue
    · rename_i heq
      obtain ⟨before, -, rfl⟩ := Option.map_eq_some_iff.mp hqueue
      rw [← heq]
      exact hmode
    · rename_i hne
      rw [hothers other (Ne.symm hne)]
      exact hp.nonblocking_eq other queue hqueue
  · rintro other ⟨queue, hqueue, hmap, hs, hh⟩
    simp only [On, putShared, setMode, setQueue, Array.getElem?_modify, hqueue]
    split
    · exact ⟨_, rfl, hmap, hs, hh⟩
    · exact ⟨_, rfl, hmap, hs, hh⟩

/-- A call ends as it does on the abstract queue, and leaves behind what it leaves there. -/
theorem Shows.visit (hs : s.Valid) (hp : Shows s file p a) (hon : p.On s file v.number)
    (hadmissible : v.errand.Admissible s)
    (hprompt : v.errand.Prompt (a.nonblocking v.number) (max p.now v.moment)) :
    (p.visit v).1 = some (a.call s v.number v.errand).1 ∧
      Shows s file (p.visit v).2 (a.call s v.number v.errand).2 ∧
      (p.visit v).2.now = max p.now v.moment ∧
      ∀ other, p.On s file other → (p.visit v).2.On s file other := by
  obtain ⟨queue, hqueue, hmap, rfl, hh⟩ := hon
  have hlater : Shows queue.handle.sizing file { p with now := max p.now v.moment } a :=
    ⟨hp.free, hp.file_lt, hp.holder_eq, hp.refines, hp.nonblocking_eq⟩
  have hready : v.errand.Ready queue.handle (view { p with now := max p.now v.moment } queue)
      (p.host.disk.shared file) a v.number :=
    ⟨hs, hh, rfl, hp.holder_eq, hp.refines, hp.nonblocking_eq _ _ hqueue, hadmissible, hprompt⟩
  obtain ⟨n, last, t, hn, hpasses, hsettles, hyields, hmode, hnone⟩ :
      v.errand.Done main queue.handle _ _ a v.number := hready.done
  obtain ⟨hfault, thread, hthread, hidle, hcancelled⟩ := hlater.free
  obtain ⟨answer, sliceEnd, p', hanswer, hcall, hw⟩ :=
    call_of_comes hfault hthread hidle hp.file_lt hqueue hmap (v.errand.job queue.handle.sizing) hn
      (by rw [hcancelled]; exact hpasses) (hsettles.delivery_eq.trans hnone)
  rw [hcancelled] at hw
  have houtcome : v.errand.yields ⟨answer, last.call.buffer⟩ =
      (a.call queue.handle.sizing v.number v.errand).1 := by
    rw [hsettles.call_eq] at hanswer ⊢
    cases hanswer
    exact hyields
  have hserve := serve_of_call (p := { p with now := max p.now v.moment }) hqueue hcall
  rw [Client.visit, hserve, houtcome]
  exact ⟨rfl, hw.shows hlater hsettles.holder_eq hsettles.refines
    (hsettles.nonblocking_eq.trans hmode) fun other hne => a.nonblocking_call_of_ne hne _ v.errand⟩

/-- Calls of which none waits end as they do on the abstract queue. -/
theorem Shows.visits (hs : s.Valid) (visits : List Visit) : ∀ {p : Client} {a : PriorityQueue},
    Shows s file p a → (∀ v ∈ visits, p.On s file v.number ∧ v.errand.Admissible s) →
    a.Prompt s p.now visits →
    (p.visits visits).1 = (a.visits s visits).1.map some ∧
      Shows s file (p.visits visits).2 (a.visits s visits).2 := by
  induction visits with
  | nil => exact fun hp _ _ => ⟨rfl, hp⟩
  | cons v rest ih =>
    intro p a hp hvisits hprompt
    obtain ⟨hfirst, hrest⟩ := List.forall_mem_cons.mp hvisits
    obtain ⟨houtcome, hshows, hnow, hon⟩ := hp.visit hs hfirst.1 hfirst.2 hprompt.1
    obtain ⟨houtcomes, hend⟩ := ih hshows (fun v hv => ⟨hon _ (hrest v hv).1, (hrest v hv).2⟩)
      (hnow ▸ hprompt.2)
    refine ⟨?_, hend⟩
    rw [Client.visits, PriorityQueue.visits]
    dsimp only
    rw [houtcome, houtcomes]
    rfl

end Client

/-- On a queue file that was created and initialised, any calls of which none waits, made
one after the other through any handles, end exactly as they do on the abstract queue. The
file holds the messages of the abstract queue afterwards, in order of priority, and a receive
that finds a message yields it. -/
theorem sessions_answered {s : Sizing} {p : Client} {file : Nat} (visits : List Visit)
    (hfree : p.Free) (hfile : file < p.host.disk.files.size)
    (hmade : Made s (p.host.disk.shared file))
    (hvisits : ∀ v ∈ visits, p.On s file v.number ∧ v.errand.Admissible s)
    (hprompt : PriorityQueue.Prompt s p.now visits { nonblocking := p.modes }) :
    (p.visits visits).1 =
        (PriorityQueue.visits s visits { nonblocking := p.modes }).1.map some ∧
      Represents s ((p.visits visits).2.host.disk.shared file).region
        (PriorityQueue.visits s visits { nonblocking := p.modes }).2.messages ∧
      Backlog.Ordered (PriorityQueue.visits s visits { nonblocking := p.modes }).2.messages ∧
      ∀ (before after : List Visit) (v : Visit) (m : Message) (rest : List Message),
        visits = before ++ v :: after → v.errand.Receives →
        (PriorityQueue.visits s before { nonblocking := p.modes }).2.messages = m :: rest →
          ∃ outcome, (p.visits visits).1[before.length]? = some (some outcome) ∧
            outcome.message? = some m := by
  obtain ⟨hs, hfresh⟩ := hmade.fresh
  have hstart : p.Shows s file { nonblocking := p.modes } := by
    refine ⟨hfree, hfile, hfresh.holder_eq, ⟨hfresh.represents, hfresh.waiting_eq,
      if_pos hfresh.owner_eq⟩, fun number queue hqueue => ?_⟩
    simp only [Client.modes, hqueue]
  obtain ⟨houtcomes, hend⟩ := hstart.visits hs visits hvisits hprompt
  refine ⟨houtcomes, hend.refines.represents,
    PriorityQueue.ordered_visits visits (a := { nonblocking := p.modes }) .nil, ?_⟩
  rintro before after v m rest rfl hreceives hmessages
  refine ⟨_, ?_, PriorityQueue.message_of_receives s v.number hmessages hreceives⟩
  rw [houtcomes, List.getElem?_map, PriorityQueue.getElem?_visits]
  rfl

/-- A client with two handles on one file, of which the first does not block. -/
def twoHandles (q : Shared) : Client where
  host := { disk := { Disk.fresh with files := #[⟨1, 0o600, q⟩] }, mappings := #[⟨0, 256, 2⟩] }
  queues := #[
    { name := "/q", file := "/q", store := ⟨0, ⟨1, 4⟩⟩, handle := ⟨⟨1, 4⟩, 1, true⟩
      notifier := .records },
    { name := "/q", file := "/q", store := ⟨0, ⟨1, 4⟩⟩, handle := ⟨⟨1, 4⟩, 2, false⟩
      notifier := .records }]
  notices := { self := 2 }

theorem sessions_answered_two_handles : ∃ q, Made ⟨1, 4⟩ q ∧
    ((twoHandles q).visits [
      ⟨0, 0, .send ⟨⟨#[7, 8]⟩, 3⟩ none⟩, ⟨0, 0, .send ⟨⟨#[9]⟩, 5⟩ none⟩,
      ⟨2, 1, .send ⟨⟨#[9]⟩, 5⟩ (some 2)⟩, ⟨0, 1, .receive ⟨#[1, 1, 1, 1]⟩ (some 2)⟩,
      ⟨0, 0, .receive ⟨#[1, 1, 1, 1]⟩ none⟩, ⟨0, 1, .send ⟨⟨#[5]⟩, 1⟩ (some 2)⟩,
      ⟨0, 0, .receiveNew⟩]).1.map
        (·.map Outcome.answer) =
      [some (.ok .sent), some (.error .wouldBlock), some (.error .timedOut),
        some (.ok (.received 2 3)), some (.error .wouldBlock), some (.ok .sent),
        some (.ok (.received 1 1))] := by
  obtain ⟨q, hm⟩ := exists_made (s := ⟨1, 4⟩) (by decide)
  refine ⟨q, hm, ?_⟩
  have hon₀ : (twoHandles q).On ⟨1, 4⟩ 0 0 :=
    ⟨_, rfl, rfl, rfl, (by decide : Handle.Fits ⟨⟨1, 4⟩, 1, true⟩)⟩
  have hon₁ : (twoHandles q).On ⟨1, 4⟩ 0 1 :=
    ⟨_, rfl, rfl, rfl, (by decide : Handle.Fits ⟨⟨1, 4⟩, 2, false⟩)⟩
  obtain ⟨houtcomes, -⟩ := sessions_answered (s := ⟨1, 4⟩) (p := twoHandles q) [
      ⟨0, 0, .send ⟨⟨#[7, 8]⟩, 3⟩ none⟩, ⟨0, 0, .send ⟨⟨#[9]⟩, 5⟩ none⟩,
      ⟨2, 1, .send ⟨⟨#[9]⟩, 5⟩ (some 2)⟩, ⟨0, 1, .receive ⟨#[1, 1, 1, 1]⟩ (some 2)⟩,
      ⟨0, 0, .receive ⟨#[1, 1, 1, 1]⟩ none⟩, ⟨0, 1, .send ⟨⟨#[5]⟩, 1⟩ (some 2)⟩,
      ⟨0, 0, .receiveNew⟩]
    ⟨rfl, _, rfl, rfl, rfl⟩ (Nat.one_pos) hm
    (by
      simp only [List.forall_mem_cons]
      refine ⟨⟨hon₀, by decide, by decide⟩, ⟨hon₀, by decide, by decide⟩,
        ⟨hon₁, by decide, by decide⟩, ⟨hon₁, ?_⟩, ⟨hon₀, ?_⟩, ⟨hon₁, by decide, by decide⟩,
        ⟨hon₀, trivial⟩, nofun⟩
      · exact Nat.le_refl 4
      · exact Nat.le_refl 4)
    ⟨Or.inl rfl, Or.inl rfl, Or.inr ⟨2, rfl, Nat.le_refl 2⟩, Or.inr ⟨2, rfl, Nat.le_refl 2⟩,
      Or.inl rfl, Or.inr ⟨2, rfl, Nat.le_refl 2⟩, rfl, trivial⟩
  rw [houtcomes]
  rfl

end MappedQueue
