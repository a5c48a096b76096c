import Mathlib.Logic.Relation
import MappedQueue.Proofs.Machines
import MappedQueue.Proofs.System

/-!
# All queues of all processes

A realm is a machine whose threads also make calls on the queues that have been opened. Its
runs are sequences, in any order, of single operations of openings and unlinkings and single
steps of calls, over any names and directories. A call goes through the mapping of its
handle; when a handle is given up, its use of the mapping ends.
-/

namespace MappedQueue

namespace Machine

/-- The file that a thread opened last. -/
def file? (M : Machine) (i : Nat) : Option Nat := M.parties[i]?.bind fun a => a.hands.found

/-- The handle that a thread has opened, as long as it is open. -/
def handle? (M : Machine) (i : Nat) : Option Handle :=
  M.parties[i]?.bind fun a => match a.phase with
    | .holding _ handle => some handle
    | _ => none

/-- The machine after a sleeper of the queue in a file has woken up. -/
def stirred (M : Machine) (file : Nat) (sleeper : Nat × Condition) : Machine :=
  let q := M.disk.shared file
  M.setShared file { q with sleepers := q.sleepers.erase sleeper }

/-- A machine on which nothing has been opened yet: directories, links and files are what
they may be, as long as no two files with names have one number. -/
structure Starts (M : Machine) : Prop where
  formed : M.disk.Formed
  distinct : ∀ f ∈ M.disk.named, ∀ g ∈ M.disk.named, M.disk.identity f = M.disk.identity g → f = g
  opened (process : Nat) : (M.processes process).opened = []
  mappings (process : Nat) : (M.processes process).mappings = #[]
  known (process : Nat) : (M.processes process).known = []
  parties : M.parties = []

end Machine

/-- A machine, and the calls that are going on. A handle has the number of the thread that
opened it. -/
structure Realm where
  machine : Machine
  workers : Nat → Option Worker := fun _ => none

/-- What a step of a realm is part of. -/
inductive Cause where
  /-- The plan of a thread. -/
  | plan (i : Nat)
  /-- The use of a handle by a thread. -/
  | call (thread i : Nat)
  /-- Nothing: a sleeper of the queue in a file wakes up. -/
  | stir (file : Nat)

namespace Realm

def setWorker (R : Realm) (thread : Nat) (worker : Option Worker) : Realm :=
  { R with workers := Function.update R.workers thread worker }

/-- What the users of the queue behind a handle share, as the handle's process has it. -/
def shared (R : Realm) (a : Party) (store : Store) : Shared :=
  (R.machine.host a.process).shared store.mapping

/-- The machine after a call has changed what the users of its queue share. -/
def write (R : Realm) (a : Party) (store : Store) (q : Shared) : Machine :=
  R.machine.setShared ((R.machine.host a.process).fileOf store.mapping) q

/-- The machine after a step of a call. A handle that is given up no longer uses its
mapping. -/
def machineAfter (R : Realm) (w : Worker) (a : Party) (store : Store) (h : Handle)
    (next : Advance) : Machine :=
  let M := R.write a store next.shared
  match System.handleAfter w h next with
  | some h => M.setPhase w.number a (.holding store h)
  | none =>
    M.after w.number a ((M.host a.process).unmap store.mapping) ⟨.unmap store.mapping, ()⟩ .gone

def advance (R : Realm) (thread : Nat) (w : Worker) (a : Party) (store : Store) (h : Handle)
    (next : Advance) : Realm where
  machine := R.machineAfter w a store h next
  workers := Function.update R.workers thread (System.onward w next)

inductive Step (R : Realm) : Cause → List Happening → Realm → Prop
  | begin (process : Nat) (plan : Plan) :
      Step R (.plan R.machine.parties.length) [] { R with machine := R.machine.begin process plan }
  | operate {i : Nat} {a : Party} {operation : Operation}
      {next : operation.Outcome → Script (Except Error (Option Store))}
      {outcome : operation.Outcome} {h : Host} (ha : R.machine.parties[i]? = some a)
      (hphase : a.phase = .busy (.perform operation next))
      (hdoes : R.machine.Does a.process operation outcome h) :
      Step R (.plan i) []
        { R with machine := R.machine.after i a h ⟨operation, outcome⟩ (.busy (next outcome)) }
  /-- A queue has been opened, and there is a handle on it. -/
  | obtain {i identity : Nat} {a : Party} {store : Store} {directory name : String}
      {options : Options} (ha : R.machine.parties[i]? = some a)
      (hphase : a.phase = .busy (.done (.ok (some store))))
      (hplan : a.plan = .opens directory name options) (hidentity : 0 < identity ∧ identity < 2 ^ 32) :
      Step R (.plan i) []
        { R with
          machine := R.machine.setPhase i a
            (.holding store ⟨store.sizing, identity, options.nonblocking⟩) }
  | call {thread i : Nat} {request : Request} {buffer : ByteArray}
      (hidle : R.workers thread = none) (hopen : R.machine.handle? i ≠ none)
      (hkept : ∀ t w, R.workers t = some w → w.number = i → w.purpose = .request)
      (hfits : request.Fits) :
      Step R (.call thread i) [] (R.setWorker thread (some ⟨i, .request, { request, buffer }⟩))
  /-- A thread begins to give up a handle that nobody uses. -/
  | leave {thread i : Nat} {purpose : Purpose} (hidle : R.workers thread = none)
      (hopen : R.machine.handle? i ≠ none) (hunused : ∀ t w, R.workers t = some w → w.number ≠ i)
      (hpurpose : purpose ≠ .request) :
      Step R (.call thread i) [] (R.setWorker thread (some (System.withdrawal i purpose)))
  | act {thread pick : Nat} {w : Worker} {a : Party} {store : Store} {h : Handle}
      {around : Surroundings} {next : Advance}
      (hworker : R.workers thread = some w) (ha : R.machine.parties[w.number]? = some a)
      (hphase : a.phase = .holding store h)
      (hstep : w.call.step thread h around pick (R.shared a store) = some next) :
      Step R (.call thread w.number) (System.news thread h next)
        (R.advance thread w a store h next)
  /-- The lock or a wait fails, and with it the call. -/
  | falter {thread : Nat} {w : Worker} {a : Party} {store : Store} {h : Handle}
      {error : SystemError} {next : Advance}
      (hworker : R.workers thread = some w) (ha : R.machine.parties[w.number]? = some a)
      (hphase : a.phase = .holding store h)
      (hfalter : w.call.falter thread h error (R.shared a store) = some next) :
      Step R (.call thread w.number) (System.news thread h next)
        (R.advance thread w a store h next)
  | expire {thread : Nat} {w : Worker} {a : Party} {store : Store} {h : Handle} {q : Shared}
      {c : Call} (hworker : R.workers thread = some w)
      (ha : R.machine.parties[w.number]? = some a) (hphase : a.phase = .holding store h)
      (hexpire : w.call.expire thread (R.shared a store) = some (q, c)) :
      Step R (.call thread w.number) []
        { R.setWorker thread (some { w with call := c }) with machine := R.write a store q }
  | stir (file : Nat) (sleeper : Nat × Condition) :
      Step R (.stir file) []
        { R with machine := R.machine.stirred file sleeper }

/-- A realm that a run comes to, from a machine on which nothing has been opened. -/
def Reachable (R : Realm) : Prop :=
  ∃ M : Machine, M.Starts ∧
    Relation.ReflTransGen (fun R R' => ∃ cause shown, Step R cause shown R') { machine := M } R

end Realm

namespace Script

variable {α β : Type}

/-- All operations of a script are of one kind. -/
def Only (kind : Operation → Prop) : Script α → Prop
  | done _ | fault _ => True
  | perform operation next => kind operation ∧ ∀ outcome, (next outcome).Only kind

theorem Only.bind {kind : Operation → Prop} {p : Script α} {k : α → Script β} (hp : p.Only kind)
    (hk : ∀ a, (k a).Only kind) : (p >>= k).Only kind := by
  change (p.bind k).Only kind
  induction p with
  | done a => exact hk a
  | fault f => exact trivial
  | perform operation next ih => exact ⟨hp.1, fun outcome => ih outcome (hp.2 outcome)⟩

end Script

/-- Removing a name takes one operation. -/
theorem Opening.only_unlink (directory name : String) :
    (Plan.unlinks directory name).script.Only fun operation => ∃ path, operation = .removeFile path := by
  refine Script.Only.bind ?_ fun result => trivial
  unfold unlink
  split
  · exact trivial
  · exact ⟨⟨_, rfl⟩, fun outcome => by cases outcome <;> exact trivial⟩

namespace Realm

variable {R R' : Realm} {cause : Cause} {shown : List Happening} {i : Nat} {a : Party} {h : Host}

/-- The bookkeeping of the machine is right, calls are made through handles, and whoever is to
remove a name does nothing else. -/
structure Sound (R : Realm) : Prop where
  machine : R.machine.Sound
  engaged {thread : Nat} {w : Worker} (hw : R.workers thread = some w) :
    ∃ a, R.machine.parties[w.number]? = some a ∧ ∀ rest, a.phase ≠ .busy rest
  unlinking {i : Nat} {a : Party} {directory name : String}
    {rest : Script (Except Error (Option Store))} (ha : R.machine.parties[i]? = some a)
    (hplan : a.plan = .unlinks directory name) (hphase : a.phase = .busy rest) :
    rest.Only fun operation => ∃ path, operation = .removeFile path

/-- The script of a thread that is busy goes on in order. -/
theorem Sound.allows {operation : Operation}
    {next : operation.Outcome → Script (Except Error (Option Store))} (hs : R.Sound)
    (ha : R.machine.parties[i]? = some a) (hphase : a.phase = .busy (.perform operation next)) :
    a.hands.Allows operation ∧ ∀ outcome,
      (a.next ⟨operation, outcome⟩ (.busy (next outcome))).Orderly := by
  have horderly := (hs.machine.settled ha).orderly
  unfold Party.Orderly at horderly
  rw [hphase] at horderly
  exact ⟨horderly.1, fun outcome => horderly.2 outcome trivial⟩

theorem Sound.fits {store : Store} {handle : Handle} (hs : R.Sound)
    (ha : R.machine.parties[i]? = some a) (hphase : a.phase = .holding store handle) :
    a.hands.Fits (.ok store) := by
  have horderly := (hs.machine.settled ha).orderly
  unfold Party.Orderly at horderly
  rw [hphase] at horderly
  exact horderly

/-- A thread with a handle has it on the file that it opened. -/
theorem Sound.found {store : Store} {handle : Handle} (hs : R.Sound)
    (ha : R.machine.parties[i]? = some a) (hphase : a.phase = .holding store handle) :
    a.hands.found = some ((R.machine.host a.process).fileOf store.mapping) :=
  (hs.machine.settled ha).held.mapping_eq _ (hs.fits ha hphase).2.1

theorem Sound.machineAfter {w : Worker} {store : Store} {handle : Handle} {next : Advance}
    (hs : R.Sound) (ha : R.machine.parties[w.number]? = some a)
    (hphase : a.phase = .holding store handle) :
    (R.machineAfter w a store handle next).Sound := by
  have hfits := hs.fits ha hphase
  have hwritten := hs.machine.setShared ((R.machine.host a.process).fileOf store.mapping) next.shared
  unfold Realm.machineAfter
  dsimp only
  split
  · exact hwritten.setPhase ha hfits
  · exact hwritten.after ha hfits.2.1 (.unmap ..) ⟨hfits.1, rfl⟩

/-- Whoever is no longer busy does not become so again. -/
def Idles (M M' : Machine) : Prop :=
  ∀ {i : Nat} {a : Party}, M.parties[i]? = some a → (∀ rest, a.phase ≠ .busy rest) →
    ∃ b, M'.parties[i]? = some b ∧ ∀ rest, b.phase ≠ .busy rest

theorem idles_set {M : Machine} {parties : List Party} {b : Party}
    (hb : (∃ rest, a.phase = .busy rest) ∨ ∀ rest, b.phase ≠ .busy rest)
    (ha : M.parties[i]? = some a) (hparties : parties = M.parties.set i b) :
    Idles M { M with parties } := by
  intro j c hc hidle
  subst hparties
  by_cases hij : i = j
  · subst hij
    have hlt := (List.getElem?_eq_some_iff.mp hc).1
    refine ⟨b, List.getElem?_set_self hlt, ?_⟩
    refine hb.resolve_left fun ⟨rest, hbusy⟩ => ?_
    cases ha.symm.trans hc
    exact hidle rest hbusy
  · exact ⟨c, (List.getElem?_set_ne hij).trans hc, hidle⟩

theorem Sound.engaged_of (hs : R.Sound) {M : Machine} (hidles : Idles R.machine M)
    {workers : Nat → Option Worker}
    (hbefore : ∀ t w', workers t = some w' → R.machine.handle? w'.number ≠ none ∨
      ∃ t' w, R.workers t' = some w ∧ w'.number = w.number)
    {thread : Nat} {w : Worker} (hw : workers thread = some w) :
    ∃ a, M.parties[w.number]? = some a ∧ ∀ rest, a.phase ≠ .busy rest := by
  rcases hbefore thread w hw with hopen | ⟨t, v, hv, hnumber⟩
  · cases ha : R.machine.parties[w.number]? with
    | none =>
      simp only [Machine.handle?, ha] at hopen
      exact absurd rfl hopen
    | some a =>
      refine hidles ha fun rest hbusy => hopen ?_
      simp only [Machine.handle?, ha, Option.bind_some, hbusy]
  · obtain ⟨a, ha, hidle⟩ := hs.engaged hv
    rw [hnumber]
    exact hidles ha hidle

/-- One thread's call changes, and it is a call through a handle. -/
theorem Sound.engaged_update (hs : R.Sound) {M : Machine} (hidles : Idles R.machine M)
    {thread : Nat} {worker : Option Worker}
    (hnumber : ∀ w', worker = some w' → R.machine.handle? w'.number ≠ none ∨
      ∃ t' w, R.workers t' = some w ∧ w'.number = w.number)
    {t : Nat} {w : Worker} (hw : Function.update R.workers thread worker t = some w) :
    ∃ a, M.parties[w.number]? = some a ∧ ∀ rest, a.phase ≠ .busy rest := by
  refine hs.engaged_of hidles (fun t w' hw' => ?_) hw
  by_cases ht : t = thread
  · subst ht
    rw [Function.update_self] at hw'
    exact hnumber w' hw'
  · rw [Function.update_of_ne ht] at hw'
    exact Or.inr ⟨t, w', hw', rfl⟩

theorem number_onward {w w' : Worker} {next : Advance} (hw : System.onward w next = some w') :
    w'.number = w.number := by
  unfold System.onward at hw
  split at hw
  · split at hw
    · cases hw
      rfl
    · cases hw
  · cases hw
    rfl

/-- A machine after a step of a call differs in the phase of the handle's thread, and what that
has left in its hands. -/
theorem parties_machineAfter (R : Realm) (w : Worker) (a : Party) (store : Store) (h : Handle)
    (next : Advance) : ∃ b : Party, (R.machineAfter w a store h next).parties =
        R.machine.parties.set w.number b ∧ b.plan = a.plan ∧ b.process = a.process ∧
      b.hands.found = a.hands.found ∧ (∀ rest, b.phase ≠ .busy rest) ∧
      (match b.phase with
        | .holding _ handle => some handle
        | _ => none) = System.handleAfter w h next := by
  unfold machineAfter
  dsimp only
  cases hafter : System.handleAfter w h next with
  | some h' => exact ⟨{ a with phase := .holding store h' }, rfl, rfl, rfl, rfl, nofun, rfl⟩
  | none => exact ⟨a.next ⟨.unmap store.mapping, ()⟩ .gone, rfl, rfl, rfl, rfl, nofun, rfl⟩

theorem Sound.advance {thread : Nat} {w : Worker} {store : Store} {handle : Handle}
    {next : Advance} (hs : R.Sound) (hworker : R.workers thread = some w)
    (ha : R.machine.parties[w.number]? = some a) (hphase : a.phase = .holding store handle) :
    (R.advance thread w a store handle next).Sound := by
  obtain ⟨b, hparties, hplan, -, -, hidle, -⟩ := R.parties_machineAfter w a store handle next
  refine ⟨hs.machineAfter ha hphase, hs.engaged_update (idles_set (Or.inr hidle) ha hparties)
    (fun w' hw' => Or.inr ⟨thread, w, hworker, number_onward hw'⟩), fun hb hplan' hbusy => ?_⟩
  change (R.machineAfter w a store handle next).parties[_]? = _ at hb
  rw [hparties] at hb
  rcases Machine.getElem?_set_cases hb with ⟨-, rfl⟩ | ⟨-, hb⟩
  · exact absurd hbusy (hidle _)
  · exact hs.unlinking hb hplan' hbusy

theorem Sound.step (hs : R.Sound) (hstep : Step R cause shown R') : R'.Sound := by
  cases hstep with
  | begin process plan =>
    refine ⟨hs.machine.begin process plan, fun hw => ?_, fun hb hplan hbusy => ?_⟩
    · obtain ⟨a, ha, hidle⟩ := hs.engaged hw
      exact ⟨a, Machine.getElem?_concat_of ha _, hidle⟩
    · rcases Machine.getElem?_concat_cases hb with hb | rfl
      · exact hs.unlinking hb hplan hbusy
      · cases hplan
        cases hbusy
        exact Opening.only_unlink _ _
  | @operate i a operation next outcome h ha hphase hdoes =>
    obtain ⟨hallows, hnext⟩ := hs.allows ha hphase
    refine ⟨hs.machine.after ha hallows hdoes (hnext outcome), fun hw => ?_, fun hb hplan hbusy => ?_⟩
    · exact hs.engaged_of (idles_set (Or.inl ⟨_, hphase⟩) ha rfl)
        (fun t w hw => Or.inr ⟨t, w, hw, rfl⟩) hw
    · rcases Machine.getElem?_set_cases hb with ⟨-, rfl⟩ | ⟨-, hb⟩
      · cases hbusy
        exact (hs.unlinking ha hplan hphase).2 outcome
      · exact hs.unlinking hb hplan hbusy
  | @obtain i identity a store directory name options ha hphase hplan hidentity =>
    have horderly := (hs.machine.settled ha).orderly
    unfold Party.Orderly at horderly
    rw [hphase] at horderly
    refine ⟨hs.machine.setPhase ha horderly, fun hw => ?_, fun hb hplan' hbusy => ?_⟩
    · exact hs.engaged_of (idles_set (Or.inl ⟨_, hphase⟩) ha rfl)
        (fun t w hw => Or.inr ⟨t, w, hw, rfl⟩) hw
    · rcases Machine.getElem?_set_cases hb with ⟨-, rfl⟩ | ⟨-, hb⟩
      · cases hbusy
      · exact hs.unlinking hb hplan' hbusy
  | call hidle hopen hkept hfits =>
    exact ⟨hs.machine, hs.engaged_update (fun ha hidle => ⟨_, ha, hidle⟩)
      (fun w' hw' => by cases hw'; exact Or.inl hopen), hs.unlinking⟩
  | leave hidle hopen hunused hpurpose =>
    exact ⟨hs.machine, hs.engaged_update (fun ha hidle => ⟨_, ha, hidle⟩)
      (fun w' hw' => by cases hw'; exact Or.inl hopen), hs.unlinking⟩
  | act hworker ha hphase => exact hs.advance hworker ha hphase
  | falter hworker ha hphase => exact hs.advance hworker ha hphase
  | @expire thread w a store h q c hworker ha hphase hexpire =>
    exact ⟨hs.machine.setShared _ q, hs.engaged_update (fun ha hidle => ⟨_, ha, hidle⟩)
      (fun w' hw' => by cases hw'; exact Or.inr ⟨thread, w, hworker, rfl⟩), hs.unlinking⟩
  | stir file sleeper => exact ⟨hs.machine.setShared file _, hs.engaged, hs.unlinking⟩

end Realm

theorem Machine.Starts.sound {M : Machine} (hs : M.Starts) : M.Sound := by
  have hunused : ∀ process mapping, (M.host process).inUse mapping = false := fun process mapping => by
    simp only [Machine.host, Host.inUse, hs.mappings]
    rfl
  have hnamed : ∀ {f}, M.Serves f → f ∈ M.disk.named := by
    rintro f ⟨process, hnamed | hopened | ⟨mapping, hin, -⟩⟩
    · exact hnamed
    · simp only [Machine.host, hs.opened process] at hopened
      cases hopened
    · rw [hunused process mapping] at hin
      cases hin
  constructor
  case formed => exact hs.formed
  case distinct => exact fun hf hg => hs.distinct _ (hnamed hf) _ (hnamed hg)
  case hosts =>
    intro process
    constructor
    · intro file hfile
      simp only [Machine.host, hs.opened process] at hfile
      cases hfile
    · intro mapping hlt
      simp only [Machine.host, hs.mappings process] at hlt
      exact absurd hlt (Nat.not_lt_zero _)
    · intro entry hentry
      simp only [Machine.host, hs.known process] at hentry
      cases hentry
  case opened =>
    intro process file
    simp only [Machine.host, hs.opened process, hs.parties, List.count_nil, List.countP_nil]
  case users =>
    intro process mapping
    simp only [Machine.host, Host.users, hs.mappings process, hs.parties, List.countP_nil]
    rfl
  case remembers =>
    intro process mapping hin
    rw [hunused process mapping] at hin
    cases hin
  case settled =>
    intro i a ha
    rw [hs.parties] at ha
    cases ha
  case makers =>
    intro i j a b ha
    rw [hs.parties] at ha
    cases ha

/-- Whatever a run comes to, the bookkeeping is right. -/
theorem Realm.Reachable.sound {R : Realm} (hr : R.Reachable) : R.Sound := by
  obtain ⟨M, hstarts, hrun⟩ := hr
  induction hrun with
  | refl =>
    refine ⟨hstarts.sound, fun hw => (nomatch hw), fun {i a _ _ _} ha => ?_⟩
    change M.parties[i]? = some a at ha
    rw [hstarts.parties] at ha
    cases ha
  | tail _ hstep ih =>
    obtain ⟨cause, shown, hstep⟩ := hstep
    exact ih.step hstep

end MappedQueue
