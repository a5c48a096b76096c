import MappedQueue.Call
import MappedQueue.Notifier
import MappedQueue.Opening

/-!
# A client of queues

A client is a process with open handles and threads. Thread 0 is the one it started with. A thread
works through its jobs, calls on one handle, one after the other; each step of a call
changes what the users of the queue share and may set off a notification. Time passes
only when the process lets it.
-/

namespace MappedQueue

structure Queue where
  name : String
  file : String
  store : Store
  handle : Handle
  notifier : Notifier
  deriving Repr

structure Job where
  request : Request
  buffer : ByteArray := ByteArray.empty

/-- A call that is over. -/
structure Outcome where
  answer : Answer
  /-- The buffer as the call left it. -/
  buffer : ByteArray

/-- A receive into a new buffer, which has room for any message. -/
def Job.receiveNew (s : Sizing) : Job :=
  { request := .receive none, buffer := Region.zeroBytes s.messageSize }

/-- What the caller gets whose receive went into a new buffer: the buffer is trimmed to the message,
and nobody has it if there is none. -/
def Outcome.trimmed (outcome : Outcome) : Outcome :=
  match outcome.answer with
  | .ok (.received length _) => { outcome with buffer := outcome.buffer.extract 0 length }
  | _ => { outcome with buffer := ByteArray.empty }

structure Thread where
  /-- The handle that its calls are on. -/
  queue : Nat := 0
  /-- The calls it has not begun. -/
  jobs : List Job := []
  call : Option Call := none
  /-- When the slice ends in which the call is blocked. -/
  sliceEnd : Nat := 0
  cancelled : Bool := false
  /-- The calls that are over, latest first. -/
  outcomes : List Outcome := []

instance : Inhabited Thread := ⟨{}⟩

structure Client where
  host : Host := {}
  /-- All handles there have been. -/
  queues : Array Queue := #[]
  threads : Array Thread := #[{}]
  now : Nat := 1
  interruptions : Nat := 0
  notices : Notices
  fault : Option Fault := none

namespace Thread

def idle (t : Thread) : Bool := t.call.isNone && t.jobs.isEmpty

end Thread

namespace Client

/-- The thread the process started with. -/
def main : Nat := 0

def thread (p : Client) (t : Nat) : Thread := p.threads[t]?.getD default

/-- What the users of the queue behind a handle share. -/
def shared (p : Client) (queue : Queue) : Shared := p.host.shared queue.store.mapping

def setThread (p : Client) (t : Nat) (f : Thread → Thread) : Client :=
  { p with threads := p.threads.modify t f }

def setQueue (p : Client) (number : Nat) (f : Queue → Queue) : Client :=
  { p with queues := p.queues.modify number f }

/-- Hands out the host and leaves nothing in its place. -/
@[noinline] def takeHost (p : Client) : Host × Client :=
  (p.host, { p with host := { disk := ⟨#[], #[]⟩ } })

/-- Lets `f` change what the users of the queue behind a handle share. -/
def access {α : Type} (p : Client) (queue : Queue) (f : Shared → α × Shared) : α × Client :=
  match p.takeHost with
  | (host, rest) =>
    match host.access queue.store.mapping f with
    | (a, host) => (a, { rest with host })

/-- Changes the bytes of the queue behind a handle. -/
def edit (p : Client) (queue : Queue) (f : Region → Region) : Client :=
  (p.access queue fun q => ((), { q with region := f q.region })).2

/-- Runs a script; a fault ends the process. -/
def perform {α : Type} (p : Client) (script : Script α) : Option α × Client :=
  match p.takeHost with
  | (host, rest) =>
    match script.run host with
    | (.ok a, host) => (some a, { rest with host })
    | (.error fault, host) => (none, { rest with host, fault := some fault })

/-- Opens a queue. The handle registers for notifications as `identity`. -/
def openQueue (p : Client) (directory name : String) (options : Options) (identity : Nat)
    (notifier : Notifier) : Except Error Nat × Client :=
  match p.perform (Opening.run directory name options) with
  | (some (.ok store), p) =>
    let number := p.queues.size
    let queue : Queue := {
      name, file := Name.storePath directory name, store, notifier
      handle := ⟨store.sizing, identity, options.nonblocking⟩ }
    (.ok number, { p with queues := p.queues.push queue })
  | (some (.error error), p) => (.error error, p)
  | (none, p) => (.error .badHandle, p)

def surroundings (p : Client) (t : Nat) (queue : Queue) : Surroundings where
  cancelled := (p.thread t).cancelled
  interruptions := p.interruptions
  now := p.now
  herald := queue.notifier.herald p.notices

/-- Delivers a notification. -/
def deliver (p : Client) (notifier : Notifier) (delivery : Delivery) : Client :=
  { p with notices := (notifier.deliver p.notices delivery).2 }

/-- Puts a thread where a step of its call has brought it. -/
def settleCall (p : Client) (t : Nat) (call : Call) : Client :=
  match call.point with
  | .answered answer =>
    p.setThread t fun thread =>
      { thread with call := none, outcomes := ⟨answer, call.buffer⟩ :: thread.outcomes }
  | .broken fault => { p with fault := some fault }
  | _ =>
    let sliceEnd := p.now + call.sliceLength p.now
    p.setThread t ({ · with call := some call, sliceEnd })

/-- One step of a thread, if it can take one. -/
def step (t : Nat) (p : Client) : Option Client :=
  let thread := p.thread t
  match thread.call, thread.jobs with
  | none, [] => none
  | none, job :: jobs =>
    let call : Call := { request := job.request, buffer := job.buffer }
    some (p.setThread t ({ · with call := some call, jobs }))
  | some call, _ =>
    match p.queues[thread.queue]? with
    | none => none
    | some queue =>
      let around := p.surroundings t queue
      let (advance?, p) := p.access queue fun q =>
        match call.step t queue.handle around 0 q with
        | some advance => (some (advance.call, advance.nonblocking, advance.delivery), advance.shared)
        | none => (none, q)
      match advance? with
      | none => none
      | some (call, nonblocking, delivery) =>
        let p := p.setQueue thread.queue fun queue =>
          { queue with handle := { queue.handle with nonblocking } }
        let p := match delivery with
          | some delivery => p.deliver queue.notifier delivery.toDelivery
          | none => p
        some (p.settleCall t call)

/-- The end of the slice in which a thread is blocked. -/
def expire (p : Client) (t : Nat) : Client :=
  let thread := p.thread t
  match thread.call, p.queues[thread.queue]? with
  | some call, some queue =>
    let (call?, p) := p.access queue fun q =>
      match call.expire t q with
      | some (q, call) => (some call, q)
      | none => (none, q)
    match call? with
    | some call => p.setThread t ({ · with call := some call })
    | none => p
  | _, _ => p

end Client

end MappedQueue
