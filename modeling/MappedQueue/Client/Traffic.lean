import MappedQueue.Client.Schedule
import MappedQueue.Message

/-!
# Many messages at once

Runs of sends and of receives that end with the first refusal, and an exchange in which
several threads send and several receive until all messages have arrived.
-/

namespace MappedQueue

/-- The message that a call has received into its buffer. -/
def Outcome.message? (outcome : Outcome) : Option Message :=
  match outcome.answer with
  | .ok (.received length priority) => some ⟨outcome.buffer.extract 0 length, priority⟩
  | _ => none

namespace Client

/-- Sends messages one after the other until one is refused. Yields how many were sent, on
top of `sent`, and the refusal. -/
def sendEach (queue : Nat) (deadline : Option Nat) : List Message → (sent : Nat) → Client →
    (Nat × Option Error) × Client
  | [], sent, p => ((sent, none), p)
  | message :: rest, sent, p =>
    match p.call queue { request := .send message.bytes message.priority deadline } with
    | (some { answer := .ok _, .. }, p) => sendEach queue deadline rest (sent + 1) p
    | (some { answer := .error error, .. }, p) => ((sent, some error), p)
    | (none, p) => ((sent, none), p)

/-- Receives up to `count` messages, each into a buffer of `room` bytes, until a receive is
refused. Yields the messages, on top of those in `got`, latest first, and the refusal. -/
def receiveEach (queue room : Nat) (deadline : Option Nat) : (count : Nat) →
    (got : List Message) → Client → (List Message × Option Error) × Client
  | 0, got, p => ((got.reverse, none), p)
  | count + 1, got, p =>
    match p.call queue { request := .receive deadline, buffer := Region.zeroBytes room } with
    | (some outcome, p) =>
      match outcome.answer, outcome.message? with
      | .ok _, some message => receiveEach queue room deadline count (message :: got) p
      | .ok _, none => ((got.reverse, none), p)
      | .error error, _ => ((got.reverse, some error), p)
    | (none, p) => ((got.reverse, none), p)

/-- Starts a thread for each list of jobs, all at once, and yields the first of them. -/
def spawnAll (p : Client) (queue : Nat) (work : List (List Job)) : Nat × Client :=
  (p.threads.size,
    { p with threads := p.threads ++ (work.map fun jobs => ({ queue, jobs } : Thread)).toArray })

/-- Divides a number of receives among `receivers` threads, as evenly as it goes. -/
def shares (total receivers : Nat) : List Nat :=
  (List.range receivers).map fun i =>
    total / receivers + (if i < total % receivers then 1 else 0)

/-- Lets one thread for each list of messages send them, and `receivers` threads receive
all of them. Yields what they received. -/
def exchange (p : Client) (queue room : Nat) (senders : List (List Message)) (receivers : Nat) :
    List Message × Client :=
  let total := (senders.map List.length).foldl (· + ·) 0
  let receive : Job := { request := .receive none, buffer := Region.zeroBytes room }
  let work := senders.map (·.map fun message =>
      ({ request := .send message.bytes message.priority none } : Job))
    ++ (shares total receivers).map (List.replicate · receive)
  let (first, p) := p.spawnAll queue work
  let mine := (List.range work.length).map (first + ·)
  let p := p.await (fun p => mine.all fun t => (p.thread t).idle) false patience
  (mine.flatMap fun t => (p.thread t).outcomes.reverse.filterMap Outcome.message?, p)

end Client

end MappedQueue
