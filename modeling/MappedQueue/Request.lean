import MappedQueue.Error
import MappedQueue.Event

/-!
# What can be asked of an open queue

A request is one call on an open queue. Sending and receiving may have to wait; a
deadline says until when. The other requests only take the lock for a moment.
-/

namespace MappedQueue

inductive Condition where
  /-- A message was taken from the full queue. -/
  | notFull
  /-- A message was put on the empty queue. -/
  | notEmpty
  deriving DecidableEq, Repr

/-- What a blocked call does when an interruption arrives. -/
inductive Policy where
  | restart
  | fail
  deriving DecidableEq, Repr

/-- Why a call gave up waiting. -/
inductive Setback where
  | timedOut
  | cancelled
  | interrupted
  deriving DecidableEq, Repr

def Setback.error : Setback → Error
  | timedOut => .timedOut
  | cancelled => .cancelled
  | interrupted => .interrupted

/-- A call on an open queue. Deadlines are points in time; a call without one waits as
long as it takes. -/
inductive Request where
  | send (message : ByteArray) (priority : Nat) (deadline : Option Nat)
  | receive (deadline : Option Nat)
  | attributes
  | setNonblocking (on : Bool)
  /-- Registers for a notification, or withdraws the registration. -/
  | notify (event : Option Event)
  /-- Takes the lock, waits once, and gives the lock back, all without a look at the
  queue. -/
  | linger (condition : Condition) (policy : Policy) (deadline : Option Nat)

namespace Request

/-- Whether the request moves a message. -/
def transfers : Request → Bool
  | send _ _ _ | receive _ => true
  | _ => false

/-- Whether the request is refused where the tag of the queue is broken. -/
def needsTag : Request → Bool
  | linger _ _ _ => false
  | _ => true

/-- What the request waits for when it has to wait. -/
def condition : Request → Condition
  | send _ _ _ => .notFull
  | linger condition _ _ => condition
  | _ => .notEmpty

/-- What an interruption does to the request while it asks for the lock. -/
def lockPolicy (request : Request) : Policy := if request.transfers then .fail else .restart

/-- What an interruption does to the request while it waits. -/
def waitPolicy : Request → Policy
  | linger _ policy _ => policy
  | request => request.lockPolicy

def deadline : Request → Option Nat
  | send _ _ deadline | receive deadline | linger _ _ deadline => deadline
  | _ => none

end Request

/-- What a successful call yields. A received message is in the caller's buffer. -/
inductive Reply where
  | sent
  | received (length priority : Nat)
  /-- The attributes; for a change, as they were before it. -/
  | attributes (attributes : Attributes)
  | notified
  /-- The wait was over, unless there was a setback. -/
  | waited (setback : Option Setback)
  deriving DecidableEq, Repr

abbrev Answer := Except Error Reply

end MappedQueue
