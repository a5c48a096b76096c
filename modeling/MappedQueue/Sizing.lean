/-!
# How large a queue is

A queue is sized once, by its creator: how many messages it holds at most and how
many bytes one message may have. Both numbers are limited, and a sizing outside the
limits is refused before anything is created. The attributes of a queue are what an
open handle can ask for: its own blocking mode, the sizing, and how many messages
are queued at the moment.
-/

namespace MappedQueue

/-- The two numbers that fix the shape of a queue for good. -/
structure Sizing where
  capacity : Nat
  messageSize : Nat
  deriving DecidableEq, Repr

namespace Sizing

def maxCapacity : Nat := 32768

def maxMessageSize : Nat := 1048576

/-- The sizing of a queue whose creator asks for nothing else. -/
def standard : Sizing := ⟨10, 8192⟩

/-- Both numbers are positive and within their limits. -/
def Valid (s : Sizing) : Prop :=
  (0 < s.capacity ∧ s.capacity ≤ maxCapacity) ∧
    (0 < s.messageSize ∧ s.messageSize ≤ maxMessageSize)

instance (s : Sizing) : Decidable s.Valid :=
  inferInstanceAs (Decidable (_ ∧ _))

end Sizing

/-- A message's priority is below this number. -/
def priorityLimit : Nat := 32768

/-- What a handle tells about itself and its queue. -/
structure Attributes where
  /-- Whether calls through this handle fail where they would have to wait. -/
  nonblocking : Bool := false
  sizing : Sizing := Sizing.standard
  queued : Nat := 0
  deriving DecidableEq, Repr

end MappedQueue
