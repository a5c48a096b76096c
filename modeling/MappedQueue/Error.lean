import MappedQueue.Errno
import MappedQueue.Text.Quoted

/-!
# Refusals

An error tells the caller why a call did not do what it was asked to. Each has one
text and one number, the number that a POSIX message queue would report in its place.
-/

namespace MappedQueue

/-- A failure below the queue: one that the operating system numbers, or one that only
has a text. -/
inductive SystemError where
  | code (number : Int)
  | described (text : String)
  deriving DecidableEq, Repr

namespace SystemError

def message : SystemError → String
  | code number => Errno.text number ++ " (os error " ++ toString number ++ ")"
  | described text => text

/-- The number of the failure; one without a number counts as an input/output error. -/
def number : SystemError → Int
  | code number => number
  | described _ => Errno.io

end SystemError

inductive Error where
  /-- The sizing asked for is outside the limits. -/
  | invalidAttributes
  /-- The name is not a slash followed by a file name. -/
  | invalidName (name : String)
  /-- The message has more bytes than a message of this queue may have. -/
  | messageTooLarge (length limit : Nat)
  /-- The buffer would not hold every message of this queue. -/
  | bufferTooSmall (length required : Nat)
  | invalidPriority (priority : Nat)
  /-- The call would have to wait, and its handle does not want to. -/
  | wouldBlock
  | timedOut
  /-- An interruption arrived while the call was blocked. -/
  | interrupted
  | cancelled
  /-- The file is not a queue, or no longer. -/
  | badHandle
  /-- The creator of the file has not finished it. -/
  | notReady
  | busy
  | system (cause : SystemError)
  deriving DecidableEq, Repr

namespace Error

def message : Error → String
  | invalidAttributes => "invalid queue attributes"
  | invalidName name => "invalid queue name: " ++ Text.Quoted.encode name
  | messageTooLarge length limit => s!"message of {length} bytes exceeds message size {limit}"
  | bufferTooSmall length required =>
    s!"receive buffer of {length} bytes is smaller than message size {required}"
  | invalidPriority priority => s!"invalid message priority {priority}"
  | wouldBlock => "operation would block"
  | timedOut => "operation timed out"
  | interrupted => "operation interrupted"
  | cancelled => "operation cancelled"
  | badHandle => "not a valid message queue"
  | notReady => "message queue initialisation in progress"
  | busy => "notification already registered"
  | system cause => "io error: " ++ cause.message

def errno : Error → Int
  | invalidAttributes | invalidName _ | invalidPriority _ => Errno.invalid
  | messageTooLarge _ _ | bufferTooSmall _ _ => Errno.messageSize
  | wouldBlock => Errno.wouldBlock
  | timedOut | notReady => Errno.timedOut
  | interrupted => Errno.interrupted
  | cancelled => Errno.cancelled
  | badHandle => Errno.badDescriptor
  | busy => Errno.busy
  | system cause => cause.number

end Error

end MappedQueue
