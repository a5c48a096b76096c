import MappedQueue.Name
import MappedQueue.Store

/-!
# Opening a queue

Opening runs in rounds. In a round a caller who asks for it tries to create the file; if
the file exists, or creation was not asked for, the caller attaches to it. A file that
is not ready is looked at again a few times. When the file is gone before the attach, a
caller who may create it starts another round.
-/

namespace MappedQueue

/-- How a queue is to be opened. -/
structure Options where
  create : Bool := false
  /-- With `create`: the queue must not exist yet. -/
  exclusive : Bool := false
  nonblocking : Bool := false
  mode : Nat := 0o600
  sizing : Sizing := Sizing.standard
  /-- How often a file that is not ready is looked at again. -/
  retries : Nat := 10
  deriving DecidableEq, Repr

namespace Opening

/-- There are no more rounds than this. -/
def rounds : Nat := 16

/-- Attaches, looking at a file that is not ready up to `retries` times again. -/
def attach (path : String) : (retries : Nat) → Script (Except Error Store)
  | 0 => do
    match ← Store.attach path with
    | .error .notReady => return .error .timedOut
    | other => return other
  | retries + 1 => do
    match ← Store.attach path with
    | .error .notReady =>
      Script.call .pause
      attach path retries
    | other => return other

/-- Makes a created file a queue. A file that cannot be made one is removed again. -/
def finish (path : String) (store : Store) : Script (Except Error Store) := do
  match ← store.initialise with
  | .ok () => return .ok store
  | .error error =>
    Script.call (.unmap store.mapping)
    let _ ← Script.call (.removeFile path)
    return .error error

/-- Attaches, and goes on with `again` if the file does not exist and may be created. -/
def join (path : String) (options : Options) (again : Script (Except Error Store)) :
    Script (Except Error Store) := do
  match ← attach path options.retries with
  | .ok store => return .ok store
  | .error error =>
    if error = .system (.code Errno.noEntry) ∧ options.create then again
    else return .error error

/-- Up to `left` rounds. -/
def round (path : String) (options : Options) : (left : Nat) → Script (Except Error Store)
  | 0 => return .error .timedOut
  | left + 1 => do
    if options.create then
      match ← Store.create path options.sizing options.mode with
      | .ok store => finish path store
      | .error error =>
        if error = .system (.code Errno.alreadyExists) ∧ !options.exclusive then
          join path options (round path options left)
        else return .error error
    else join path options (round path options left)

/-- Opens the queue `name` in a directory, which is made if it is missing. -/
def run (directory name : String) (options : Options) : Script (Except Error Store) := do
  match Name.validate name with
  | .error error => return .error error
  | .ok () =>
    if options.create ∧ ¬ options.sizing.Valid then return .error .invalidAttributes
    else
      match ← Script.call (.makeDirectories directory) with
      | .error error => return .error (.system error)
      | .ok () => round (Name.storePath directory name) options rounds

/-- Removes the name of the queue `name` in a directory. Open handles go on using the
file. -/
def unlink (directory name : String) : Script (Except Error Unit) := do
  match Name.validate name with
  | .error error => return .error error
  | .ok () =>
    match ← Script.call (.removeFile (Name.storePath directory name)) with
    | .error error => return .error (.system error)
    | .ok () => return .ok ()

end Opening

end MappedQueue
