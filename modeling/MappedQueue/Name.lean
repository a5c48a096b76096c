import MappedQueue.Error
import MappedQueue.Fnv
import MappedQueue.Text.Hex

/-!
# Names of queues

A queue is named by a slash and a file name; the file of that name in the queue
directory holds the queue. Where a system needs a name of its own for an object that
belongs to a queue, it is made from the hash of the path.
-/

namespace MappedQueue.Name

/-- The part after the slash has at most this many bytes. -/
def maxBytes : Nat := 255

def byteCount (cs : List Char) : Nat := (cs.map Char.utf8Size).foldl (· + ·) 0

/-- What may follow the slash: at least one character, not too many bytes, and neither
another slash nor a NUL. -/
def bodyAllowed (body : List Char) : Bool :=
  !body.isEmpty && byteCount body ≤ maxBytes && !body.contains '/' && !body.contains '\x00'

def allowed (name : String) : Bool :=
  match name.toList with
  | '/' :: body => bodyAllowed body
  | _ => false

def validate (name : String) : Except Error Unit :=
  if allowed name then .ok () else .error (.invalidName name)

/-- Appends a relative path to a directory, with a slash between them unless the
directory is empty or ends in one. -/
def join (directory relative : List Char) : List Char :=
  if directory.isEmpty || directory.getLast? == some '/' then directory ++ relative
  else directory ++ ['/'] ++ relative

/-- The path of the file that holds the queue `name` in `directory`. -/
def storePath (directory name : String) : String :=
  String.ofList (join directory.toList (name.toList.dropWhile (· == '/')))

/-- The name of a system object that belongs to the queue at `path`. -/
def objectName (path suffix : String) : String :=
  "libmq_" ++ String.ofList (Text.Hex.padded 16 (Fnv.hash path.toUTF8.data.toList).toNat) ++
    "_" ++ suffix

/-- The variable that selects the queue directory. -/
def directoryVariable : String := "LIBMQ_DIR"

/-- The queue directory when the caller names none: what the setting says, or else a
directory in shared memory if there is shared memory, or else one among the temporary
files. -/
def defaultDirectory (setting : Option String) (sharedMemory : Bool) (temporary : String) :
    String :=
  match setting with
  | some directory => directory
  | none =>
    if sharedMemory then "/dev/shm/mqueue"
    else String.ofList (join temporary.toList "mqueue".toList)

end MappedQueue.Name
