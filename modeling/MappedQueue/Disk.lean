import MappedQueue.Path
import MappedQueue.Shared

/-!
# Files and directories

A disk is a tree of directories, links and names of files, and beside it the files
themselves, numbered in the order in which they were made. A file that has lost its
name stays among the files, so whoever has it open goes on using it, and a file made
later under the same name is another file.
-/

namespace MappedQueue

structure File where
  /-- The number by which the system tells files apart that exist at the same time. -/
  identity : Nat
  mode : Nat
  /-- The bytes, and the lock and conditions of the queue they hold. -/
  shared : Shared

instance : Inhabited File := ⟨⟨0, 0, { region := default }⟩⟩

/-- What a name in a directory stands for. -/
inductive Node where
  | file (serial : Nat)
  | directory (parent : Nat) (entries : List (String × Nat))
  /-- Another path to follow from the directory that holds the link. -/
  | link (target : Path)
  deriving DecidableEq, Repr, Inhabited

/-- What a path is followed for. -/
structure Aim where
  /-- Whether a link in the last step is followed. -/
  follow : Bool
  /-- Whether a file is made at the end if there is none. -/
  makes : Bool := false
  deriving DecidableEq, Repr

/-- The tree and the files. -/
structure Disk where
  nodes : Array Node
  files : Array File

/-- Where a path leads: the directory it ends in, the name there unless it ends in a
directory by a dot step, and what has that name. -/
structure Landing where
  directory : Nat
  name : Option String
  node : Option Nat
  deriving DecidableEq, Repr

namespace Disk

def top : Nat := 0

def working : Nat := 1

/-- A disk with an empty working directory right under the top one. -/
def fresh : Disk where
  nodes := #[.directory top [("queues", working)], .directory top []]
  files := #[]

def maxStepBytes : Nat := 255

/-- No path leads through more links than this. -/
def maxLinks : Nat := 40

def parent (d : Disk) (directory : Nat) : Nat :=
  match d.nodes[directory]? with
  | some (.directory parent _) => parent
  | _ => directory

def entry? (d : Disk) (directory : Nat) (name : String) : Option Nat :=
  match d.nodes[directory]? with
  | some (.directory _ entries) => entries.lookup name
  | _ => none

/-- Where the rest of a link's path starts. -/
def linkStart (directory : Nat) (target : Path) : Nat :=
  if target.absolute then top else directory

/-- Whether only a slash comes after a step. -/
def slashAfter (rest : List String) : Bool := !rest.isEmpty && rest.all (· == Path.nameless)

/-- Takes steps from a directory. A link is followed by `again`, except a link in the
last step if the aim is not to follow it. A name with a slash after it can not be the
name of a file to be made, whatever it stands for. -/
def walk (d : Disk) (again : Nat → List String → Except SystemError Landing) (aim : Aim)
    (directory : Nat) : List String → Except SystemError Landing
  | [] => .ok ⟨directory, none, some directory⟩
  | step :: rest =>
    if step == Path.here || step == Path.nameless then walk d again aim directory rest
    else if step == Path.up then walk d again aim (d.parent directory) rest
    else if aim.makes && slashAfter rest then .error (.code Errno.isDirectory)
    else if maxStepBytes < step.utf8ByteSize then .error (.code Errno.nameTooLong)
    else match d.entry? directory step with
      | none =>
        if rest.isEmpty then .ok ⟨directory, some step, none⟩
        else .error (.code Errno.noEntry)
      | some node =>
        match d.nodes[node]? with
        | some (.directory _ _) =>
          if rest.isEmpty then .ok ⟨directory, some step, some node⟩
          else walk d again aim node rest
        | some (.link target) =>
          if rest.isEmpty && !aim.follow then .ok ⟨directory, some step, some node⟩
          else again (linkStart directory target) (target.walked ++ rest)
        | _ =>
          if rest.isEmpty then .ok ⟨directory, some step, some node⟩
          else .error (.code Errno.notDirectory)

/-- Takes steps from a directory and follows fewer than `links` links. -/
def resolve (d : Disk) (aim : Aim) : (links directory : Nat) → List String →
    Except SystemError Landing
  | 0, _, _ => .error (.code Errno.tooManyLinks)
  | links + 1, directory, steps => walk d (resolve d aim links) aim directory steps

def locate (d : Disk) (aim : Aim) (path : Path) : Except SystemError Landing :=
  if path.isEmpty then .error (.code Errno.noEntry)
  else resolve d aim (maxLinks + 1) (if path.absolute then top else working) path.walked

/-- What a path leads to, links followed. -/
def find (d : Disk) (path : Path) : Except SystemError Node := do
  let landing ← d.locate { follow := true } path
  match landing.node.bind (d.nodes[·]?) with
  | some node => return node
  | none => .error (.code Errno.noEntry)

def isDirectory (d : Disk) (path : Path) : Bool :=
  match d.find path with
  | .ok (.directory _ _) => true
  | _ => false

def ownerReads : Nat := 0o400

def ownerWrites : Nat := 0o200

/-- Whether the permission bits of a file include some bits. -/
def permits (d : Disk) (serial bits : Nat) : Bool :=
  match d.files[serial]? with
  | some file => file.mode &&& bits == bits
  | none => false

/-- The file that a path leads to, opened by its owner for reading and writing. -/
def openFile (d : Disk) (path : Path) : Except SystemError Nat := do
  match ← d.find path with
  | .file serial =>
    if d.permits serial (ownerReads ||| ownerWrites) then return serial
    else .error (.code Errno.permissionDenied)
  | .directory _ _ => .error (.code Errno.isDirectory)
  | .link _ => .error (.code Errno.tooManyLinks)

/-- The names in the directory that a path leads to, in order. -/
def list (d : Disk) (path : Path) : Except SystemError (List String) := do
  match ← d.find path with
  | .directory _ entries => return (entries.map (·.1)).mergeSort (fun a b => decide (a ≤ b))
  | _ => .error (.code Errno.notDirectory)

def addEntry (d : Disk) (directory : Nat) (name : String) (node : Node) : Disk :=
  let number := d.nodes.size
  let nodes := d.nodes.push node
  { d with nodes := nodes.modify directory fun
      | .directory parent entries => .directory parent ((name, number) :: entries)
      | other => other }

def removeEntry (d : Disk) (directory : Nat) (name : String) : Disk :=
  { d with nodes := d.nodes.modify directory fun
      | .directory parent entries => .directory parent (entries.filter (·.1 != name))
      | other => other }

def makeDirectory (d : Disk) (path : Path) : Except SystemError Disk := do
  let landing ← d.locate { follow := false } { path with closed := false }
  match landing.name, landing.node with
  | some name, none => return d.addEntry landing.directory name (.directory landing.directory [])
  | _, _ => .error (.code Errno.alreadyExists)

/-- Makes a directory, and first those above it that are missing; the steps are given
last one first. A directory that exists already is fine. -/
def makeAll (d : Disk) (absolute : Bool) : List String → Except SystemError Unit × Disk
  | [] => (.ok (), d)
  | step :: before =>
    let path : Path := ⟨absolute, (step :: before).reverse, false⟩
    match d.makeDirectory path with
    | .ok d => (.ok (), d)
    | .error error =>
      if error ≠ .code Errno.noEntry then
        (if d.isDirectory path then .ok () else .error error, d)
      else
        match makeAll d absolute (Path.outer (step :: before)) with
        | (.error error, d) => (.error error, d)
        | (.ok (), d) =>
          match d.makeDirectory path with
          | .ok d => (.ok (), d)
          | .error error => (if d.isDirectory path then .ok () else .error error, d)
termination_by steps => steps.length
decreasing_by exact Path.length_outer_lt step before

/-- Makes the directory that a path names and those above it. -/
def makeDirectories (d : Disk) (path : Path) : Except SystemError Unit × Disk :=
  d.makeAll path.absolute path.steps.reverse

/-- The permission bits that a new file gets of those that were asked for. -/
def granted (mode : Nat) : Nat := mode &&& 0o7755

/-- The permission bits that are left when the length of a file is set: a program in it
no longer runs as the owner, nor, if the group may run it, as the group. -/
def tamed (mode : Nat) : Nat :=
  if mode &&& 0o010 = 0 then mode &&& 0o3777 else mode &&& 0o1777

/-- Makes an empty file under a name that nothing has yet, and yields its serial. -/
def createFile (d : Disk) (path : Path) (mode identity : Nat) :
    Except SystemError (Nat × Disk) := do
  let landing ← d.locate { follow := false, makes := true } path
  match landing.name, landing.node with
  | some name, none =>
    let serial := d.files.size
    let file : File := ⟨identity, granted mode, { region := Region.zeros 0 }⟩
    return (serial, { d.addEntry landing.directory name (.file serial) with
      files := d.files.push file })
  | _, _ => .error (.code Errno.alreadyExists)

def unlink (d : Disk) (path : Path) : Except SystemError Disk := do
  let landing ← d.locate { follow := false } path
  match landing.name, landing.node with
  | none, _ => .error (.code Errno.isDirectory)
  | some _, none => .error (.code Errno.noEntry)
  | some name, some node =>
    match d.nodes[node]? with
    | some (.directory _ _) => .error (.code Errno.isDirectory)
    | _ => return d.removeEntry landing.directory name

/-- Makes a link. Its target need not exist. -/
def makeLink (d : Disk) (path target : Path) : Except SystemError Disk := do
  let landing ← d.locate { follow := false } { path with closed := false }
  match landing.name, landing.node with
  | some name, none =>
    if path.closed then .error (.code Errno.noEntry)
    return d.addEntry landing.directory name (.link target)
  | _, _ => .error (.code Errno.alreadyExists)

def shared (d : Disk) (serial : Nat) : Shared :=
  match d.files[serial]? with
  | some file => file.shared
  | none => { region := Region.zeros 0 }

def setShared (d : Disk) (serial : Nat) (shared : Shared) : Disk :=
  { d with files := d.files.modify serial ({ · with shared }) }

/-- Hands out what all users of a file share and leaves nothing in its place, so that
whoever has it has the only copy. -/
@[noinline] def takeShared (d : Disk) (serial : Nat) : Shared × Disk :=
  (d.shared serial, d.setShared serial { region := default })

/-- Lets `f` change what all users of a file share, and yields what `f` yields. -/
def access {α : Type} (d : Disk) (serial : Nat) (f : Shared → α × Shared) : α × Disk :=
  match d.takeShared serial with
  | (before, rest) =>
    match f before with
    | (a, after) => (a, rest.setShared serial after)

/-- Cuts or extends a file, with zeros, to a length. -/
def setLength (d : Disk) (serial length : Nat) : Disk :=
  let (_, d) := d.access serial fun q => ((), { q with region := q.region.resize length })
  { d with files := d.files.modify serial fun file => { file with mode := tamed file.mode } }

/-- Writes a whole file: a new one, or the same file with other bytes. -/
def writeFile (d : Disk) (path : Path) (region : Region) (identity : Nat) :
    Except SystemError Disk := do
  let landing ← d.locate { follow := true, makes := true } path
  match landing.name, landing.node.bind (d.nodes[·]?) with
  | _, some (.file serial) =>
    if d.permits serial ownerWrites then
      return { d with files := d.files.modify serial fun file =>
        { file with mode := tamed file.mode, shared := { file.shared with region } } }
    else .error (.code Errno.permissionDenied)
  | some name, none =>
    let serial := d.files.size
    return { d.addEntry landing.directory name (.file serial) with
      files := d.files.push ⟨identity, granted 0o666, { region }⟩ }
  | _, _ => .error (.code Errno.isDirectory)

def named (d : Disk) : List Nat :=
  d.nodes.toList.flatMap fun
    | .directory _ entries => entries.filterMap fun (_, node) =>
      match d.nodes[node]? with
      | some (.file serial) => some serial
      | _ => none
    | _ => []

def identity (d : Disk) (serial : Nat) : Nat :=
  match d.files[serial]? with
  | some file => file.identity
  | none => 0

end Disk

end MappedQueue
