import MappedQueue.Command.Run

/-!
# The program

Reads the queue file that the command line is about, carries the command out, and writes
the file back. The command has the queue to itself, and waiting passes in no time.
-/

namespace MappedQueue.Program

/-- The file that a path leads to, if there is one. A file that may not be read and
written has no permissions. -/
def readFile? (path : String) : IO (Option File) := do
  try
    let handle ← IO.FS.Handle.mk path .readWrite
    let bytes ← handle.readBinToEnd
    return some ⟨1, 0o600, { region := ⟨bytes⟩ }⟩
  catch error =>
    match error with
    | .permissionDenied .. => return some ⟨1, 0, { region := Region.zeros 0 }⟩
    | _ => return none

def isDirectory (path : String) : IO Bool := do
  try
    let found ← IO.FS.realPath path
    found.isDir
  catch _ => return false

/-- The host with one directory and, if it exists, one file in it. -/
def load (directory path : String) (found : Bool) (file : Option File) : Host :=
  let host : Host := if found then (({} : Host).carryOut (.makeDirectories directory)).2 else {}
  match file with
  | none => host
  | some file =>
    match host.writeFile path file.shared.region with
    | .ok host =>
      let files := host.disk.files.map ({ · with mode := file.mode })
      { host with disk := { host.disk with files } }
    | .error _ => host

/-- The file that a path leads to, if it leads to one. -/
def fileAt? (disk : Disk) (path : String) : Option File :=
  match (do disk.find (← Path.ofString path)) with
  | .ok (.file serial) => disk.files[serial]?
  | _ => none

/-- The rights that a digit of permission bits grants. -/
def accessRight (bits : Nat) : IO.AccessRight where
  read := bits.testBit 2
  write := bits.testBit 1
  execution := bits.testBit 0

/-- Makes the real directory if it is on the disk. -/
def saveDirectory (disk : Disk) (directory : String) : IO Unit := do
  match Path.ofString directory with
  | .ok path => if disk.isDirectory path then IO.FS.createDirAll directory
  | .error _ => return

/-- Makes the real file agree with the one on the disk. -/
def saveFile (path : String) (before after : Option File) : IO Unit := do
  match before, after with
  | some _, none => IO.FS.removeFile path
  | some old, some file =>
    if old.shared.region.bytes != file.shared.region.bytes then
      IO.FS.writeBinFile path file.shared.region.bytes
  | none, some file =>
    IO.FS.writeBinFile path file.shared.region.bytes
    IO.setAccessRights path ⟨accessRight (file.mode / 64), accessRight (file.mode / 8),
      accessRight file.mode⟩
  | none, none => return

/-- Carries out a command on the file it is about. -/
def carryOut (environment : Command.Environment) (arguments : List String) :
    IO (Option Command.Report) := do
  let site (host : Host) : Command.Site := { host, notices := { self := 2 } }
  match Command.Invocation.ofArguments arguments with
  | .error _ => return (Command.run environment arguments (site {})).1
  | .ok i =>
    let directory := Command.directory i environment
    let path := Name.storePath directory i.queue
    let before ← if Name.allowed i.queue then readFile? path else pure none
    let host := load directory path (← isDirectory directory) before
    let (report, site) := Command.run environment arguments (site host)
    if Name.allowed i.queue then
      saveDirectory site.host.disk directory
      saveFile path before (fileAt? site.host.disk path)
    return report

end MappedQueue.Program

open MappedQueue in
def main (arguments : List String) : IO UInt32 := do
  let environment : Command.Environment := {
    directory := ← IO.getEnv Name.directoryVariable
    sharedMemory := ← Program.isDirectory "/dev/shm" }
  match ← Program.carryOut environment arguments with
  | some report =>
    IO.print report.out
    match report.err with
    | some complaint => IO.eprintln complaint
    | none => pure ()
    return report.code.toUInt32
  | none =>
    IO.eprintln (Command.program ++ ": nothing arrives")
    return 1
