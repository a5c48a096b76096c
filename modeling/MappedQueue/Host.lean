import MappedQueue.Disk

/-!
# What the system does for a process

A process works on files by operations of the system. To use a queue it maps the
queue's file; all its handles on one file share one mapping, which lasts as long as one
of them uses it. The process finds a mapping it already has by the file's identity, and
the system gives a new file an identity that no file has that still has a name, is open
or is mapped.

The system may refuse an operation that needs room. Which ones it refuses is a property
of the host.
-/

namespace MappedQueue

structure Mapping where
  file : Nat
  length : Nat
  /-- How many handles use the mapping; one that nobody uses is gone. -/
  users : Nat
  deriving DecidableEq, Repr, Inhabited

/-- An operation of the system. The system reads a path when the operation is done. -/
inductive Operation where
  | makeDirectories (path : String)
  /-- Makes an empty file that must not exist yet, and opens it. -/
  | createFile (path : String) (mode : Nat)
  | openFile (path : String)
  | closeFile (file : Nat)
  | removeFile (path : String)
  | fileLength (file : Nat)
  | setFileLength (file length : Nat)
  /-- Maps the first bytes of a file, or joins the mapping there is already. -/
  | map (file length : Nat)
  | unmap (mapping : Nat)
  | load (mapping : Nat) (field : Field)
  | store (mapping : Nat) (field : Field) (value : Nat)
  | fetch (mapping offset count : Nat)
  | put (mapping offset : Nat) (bytes : ByteArray)
  /-- Makes the lock and the conditions of a queue ready for use. -/
  | prepareLock (mapping : Nat)
  | pause

namespace Operation

abbrev Outcome : Operation → Type
  | makeDirectories _ | removeFile _ | setFileLength _ _ | prepareLock _ =>
    Except SystemError Unit
  | createFile _ _ | openFile _ | map _ _ => Except SystemError Nat
  | fileLength _ | load _ _ => Nat
  | fetch _ _ _ => ByteArray
  | closeFile _ | unmap _ | store _ _ _ | put _ _ _ | pause => Unit

end Operation

/-- How the system numbers new files, given the numbers in use. -/
abbrev Numbering := { next : List Nat → Nat // ∀ used, next used ∉ used }

namespace Numbering

theorem le_foldr_max {n : Nat} {used : List Nat} (h : n ∈ used) : n ≤ used.foldr max 0 := by
  induction used with
  | nil => simp at h
  | cons m rest ih =>
    simp only [List.foldr_cons]
    rcases List.mem_cons.1 h with rfl | h
    · exact Nat.le_max_left _ _
    · exact Nat.le_trans (ih h) (Nat.le_max_right _ _)

/-- One more than the greatest number in use. -/
def afterLast : Numbering :=
  ⟨fun used => used.foldr max 0 + 1, fun _ h => Nat.not_succ_le_self _ (le_foldr_max h)⟩

end Numbering

/-- The system as one process sees it. -/
structure Host where
  disk : Disk := Disk.fresh
  opened : List Nat := []
  /-- All mappings there have been. -/
  mappings : Array Mapping := #[]
  /-- Which mapping was last made of the file with an identity. -/
  known : List (Nat × Nat) := []
  numbering : Numbering := Numbering.afterLast
  /-- The operations that the system refuses. -/
  refused : Operation → Option SystemError := fun _ => none

namespace Host

def used (h : Host) : List Nat :=
  let mapped := (h.mappings.toList.filter (0 < ·.users)).map (·.file)
  (h.disk.named ++ h.opened ++ mapped).map h.disk.identity

def fileOf (h : Host) (mapping : Nat) : Nat := (h.mappings[mapping]?.getD default).file

def inUse (h : Host) (mapping : Nat) : Bool := 0 < (h.mappings[mapping]?.getD default).users

/-- What the users of a mapped file share. -/
def shared (h : Host) (mapping : Nat) : Shared := h.disk.shared (h.fileOf mapping)

/-- Hands out the disk and leaves nothing in its place. -/
@[noinline] def takeDisk (h : Host) : Disk × Host := (h.disk, { h with disk := ⟨#[], #[]⟩ })

/-- Lets `f` change what the users of a mapped file share. -/
def access {α : Type} (h : Host) (mapping : Nat) (f : Shared → α × Shared) : α × Host :=
  let serial := h.fileOf mapping
  match h.takeDisk with
  | (disk, rest) =>
    match disk.access serial f with
    | (a, disk) => (a, { rest with disk })

def edit (h : Host) (mapping : Nat) (f : Region → Region) : Host :=
  (h.access mapping fun q => ((), { q with region := f q.region })).2

/-- The mapping of a file: the one in use, or else a new one. Mappings out of use are
forgotten on that occasion. -/
def map (h : Host) (file length : Nat) : Except SystemError Nat × Host :=
  let identity := h.disk.identity file
  match (h.known.lookup identity).filter h.inUse with
  | some mapping =>
    (.ok mapping, { h with mappings := h.mappings.modify mapping fun m =>
      { m with users := m.users + 1 } })
  | none =>
    let kept := h.known.filter (h.inUse ·.2)
    if length = 0 then (.error (.described "size is 0"), { h with known := kept })
    else
      let mapping := h.mappings.size
      (.ok mapping, { h with
        mappings := h.mappings.push ⟨file, length, 1⟩
        known := (identity, mapping) :: kept })

def unmap (h : Host) (mapping : Nat) : Host :=
  { h with mappings := h.mappings.modify mapping fun m => { m with users := m.users - 1 } }

/-- Writes a whole file, as another program might do it. -/
def writeFile (h : Host) (path : String) (region : Region) : Except SystemError Host := do
  let disk ← h.disk.writeFile (← Path.ofString path) region (h.numbering.1 h.used)
  return { h with disk }

/-- Makes a link, as another program might do it. The target is read before the path, and
no link leads to the empty path. -/
def makeLink (h : Host) (path target : String) : Except SystemError Host := do
  let target ← Path.ofString target
  if target.isEmpty then .error (.code Errno.noEntry)
  let disk ← h.disk.makeLink (← Path.ofString path) target
  return { h with disk }

/-- Does an operation that the system does not refuse. -/
def carryOut (h : Host) : (operation : Operation) → operation.Outcome × Host
  | .makeDirectories path =>
    match Path.ofString path with
    | .ok path =>
      let (outcome, disk) := h.disk.makeDirectories path
      (outcome, { h with disk })
    | .error error => (.error error, h)
  | .createFile path mode =>
    match (do h.disk.createFile (← Path.ofString path) mode (h.numbering.1 h.used)) with
    | .ok (serial, disk) => (.ok serial, { h with disk, opened := serial :: h.opened })
    | .error error => (.error error, h)
  | .openFile path =>
    match (do h.disk.openFile (← Path.ofString path)) with
    | .ok serial => (.ok serial, { h with opened := serial :: h.opened })
    | .error error => (.error error, h)
  | .closeFile file => ((), { h with opened := h.opened.erase file })
  | .removeFile path =>
    match (do h.disk.unlink (← Path.ofString path)) with
    | .ok disk => (.ok (), { h with disk })
    | .error error => (.error error, h)
  | .fileLength file => ((h.disk.shared file).region.size, h)
  | .setFileLength file length =>
    match h.takeDisk with
    | (disk, rest) => (.ok (), { rest with disk := disk.setLength file length })
  | .map file length => h.map file length
  | .unmap mapping => ((), h.unmap mapping)
  | .load mapping field => ((h.shared mapping).region.read field, h)
  | .store mapping field value => ((), h.edit mapping (·.write field value))
  | .fetch mapping offset count => ((h.shared mapping).region.slice offset count, h)
  | .put mapping offset bytes => ((), h.edit mapping (·.setSlice offset bytes))
  | .prepareLock mapping =>
    let (_, h) := h.access mapping fun q =>
      ((), { region := q.region.setSlice Layout.lockOffset (Region.zeroBytes Layout.lockSize) })
    (.ok (), h)
  | .pause => ((), h)

/-- The outcome of an operation that the system refuses, if the operation has one. -/
def refusal? (error : SystemError) : (operation : Operation) → Option operation.Outcome
  | .makeDirectories _ | .removeFile _ | .setFileLength _ _ | .prepareLock _ =>
    some (.error error)
  | .createFile _ _ | .openFile _ | .map _ _ => some (.error error)
  | .fileLength _ | .load _ _ | .fetch _ _ _ | .closeFile _ | .unmap _ | .store _ _ _
  | .put _ _ _ | .pause => none

/-- Does an operation, or refuses it; a refused operation changes nothing. -/
def perform (h : Host) (operation : Operation) : operation.Outcome × Host :=
  match (h.refused operation).bind (refusal? · operation) with
  | some outcome => (outcome, h)
  | none => h.carryOut operation

end Host

end MappedQueue
