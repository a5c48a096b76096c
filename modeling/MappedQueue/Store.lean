import MappedQueue.Format
import MappedQueue.Script

/-!
# Queue files

A queue file is made in two parts: it is created, exclusively and in its full length but
all zero, and then it is initialised, ending with the tag. Attaching accepts a file only
if it carries the tag, a sizing within the limits, and exactly the length that belongs
to the sizing.
-/

namespace MappedQueue

/-- A mapped queue file and its sizing. -/
structure Store where
  mapping : Nat
  sizing : Sizing
  deriving DecidableEq, Repr

namespace Store

/-- Reads what tells a queue file, in a file of `length` bytes that is long enough for a
header. -/
def preamble (length : Nat) : Access (Except Error Sizing) := do
  let tag ← Access.get .tag
  if tag = 0 then return .error .notReady
  else if tag ≠ Layout.validTag then return .error .badHandle
  else
    let capacity ← Access.get .capacity
    let messageSize ← Access.get .messageSize
    let sizing : Sizing := ⟨capacity, messageSize⟩
    if sizing.fileSize? = some length then return .ok sizing
    else return .error .badHandle

/-- Gives a new file its length and maps it. -/
def extend (file length : Nat) : Script (Except SystemError Nat) := do
  match ← Script.call (.setFileLength file length) with
  | .error error => return .error error
  | .ok () => Script.call (.map file length)

/-- Creates the file, which must not exist. A file that cannot be used is removed
again. -/
def create (path : String) (sizing : Sizing) (mode : Nat) : Script (Except Error Store) := do
  match sizing.fileSize? with
  | none => return .error .invalidAttributes
  | some length =>
    match ← Script.call (.createFile path mode) with
    | .error error => return .error (.system error)
    | .ok file =>
      match ← extend file length with
      | .ok mapping =>
        Script.call (.closeFile file)
        return .ok ⟨mapping, sizing⟩
      | .error error =>
        let _ ← Script.call (.removeFile path)
        Script.call (.closeFile file)
        return .error (.system error)

/-- Makes a created file an empty queue. -/
def initialise (store : Store) : Script (Except Error Unit) := do
  Script.through store.mapping (Format.layOut store.sizing)
  match ← Script.call (.prepareLock store.mapping) with
  | .error error => return .error (.system error)
  | .ok () =>
    Script.through store.mapping Format.publish
    return .ok ()

/-- Attaches to a file that exists. A file whose creator has not come to the tag yet is
not ready. -/
def attach (path : String) : Script (Except Error Store) := do
  match ← Script.call (.openFile path) with
  | .error error => return .error (.system error)
  | .ok file =>
    let length ← Script.call (.fileLength file)
    if length < Layout.headerSize then
      Script.call (.closeFile file)
      return .error .notReady
    else
      let mapped ← Script.call (.map file length)
      Script.call (.closeFile file)
      match mapped with
      | .error error => return .error (.system error)
      | .ok mapping =>
        match ← Script.through mapping (preamble length) with
        | .ok sizing => return .ok ⟨mapping, sizing⟩
        | .error error =>
          Script.call (.unmap mapping)
          return .error error

end Store

end MappedQueue
