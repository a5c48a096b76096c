import MappedQueue.Error

/-!
# Paths

A path names a file by the steps that lead to it, from the top directory if the path
begins with a slash and from the working directory otherwise. Empty steps do not count;
a slash at the end says that the path has to lead to a directory.
-/

namespace MappedQueue

/-- The way to a file. -/
structure Path where
  absolute : Bool
  /-- The steps, none of which is empty. -/
  steps : List String
  /-- Whether it ends in a slash. -/
  closed : Bool
  deriving DecidableEq, Repr

namespace Path

/-- The step that stays where it is. -/
def here : String := "."

def up : String := ".."

/-- The step without a name that a slash at the end stands for. It stays where it is, and
so asks for a directory. -/
def nameless : String := ""

/-- The pieces between the slashes, empty ones included. -/
def pieces : List Char → List (List Char)
  | [] => [[]]
  | c :: rest =>
    match pieces rest with
    | [] => [[c]]
    | piece :: more => if c = '/' then [] :: piece :: more else (c :: piece) :: more

/-- The steps of a path written as a text. -/
def stepsOf (text : String) : List String :=
  ((pieces text.toList).filter (!·.isEmpty)).map String.ofList

/-- No path has more bytes than this. -/
def maxBytes : Nat := 4095

/-- Reads a path. The system takes no path with a NUL in it, and no overlong one. -/
def ofString (text : String) : Except SystemError Path :=
  if text.toList.contains '\x00' then
    .error (.described "file name contained an unexpected NUL byte")
  else if maxBytes < text.utf8ByteSize then .error (.code Errno.nameTooLong)
  else
    .ok {
      absolute := text.toList.head? == some '/'
      steps := stepsOf text
      closed := text.toList.getLast? == some '/' }

/-- Whether it is the empty path, which leads nowhere. -/
def isEmpty (p : Path) : Bool := !p.absolute && p.steps.isEmpty

/-- The steps to take. -/
def walked (p : Path) : List String := if p.closed then p.steps ++ [nameless] else p.steps

/-- The steps, last one first, to the directory that holds the last step. A step that
stays where it is counts for nothing. -/
def outer (reversed : List String) : List String :=
  (reversed.dropWhile (· == here)).tail.dropWhile (· == here)

theorem length_outer_lt (step : String) (before : List String) :
    (outer (step :: before)).length < (step :: before).length := by
  have h₁ := (List.dropWhile_sublist (l := step :: before) (· == here)).length_le
  have h₂ := (List.dropWhile_sublist
    (l := ((step :: before).dropWhile (· == here)).tail) (· == here)).length_le
  simp only [outer, List.length_tail, List.length_cons] at *
  omega

end Path

end MappedQueue
