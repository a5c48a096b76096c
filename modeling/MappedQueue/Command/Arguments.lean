import MappedQueue.Sizing
import MappedQueue.Text.Numeral

/-!
# Command lines

A command line is a row of words: switches, each with its value if it takes one, and
operands. A long switch is written with two dashes and takes its value after an equals
sign or as the next word; a short switch is one letter after one dash and takes its value
right there, after an equals sign, or as the next word. The word of two dashes ends the
switches. No word that begins with a dash is a value unless it is attached, and no switch
is given twice.

The general switches and the name of the command come first; the command's own words
follow, and the general switches may stand among them as well.
-/

namespace MappedQueue.Command

structure Switch where
  long : String
  short : Option Char := none
  /-- Whether a value goes with it. -/
  valued : Bool := true
  /-- Whether a value can be read. -/
  accepts : String → Bool := fun _ => true

/-- Why a command line is not carried out. -/
inductive Halt where
  | misuse
  | version
  deriving DecidableEq, Repr

/-- What a row of words may hold. -/
structure Grammar where
  switches : List Switch
  operands : Nat := 0
  /-- The commands, if the row ends with the name of one. -/
  commands : List String := []
  /-- Whether the row may ask for the version. -/
  versioned : Bool := false

/-- What a row of words holds. -/
structure Row where
  /-- The switches given, with their values. -/
  given : List (String × String) := []
  operands : List String := []
  /-- The command, and the words after it. -/
  command : Option (String × List String) := none
  deriving DecidableEq, Repr

namespace Row

def give (row : Row) (switch : Switch) (value : String) : Except Halt Row :=
  if (row.given.lookup switch.long).isSome || !switch.accepts value then .error .misuse
  else .ok { row with given := (switch.long, value) :: row.given }

def value? (row : Row) (long : String) : Option String := row.given.lookup long

def has (row : Row) (long : String) : Bool := (row.value? long).isSome

end Row

/-- What a word asks for. -/
inductive Word where
  | operand
  /-- The end of the switches. -/
  | terminator
  | long (name : List Char) (attached : Option (List Char))
  | short (letters : List Char)
  deriving DecidableEq, Repr

/-- Splits a switch from the value attached to it. -/
def splitAttached : List Char → List Char × Option (List Char)
  | [] => ([], none)
  | '=' :: value => ([], some value)
  | c :: rest =>
    let (name, value) := splitAttached rest
    (c :: name, value)

/-- Tells words apart by their dashes. -/
def Word.ofString (text : String) : Word :=
  match text.toList with
  | ['-', '-'] => .terminator
  | '-' :: '-' :: rest =>
    let (name, attached) := splitAttached rest
    .long name attached
  | '-' :: c :: rest => .short (c :: rest)
  | _ => .operand

/-- Where the reading of a row stands: the row, and the switch that waits for its value. -/
abbrev Reading := Row × Option Switch

def readLong (g : Grammar) (row : Row) (name : List Char) (attached : Option (List Char)) :
    Except Halt Reading := do
  if g.versioned && name == "version".toList && attached.isNone then .error .version
  else match g.switches.find? (·.long.toList == name), attached with
    | none, _ => .error .misuse
    | some switch, some value =>
      if switch.valued then return (← row.give switch (String.ofList value), none)
      else .error .misuse
    | some switch, none =>
      if switch.valued then return (row, some switch)
      else return (← row.give switch "", none)

/-- Reads the letters of a short switch, or of several without values and one more. -/
def readShort (g : Grammar) (row : Row) : List Char → Except Halt Reading
  | [] => return (row, none)
  | c :: rest => do
    if g.versioned && c == 'V' then .error .version
    else match g.switches.find? (·.short == some c), rest with
      | none, _ => .error .misuse
      | some switch, rest =>
        if !switch.valued then readShort g (← row.give switch "") rest
        else match rest with
          | [] => return (row, some switch)
          | '=' :: value => return (← row.give switch (String.ofList value), none)
          | value => return (← row.give switch (String.ofList value), none)

def readOperand (g : Grammar) (row : Row) (text : String) : Except Halt Row :=
  if row.operands.length < g.operands then
    .ok { row with operands := text :: row.operands }
  else .error .misuse

/-- Reads the operands after the end of the switches. -/
def readOperands (g : Grammar) (row : Row) : List String → Except Halt Row
  | [] => .ok row
  | text :: rest => do readOperands g (← readOperand g row text) rest

/-- Reads a row of words, up to the name of a command if the row ends with one. -/
def read (g : Grammar) : Reading → List String → Except Halt Row
  | (row, none), [] => .ok row
  | (_, some _), [] => .error .misuse
  | (row, some switch), text :: rest => do
    match Word.ofString text with
    | .operand => read g (← row.give switch text, none) rest
    | _ => .error .misuse
  | (row, none), text :: rest => do
    match Word.ofString text with
    | .terminator => readOperands g row rest
    | .long name attached => read g (← readLong g row name attached) rest
    | .short letters => read g (← readShort g row letters) rest
    | .operand =>
      if g.commands.contains text then .ok { row with command := some (text, rest) }
      else read g (← readOperand g row text, none) rest

end MappedQueue.Command
