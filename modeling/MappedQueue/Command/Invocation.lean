import MappedQueue.Command.Arguments

/-!
# What a command line asks for

The commands are `create`, `send`, `recv`, `info` and `unlink`, each on the queue that
its first operand names. Values that are not given have fixed defaults.
-/

namespace MappedQueue.Command

inductive Action where
  | create (sizing : Sizing) (mode : Nat)
  | send (message : String) (priority : Nat) (timeout : Option Nat)
  | receive (count : Nat) (timeout : Option Nat)
  | info
  | unlink
  deriving DecidableEq, Repr

/-- A command line that was understood. -/
structure Invocation where
  /-- The queue directory, if it is named. -/
  directory : Option String
  nonblocking : Bool
  queue : String
  action : Action
  deriving DecidableEq, Repr

namespace Invocation

def word? : String → Option Nat := Text.Numeral.unsigned? 10 0x10000000000000000

/-- A priority as it can be written: a number of 32 bits. -/
def priority? (text : String) : Option Nat := do
  let value ← Text.Numeral.signed? 0x8000000000000000 text
  if 0 ≤ value ∧ value < 0x100000000 then some value.toNat else none

/-- Permission bits in octal digits. -/
def mode? : String → Option Nat := Text.Numeral.unsigned? 8 0x100000000

/-- The switches that every command takes. -/
def general : List Switch :=
  [{ long := "dir", accepts := fun text => !text.isEmpty },
   { long := "nonblocking", valued := false }]

def outer : Grammar where
  switches := general
  commands := ["create", "send", "recv", "info", "unlink"]
  versioned := true

def timeout : Switch := { long := "timeout-ms", accepts := fun text => (word? text).isSome }

def inner (command : String) : Grammar :=
  match command with
  | "create" => {
      switches := general ++ [
        { long := "max-messages", accepts := fun text => (word? text).isSome },
        { long := "message-size", accepts := fun text => (word? text).isSome },
        { long := "mode", accepts := fun text => (mode? text).isSome }]
      operands := 1 }
  | "send" => {
      switches := general ++ [
        { long := "priority", short := some 'p', accepts := fun text => (priority? text).isSome },
        timeout]
      operands := 2 }
  | "recv" => {
      switches := general ++ [
        { long := "count", short := some 'n', accepts := fun text => (word? text).isSome },
        timeout]
      operands := 1 }
  | _ => { switches := general, operands := 1 }

/-- What a command does, given its own words; the operand beside the queue is the
message. -/
def action? (command : String) (row : Row) (operands : List String) : Option Action :=
  match command, operands with
  | "create", [] => some (.create
      ⟨((row.value? "max-messages").bind word?).getD Sizing.standard.capacity,
        ((row.value? "message-size").bind word?).getD Sizing.standard.messageSize⟩
      (((row.value? "mode").bind mode?).getD 0o600))
  | "send", [message] => some (.send message
      (((row.value? "priority").bind priority?).getD 0) ((row.value? "timeout-ms").bind word?))
  | "recv", [] => some (.receive
      (((row.value? "count").bind word?).getD 1) ((row.value? "timeout-ms").bind word?))
  | "info", [] => some .info
  | "unlink", [] => some .unlink
  | _, _ => none

def ofArguments (arguments : List String) : Except Halt Invocation := do
  let before ← read outer ({}, none) arguments
  match before.command with
  | none => .error .misuse
  | some (command, words) =>
    let row ← read (inner command) ({}, none) words
    match row.operands.reverse with
    | queue :: operands =>
      match action? command row operands with
      | some action => return {
          directory := row.value? "dir" <|> before.value? "dir"
          nonblocking := row.has "nonblocking" || before.has "nonblocking"
          queue, action }
      | none => .error .misuse
    | [] => .error .misuse

end Invocation

end MappedQueue.Command
