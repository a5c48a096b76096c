import MappedQueue.Text.Hex
import MappedQueue.Text.Hidden

/-!
# Quoted text

A text is shown between quotes so that every character of it can be told: quotes,
backslashes, line ends, tabs and NUL are written with a backslash and one letter,
characters that do not show are written by their code point, and all others stand for
themselves.
-/

namespace MappedQueue.Text.Quoted

/-- How one character is written. -/
def encodeChar (c : Char) : List Char :=
  match c with
  | '\x00' => ['\\', '0']
  | '\t' => ['\\', 't']
  | '\n' => ['\\', 'n']
  | '\r' => ['\\', 'r']
  | '"' => ['\\', '"']
  | '\\' => ['\\', '\\']
  | c => if Hidden.holds c then ['\\', 'u', '\x7b'] ++ Hex.digits c.toNat ++ ['\x7d'] else [c]

/-- The whole text between quotes. -/
def encode (text : String) : String :=
  String.ofList (['"'] ++ text.toList.flatMap encodeChar ++ ['"'])

end MappedQueue.Text.Quoted
