/-!
# Hexadecimal text

Numbers and bytes in lower-case hexadecimal digits: a number either in as few digits
as it needs or padded to a fixed width, and a run of bytes as two digits each.
-/

namespace MappedQueue.Text.Hex

/-- `n` in as few digits as it needs, and one digit for zero. -/
def digits (n : Nat) : List Char := Nat.toDigits 16 n

/-- `n` in `width` digits; digits above that are dropped. -/
def padded : (width n : Nat) → List Char
  | 0, _ => []
  | width + 1, n => padded width (n / 16) ++ [Nat.digitChar (n % 16)]

/-- Two digits a byte. -/
def ofBytes (bytes : ByteArray) : String :=
  bytes.foldl (fun text b => (text.push (Nat.digitChar (b.toNat / 16))).push
    (Nat.digitChar (b.toNat % 16))) ""

/-- The value of one digit, upper or lower case. -/
def value? (c : Char) : Option Nat :=
  if c.isDigit then some (c.toNat - '0'.toNat)
  else if 'a' ≤ c ∧ c ≤ 'f' then some (c.toNat - 'a'.toNat + 10)
  else if 'A' ≤ c ∧ c ≤ 'F' then some (c.toNat - 'A'.toNat + 10)
  else none

/-- Reads two digits a byte; a text of odd length or with another character is none. -/
def bytes? : List Char → Option ByteArray :=
  go ByteArray.empty
where
  go (read : ByteArray) : List Char → Option ByteArray
    | [] => some read
    | [_] => none
    | a :: b :: rest => do
      let high ← value? a
      let low ← value? b
      go (read.push (high * 16 + low).toUInt8) rest

end MappedQueue.Text.Hex
