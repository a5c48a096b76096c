/-!
# Reading bytes as text

Bytes are read as UTF-8. Where they are none, the longest run that could have begun a
character is shown as one replacement character, and reading goes on behind it.
-/

namespace MappedQueue.Text.Lossy

/-- Stands for bytes that are no text. -/
def replacement : Char := '\uFFFD'

/-- What the first byte of a character of several bytes says: the bits it contributes,
the range of the second byte, and how many bytes follow the second. -/
structure Lead where
  bits : Nat
  low : Nat
  high : Nat
  more : Nat

/-- Reads a first byte. Overlong forms, surrogates and code points beyond the last are
excluded through the range of the second byte. -/
def lead? (b : Nat) : Option Lead :=
  if b < 0xC2 then none
  else if b < 0xE0 then some ⟨b - 0xC0, 0x80, 0xBF, 0⟩
  else if b = 0xE0 then some ⟨0, 0xA0, 0xBF, 1⟩
  else if b = 0xED then some ⟨0xD, 0x80, 0x9F, 1⟩
  else if b < 0xF0 then some ⟨b - 0xE0, 0x80, 0xBF, 1⟩
  else if b = 0xF0 then some ⟨0, 0x90, 0xBF, 2⟩
  else if b < 0xF4 then some ⟨b - 0xF0, 0x80, 0xBF, 2⟩
  else if b = 0xF4 then some ⟨4, 0x80, 0x8F, 2⟩
  else none

/-- Reads the bytes after the second, `more` of them, onto the bits in `value`. -/
def continuation : (more value : Nat) → List UInt8 → Char × List UInt8
  | 0, value, rest => (Char.ofNat value, rest)
  | _ + 1, _, [] => (replacement, [])
  | more + 1, value, b :: rest =>
    if 0x80 ≤ b.toNat ∧ b.toNat ≤ 0xBF then
      continuation more (value * 64 + (b.toNat - 0x80)) rest
    else (replacement, b :: rest)

/-- Reads one character that begins with the byte `b`, and what follows it. -/
def next (b : UInt8) (rest : List UInt8) : Char × List UInt8 :=
  if b.toNat < 0x80 then (Char.ofNat b.toNat, rest)
  else match lead? b.toNat with
    | none => (replacement, rest)
    | some lead =>
      match rest with
      | [] => (replacement, [])
      | c :: rest =>
        if lead.low ≤ c.toNat ∧ c.toNat ≤ lead.high then
          continuation lead.more (lead.bits * 64 + (c.toNat - 0x80)) rest
        else (replacement, c :: rest)

/-- Reads at most `budget` characters. -/
def decodeUpTo : (budget : Nat) → List UInt8 → List Char
  | 0, _ => []
  | _ + 1, [] => []
  | budget + 1, b :: rest =>
    let (c, rest) := next b rest
    c :: decodeUpTo budget rest

/-- The text of some bytes; there are never more characters than bytes. -/
def decode (bytes : List UInt8) : String := String.ofList (decodeUpTo bytes.length bytes)

end MappedQueue.Text.Lossy
