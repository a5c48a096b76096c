/-!
# Numbers in arguments

A number is a run of digits with an optional sign in front, and nothing else: no blanks,
no separators, no letters for the base. A number beyond the limit is none.
-/

namespace MappedQueue.Text.Numeral

/-- The value of a digit below `base`, for bases up to ten. -/
def digit? (base : Nat) (c : Char) : Option Nat :=
  if '0' ≤ c ∧ c.toNat < '0'.toNat + base then some (c.toNat - '0'.toNat) else none

/-- Reads the rest of a run of digits whose first digits have the given value. -/
def digitsAfter? (base : Nat) : (value : Nat) → List Char → Option Nat
  | value, [] => some value
  | value, c :: rest => do
    let digit ← digit? base c
    digitsAfter? base (value * base + digit) rest

/-- Reads a run of at least one digit. -/
def digits? (base : Nat) : List Char → Option Nat
  | [] => none
  | cs => digitsAfter? base 0 cs

/-- A number from 0 up to, and not including, `limit`; a plus sign may stand in front. -/
def unsigned? (base limit : Nat) (text : String) : Option Nat := do
  let value ← match text.toList with
    | '+' :: rest => digits? base rest
    | cs => digits? base cs
  if value < limit then some value else none

/-- A decimal number from `-limit` up to, and not including, `limit`; either sign may
stand in front. -/
def signed? (limit : Nat) (text : String) : Option Int :=
  match text.toList with
  | '-' :: rest => do
    let value ← digits? 10 rest
    if value ≤ limit then some (-(value : Int)) else none
  | _ => (unsigned? 10 limit text).map Int.ofNat

end MappedQueue.Text.Numeral
