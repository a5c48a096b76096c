import Mathlib.Algebra.Group.Nat.Defs
import Mathlib.Logic.Function.Basic
import MappedQueue.Name

/-!
# Names of system objects

Two queues share a system object exactly if the names of the object are the same. A name
shows the whole hash of the path, in sixteen digits, and then the suffix, so it tells both.

The hash takes one byte after the other. What a byte does to it can be undone, since the prime
is odd and so has an inverse modulo `2 ^ 64`, and different bytes do different things. So a
difference in one byte is never made good by the bytes behind it.
-/

namespace MappedQueue

/-- Two lists of one length that differ at exactly one position. -/
def DifferOnce {α : Type} (l l' : List α) : Prop :=
  l.length = l'.length ∧ ∃ i : Nat, l[i]? ≠ l'[i]? ∧ ∀ j : Nat, j ≠ i → l[j]? = l'[j]?

theorem differOnce_append_cons {α : Type} {a b : α} (front back : List α) (hne : a ≠ b) :
    DifferOnce (front ++ a :: back) (front ++ b :: back) := by
  refine ⟨by simp, front.length, by simpa using hne, fun j hj => ?_⟩
  rcases Nat.lt_or_gt_of_ne hj with hlt | hgt
  · rw [List.getElem?_append_left hlt, List.getElem?_append_left hlt]
  · obtain ⟨k, rfl⟩ := Nat.exists_eq_add_of_lt hgt
    rw [List.getElem?_append_right (by omega), List.getElem?_append_right (by omega),
      show front.length + k + 1 - front.length = k + 1 by omega, List.getElem?_cons_succ,
      List.getElem?_cons_succ]

/-- In front of the position and behind it the lists are the same. -/
theorem DifferOnce.split {α : Type} {l l' : List α} (h : DifferOnce l l') :
    ∃ front a b back, l = front ++ a :: back ∧ l' = front ++ b :: back ∧ a ≠ b := by
  obtain ⟨hlength, i, hne, hsame⟩ := h
  have hi : i < l.length := by
    apply Nat.lt_of_not_le
    intro hle
    apply hne
    rw [List.getElem?_eq_none hle, List.getElem?_eq_none (hlength ▸ hle)]
  have hi' : i < l'.length := hlength ▸ hi
  refine ⟨l.take i, l[i], l'[i], l.drop (i + 1), ?_, ?_, ?_⟩
  · simp
  · have hfront : l'.take i = l.take i := by
      apply List.ext_getElem?
      intro j
      by_cases hj : j < i
      · rw [List.getElem?_take_of_lt hj, List.getElem?_take_of_lt hj, hsame j (by omega)]
      · have hle : i ≤ j := by omega
        rw [List.getElem?_take_eq_none hle, List.getElem?_take_eq_none hle]
    have hback : l'.drop (i + 1) = l.drop (i + 1) := by
      apply List.ext_getElem?
      intro j
      rw [List.getElem?_drop, List.getElem?_drop, hsame (i + 1 + j) (by omega)]
    rw [← hfront, ← hback]
    simp
  · intro heq
    apply hne
    rw [List.getElem?_eq_getElem hi, List.getElem?_eq_getElem hi', heq]

namespace Fnv

/-- What the prime has to be multiplied by to give one. -/
def inverse : UInt64 := 0xce965057aff6957b

theorem prime_mul_inverse : prime * inverse = 1 := by decide

/-- Takes a byte out of the hash again. -/
def release (hash : UInt64) (byte : UInt8) : UInt64 := hash * inverse ^^^ byte.toUInt64

theorem release_absorb (hash : UInt64) (byte : UInt8) : release (absorb hash byte) byte = hash := by
  rw [release, absorb, UInt64.mul_assoc, prime_mul_inverse, UInt64.mul_one, UInt64.xor_assoc,
    UInt64.xor_self, UInt64.xor_zero]

theorem absorb_release (hash : UInt64) (byte : UInt8) : absorb (release hash byte) byte = hash := by
  rw [release, absorb, UInt64.xor_assoc, UInt64.xor_self, UInt64.xor_zero, UInt64.mul_assoc,
    UInt64.mul_comm inverse, prime_mul_inverse, UInt64.mul_one]

theorem bijective_absorb (byte : UInt8) : Function.Bijective fun hash => absorb hash byte := by
  constructor
  · exact Function.LeftInverse.injective (g := (release · byte)) (release_absorb · byte)
  · exact Function.RightInverse.surjective (g := (release · byte)) (absorb_release · byte)

/-- Different bytes do different things to a hash. -/
theorem injective_absorb (hash : UInt64) : Function.Injective (absorb hash) := by
  intro a b h
  have hmixed : (hash ^^^ a.toUInt64) * prime * inverse = (hash ^^^ b.toUInt64) * prime * inverse :=
    congrArg (· * inverse) h
  rw [UInt64.mul_assoc, UInt64.mul_assoc, prime_mul_inverse, UInt64.mul_one,
    UInt64.mul_one] at hmixed
  apply UInt8.toUInt64_inj.mp
  exact (UInt64.xor_right_inj hash).mp hmixed

/-- The bytes that follow do not bring different hashes together. -/
theorem injective_extend (bytes : List UInt8) :
    Function.Injective fun hash => extend hash bytes := by
  induction bytes with
  | nil => exact fun _ _ h => h
  | cons byte rest ih =>
    intro x y h
    exact (bijective_absorb byte).injective (ih h)

theorem hash_append (front back : List UInt8) :
    hash (front ++ back) = extend (hash front) back := List.foldl_append

theorem hash_ne_of_differOnce {l l' : List UInt8} (h : DifferOnce l l') : hash l ≠ hash l' := by
  obtain ⟨front, a, b, back, rfl, rfl, hne⟩ := h.split
  rw [hash_append, hash_append]
  intro heq
  have hhead : absorb (hash front) a = absorb (hash front) b := injective_extend back heq
  exact hne (injective_absorb (hash front) hhead)

end Fnv

namespace Text.Hex

theorem length_padded (width : Nat) : ∀ n : Nat, (padded width n).length = width := by
  induction width with
  | zero => exact fun _ => rfl
  | succ width ih =>
    intro n
    rw [padded, List.length_append, ih, List.length_singleton]

theorem digitChar_injective {m n : Nat} (hm : m < 16) (hn : n < 16)
    (h : Nat.digitChar m = Nat.digitChar n) : m = n := by
  have hall : ∀ m < 16, ∀ n < 16, Nat.digitChar m = Nat.digitChar n → m = n := by decide
  exact hall m hm n hn h

/-- A number that fits into the width is told by its digits. -/
theorem padded_injective (width : Nat) : ∀ {m n : Nat}, m < 16 ^ width → n < 16 ^ width →
    padded width m = padded width n → m = n := by
  induction width with
  | zero =>
    intro m n hm hn _
    omega
  | succ width ih =>
    intro m n hm hn h
    rw [Nat.pow_succ] at hm hn
    rw [padded, padded] at h
    obtain ⟨hfront, hlast⟩ := List.append_inj' h rfl
    have hquotient : m / 16 = n / 16 := ih (by omega) (by omega) hfront
    have hremainder : m % 16 = n % 16 :=
      digitChar_injective (by omega) (by omega) (List.singleton_inj.mp hlast)
    omega

end Text.Hex

namespace Name

/-- The bytes of a path. -/
def pathBytes (path : String) : List UInt8 := path.toUTF8.data.toList

/-- A name tells the hash and the suffix. -/
theorem objectName_eq_iff {p q s t : String} : objectName p s = objectName q t ↔
    Fnv.hash (pathBytes p) = Fnv.hash (pathBytes q) ∧ s = t := by
  constructor
  · intro h
    have hchars := congrArg String.toList h
    simp only [objectName, String.toList_append, String.toList_ofList, List.append_assoc] at hchars
    have hrest := List.append_cancel_left hchars
    have hlength : ∀ path : String,
        (Text.Hex.padded 16 (Fnv.hash (pathBytes path)).toNat).length = 16 := fun path =>
      Text.Hex.length_padded 16 _
    obtain ⟨hdigits, hsuffix⟩ := List.append_inj hrest ((hlength p).trans (hlength q).symm)
    constructor
    · apply UInt64.toNat_inj.mp
      exact Text.Hex.padded_injective 16 (UInt64.toNat_lt _) (UInt64.toNat_lt _) hdigits
    · exact String.toList_inj.mp (List.append_cancel_left hsuffix)
  · rintro ⟨hhash, rfl⟩
    unfold pathBytes at hhash
    rw [objectName, objectName, hhash]

/-- Every byte changes the hash in a way that can be undone, and different bytes change it
differently. So one different byte makes another hash, and as a name of a system object tells the
hash of the path and the suffix, no two queues share one whose paths differ in one byte. -/
theorem objects_apart :
    (∀ byte, Function.Bijective fun hash => Fnv.absorb hash byte) ∧
    (∀ hash, Function.Injective (Fnv.absorb hash)) ∧
    (∀ l l' : List UInt8, DifferOnce l l' → Fnv.hash l ≠ Fnv.hash l') ∧
    (∀ p q s t : String, objectName p s = objectName q t ↔
      Fnv.hash (pathBytes p) = Fnv.hash (pathBytes q) ∧ s = t) ∧
    ∀ p q s t : String, DifferOnce (pathBytes p) (pathBytes q) →
      objectName p s ≠ objectName q t := by
  refine ⟨Fnv.bijective_absorb, Fnv.injective_absorb, fun l l' => Fnv.hash_ne_of_differOnce,
    fun p q s t => objectName_eq_iff, ?_⟩
  intro p q s t hdiffer hname
  exact Fnv.hash_ne_of_differOnce hdiffer (objectName_eq_iff.mp hname).1

/-- The lock of one queue is not the lock of another one, also when the paths differ inside a
character. -/
theorem objects_apart_neighbours :
    DifferOnce (pathBytes "/q/é") (pathBytes "/q/è") ∧
      objectName "/q/é" "lock" ≠ objectName "/q/è" "lock" := by
  have hdiffer : DifferOnce (pathBytes "/q/é") (pathBytes "/q/è") :=
    differOnce_append_cons [47, 113, 47, 0xc3] [] (by decide : (0xa9 : UInt8) ≠ 0xa8)
  exact ⟨hdiffer, objects_apart.2.2.2.2 _ _ _ _ hdiffer⟩

end Name

end MappedQueue
