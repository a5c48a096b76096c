import Mathlib.Algebra.Group.Nat.Defs
import MappedQueue.Region

/-!
# Reading what was written

A region is known by its size and its bytes. The lemmas below say which bytes a write
changes, and that a number or a run of bytes that was written inside a region is read
back from there. A read depends on the bytes it covers only, so what was written apart
from them does not matter to it.
-/

namespace MappedQueue.Region

theorem byte_of_lt {r : Region} {i : Nat} (h : i < r.size) : r.byte i = r.bytes[i] :=
  dif_pos h

theorem byte_of_le {r : Region} {i : Nat} (h : r.size ≤ i) : r.byte i = 0 :=
  dif_neg (Nat.not_lt.mpr h)

theorem size_setByte (r : Region) (i : Nat) (b : UInt8) : (r.setByte i b).size = r.size := by
  unfold setByte size
  split
  · simp only [ByteArray.size, ByteArray.data_set, Array.size_set]
  · rfl

theorem byte_setByte_self {r : Region} {i : Nat} (h : i < r.size) (b : UInt8) :
    (r.setByte i b).byte i = b := by
  have hs : i < (r.setByte i b).size := by rw [size_setByte]; exact h
  rw [byte_of_lt hs]
  have hset : r.setByte i b = ⟨r.bytes.set i b h⟩ := dif_pos h
  simp only [hset]
  exact Array.getElem_set_self h

theorem byte_setByte_of_ne (r : Region) {i j : Nat} (h : j ≠ i) (b : UInt8) :
    (r.setByte i b).byte j = r.byte j := by
  by_cases hi : i < r.size
  · have hset : r.setByte i b = ⟨r.bytes.set i b hi⟩ := dif_pos hi
    have hsize : (r.setByte i b).size = r.size := size_setByte r i b
    by_cases hj : j < r.size
    · rw [byte_of_lt (hsize ▸ hj), byte_of_lt hj]
      simp only [hset]
      exact Array.getElem_set_ne hi hj h.symm
    · rw [byte_of_le (by omega), byte_of_le (by omega)]
  · rw [show r.setByte i b = r from dif_neg hi]

@[simp] theorem size_setWord (width : Nat) : ∀ (r : Region) (offset value : Nat),
    (r.setWord width offset value).size = r.size := by
  induction width with
  | zero => intro r offset value; rfl
  | succ width ih =>
    intro r offset value
    rw [setWord, ih, size_setByte]

/-- Writing a number leaves every byte alone that it does not cover. -/
theorem byte_setWord_of_not_mem (width : Nat) : ∀ (r : Region) (offset value : Nat) {i : Nat},
    i < offset ∨ offset + width ≤ i → (r.setWord width offset value).byte i = r.byte i := by
  induction width with
  | zero => intro r offset value i _; rfl
  | succ width ih =>
    intro r offset value i h
    rw [setWord, ih _ _ _ (by omega), byte_setByte_of_ne _ (by omega)]

/-- A number is read from the bytes it covers and from nothing else. -/
theorem word_congr {r r' : Region} (width : Nat) : ∀ {offset : Nat},
    (∀ i, offset ≤ i → i < offset + width → r'.byte i = r.byte i) →
      r'.word width offset = r.word width offset := by
  induction width with
  | zero => intro offset _; rfl
  | succ width ih =>
    intro offset h
    rw [word, word, h offset (Nat.le_refl _) (by omega),
      ih fun i hi hw => h i (by omega) (by omega)]

theorem word_setWord_self (width : Nat) : ∀ {r : Region} {offset : Nat} (value : Nat),
    offset + width ≤ r.size →
      (r.setWord width offset value).word width offset = value % 256 ^ width := by
  induction width with
  | zero => intro r offset value _; rw [word, Nat.pow_zero, Nat.mod_one]
  | succ width ih =>
    intro r offset value h
    have hsize : offset + 1 + width ≤ (r.setByte offset value.toUInt8).size := by
      rw [size_setByte]; omega
    have hfirst : ((r.setByte offset value.toUInt8).setWord width (offset + 1) (value / 256)).byte
        offset = value.toUInt8 := by
      rw [byte_setWord_of_not_mem _ _ _ _ (by omega), byte_setByte_self (by omega)]
    rw [setWord, word, hfirst, ih _ hsize, Nat.pow_succ', Nat.mod_mul]
    rfl

/-- A number is made of its bytes. -/
theorem byte_of_word_eq {r r' : Region} (width : Nat) : ∀ {offset : Nat},
    r'.word width offset = r.word width offset →
      ∀ i, offset ≤ i → i < offset + width → r'.byte i = r.byte i := by
  induction width with
  | zero => exact fun _ i hlow hhigh => absurd hlow (Nat.not_le_of_lt hhigh)
  | succ width ih =>
    intro offset hword i hlow hhigh
    have hbyte := (r.byte offset).toNat_lt
    have hbyte' := (r'.byte offset).toNat_lt
    rw [word, word] at hword
    rcases Nat.eq_or_lt_of_le hlow with rfl | hlt
    · exact UInt8.toNat_inj.mp (by omega)
    · have hrest : r'.word width (offset + 1) = r.word width (offset + 1) := by omega
      exact ih hrest i hlt (by omega)

theorem word_lt (r : Region) (width : Nat) : ∀ offset, r.word width offset < 256 ^ width := by
  induction width with
  | zero => intro offset; exact Nat.one_pos
  | succ width ih =>
    intro offset
    have hbyte := (r.byte offset).toNat_lt
    have hrest := ih (offset + 1)
    rw [word, Nat.pow_succ]
    omega

/-- Regions of one length with the same bytes are the same. -/
theorem eq_of_byte {r r' : Region} (hsize : r'.size = r.size) (h : ∀ i, r'.byte i = r.byte i) :
    r' = r := by
  cases r with
  | mk bytes =>
    cases r' with
    | mk bytes' =>
      congr 1
      refine ByteArray.ext_getElem hsize fun i hi hi' => ?_
      have hbyte := h i
      rwa [byte_of_lt hi, byte_of_lt hi'] at hbyte

@[simp] theorem size_zeroBytes (count : Nat) : (zeroBytes count).size = count :=
  Array.size_replicate

@[simp] theorem size_slice (r : Region) (offset count : Nat) :
    (r.slice offset count).size = count := by
  simp only [slice, ByteArray.size_append, ByteArray.size_extract, size_zeroBytes]
  omega

theorem getElem_slice (r : Region) (offset count : Nat) {i : Nat} (hi : i < count)
    (h : i < (r.slice offset count).size) : (r.slice offset count)[i] = r.byte (offset + i) := by
  have hin : (r.bytes.extract offset (offset + count)).size =
      min (offset + count) r.bytes.size - offset := ByteArray.size_extract
  by_cases hlt : offset + i < r.bytes.size
  · simp only [slice]
    rw [ByteArray.getElem_append_left (by omega), ByteArray.getElem_extract, byte_of_lt hlt]
  · simp only [slice]
    rw [ByteArray.getElem_append_right (by omega)]
    rw [byte_of_le (Nat.le_of_not_lt hlt)]
    exact Array.getElem_replicate ..

/-- A run of bytes is read from the bytes it covers and from nothing else. -/
theorem slice_congr {r r' : Region} {offset count : Nat}
    (h : ∀ i, offset ≤ i → i < offset + count → r'.byte i = r.byte i) :
    r'.slice offset count = r.slice offset count := by
  apply ByteArray.ext_getElem (by simp only [size_slice])
  intro i hi _
  rw [size_slice] at hi
  rw [getElem_slice _ _ _ hi, getElem_slice _ _ _ hi, h _ (by omega) (by omega)]

theorem setSlice_of_le {r : Region} {offset : Nat} {bytes : ByteArray}
    (h : offset + bytes.size ≤ r.size) :
    r.setSlice offset bytes = ⟨bytes.copySlice 0 r.bytes offset bytes.size⟩ := if_pos h

theorem size_setEach (bytes : ByteArray) (left : Nat) : ∀ (i offset : Nat) (r : Region),
    (setEach bytes i offset left r).size = r.size := by
  induction left with
  | zero => intro i offset r; rfl
  | succ left ih =>
    intro i offset r
    rw [setEach, ih, size_setByte]

@[simp] theorem size_setSlice (r : Region) (offset : Nat) (bytes : ByteArray) :
    (r.setSlice offset bytes).size = r.size := by
  by_cases h : offset + bytes.size ≤ r.bytes.size
  · rw [setSlice_of_le h]
    simp only [size, ByteArray.copySlice_eq_append, ByteArray.size_append, ByteArray.size_extract]
    have hdata : r.bytes.data.size = r.bytes.size := rfl
    have hmsg : bytes.data.size = bytes.size := rfl
    omega
  · rw [setSlice, if_neg h, size_setEach]

theorem byte_setEach_of_not_mem (bytes : ByteArray) (left : Nat) :
    ∀ (i offset : Nat) (r : Region) {j : Nat}, j < offset ∨ offset + left ≤ j →
      (setEach bytes i offset left r).byte j = r.byte j := by
  induction left with
  | zero => intro i offset r j _; rfl
  | succ left ih =>
    intro i offset r j h
    rw [setEach, ih _ _ _ (by omega), byte_setByte_of_ne _ (by omega)]

theorem byte_copySlice {dest src : ByteArray} {offset i : Nat}
    (h : offset + src.size ≤ dest.size) :
    byte ⟨src.copySlice 0 dest offset src.size⟩ i =
      if offset ≤ i ∧ i < offset + src.size then byte ⟨src⟩ (i - offset) else byte ⟨dest⟩ i := by
  have hd : dest.data.size = dest.size := rfl
  have hs : src.data.size = src.size := rfl
  have hsize : (src.copySlice 0 dest offset src.size).size = dest.size := by
    simp only [ByteArray.copySlice_eq_append, ByteArray.size_append, ByteArray.size_extract]
    omega
  have hfront : (dest.extract 0 offset).size = offset := by
    rw [ByteArray.size_extract]; omega
  have hmiddle : (src.extract 0 (0 + src.size)).size = src.size := by
    rw [ByteArray.size_extract]; omega
  by_cases hlt : i < dest.size
  · rw [byte_of_lt (r := ⟨_⟩) (by rw [size, hsize]; exact hlt)]
    simp only [ByteArray.copySlice_eq_append]
    by_cases hbefore : i < offset
    · rw [if_neg (by omega), byte_of_lt (r := ⟨dest⟩) hlt,
        ByteArray.getElem_append_left (by rw [ByteArray.size_append]; omega),
        ByteArray.getElem_append_left (by omega), ByteArray.getElem_extract]
      simp only [Nat.zero_add]
    · by_cases hin : i < offset + src.size
      · have hlt' : i - offset < src.size := by omega
        rw [if_pos ⟨by omega, hin⟩, byte_of_lt (r := ⟨src⟩) hlt',
          ByteArray.getElem_append_left (by rw [ByteArray.size_append]; omega),
          ByteArray.getElem_append_right (by omega), ByteArray.getElem_extract]
        simp only [Nat.zero_add, hfront]
      · rw [if_neg (by omega), byte_of_lt (r := ⟨dest⟩) hlt,
          ByteArray.getElem_append_right (by rw [ByteArray.size_append]; omega),
          ByteArray.getElem_extract]
        simp only [ByteArray.size_append, hfront, hmiddle]
        congr 1
        omega
  · rw [byte_of_le (r := ⟨_⟩) (by rw [size, hsize]; omega), if_neg (by omega),
      byte_of_le (r := ⟨dest⟩) (Nat.le_of_not_lt hlt)]

/-- Writing a run of bytes leaves every byte alone that it does not cover. -/
theorem byte_setSlice_of_not_mem (r : Region) {offset : Nat} {bytes : ByteArray} {i : Nat}
    (h : i < offset ∨ offset + bytes.size ≤ i) : (r.setSlice offset bytes).byte i = r.byte i := by
  by_cases hin : offset + bytes.size ≤ r.bytes.size
  · rw [setSlice_of_le hin, byte_copySlice hin, if_neg (by omega)]
  · rw [setSlice, if_neg hin, byte_setEach_of_not_mem _ _ _ _ _ h]

theorem slice_setSlice_self {r : Region} {offset : Nat} {bytes : ByteArray}
    (h : offset + bytes.size ≤ r.size) :
    (r.setSlice offset bytes).slice offset bytes.size = bytes := by
  apply ByteArray.ext_getElem (size_slice ..)
  intro i _ hi
  rw [getElem_slice _ _ _ hi, setSlice_of_le h, byte_copySlice h, if_pos (by omega),
    Nat.add_sub_cancel_left]
  exact byte_of_lt (r := ⟨bytes⟩) hi

end MappedQueue.Region

namespace MappedQueue

namespace Field

/-- Two fields that have no byte in common. -/
def Apart (f g : Field) : Prop :=
  f.offset + f.width ≤ g.offset ∨ g.offset + g.width ≤ f.offset

instance (f g : Field) : Decidable (f.Apart g) := inferInstanceAs (Decidable (_ ∨ _))

/-- The byte is one of the field. -/
def Covers (f : Field) (byte : Nat) : Prop := f.offset ≤ byte ∧ byte < f.offset + f.width

end Field

namespace Region

@[simp] theorem size_write (r : Region) (f : Field) (value : Nat) :
    (r.write f value).size = r.size := size_setWord ..

theorem byte_write_of_not_covers (r : Region) {f : Field} {byte : Nat} (h : ¬ f.Covers byte)
    (value : Nat) : (r.write f value).byte byte = r.byte byte := by
  unfold Field.Covers at h
  exact byte_setWord_of_not_mem _ _ _ _ (by omega)

theorem read_lt (r : Region) (f : Field) : r.read f < 256 ^ f.width := word_lt ..

/-- Two regions with the same bytes from `first` up to `last`. -/
def Agree (r r' : Region) (first last : Nat) : Prop :=
  ∀ i, first ≤ i → i < last → r'.byte i = r.byte i

theorem Agree.refl (r : Region) (first last : Nat) : Agree r r first last :=
  fun _ _ _ => rfl

theorem Agree.trans {r r' r'' : Region} {first last : Nat} (h : Agree r r' first last)
    (h' : Agree r' r'' first last) : Agree r r'' first last :=
  fun i hi hl => (h' i hi hl).trans (h i hi hl)

theorem Agree.mono {r r' : Region} {first last first' last' : Nat} (h : Agree r r' first last)
    (hf : first ≤ first') (hl : last' ≤ last) : Agree r r' first' last' :=
  fun i hi hi' => h i (by omega) (by omega)

theorem Agree.read {r r' : Region} {first last : Nat} (h : Agree r r' first last) {f : Field}
    (hf : first ≤ f.offset) (hl : f.offset + f.width ≤ last) : r'.read f = r.read f :=
  word_congr _ fun i hi hw => h i (by omega) (by omega)

theorem Agree.slice {r r' : Region} {first last : Nat} (h : Agree r r' first last)
    {offset count : Nat} (hf : first ≤ offset) (hl : offset + count ≤ last) :
    r'.slice offset count = r.slice offset count :=
  slice_congr fun i hi hw => h i (by omega) (by omega)

theorem agree_write (r : Region) {f : Field} (value : Nat) {first last : Nat}
    (h : last ≤ f.offset ∨ f.offset + f.width ≤ first) : Agree r (r.write f value) first last :=
  fun _ _ _ => byte_setWord_of_not_mem _ _ _ _ (by omega)

theorem agree_setSlice (r : Region) {offset : Nat} {bytes : ByteArray} {first last : Nat}
    (h : last ≤ offset ∨ offset + bytes.size ≤ first) :
    Agree r (r.setSlice offset bytes) first last :=
  fun _ _ _ => byte_setSlice_of_not_mem _ (by omega)

theorem read_write_self {r : Region} {f : Field} (h : f.offset + f.width ≤ r.size) {value : Nat}
    (hv : value < 256 ^ f.width) : (r.write f value).read f = value :=
  (word_setWord_self _ value h).trans (Nat.mod_eq_of_lt hv)

theorem read_write_of_apart (r : Region) {f g : Field} (h : f.Apart g) (value : Nat) :
    (r.write f value).read g = r.read g := by
  have hagree : Agree r (r.write f value) g.offset (g.offset + g.width) :=
    agree_write r value h.symm
  exact hagree.read (Nat.le_refl _) (Nat.le_refl _)

/-- To write back what a field held undoes a write to it. -/
theorem write_write_read {r : Region} {f : Field} (h : f.offset + f.width ≤ r.size) (value : Nat) :
    (r.write f value).write f (r.read f) = r := by
  refine eq_of_byte ?_ fun i => ?_
  · rw [size_write, size_write]
  · by_cases hi : f.offset ≤ i ∧ i < f.offset + f.width
    · have hread : ((r.write f value).write f (r.read f)).read f = r.read f :=
        read_write_self (by rwa [size_write]) (read_lt r f)
      exact byte_of_word_eq f.width hread i hi.1 hi.2
    · have hout : i < f.offset ∨ f.offset + f.width ≤ i := by omega
      exact (byte_setWord_of_not_mem _ _ _ _ hout).trans (byte_setWord_of_not_mem _ _ _ _ hout)

/-- A file that has only been given its length has no tag. -/
theorem read_tag_resize (n : Nat) : ((zeros 0).resize n).read .tag = 0 := by
  have hagree : Agree (zeros 0) ((zeros 0).resize n) 0 4 := by
    intro i _ _
    have hzero : (zeros 0).byte i = 0 := byte_of_le (Nat.zero_le _)
    rw [hzero]
    by_cases hi : i < n
    · have hlt : i < ((zeros 0).resize n).size := by
        simpa only [resize, size, size_slice] using hi
      rw [byte_of_lt hlt]
      have hbyte := getElem_slice (zeros 0) 0 n hi hlt
      rw [Nat.zero_add, hzero] at hbyte
      exact hbyte
    · refine byte_of_le ?_
      simpa only [resize, size, size_slice, Nat.not_lt] using hi
  rw [hagree.read (by decide) (by decide)]
  rfl

end Region

end MappedQueue
