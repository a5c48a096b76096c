import MappedQueue.Proofs.Bytes
import MappedQueue.Proofs.Programs
import MappedQueue.Proofs.Slots

/-!
# What programs touch

A program over a region makes one access after the other, each to a run of bytes. Whether it
stays inside the state record and the slots, how many accesses it makes at most, and what holds
when it has come to its end, is shown part by part: a program that is continued makes its own
accesses first.
-/

namespace MappedQueue

open Layout (stateOffset headerSize slotHeaderSize)

variable {α β : Type} {s : Sizing} {r : Region} {n k : Nat} {F : Region → Prop}
  {P : α → Region → Prop} {Q : β → Region → Prop} {f : Field} {slot offset count : Nat}

/-- The accesses that a program makes, first things first: where each one starts and how many
bytes it takes. -/
def Access.touched : Access α → Region → List (Nat × Nat)
  | done _, _ => []
  | fault _, _ => []
  | load field next, r => (field.offset, field.width) :: (next (r.read field)).touched r
  | store field value next, r =>
    (field.offset, field.width) :: (next ()).touched (r.write field value)
  | fetch offset count next, r => (offset, count) :: (next (r.slice offset count)).touched r
  | put offset bytes next, r =>
    (offset, bytes.size) :: (next ()).touched (r.setSlice offset bytes)

namespace Sizing

/-- Whether `count` bytes from `offset` are in the state record, or in the header and the bytes
for the message of one slot. -/
def Permits (s : Sizing) (offset count : Nat) : Prop :=
  (stateOffset ≤ offset ∧ offset + count ≤ headerSize) ∨
    ∃ i < s.capacity, s.slotOffset i ≤ offset ∧
      offset + count ≤ s.slotOffset i + slotHeaderSize + s.messageSize

/-- What is permitted is behind the sizing and the lock, and inside the file. -/
theorem Permits.inside (hp : s.Permits offset count) :
    stateOffset ≤ offset ∧ offset + count ≤ s.fileSize := by
  rcases hp with ⟨hlow, hhigh⟩ | ⟨i, hi, hlow, hhigh⟩
  · exact ⟨hlow, Nat.le_trans hhigh (Nat.le_add_right _ _)⟩
  · have hend := add_stride_le_of_isSlot (isSlot_slotOffset hi)
    have hroom := room_le_stride s
    have hstart := headerSize_le_of_isSlot (isSlot_slotOffset hi)
    have hstate : stateOffset ≤ headerSize := by decide
    omega

theorem permits_state (hlow : stateOffset ≤ offset) (hhigh : offset + count ≤ headerSize) :
    s.Permits offset count := Or.inl ⟨hlow, hhigh⟩

/-- The header of a slot and the bytes of its message may be touched. -/
theorem permits_slot (hslot : s.isSlot slot = true) (hlow : slot ≤ offset)
    (hhigh : offset + count ≤ slot + slotHeaderSize + s.messageSize) : s.Permits offset count := by
  obtain ⟨i, hi, rfl⟩ := isSlot_iff.mp hslot
  exact Or.inr ⟨i, hi, hlow, hhigh⟩

theorem permits_next (hslot : s.isSlot slot = true) :
    s.Permits (Field.next slot).offset (Field.next slot).width :=
  permits_slot hslot (Nat.le_refl _) (by simp only [Field.next, slotHeaderSize]; omega)

theorem permits_length (hslot : s.isSlot slot = true) :
    s.Permits (Field.length slot).offset (Field.length slot).width :=
  permits_slot hslot (Nat.le_add_right _ _) (by simp only [Field.length, slotHeaderSize]; omega)

theorem permits_priority (hslot : s.isSlot slot = true) :
    s.Permits (Field.priority slot).offset (Field.priority slot).width :=
  permits_slot hslot (Nat.le_add_right _ _) (by simp only [Field.priority, slotHeaderSize]; omega)

theorem permits_payload (hslot : s.isSlot slot = true) (hcount : count ≤ s.messageSize) :
    s.Permits (Layout.payload slot) count :=
  permits_slot hslot (Nat.le_add_right _ _) (Nat.add_le_add_left hcount _)

end Sizing

namespace Access

theorem touched_bind (p : Access α) (k : α → Access β) : ∀ r : Region,
    (p >>= k).touched r = p.touched r ++
      match p.run r with
      | (.ok a, r') => (k a).touched r'
      | (.error _, _) => [] := by
  change ∀ r, (p.bind k).touched r = _
  induction p with
  | done a => intro r; rfl
  | fault f => intro r; rfl
  | load field next ih => intro r; exact congrArg (_ :: ·) (ih _ r)
  | store field value next ih => intro r; exact congrArg (_ :: ·) (ih () _)
  | fetch offset count next ih => intro r; exact congrArg (_ :: ·) (ih _ r)
  | put offset bytes next ih => intro r; exact congrArg (_ :: ·) (ih () _)

/-- A program makes at most `bound` accesses, all of them permitted. When it comes to a fault, `F`
holds of the region that it leaves, and otherwise `P` of what it yields and of the region. -/
structure Keeps (s : Sizing) (bound : Nat) (p : Access α) (r : Region) (F : Region → Prop)
    (P : α → Region → Prop) : Prop where
  permits : ∀ t ∈ p.touched r, s.Permits t.1 t.2
  length_le : (p.touched r).length ≤ bound
  faulted : ∀ fault r', p.run r = (.error fault, r') → F r'
  outcome : ∀ a r', p.run r = (.ok a, r') → P a r'

theorem Keeps.mono {p : Access α} {F' : Region → Prop} {P' : α → Region → Prop}
    (hp : Keeps s n p r F P) (hn : n ≤ k) (hF : ∀ r', F r' → F' r')
    (hP : ∀ a r', P a r' → P' a r') : Keeps s k p r F' P' where
  permits := hp.permits
  length_le := Nat.le_trans hp.length_le hn
  faulted fault r' hrun := hF r' (hp.faulted fault r' hrun)
  outcome a r' hrun := hP a r' (hp.outcome a r' hrun)

/-- A program that is continued keeps what its parts keep. -/
theorem Keeps.bind {p : Access α} {next : α → Access β} (hp : Keeps s n p r F P)
    (hnext : ∀ a r', P a r' → Keeps s k (next a) r' F Q) :
    Keeps s (n + k) (p >>= next) r F Q := by
  cases hrun : p.run r with
  | mk result r' =>
    cases result with
    | error fault =>
      refine ⟨?_, ?_, fun fault' r'' hb => ?_, fun b r'' hb => ?_⟩
      · rw [touched_bind, hrun, List.append_nil]
        exact hp.permits
      · rw [touched_bind, hrun, List.append_nil]
        exact Nat.le_trans hp.length_le (Nat.le_add_right _ _)
      · rw [run_bind, hrun] at hb
        cases hb
        exact hp.faulted fault r' hrun
      · rw [run_bind, hrun] at hb
        cases hb
    | ok a =>
      have hrest := hnext a r' (hp.outcome a r' hrun)
      refine ⟨?_, ?_, fun fault r'' hb => ?_, fun b r'' hb => ?_⟩
      · rw [touched_bind, hrun]
        intro t ht
        exact (List.mem_append.mp ht).elim (hp.permits t) (hrest.permits t)
      · rw [touched_bind, hrun, List.length_append]
        exact Nat.add_le_add hp.length_le hrest.length_le
      · rw [run_bind, hrun] at hb
        exact hrest.faulted fault r'' hb
      · rw [run_bind, hrun] at hb
        exact hrest.outcome b r'' hb

theorem keeps_pure {a : α} (h : P a r) : Keeps s n (pure a) r F P := by
  refine ⟨?_, Nat.zero_le _, ?_, ?_⟩
  · intro t ht
    cases ht
  · intro fault r' hrun
    cases hrun
  · intro b r' hrun
    cases hrun
    exact h

/-- A program that only makes something of the result of another one touches what that one
touches. -/
theorem Keeps.map {p : Access α} {g : α → β} (hp : Keeps s n p r F P)
    (hg : ∀ a r', P a r' → Q (g a) r') : Keeps s n (p >>= fun a => pure (g a)) r F Q :=
  hp.bind (k := 0) fun a r' ha => keeps_pure (hg a r' ha)

theorem keeps_fault {fault : Fault} (h : F r) : Keeps s n (.fault fault) r F P := by
  refine ⟨?_, Nat.zero_le _, ?_, ?_⟩
  · intro t ht
    cases ht
  · intro fault' r' hrun
    cases hrun
    exact h
  · intro b r' hrun
    cases hrun

/-- One access, and then nothing else. -/
theorem Keeps.of_single {p : Access α} {a : α} {r' : Region}
    (htouched : p.touched r = [(offset, count)]) (hpermits : s.Permits offset count)
    (hrun : p.run r = (.ok a, r')) (h : P a r') : Keeps s 1 p r F P := by
  refine ⟨?_, ?_, ?_, ?_⟩
  · intro t ht
    rw [htouched] at ht
    rw [List.mem_singleton.mp ht]
    exact hpermits
  · rw [htouched]
    exact Nat.le_refl _
  · intro fault r'' hb
    rw [hrun] at hb
    cases hb
  · intro b r'' hb
    rw [hrun] at hb
    cases hb
    exact h

theorem keeps_get {P : Nat → Region → Prop} (hf : s.Permits f.offset f.width)
    (h : P (r.read f) r) : Keeps s 1 (get f) r F P := .of_single rfl hf rfl h

theorem keeps_set {P : Unit → Region → Prop} {value : Nat} (hf : s.Permits f.offset f.width)
    (h : P () (r.write f value)) : Keeps s 1 (set f value) r F P := .of_single rfl hf rfl h

theorem keeps_getBytes {P : ByteArray → Region → Prop} (hp : s.Permits offset count)
    (h : P (r.slice offset count) r) : Keeps s 1 (getBytes offset count) r F P :=
  .of_single rfl hp rfl h

theorem keeps_setBytes {P : Unit → Region → Prop} {bytes : ByteArray}
    (hp : s.Permits offset bytes.size) (h : P () (r.setSlice offset bytes)) :
    Keeps s 1 (setBytes offset bytes) r F P := .of_single rfl hp rfl h

/-- A read does not change the region. -/
theorem keeps_get_bind {next : Nat → Access β} (hf : s.Permits f.offset f.width)
    (hnext : Keeps s k (next (r.read f)) r F Q) : Keeps s (k + 1) (get f >>= next) r F Q := by
  rw [Nat.add_comm]
  refine (keeps_get (P := fun value r' => value = r.read f ∧ r' = r) hf ⟨rfl, rfl⟩).bind ?_
  rintro _ _ ⟨rfl, rfl⟩
  exact hnext

theorem keeps_set_bind {next : Unit → Access β} {value : Nat} (hf : s.Permits f.offset f.width)
    (hnext : Keeps s k (next ()) (r.write f value) F Q) :
    Keeps s (k + 1) (set f value >>= next) r F Q := by
  rw [Nat.add_comm]
  refine (keeps_set (P := fun _ r' => r' = r.write f value) hf rfl).bind ?_
  rintro _ _ rfl
  exact hnext

/-- What follows the check of a link may rely on it. -/
theorem keeps_check_bind {next : Unit → Access β} (hF : F r)
    (hnext : s.isSlot slot = true → Keeps s k (next ()) r F Q) :
    Keeps s k (Slot.check s slot >>= next) r F Q := by
  by_cases hslot : s.isSlot slot = true
  · rw [Slot.check, if_pos hslot]
    exact hnext hslot
  · rw [Slot.check, if_neg hslot]
    exact keeps_fault hF

end Access

end MappedQueue
