import MappedQueue.Slot

/-!
# Running programs

The outcome of a program is computed one access at a time: a program that is continued
runs to its end first, and a fault ends the whole.
-/

namespace MappedQueue

namespace Access

variable {α β : Type}

theorem run_bind (p : Access α) (k : α → Access β) : ∀ r : Region,
    (p >>= k).run r =
      match p.run r with
      | (.ok a, r') => (k a).run r'
      | (.error f, r') => (.error f, r') := by
  change ∀ r, (p.bind k).run r = _
  induction p with
  | done a => intro r; rfl
  | fault f => intro r; rfl
  | load field next ih => intro r; exact ih _ r
  | store field value next ih => intro r; exact ih () _
  | fetch offset count next ih => intro r; exact ih _ r
  | put offset bytes next ih => intro r; exact ih () _

/-- A program whose first part is known to succeed goes on with the rest. -/
theorem run_bind_of_ok {p : Access α} {k : α → Access β} {r r' : Region} {a : α}
    (h : p.run r = (.ok a, r')) : (p >>= k).run r = (k a).run r' := by
  rw [run_bind, h]

theorem run_bind_of_error {p : Access α} {k : α → Access β} {r r' : Region} {fault : Fault}
    (h : p.run r = (.error fault, r')) : (p >>= k).run r = (.error fault, r') := by
  rw [run_bind, h]

/-- A program that ends well has ended well in each of its parts. -/
theorem run_bind_eq_ok {p : Access α} {k : α → Access β} {r r' : Region} {b : β} :
    (p >>= k).run r = (.ok b, r') ↔
      ∃ a r₁, p.run r = (.ok a, r₁) ∧ (k a).run r₁ = (.ok b, r') := by
  rw [run_bind]
  constructor
  · intro h
    cases hp : p.run r with
    | mk outcome r₁ =>
      rw [hp] at h
      cases outcome with
      | error fault => cases h
      | ok a => exact ⟨a, r₁, rfl, h⟩
  · rintro ⟨a, r₁, hp, hk⟩
    rw [hp]
    exact hk

@[simp] theorem run_pure (a : α) (r : Region) : (pure a : Access α).run r = (.ok a, r) := rfl

@[simp] theorem run_fault (f : Fault) (r : Region) :
    (Access.fault f : Access α).run r = (.error f, r) := rfl

@[simp] theorem run_get_bind (f : Field) (k : Nat → Access β) (r : Region) :
    (get f >>= k).run r = (k (r.read f)).run r := rfl

@[simp] theorem run_set_bind (f : Field) (value : Nat) (k : Unit → Access β) (r : Region) :
    (set f value >>= k).run r = (k ()).run (r.write f value) := rfl

@[simp] theorem run_set (f : Field) (value : Nat) (r : Region) :
    (set f value).run r = (.ok (), r.write f value) := rfl

@[simp] theorem run_getBytes (offset count : Nat) (r : Region) :
    (getBytes offset count).run r = (.ok (r.slice offset count), r) := rfl

@[simp] theorem run_setBytes (offset : Nat) (bytes : ByteArray) (r : Region) :
    (setBytes offset bytes).run r = (.ok (), r.setSlice offset bytes) := rfl

end Access

namespace Slot

variable {s : Sizing} {link : Nat} {β : Type}

theorem run_check_bind (h : s.isSlot link = true) (k : Unit → Access β) (r : Region) :
    (check s link >>= k).run r = (k ()).run r := by
  rw [check, if_pos h]
  rfl

theorem run_setPayload (h : s.isSlot link = true) (bytes : ByteArray) (r : Region) :
    (setPayload s link bytes).run r = (.ok (), r.setSlice (Layout.payload link) bytes) :=
  run_check_bind h _ r

theorem run_payload (h : s.isSlot link = true) (count : Nat) (r : Region) :
    (payload s link count).run r = (.ok (r.slice (Layout.payload link) count), r) :=
  run_check_bind h _ r

end Slot

end MappedQueue
