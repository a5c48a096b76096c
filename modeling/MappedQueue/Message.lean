/-!
# Messages

What a sender hands over and a receiver gets: some bytes, and the priority by which they
overtake others.
-/

namespace MappedQueue

/-- A message and its priority. -/
structure Message where
  bytes : ByteArray
  priority : Nat

instance : DecidableEq Message := fun a b =>
  decidable_of_iff (a.bytes.data = b.bytes.data ∧ a.priority = b.priority) <| by
    rcases a with ⟨⟨bytes⟩, priority⟩
    rcases b with ⟨⟨bytes'⟩, priority'⟩
    simp

end MappedQueue
