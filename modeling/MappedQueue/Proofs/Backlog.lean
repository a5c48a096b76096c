import Mathlib.Data.List.Perm.Basic
import MappedQueue.Message

/-!
# The messages of a queue, in order

What the users of a queue see of it is the list of its messages, the next one to be
received first. A new message goes behind all messages that are at least as urgent and in
front of all others, so the list stays in order of priority, and among messages of one
priority the oldest comes first.
-/

namespace MappedQueue.Backlog

/-- Puts a message behind all that are at least as urgent. -/
def insert (m : Message) (l : List Message) : List Message :=
  l.filter (m.priority ≤ ·.priority) ++ m :: l.filter (·.priority < m.priority)

/-- From the most urgent message to the least urgent one. -/
def Ordered (l : List Message) : Prop := l.Pairwise fun a b => b.priority ≤ a.priority

variable {m : Message} {l : List Message}

theorem less_urgent_eq (m : Message) : (fun a : Message => decide (a.priority < m.priority)) =
    fun a => !decide (m.priority ≤ a.priority) := by
  funext a
  rw [← decide_not, decide_eq_decide, Nat.not_le]

/-- Nothing is lost and nothing but the new message is gained. -/
theorem insert_perm (m : Message) (l : List Message) : (insert m l).Perm (m :: l) := by
  refine List.perm_middle.trans (List.Perm.cons m ?_)
  rw [less_urgent_eq]
  exact List.filter_append_perm _ l

@[simp] theorem length_insert (m : Message) (l : List Message) :
    (insert m l).length = l.length + 1 := (insert_perm m l).length_eq

/-- Among the messages of one priority the new one is the last. -/
theorem filter_insert (m : Message) (l : List Message) (priority : Nat) :
    (insert m l).filter (·.priority = priority) =
      l.filter (·.priority = priority) ++ [m].filter (·.priority = priority) := by
  have hall {q : Message → Bool} (hq : ∀ a : Message, a.priority = priority → q a = true) :
      (l.filter q).filter (·.priority = priority) = l.filter (·.priority = priority) := by
    rw [List.filter_filter]
    refine List.filter_congr fun a _ => ?_
    by_cases ha : a.priority = priority <;> simp [ha, hq]
  have hnone {q : Message → Bool} (hq : ∀ a : Message, a.priority = priority → q a = false) :
      (l.filter q).filter (·.priority = priority) = [] := by
    rw [List.filter_filter, List.filter_eq_nil_iff]
    intro a _
    by_cases ha : a.priority = priority <;> simp [ha, hq]
  rw [insert, List.filter_append, List.filter_cons]
  by_cases hm : m.priority ≤ priority
  · rw [hall fun a ha => decide_eq_true (ha ▸ hm),
      hnone fun a ha => decide_eq_false (ha ▸ Nat.not_lt.mpr hm), List.filter_cons, List.filter_nil]
  · rw [hnone fun a ha => decide_eq_false (ha ▸ hm),
      hall fun a ha => decide_eq_true (ha ▸ Nat.lt_of_not_le hm), List.filter_cons,
      if_neg (by simp; omega), if_neg (by simp; omega), List.filter_nil, List.append_nil,
      List.nil_append]

theorem Ordered.insert (h : Ordered l) (m : Message) : Ordered (insert m l) := by
  refine List.pairwise_append.mpr ⟨h.sublist List.filter_sublist,
    List.pairwise_cons.mpr ⟨?_, h.sublist List.filter_sublist⟩, ?_⟩
  · intro b hb
    exact Nat.le_of_lt (of_decide_eq_true (List.mem_filter.mp hb).2)
  · intro a ha b hb
    have hle : m.priority ≤ a.priority := of_decide_eq_true (List.mem_filter.mp ha).2
    rcases List.mem_cons.mp hb with rfl | hb
    · exact hle
    · have hlt : b.priority < m.priority := of_decide_eq_true (List.mem_filter.mp hb).2
      exact Nat.le_trans (Nat.le_of_lt hlt) hle

/-- A test that holds of whatever stands in front of an entry it holds of splits the list
into those it holds of and the others. -/
theorem takeWhile_eq_filter {α : Type} {q : α → Bool} {l : List α}
    (h : l.Pairwise fun a b => q b = true → q a = true) : l.takeWhile q = l.filter q := by
  induction l with
  | nil => rfl
  | cons a l ih =>
    obtain ⟨ha, hl⟩ := List.pairwise_cons.mp h
    cases hq : q a with
    | true => rw [List.takeWhile_cons_of_pos hq, List.filter_cons_of_pos hq, ih hl]
    | false =>
      have hnone : ∀ b ∈ l, ¬ q b = true := fun b hb hqb => by
        rw [ha b hb hqb] at hq
        cases hq
      rw [List.takeWhile_cons_of_neg (by rw [hq]; exact Bool.false_ne_true),
        List.filter_cons_of_neg (by rw [hq]; exact Bool.false_ne_true),
        List.filter_eq_nil_iff.mpr hnone]

theorem dropWhile_eq_filter {α : Type} {q : α → Bool} {l : List α}
    (h : l.Pairwise fun a b => q b = true → q a = true) :
    l.dropWhile q = l.filter fun a => !q a := by
  induction l with
  | nil => rfl
  | cons a l ih =>
    obtain ⟨ha, hl⟩ := List.pairwise_cons.mp h
    cases hq : q a with
    | true => rw [List.dropWhile_cons_of_pos hq, List.filter_cons_of_neg (by simp [hq]), ih hl]
    | false =>
      have hall : ∀ b ∈ a :: l, (!q b) = true := by
        intro b hb
        rcases List.mem_cons.mp hb with rfl | hb
        · rw [hq]; rfl
        · cases hqb : q b with
          | false => rfl
          | true => rw [ha b hb hqb] at hq; cases hq
      rw [List.dropWhile_cons_of_neg (by rw [hq]; exact Bool.false_ne_true),
        List.filter_eq_self.mpr hall]

end MappedQueue.Backlog
