import MappedQueue.Region
import MappedQueue.Request

/-!
# What the users of a queue share

Beside the bytes of the file, the users of a queue share its lock and its two
conditions. The lock has at most one holder. A condition is a set of sleeping threads;
waking takes one of them out of the set, and the thread runs on when it sees that.
-/

namespace MappedQueue

/-- What all users of a queue share. -/
structure Shared where
  region : Region
  holder : Option Nat := none
  /-- Whether the last holder of the lock died with it; until the next one takes it. -/
  orphaned : Bool := false
  /-- The threads asleep on a condition, in the order in which they fell asleep. -/
  sleepers : List (Nat × Condition) := []

namespace Shared

def tagged (q : Shared) : Bool := q.region.read .tag = Layout.validTag

/-- Takes the lock, which is free. -/
def seize (q : Shared) (thread : Nat) : Shared :=
  { q with holder := some thread, orphaned := false }

@[simp] theorem region_seize (q : Shared) (thread : Nat) : (q.seize thread).region = q.region := rfl

@[simp] theorem sleepers_seize (q : Shared) (thread : Nat) :
    (q.seize thread).sleepers = q.sleepers := rfl

/-- Wakes one thread asleep on `condition`, if there is one; `pick` selects which. -/
def wake (q : Shared) (condition : Condition) (pick : Nat) : Shared :=
  let candidates := q.sleepers.filter (·.2 = condition)
  match candidates[pick % candidates.length]? with
  | some sleeper => { q with sleepers := q.sleepers.erase sleeper }
  | none => q

end Shared

end MappedQueue
