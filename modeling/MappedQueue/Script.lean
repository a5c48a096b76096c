import MappedQueue.Access
import MappedQueue.Host

/-!
# Scripts of system operations

A script is a program whose steps are operations of the system. Between two steps of
one script other processes and threads may do theirs, so a run of several scripts is a
sequence of such steps in any order; `run` is the one in which nothing comes between.
-/

namespace MappedQueue

/-- A program of operations that yields an `α`, unless it finds a fault. -/
inductive Script (α : Type) : Type where
  | done (a : α)
  | fault (f : Fault)
  | perform (operation : Operation) (next : operation.Outcome → Script α)

namespace Script

/-- Continues `p` with the script that its result selects. -/
def bind {α β : Type} : Script α → (α → Script β) → Script β
  | done a, k => k a
  | fault f, _ => fault f
  | perform operation next, k => perform operation fun outcome => (next outcome).bind k

instance : Monad Script where
  pure := done
  bind := bind

def call (operation : Operation) : Script operation.Outcome := perform operation done

/-- The accesses of a program, each one an operation on a mapping. -/
def through {α : Type} (mapping : Nat) : Access α → Script α
  | .done a => done a
  | .fault f => fault f
  | .load field next => perform (.load mapping field) fun value => through mapping (next value)
  | .store field value next =>
    perform (.store mapping field value) fun u => through mapping (next u)
  | .fetch offset count next =>
    perform (.fetch mapping offset count) fun bytes => through mapping (next bytes)
  | .put offset bytes next =>
    perform (.put mapping offset bytes) fun u => through mapping (next u)

def run {α : Type} : Script α → Host → Except Fault α × Host
  | done a, h => (.ok a, h)
  | fault f, h => (.error f, h)
  | perform operation next, h =>
    let (outcome, h) := h.perform operation
    (next outcome).run h

end Script

end MappedQueue
