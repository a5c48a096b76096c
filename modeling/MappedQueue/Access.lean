import MappedQueue.Fault
import MappedQueue.Region

/-!
# Programs over a shared region

What the queue does to its region is written as a program of single reads and writes:
`load` and `store` for numbers, `fetch` and `put` for runs of bytes, and `fault` where
the region is found broken. A program says nothing about when its accesses happen, so
the same program can be run at once, be stopped after any number of writes, or be
asked which bytes it touches.
-/

namespace MappedQueue

/-- A program that reads and writes a region and yields an `α`, unless it finds a
fault. -/
inductive Access (α : Type) : Type where
  | done (a : α)
  | fault (f : Fault)
  | load (field : Field) (next : Nat → Access α)
  | store (field : Field) (value : Nat) (next : Unit → Access α)
  | fetch (offset count : Nat) (next : ByteArray → Access α)
  | put (offset : Nat) (bytes : ByteArray) (next : Unit → Access α)

namespace Access

/-- Continues `p` with the program that its result selects. -/
def bind {α β : Type} : Access α → (α → Access β) → Access β
  | done a, k => k a
  | fault f, _ => fault f
  | load field next, k => load field fun v => (next v).bind k
  | store field value next, k => store field value fun u => (next u).bind k
  | fetch offset count next, k => fetch offset count fun bs => (next bs).bind k
  | put offset bytes next, k => put offset bytes fun u => (next u).bind k

instance : Monad Access where
  pure := done
  bind := bind

instance {α : Type} [Inhabited α] : Inhabited (Access α) := ⟨done default⟩

def get (field : Field) : Access Nat := load field done

def set (field : Field) (value : Nat) : Access Unit := store field value done

def getBytes (offset count : Nat) : Access ByteArray := fetch offset count done

def setBytes (offset : Nat) (bytes : ByteArray) : Access Unit := put offset bytes done

/-- Runs a program to its end without anybody else touching the region. The region is
the one after the last write also when the program ends in a fault. -/
def run {α : Type} : Access α → Region → Except Fault α × Region
  | done a, r => (.ok a, r)
  | fault f, r => (.error f, r)
  | load field next, r => (next (r.read field)).run r
  | store field value next, r => (next ()).run (r.write field value)
  | fetch offset count next, r => (next (r.slice offset count)).run r
  | put offset bytes next, r => (next ()).run (r.setSlice offset bytes)

/-- The region after the first `writes` writes of a program, or after all of them if
there are fewer. -/
def runFor {α : Type} : Access α → (writes : Nat) → Region → Region
  | done _, _, r => r
  | fault _, _, r => r
  | load field next, writes, r => (next (r.read field)).runFor writes r
  | store field value next, writes, r =>
    match writes with
    | 0 => r
    | writes + 1 => (next ()).runFor writes (r.write field value)
  | fetch offset count next, writes, r => (next (r.slice offset count)).runFor writes r
  | put offset bytes next, writes, r =>
    match writes with
    | 0 => r
    | writes + 1 => (next ()).runFor writes (r.setSlice offset bytes)

end Access

end MappedQueue
