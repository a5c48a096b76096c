import MappedQueue.Text.Hex

/-!
# Corruption

A fault is a broken rule of the shared region: other processes may be looking at the
same bytes, so a fault is never handed to a caller as an error; it ends the process
with a report.
-/

namespace MappedQueue

/-- What can be found broken in a region. -/
inductive Fault where
  /-- A slot was wanted while fewer messages than the capacity were counted, and the
  free list was empty. -/
  | noFreeSlot (queued : Nat)
  /-- A message was wanted while some were counted, and the message list was empty. -/
  | noMessage (queued : Nat)
  /-- The message list goes on beyond the number of slots. -/
  | endlessList (capacity : Nat)
  /-- A link leads to an offset where no slot starts. -/
  | strayLink (link : Nat)
  /-- A message claims more bytes than a message may have. -/
  | oversizedMessage (slot length limit : Nat)
  deriving DecidableEq, Repr

/-- The report that a fault ends the process with. -/
def Fault.report (fault : Fault) : String :=
  "message queue corrupted: " ++ match fault with
  | noFreeSlot queued => s!"send: current_messages = {queued}; free list empty"
  | noMessage queued => s!"receive: current_messages = {queued}; message list empty"
  | endlessList capacity => s!"message list longer than {capacity} entries"
  | strayLink link => "link 0x" ++ String.ofList (Text.Hex.digits link) ++
      " does not point at a slot"
  | oversizedMessage slot length limit =>
      "message at 0x" ++ String.ofList (Text.Hex.digits slot) ++
        s!" claims {length} bytes, message size is {limit}"

end MappedQueue
