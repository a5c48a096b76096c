import MappedQueue.Proofs.Progress

/-!
# Queues stay intact

Whatever the users of a created and initialised queue do, and in whatever order their steps
come, the two lists of the queue divide its slots between them, the counter counts the
queued messages, and the messages are in order. So none of the checks that look for a broken
region ever finds one.
-/

namespace MappedQueue

variable {s : Sizing} {q : Shared} {S : System} {history : List Happening}

/-- What the lists and the counter of an intact queue are like, with the slots of the message
list and of the free list in the order of the links. -/
structure Intact (s : Sizing) (r : Region) (used free : List Nat) : Prop where
  used_chain : Chain r (r.read .head) used
  free_chain : Chain r (r.read .free) free
  nodup : (used ++ free).Nodup
  mem_iff : ∀ slot, slot ∈ used ++ free ↔ s.isSlot slot = true
  length_eq : used.length + free.length = s.capacity
  queued_eq : r.read .queued = used.length
  queued_le : r.read .queued ≤ s.capacity
  descending : used.Pairwise fun slot later => r.read (.priority later) ≤ r.read (.priority slot)
  priority_lt : ∀ slot ∈ used, r.read (.priority slot) < priorityLimit
  length_le : ∀ slot ∈ used, r.read (.length slot) ≤ s.messageSize
  tag_eq : r.read .tag = Layout.validTag
  capacity_eq : r.read .capacity = s.capacity
  messageSize_eq : r.read .messageSize = s.messageSize

theorem Arranged.intact {r : Region} {used free : List Nat} (h : Arranged s r used free) :
    Intact s r used free where
  used_chain := h.queued.chain
  free_chain := h.freeChain
  nodup := by
    have hn := h.nodup
    rwa [List.append_nil] at hn
  mem_iff slot := by
    have hm := h.slots_perm.mem_iff (a := slot)
    rwa [List.append_nil, Sizing.mem_slots] at hm
  length_eq := h.length_add
  queued_eq := h.count_eq
  queued_le := by
    have hl := h.length_add
    rw [h.count_eq]
    omega
  descending := List.pairwise_map.mp h.queued.ordered
  priority_lt := h.queued.priority_lt
  length_le := h.queued.length_le
  tag_eq := h.tag_eq
  capacity_eq := h.capacity_eq
  messageSize_eq := h.messageSize_eq

theorem System.Path.inv {S' : System} {a : Ideal} (hp : Path Motion S history S')
    (hi : Inv s S a) : ∃ b, Inv s S' b := by
  induction hp with
  | start => exact ⟨a, hi⟩
  | step _ hstep ih =>
    obtain ⟨b, hb⟩ := ih
    exact hstep.inv hb

/-- In every state that the users of a queue can bring it to, whatever fails in their calls, the
queue is intact, and no call has come to a fault. -/
theorem intact_of_run (hm : Made s q) (hp : System.Path System.Motion (System.idle q) history S) :
    (∃ used free, Intact s S.shared.region used free) ∧
      ∀ thread w, S.workers thread = some w → ∀ fault, w.call.point ≠ .broken fault := by
  obtain ⟨hs, hfresh⟩ := hm.fresh
  obtain ⟨a, hi⟩ := hp.inv (System.Inv.idle hs hfresh)
  obtain ⟨used, free, harranged, -⟩ := hi.refines.represents
  refine ⟨⟨used, free, harranged.intact⟩, fun thread w hw fault hfault => ?_⟩
  exact (hi.workers thread w hw).not_broken ⟨fault, hfault⟩

/-- A send fails because the wake-up fails, and its message is on the queue. -/
theorem intact_after_unheard_send : ∃ q history S, Made ⟨2, 4⟩ q ∧
    System.Path System.Motion (System.idle q) history S ∧
    history = [.answered 0 1 (.send ⟨#[7]⟩ 3 none) (.error (.system (.code 22))) .empty] ∧
    S.shared.region.read .queued = 1 ∧
    (∃ used free, Intact ⟨2, 4⟩ S.shared.region used free) ∧
    ∀ thread w, S.workers thread = some w → ∀ fault, w.call.point ≠ .broken fault := by
  obtain ⟨q, hm⟩ := exists_made (s := ⟨2, 4⟩) (by decide)
  let around : Surroundings := ⟨false, 0, 0, .smooth⟩
  let h : Handle := ⟨⟨2, 4⟩, 1, true⟩
  let request : Request := .send ⟨#[7]⟩ 3 none
  let w : Worker := ⟨0, .request, { request, point := .inside }⟩
  obtain ⟨S₀, hattach, hrest⟩ := System.exists_rest hm 0 around 0 1 true (by decide)
  have htagged : S₀.shared.tagged = true := decide_eq_true hrest.inv.refines.represents.tag_eq
  have hcomes : Call.Comes 0 h around 3 S₀.shared { request } (S₀.shared.seize 0) w.call :=
    .inside rfl htagged rfl hrest.holder_eq
  have hinside := hrest.comes rfl hcomes trivial
  let S₁ : System := { S₀.setWorker 0 (some w) with shared := S₀.shared.seize 0 }
  have hworker : S₁.workers 0 = some w := Function.update_self 0 _ S₀.workers
  have hunheard : w.call.unheard h around (.code 22) S₁.shared = some _ := rfl
  have hbefore :=
    (hattach.trans hinside).mono fun _ _ _ hstep => System.Motion.step hstep.prompted.1
  have hpath := hbefore.step (.unheard hworker hrest.handle_eq hunheard)
  obtain ⟨a, hi⟩ := hbefore.inv (System.Inv.idle (by decide) hm.fresh.2)
  obtain rfl : a = {} := hi.refines.unique hrest.inv.refines
  obtain ⟨t, b, ht, hcall, hdelivery, hb⟩ := hi.unheard hworker hrest.handle_eq hunheard
  cases ht
  refine ⟨q, _, _, hm, hpath, ?_, hb.refines.read_queued, intact_of_run hm hpath⟩
  rw [System.news, hcall, hdelivery]
  rfl

end MappedQueue
