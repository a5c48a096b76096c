import Mathlib.Algebra.Group.Int.Defs
import MappedQueue.Call
import MappedQueue.Proofs.Ideal
import MappedQueue.Proofs.Transfer

/-!
# Turns on the bytes and turns on the messages

A turn under the lock does to the bytes of a queue what the turn of the same name does to
its messages and its registration. In particular it never comes to a fault, and the region
holds a queue again when it is over.
-/

namespace MappedQueue

variable {s : Sizing} {r r' : Region} {h : Handle} {a : Ideal}

namespace Event

/-- Whether an event can be stored: a signal has four bytes and a value eight. -/
def Fits (event : Event) : Prop :=
  (-2 ^ 31 ≤ event.signal ∧ event.signal < 2 ^ 31) ∧ event.value < 2 ^ 64

instance (event : Event) : Decidable event.Fits := inferInstanceAs (Decidable (_ ∧ _))

theorem encodeSigned_lt (n : Int) : encodeSigned n < 256 ^ 4 := by
  unfold encodeSigned
  omega

theorem decodeSigned_encodeSigned (n : Int) :
    decodeSigned (encodeSigned n) = Int.bmod n (2 ^ 32) := by
  have hcast : ((encodeSigned n : Nat) : Int) = n % 2 ^ 32 :=
    Int.toNat_of_nonneg (Int.emod_nonneg _ (by omega))
  unfold decodeSigned
  rw [hcast]
  exact Int.emod_bmod n (2 ^ 32)

/-- A signed number that has four bytes is read as it was written. -/
theorem decodeSigned_of_fits {n : Int} (hn : -2 ^ 31 ≤ n ∧ n < 2 ^ 31) :
    decodeSigned (encodeSigned n) = n := by
  rw [decodeSigned_encodeSigned]
  refine Int.bmod_eq_of_le ?_ ?_ <;> omega

theorem ofCode_code (kind : EventKind) : EventKind.ofCode kind.code = kind := by
  cases kind <;> rfl

end Event

namespace Region

def event (r : Region) : Event :=
  ⟨.ofCode (r.read .eventKind), Event.decodeSigned (r.read .eventSignal), r.read .eventValue⟩

/-- Who is registered, and for which event. -/
def registered (r : Region) : Option Delivery :=
  if r.read .owner = 0 then none else some ⟨r.read .owner, r.event⟩

end Region

theorem SameBeside.registered (hs : SameBeside r r') : r'.registered = r.registered := by
  simp only [Region.registered, Region.event, hs.middle.read (f := .owner) (by decide) (by decide),
    hs.back.read (f := .eventKind) (by decide) (by decide),
    hs.back.read (f := .eventSignal) (by decide) (by decide),
    hs.back.read (f := .eventValue) (by decide) (by decide)]

/-- What the bytes of a region mean. -/
structure Refines (s : Sizing) (r : Region) (a : Ideal) : Prop where
  represents : Represents s r a.messages
  waiting_eq : r.read .waiting = a.waiting
  registered_eq : r.registered = a.registered

/-- The meaning of a region that holds these messages. -/
def Region.ideal (r : Region) (messages : List Message) : Ideal :=
  ⟨messages, r.read .waiting, r.registered⟩

theorem Represents.refines {messages : List Message} (hr : Represents s r messages) :
    Refines s r (r.ideal messages) where
  represents := hr
  waiting_eq := rfl
  registered_eq := rfl

namespace Refines

theorem size_eq (hr : Refines s r a) : r.size = s.fileSize := by
  obtain ⟨used, free, harranged, -⟩ := hr.represents
  exact harranged.size_eq

theorem fileSize_le (hr : Refines s r a) : s.fileSize ≤ r.size := Nat.le_of_eq hr.size_eq.symm

theorem read_queued (hr : Refines s r a) : r.read .queued = a.messages.length :=
  hr.represents.read_queued

/-- Putting and taking messages leaves everything else as it is. -/
theorem of_sameBeside (hr : Refines s r a) {messages : List Message}
    (hm : Represents s r' messages) (hb : SameBeside r r') :
    Refines s r' { a with messages } where
  represents := hm
  waiting_eq := (hb.middle.read (by decide) (by decide)).trans hr.waiting_eq
  registered_eq := hb.registered.trans hr.registered_eq

/-- A region means one thing only. -/
theorem unique {b : Ideal} (hr : Refines s r a) (hr' : Refines s r b) : a = b := by
  cases a
  cases b
  congr 1
  · exact hr.represents.unique hr'.represents
  · exact hr.waiting_eq.symm.trans hr'.waiting_eq
  · exact hr.registered_eq.symm.trans hr'.registered_eq

theorem write_waiting (hr : Refines s r a) (value : Nat) :
    Refines s (r.write .waiting value) { a with waiting := value % 2 ^ 32 } where
  represents := hr.represents.write_beside (by decide) value
  waiting_eq := Region.word_setWord_self 4 value
    (hr.size_eq ▸ Nat.le_trans (by decide) (Nat.le_add_right Layout.headerSize _))
  registered_eq := by
    rw [← hr.registered_eq]
    simp (disch := decide) only [Region.registered, Region.event, Region.read_write_of_apart]

/-- Clearing the owner ends the registration. -/
theorem clear_owner (hr : Refines s r a) :
    Refines s (r.write .owner 0) { a with registered := none } where
  represents := hr.represents.write_beside (by decide) 0
  waiting_eq := (Region.read_write_of_apart _ (by decide) _).trans hr.waiting_eq
  registered_eq := if_pos (read_header_write_self (by decide) hr.fileSize_le (by decide))

theorem register (hr : Refines s r a) {identity : Nat} {event : Event}
    (hi : 0 < identity ∧ identity < 2 ^ 32) (he : event.Fits) :
    ∃ r', event.store.run (r.write .owner identity) = (.ok (), r') ∧
      Refines s r' { a with registered := some ⟨identity, event⟩ } := by
  obtain ⟨kind, signal, value⟩ := event
  refine ⟨(((r.write .owner identity).write .eventKind kind.code).write .eventSignal
    (Event.encodeSigned signal)).write .eventValue value, rfl, ?_, ?_, ?_⟩
  · exact (((hr.represents.write_beside (by decide) _).write_beside (by decide) _).write_beside
      (by decide) _).write_beside (by decide) _
  · simp (disch := decide) only [Region.read_write_of_apart]
    exact hr.waiting_eq
  · have hself : ∀ {r₁ : Region} {f : Field} {value : Nat}, r₁.size = r.size →
        f.offset + f.width ≤ Layout.headerSize → value < 256 ^ f.width →
          (r₁.write f value).read f = value := fun hs hf hv =>
      read_header_write_self hf (hs ▸ hr.fileSize_le) hv
    have hkind : kind.code < 256 ^ 4 := by cases kind <;> decide
    simp (disch := decide) only [Region.registered, Region.event, Region.read_write_of_apart]
    rw [hself rfl (by decide) hi.2, hself (by simp only [Region.size_write]) (by decide) hkind,
      hself (by simp only [Region.size_write]) (by decide) (Event.encodeSigned_lt signal),
      hself (by simp only [Region.size_write]) (by decide) he.2, if_neg (Nat.ne_of_gt hi.1),
      Event.ofCode_code, Event.decodeSigned_of_fits he.1]

/-- Nobody is registered exactly if there is no owner. -/
theorem owner_eq_zero (hr : Refines s r a) : r.read .owner = 0 ↔ a.registered = none := by
  rw [← hr.registered_eq, Region.registered]
  split <;> simp [*]

theorem owner_of_registered (hr : Refines s r a) {held : Delivery} (hh : a.registered = some held) :
    r.read .owner = held.owner ∧ r.event = held.event ∧ held.owner ≠ 0 := by
  rw [← hr.registered_eq, Region.registered] at hh
  split at hh
  case isTrue => cases hh
  case isFalse hne =>
    cases hh
    exact ⟨rfl, rfl, hne⟩

/-- Nothing registered and nothing taken. -/
theorem of_registered_none (hr : Refines s r a) (hn : a.registered = none) :
    Refines s r { a with registered := none } := by
  rw [← hn]
  exact hr

/-- A registration is taken unless a receiver waits. -/
theorem run_take (hr : Refines s r a) :
    ∃ r', Registration.take.run r = (.ok (if a.waiting = 0 then a.registered else none), r') ∧
      Refines s r' (if a.waiting = 0 then { a with registered := none } else a) := by
  rw [Registration.take, Access.run_get_bind, Access.run_get_bind, hr.waiting_eq]
  by_cases hwaiting : a.waiting = 0
  · rw [if_pos hwaiting, if_pos hwaiting]
    cases hregistered : a.registered with
    | none =>
      rw [if_pos (Or.inl (hr.owner_eq_zero.mpr hregistered))]
      exact ⟨r, rfl, hr.of_registered_none hregistered⟩
    | some held =>
      obtain ⟨howner, hevent, hne⟩ := hr.owner_of_registered hregistered
      rw [if_neg (by simp [howner, hne, hwaiting])]
      refine ⟨r.write .owner 0, ?_, hr.clear_owner⟩
      change (Except.ok (some (Delivery.mk (r.read .owner) r.event)), _) = _
      rw [howner, hevent]
  · rw [if_neg hwaiting, if_neg hwaiting, if_pos (Or.inr hwaiting)]
    exact ⟨r, rfl, hr⟩

/-- Whoever is not registered withdraws nothing. -/
theorem run_withdraw_other (hr : Refines s r a) {identity : Nat} (hi : 0 < identity)
    (hother : ∀ held ∈ a.registered, held.owner ≠ identity) :
    (Registration.withdraw identity).run r = (.ok (), r) := by
  have hne : r.read .owner ≠ identity := by
    cases hregistered : a.registered with
    | none =>
      rw [hr.owner_eq_zero.mpr hregistered]
      exact Nat.ne_of_lt hi
    | some held =>
      rw [(hr.owner_of_registered hregistered).1]
      exact hother held hregistered
  rw [Registration.withdraw, Access.run_get_bind, if_neg hne]
  rfl

theorem run_withdraw (hr : Refines s r a) {identity : Nat} (hi : 0 < identity) :
    ∃ r', (Registration.withdraw identity).run r = (.ok (), r') ∧
      Refines s r' (a.withdraw identity) := by
  by_cases hother : ∀ held ∈ a.registered, held.owner ≠ identity
  · refine ⟨r, hr.run_withdraw_other hi hother, ?_⟩
    rw [Ideal.withdraw_other hother]
    exact hr
  · simp only [Classical.not_forall, Decidable.not_not] at hother
    obtain ⟨held, hregistered, howner⟩ := hother
    have hnone : a.withdraw identity = { a with registered := none } := by
      simp [Ideal.withdraw, Option.mem_def.mp hregistered, howner]
    refine ⟨r.write .owner 0, ?_, hnone ▸ hr.clear_owner⟩
    rw [Registration.withdraw, Access.run_get_bind, (hr.owner_of_registered hregistered).1,
      if_pos howner]
    rfl

theorem busy_iff (hr : Refines s r a) {alive : Nat → Bool} {identity : Nat} :
    (r.read .owner ≠ 0 ∧ r.read .owner ≠ identity ∧ alive (r.read .owner) = true) ↔
      a.Busy alive identity := by
  rw [Ideal.Busy]
  cases hregistered : a.registered with
  | none => simp [hr.owner_eq_zero.mpr hregistered]
  | some held =>
    obtain ⟨howner, -, hne⟩ := hr.owner_of_registered hregistered
    simp [howner, hne]

/-- A registration is refused while another identity that is alive holds it. -/
theorem run_register_busy (hr : Refines s r a) {alive : Nat → Bool} {identity : Nat}
    (hb : a.Busy alive identity) (event : Event) :
    (Registration.register alive identity event).run r = (.ok false, r) := by
  rw [Registration.register, Access.run_get_bind, if_pos (hr.busy_iff.mpr hb)]
  rfl

theorem run_register_free (hr : Refines s r a) {alive : Nat → Bool} {identity : Nat}
    {event : Event} (hb : ¬ a.Busy alive identity) (hi : 0 < identity ∧ identity < 2 ^ 32)
    (he : event.Fits) :
    ∃ r', (Registration.register alive identity event).run r = (.ok true, r') ∧
      Refines s r' { a with registered := some ⟨identity, event⟩ } := by
  obtain ⟨r', hrun, hr'⟩ := hr.register hi he
  refine ⟨r', ?_, hr'⟩
  rw [Registration.register, Access.run_get_bind, if_neg (fun h => hb (hr.busy_iff.mp h)),
    Access.run_set_bind, Access.run_bind_of_ok hrun]
  rfl

theorem run_stopWaiting (hr : Refines s r a) :
    ∃ r', Turn.stopWaiting.run r = (.ok (), r') ∧
      Refines s r' { a with waiting := a.waiting - 1 } := by
  have hlt := Region.read_lt r .waiting
  rw [hr.waiting_eq] at hlt
  have hmod : (a.waiting - 1) % 2 ^ 32 = a.waiting - 1 :=
    Nat.mod_eq_of_lt (Nat.lt_of_le_of_lt (Nat.sub_le _ _) hlt)
  have hwrite := hr.write_waiting (a.waiting - 1)
  rw [hmod] at hwrite
  refine ⟨_, ?_, hwrite⟩
  rw [Turn.stopWaiting, Access.run_get_bind, hr.waiting_eq]
  rfl

theorem run_trySend (hs : h.sizing.Valid) (hr : Refines h.sizing r a) {m : Message}
    (hm : m.bytes.size ≤ h.sizing.messageSize) (hp : m.priority < priorityLimit) :
    ∃ r', (Turn.trySend h m.bytes m.priority).run r = (.ok (a.trySend h m).1, r') ∧
      Refines h.sizing r' (a.trySend h m).2 := by
  rw [Turn.trySend, Access.run_get_bind, hr.read_queued, Ideal.trySend]
  by_cases hroom : a.messages.length < h.sizing.capacity
  · obtain ⟨r', hrun, hm', hb⟩ := run_enqueue hs hr.represents hroom hm hp
    rw [if_pos hroom, if_pos hroom, Access.run_bind_of_ok hrun]
    refine ⟨r', ?_, hr.of_sameBeside hm' hb⟩
    simp
  · rw [if_neg hroom, if_neg hroom]
    refine ⟨r, ?_, hr⟩
    split <;> rfl

theorem run_receive (hs : h.sizing.Valid) (hr : Refines h.sizing r a) {m : Message}
    {rest : List Message} (ha : a.messages = m :: rest) (buffer : ByteArray) :
    ∃ r', (Turn.receive h buffer).run r = (.ok (a.receive h buffer m rest).1, r') ∧
      Refines h.sizing r' (a.receive h buffer m rest).2 := by
  obtain ⟨r', hrun, hm', hb⟩ := run_dequeue hs (ha ▸ hr.represents)
  refine ⟨r', ?_, hr.of_sameBeside hm' hb⟩
  rw [Turn.receive, Access.run_bind_of_ok hrun]
  simp [Ideal.receive]

end Refines

/-- The numbers of a request fit into what they are stored in. -/
def Request.Fits : Request → Prop
  | .notify (some event) => event.Fits
  | _ => True

instance (request : Request) : Decidable request.Fits :=
  match request with
  | .notify (some event) => inferInstanceAs (Decidable event.Fits)
  | .notify none | .send _ _ _ | .receive _ | .attributes | .setNonblocking _ | .linger _ _ _ =>
    inferInstanceAs (Decidable True)

/-- An identity is a positive number of four bytes. -/
def Handle.Fits (h : Handle) : Prop := 0 < h.identity ∧ h.identity < 2 ^ 32

instance (h : Handle) : Decidable h.Fits := inferInstanceAs (Decidable (_ ∧ _))

namespace Refines

variable {buffer : ByteArray} {request : Request}

theorem send_accepted {message : ByteArray} {priority : Nat} {deadline : Option Nat}
    (ha : Call.refusal? h buffer (.send message priority deadline) = none) :
    message.size ≤ h.sizing.messageSize ∧ priority < priorityLimit := by
  rw [Call.refusal?] at ha
  split at ha
  · cases ha
  · split at ha
    · cases ha
    · omega

/-- The registration is taken if its delivery is due, and what follows is told of it. -/
theorem run_fire (hr : Refines s r a) : ∃ r', Refines s r' a.fired ∧
    ∀ k : Option Delivery → Access Turn,
      (if a.messages.length = 0 then Registration.take >>= k else pure none >>= k).run r =
        (k a.due).run r' := by
  by_cases he : a.messages = []
  · obtain ⟨r', hrun, hr'⟩ := hr.run_take
    refine ⟨r', ?_, fun k => ?_⟩
    · simpa only [Ideal.fired, Ideal.Quiet, he, true_and] using hr'
    · rw [if_pos (List.length_eq_zero_iff.mpr he), Access.run_bind_of_ok hrun]
      simp only [Ideal.due, Ideal.Quiet, he, true_and]
  · refine ⟨r, ?_, fun k => ?_⟩
    · rw [Ideal.fired, if_neg (fun hq => he hq.1)]
      exact hr
    · rw [if_neg (fun hl => he (List.length_eq_zero_iff.mp hl)), Ideal.due,
        if_neg (fun hq => he hq.1)]
      rfl

theorem run_first_send (hs : h.sizing.Valid) (hr : Refines h.sizing r a) {message : ByteArray}
    {priority : Nat} {deadline : Option Nat}
    (ha : Call.refusal? h buffer (.send message priority deadline) = none) (herald : Herald) :
    ∃ r', (Turn.first h herald buffer (.send message priority deadline)).run r =
        (.ok (a.first h herald buffer (.send message priority deadline)).1, r') ∧
      Refines h.sizing r' (a.first h herald buffer (.send message priority deadline)).2 := by
  obtain ⟨hm, hp⟩ := send_accepted ha
  obtain ⟨r₁, hr₁, hfire⟩ := hr.run_fire
  obtain ⟨r₂, hsend, hr₂⟩ := hr₁.run_trySend (m := ⟨message, priority⟩) hs hm hp
  refine ⟨r₂, ?_, hr₂⟩
  rw [Turn.first, Access.run_get_bind, hr.read_queued]
  dsimp only
  rw [hfire, Access.run_bind_of_ok hsend]
  rfl

theorem run_first_receive (hs : h.sizing.Valid) (hr : Refines h.sizing r a) (deadline : Option Nat)
    (herald : Herald) :
    ∃ r', (Turn.first h herald buffer (.receive deadline)).run r =
        (.ok (a.first h herald buffer (.receive deadline)).1, r') ∧
      Refines h.sizing r' (a.first h herald buffer (.receive deadline)).2 := by
  rw [Turn.first, Access.run_get_bind, hr.read_queued]
  obtain ⟨messages, waiting, registered⟩ := a
  cases messages with
  | nil =>
    rw [if_pos (by exact List.length_nil), Ideal.first]
    dsimp only
    cases h.nonblocking with
    | true => exact ⟨r, rfl, hr⟩
    | false =>
      refine ⟨_, rfl, ?_⟩
      rw [hr.waiting_eq]
      exact hr.write_waiting _
  | cons m rest =>
    rw [if_neg (by exact Nat.succ_ne_zero _)]
    exact hr.run_receive hs rfl buffer

theorem run_first (hs : h.sizing.Valid) (hh : h.Fits) (hr : Refines h.sizing r a)
    (hfits : request.Fits) (ha : Call.refusal? h buffer request = none) (herald : Herald) :
    ∃ r', (Turn.first h herald buffer request).run r = (.ok (a.first h herald buffer request).1, r') ∧
      Refines h.sizing r' (a.first h herald buffer request).2 := by
  have hattributes : (Turn.attributes h).run r = (.ok (a.attributes h), r) := by
    rw [Turn.attributes, Access.run_get_bind, hr.read_queued]
    rfl
  cases request with
  | send message priority deadline => exact hr.run_first_send hs ha herald
  | receive deadline => exact hr.run_first_receive hs deadline herald
  | attributes =>
    refine ⟨r, ?_, hr⟩
    rw [Turn.first, Access.run_bind_of_ok hattributes]
    rfl
  | setNonblocking on =>
    refine ⟨r, ?_, hr⟩
    rw [Turn.first, Access.run_bind_of_ok hattributes]
    rfl
  | notify event =>
    cases event with
    | none =>
      obtain ⟨r', hrun, hr'⟩ := hr.run_withdraw hh.1
      refine ⟨r', ?_, hr'⟩
      rw [Turn.first, Access.run_bind_of_ok hrun]
      rfl
    | some event =>
      rw [Turn.first, Ideal.first]
      by_cases hb : a.Busy herald.alive h.identity
      · rw [Access.run_bind_of_ok (hr.run_register_busy hb event), if_pos hb]
        exact ⟨r, rfl, hr⟩
      · obtain ⟨r', hrun, hr'⟩ := hr.run_register_free hb hh hfits
        rw [Access.run_bind_of_ok hrun, if_neg hb]
        exact ⟨r', rfl, hr'⟩
  | linger condition policy deadline => exact ⟨r, rfl, hr⟩

theorem run_again (hs : h.sizing.Valid) (hr : Refines h.sizing r a)
    (ha : Call.refusal? h buffer request = none) :
    ∃ r', (Turn.again h buffer request).run r = (.ok (a.again h buffer request).1, r') ∧
      Refines h.sizing r' (a.again h buffer request).2 := by
  cases request with
  | send message priority deadline =>
    obtain ⟨hm, hp⟩ := send_accepted ha
    obtain ⟨r', hrun, hr'⟩ := hr.run_trySend (m := ⟨message, priority⟩) hs hm hp
    refine ⟨r', ?_, hr'⟩
    rw [Turn.again, Access.run_bind_of_ok hrun]
    rfl
  | receive deadline =>
    rw [Turn.again, Access.run_get_bind, hr.read_queued]
    obtain ⟨messages, waiting, registered⟩ := a
    cases messages with
    | nil =>
      rw [if_pos (by exact List.length_nil)]
      exact ⟨r, rfl, hr⟩
    | cons m rest =>
      rw [if_neg (by exact Nat.succ_ne_zero _)]
      obtain ⟨r₁, hstop, hr₁⟩ := hr.run_stopWaiting
      obtain ⟨r', hrun, hr'⟩ := hr₁.run_receive hs rfl buffer
      exact ⟨r', (Access.run_bind_of_ok hstop).trans hrun, hr'⟩
  | attributes => exact ⟨r, rfl, hr⟩
  | setNonblocking on => exact ⟨r, rfl, hr⟩
  | notify event => exact ⟨r, rfl, hr⟩
  | linger condition policy deadline => exact ⟨r, rfl, hr⟩

theorem run_giveUp (hr : Refines h.sizing r a) (buffer : ByteArray) (setback : Setback)
    (request : Request) :
    ∃ r', (Turn.giveUp h buffer setback request).run r =
        (.ok (a.giveUp h buffer setback request).1, r') ∧
      Refines h.sizing r' (a.giveUp h buffer setback request).2 := by
  cases request with
  | receive deadline =>
    obtain ⟨r', hrun, hr'⟩ := hr.run_stopWaiting
    refine ⟨r', ?_, hr'⟩
    rw [Turn.giveUp, Access.run_bind_of_ok hrun]
    rfl
  | send message priority deadline => exact ⟨r, rfl, hr⟩
  | attributes => exact ⟨r, rfl, hr⟩
  | setNonblocking on => exact ⟨r, rfl, hr⟩
  | notify event => exact ⟨r, rfl, hr⟩
  | linger condition policy deadline => exact ⟨r, rfl, hr⟩

theorem run_fail (hr : Refines s r a) (h : Handle) (buffer : ByteArray) (error : SystemError)
    (request : Request) :
    ∃ r', (Turn.fail h buffer error request).run r =
        (.ok { verdict := .finish (.error (.system error)) none, buffer,
               nonblocking := h.nonblocking }, r') ∧
      Refines s r' (a.stopWaiting (request matches .receive _)) := by
  cases request with
  | receive deadline =>
    obtain ⟨r', hrun, hr'⟩ := hr.run_stopWaiting
    refine ⟨r', ?_, hr'⟩
    rw [Turn.fail, Access.run_bind_of_ok hrun]
    rfl
  | _ => exact ⟨r, rfl, hr⟩

end Refines

end MappedQueue
