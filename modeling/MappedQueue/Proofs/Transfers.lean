import MappedQueue.Proofs.Progress

/-!
# What is sent is received

A transfer is a message that was sent or received. In whatever order the threads of a run
take their steps, the transfers of the calls that succeeded, in the order in which these
calls ended, could have been made one after the other on a list of messages with limited
room. A call that ends with an error leaves no trace in it.
-/

namespace MappedQueue

variable {s : Sizing} {q : Shared} {S S' : System} {a b : Ideal} {history shown : List Happening}

inductive Transfer where
  | sent (m : Message)
  | received (m : Message)
  deriving DecidableEq

/-- The messages that were sent, first one first. -/
def Transfer.sent? : Transfer → Option Message
  | sent m => some m
  | received _ => none

/-- The messages that were received, first one first. -/
def Transfer.received? : Transfer → Option Message
  | sent _ => none
  | received m => some m

/-- Transfers that a queue of a capacity can make, one after the other: from a list of
messages, and up to another. -/
inductive Legal (capacity : Nat) : List Message → List Transfer → List Message → Prop
  | nil {l : List Message} : Legal capacity l [] l
  | sent {l l' : List Message} {m : Message} {rest : List Transfer} (hroom : l.length < capacity)
      (hrest : Legal capacity (Backlog.insert m l) rest l') : Legal capacity l (.sent m :: rest) l'
  | received {l l' : List Message} {m : Message} {rest : List Transfer}
      (hrest : Legal capacity l rest l') : Legal capacity (m :: l) (.received m :: rest) l'

/-- The transfer that a call has made, told from its answer and its buffer. -/
def Happening.transfer? : Happening → Option Transfer
  | .answered _ _ (.send bytes priority _) (.ok .sent) _ => some (.sent ⟨bytes, priority⟩)
  | .answered _ _ (.receive _) (.ok (.received length priority)) buffer =>
    some (.received ⟨buffer.extract 0 length, priority⟩)
  | _ => none

def transfers (history : List Happening) : List Transfer := history.filterMap Happening.transfer?

namespace Legal

variable {capacity : Nat} {l l' l'' : List Message} {ts ts' : List Transfer}

theorem eq_of_nil (h : Legal capacity l [] l') : l' = l := by
  cases h
  rfl

theorem append (h : Legal capacity l ts l') (h' : Legal capacity l' ts' l'') :
    Legal capacity l (ts ++ ts') l'' := by
  induction h with
  | nil => exact h'
  | sent hroom _ ih => exact .sent hroom (ih h')
  | received _ ih => exact .received (ih h')

/-- What was there and what was sent is what was received and what is left. -/
theorem perm (h : Legal capacity l ts l') :
    (l ++ ts.filterMap Transfer.sent?).Perm (ts.filterMap Transfer.received? ++ l') := by
  induction h with
  | nil => simp
  | @sent l l' m rest hroom _ ih =>
    refine List.Perm.trans ?_ ih
    exact List.perm_middle.trans ((Backlog.insert_perm m l).symm.append_right _)
  | @received l l' m rest _ ih => exact List.Perm.cons m ih

/-- Within a priority, what was there and was sent later is received in this order, and what is
left comes last. -/
theorem fifo (h : Legal capacity l ts l') (priority : Nat) :
    (l ++ ts.filterMap Transfer.sent?).filter (·.priority = priority) =
      (ts.filterMap Transfer.received? ++ l').filter (·.priority = priority) := by
  induction h with
  | nil => rw [List.filterMap_nil, List.filterMap_nil, List.append_nil, List.nil_append]
  | @sent l l' m rest hroom _ ih =>
    refine Eq.trans ?_ ih
    change (l ++ ([m] ++ rest.filterMap Transfer.sent?)).filter _ = _
    rw [← List.append_assoc, List.filter_append, List.filter_append, ← Backlog.filter_insert,
      ← List.filter_append]
  | @received l l' m rest _ ih =>
    change (m :: (l ++ rest.filterMap Transfer.sent?)).filter _ =
      (m :: (rest.filterMap Transfer.received? ++ l')).filter _
    rw [List.filter_cons, List.filter_cons, ih]

end Legal

/-- What a received message leaves in the buffer is the message. -/
theorem extract_overwrite (buffer bytes : ByteArray) :
    (Turn.overwrite buffer bytes).extract 0 bytes.size = bytes := by
  rw [Turn.overwrite, ByteArray.extract_append_eq_left rfl]

theorem transfer_of_plain {answer : Answer} (hp : Plain answer) (thread identity : Nat)
    (request : Request) (buffer : ByteArray) :
    (Happening.answered thread identity request answer buffer).transfer? = none := by
  unfold Happening.transfer?
  split
  · rename_i h
    cases h
    exact hp.elim
  · rename_i h
    cases h
    exact hp.elim
  · rfl

/-- Deliveries are no transfers. -/
theorem transfers_news (thread : Nat) (h : Handle) (request : Request) (t : Turn) :
    transfers (t.news thread h request) =
      match t.verdict with
      | .finish answer _ =>
        (Happening.answered thread h.identity request answer t.buffer).transfer?.toList
      | .wait => [] := by
  have hdelivery :
      (t.delivery.map fun d =>
        Happening.delivered thread d.toDelivery d.report).toList.filterMap
          Happening.transfer? = [] := by
    cases t.delivery <;> rfl
  rw [transfers, Turn.news, List.filterMap_append, hdelivery, List.nil_append]
  cases t.verdict with
  | wait => rfl
  | finish answer wake =>
    dsimp only
    rw [List.filterMap_cons]
    split <;> rename_i hx <;> rw [hx] <;> rfl

/-- A turn makes the transfer that it shows, and no other. -/
theorem Turn.Does.legal {h : Handle} {c : Call} {t : Turn} (hd : t.Does h c a b) (thread : Nat) :
    Legal h.sizing.capacity a.messages (transfers (t.news thread h c.request)) b.messages := by
  rw [transfers_news]
  cases hd with
  | send hrequest hroom hverdict hmessages =>
    rw [hverdict, hrequest, hmessages]
    exact .sent hroom .nil
  | receive hrequest hhead hverdict hbuffer hmessages =>
    rw [hverdict, hrequest, hmessages, hhead, hbuffer]
    simp only [Happening.transfer?, extract_overwrite]
    exact .received .nil
  | register hrequest hverdict hdelivery hmessages =>
    rw [hverdict, hrequest, hmessages]
    exact .nil
  | withdraw hrequest hverdict hdelivery hmessages =>
    rw [hverdict, hrequest, hmessages]
    exact .nil
  | decline hverdict hplain hdelivery hmessages =>
    rw [hverdict, hmessages]
    simp only [transfer_of_plain hplain]
    exact .nil
  | wait hverdict hbuffer hdelivery hmessages =>
    rw [hverdict, hmessages]
    exact .nil

/-- A step changes the messages by the transfers that it shows. -/
theorem Effect.legal (hcapacity : 0 < s.capacity) (he : Effect s a shown b) :
    Legal s.capacity a.messages (transfers shown) b.messages := by
  cases he with
  | silent => exact .nil
  | @refused thread identity request error buffer b hbusy hmessages =>
    have hplain : Plain (.error error) := trivial
    rw [transfers, List.filterMap_cons, transfer_of_plain hplain, hmessages]
    exact .nil
  | turn hs hh hturn =>
    subst hs
    exact (Ideal.turn_does hcapacity hturn).legal _

/-- A step that ends a call with an error shows no transfer. -/
theorem Effect.transfers_of_error (he : Effect s a shown b) {thread identity : Nat}
    {request : Request} {error : Error} {buffer : ByteArray}
    (hmem : .answered thread identity request (.error error) buffer ∈ shown) :
    transfers shown = [] := by
  cases he with
  | silent => rfl
  | @refused thread identity request error buffer hbusy =>
    have hplain : Plain (.error error) := trivial
    rw [transfers, List.filterMap_cons, transfer_of_plain hplain]
    rfl
  | @turn thread h herald c t hs hh hturn =>
    rw [transfers_news]
    unfold Turn.news at hmem
    rcases List.mem_append.mp hmem with hdelivered | hanswered
    · cases hd : t.delivery <;> simp [hd] at hdelivered
    · cases hv : t.verdict with
      | wait => rfl
      | finish answer wake =>
        simp only [hv, List.mem_singleton, Happening.answered.injEq] at hanswered
        have hplain : Plain (.error error) := trivial
        rw [hanswered.2.2.2.1] at hplain
        dsimp only
        rw [transfer_of_plain hplain]
        rfl

/-- The transfers of every run are a legal run of a queue that holds at most as many messages
as its capacity and hands them out by priority. At its end the messages that were sent are
those that were received and those that are queued, and within a priority they are received
in the order in which they were sent. Each further step changes what is queued by the
transfers that it shows; a step that ends no call, or ends it with an error, changes
nothing. That is so also where the lock or a wait fails. -/
theorem transfers_legal (hm : Made s q) (hr : System.Run (System.idle q) history S) :
    ∃ queued, Represents s S.shared.region queued ∧
      Legal s.capacity [] (transfers history) queued ∧
      ((transfers history).filterMap Transfer.sent?).Perm
        ((transfers history).filterMap Transfer.received? ++ queued) ∧
      (∀ priority : Nat,
        ((transfers history).filterMap Transfer.sent?).filter (·.priority = priority) =
          ((transfers history).filterMap Transfer.received? ++ queued).filter
            (·.priority = priority)) ∧
      ∀ shown S', System.Step S shown S' → ∃ queued', Represents s S'.shared.region queued' ∧
        Legal s.capacity queued (transfers shown) queued' ∧
        (shown = [] → queued' = queued) ∧
        ∀ thread identity request error buffer,
          .answered thread identity request (.error error) buffer ∈ shown → queued' = queued := by
  obtain ⟨hs, hfresh⟩ := hm.fresh
  obtain ⟨a, hi, hlegal⟩ := hr.effects
    (P := fun history a => Legal s.capacity [] (transfers history) a.messages)
    (System.Inv.idle hs hfresh) .nil fun history shown a b hp he => by
      rw [transfers, List.filterMap_append]
      exact hp.append (he.legal hs.1.1)
  refine ⟨a.messages, hi.refines.represents, hlegal, hlegal.perm, hlegal.fifo,
    fun shown S' hstep => ?_⟩
  obtain ⟨b, hb, he⟩ := hstep.effect hi
  have hl := he.legal hs.1.1
  refine ⟨b.messages, hb.refines.represents, hl, ?_, ?_⟩
  · rintro rfl
    exact hl.eq_of_nil
  · intro thread identity request error buffer hmem
    rw [he.transfers_of_error hmem] at hl
    exact hl.eq_of_nil

/-- A send and a receive succeed, and then the wait of another receive fails. -/
theorem transfers_before_failed_wait : ∃ q history S, Made ⟨2, 4⟩ q ∧
    System.Run (System.idle q) history S ∧
    .answered 1 1 (.receive none) (.error (.system (.code 22))) ⟨#[0, 0, 0, 0]⟩ ∈ history ∧
    transfers history = [.sent ⟨⟨#[7]⟩, 3⟩, .received ⟨⟨#[7]⟩, 3⟩] ∧
    ∃ queued, Represents ⟨2, 4⟩ S.shared.region queued ∧
      Legal 2 [] (transfers history) queued ∧
      ((transfers history).filterMap Transfer.sent?).Perm
        ((transfers history).filterMap Transfer.received? ++ queued) := by
  obtain ⟨q, hm⟩ := exists_made (s := ⟨2, 4⟩) (by decide)
  obtain ⟨S, hattach, hcalm⟩ := System.exists_calm hm 0 1 false (by decide)
  obtain ⟨S₁, hsend, hcalm₁⟩ := hcalm.call 0 ⟨false, 0, 0, .smooth⟩
    (.send ⟨#[7]⟩ 3 none) .empty rfl trivial rfl rfl rfl
  obtain ⟨S₂, hreceive, hcalm₂⟩ := hcalm₁.call 1 ⟨false, 0, 0, .smooth⟩ (.receive none)
    ⟨#[0, 0, 0, 0]⟩ rfl trivial rfl rfl rfl
  obtain ⟨S₃, hfails⟩ := hcalm₂.rest.fails 1 ⟨false, 0, 0, .smooth⟩ (.receive none)
    ⟨#[0, 0, 0, 0]⟩ (.code 22) rfl rfl trivial rfl rfl
  have hrun := ((hattach.trans hsend).trans hreceive).trans hfails
  obtain ⟨queued, hqueued, hlegal, hperm, -⟩ := transfers_legal hm hrun
  exact ⟨q, _, S₃, hm, hrun, List.mem_append_right _ (List.mem_singleton_self _), by decide,
    queued, hqueued, hlegal, hperm⟩

end MappedQueue
