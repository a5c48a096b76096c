import MappedQueue.Proofs.Strokes
import MappedQueue.Proofs.Worlds

/-!
# Deaths under the lock

The lock outlives its holder: whoever asks for it after its holder has died recovers it, and goes on
with the region as the dead thread has left it. If that thread has not died between the strokes of
a transfer, the queue is as good as before. If it has, nothing mends the lists and the counter, and
a thread that does nothing but send, or nothing but receive, comes to a fault.
-/

namespace MappedQueue

open Access

variable {s : Sizing} {r : Region} {used free loose : List Nat} {slot : Nat} {h : Handle}
  {S S' : System} {a : Ideal} {thread number : Nat} {around : Surroundings} {request : Request}
  {buffer : ByteArray}

/-- A turn ends its call with a success, leaves the mode of the handle alone, and leaves `r'`. -/
structure Turn.Serves (h : Handle) (r : Region) (turn : Access Turn) (t : Turn) (r' : Region) :
    Prop where
  run_eq : turn.run r = (.ok t, r')
  succeeds : ∃ reply wake, t.verdict = .finish (.ok reply) wake
  nonblocking_eq : t.nonblocking = h.nonblocking

namespace Divided

/-- Whatever the counter says, nothing is allocated from an empty list. -/
theorem run_allocate_empty (hd : Divided s r used [] loose) :
    (FreeList.allocate s).run r = (.error (.noFreeSlot (r.read .queued)), r) := by
  have hnil : r.read .free = Layout.nil := hd.freeChain
  rw [FreeList.allocate, run_get_bind, hnil, if_pos rfl]
  rfl

theorem run_popHead_empty (hd : Divided s r [] free loose) :
    (MessageList.popHead s).run r = (.error (.noMessage (r.read .queued)), r) := by
  have hnil : r.read .head = Layout.nil := hd.queued.chain
  rw [MessageList.popHead, run_get_bind, hnil, if_pos rfl]
  rfl

/-- What a send does before it looks for room: it may take the registration along. -/
theorem exists_lead (hd : Divided s r used free loose) : ∃ (taken : Option Delivery) (r₁ : Region),
    Divided s r₁ used free loose ∧ r₁.read .queued = r.read .queued ∧
      ∀ h herald buffer message priority deadline,
        (Turn.first h herald buffer (.send message priority deadline)).run r =
          (do let verdict ← Turn.trySend h message priority
              return { verdict, buffer, nonblocking := h.nonblocking,
                       delivery := taken.map herald.dispatch } : Access Turn).run r₁ := by
  have hcleared : Divided s (r.write .owner 0) used free loose ∧
      (r.write .owner 0).read .queued = r.read .queued :=
    ⟨(hd.write (Or.inl (by decide)) 0).1, Region.read_write_of_apart _ (by decide) _⟩
  by_cases hempty : r.read .queued = 0
  · obtain ⟨hrun, -⟩ | ⟨delivery, hrun, -⟩ := Registration.take_cases r
    · refine ⟨none, r, hd, rfl, fun h herald buffer message priority deadline => ?_⟩
      rw [Turn.first, run_get_bind, if_pos hempty, run_bind_of_ok hrun]
    · refine ⟨some delivery, _, hcleared.1, hcleared.2,
        fun h herald buffer message priority deadline => ?_⟩
      rw [Turn.first, run_get_bind, if_pos hempty, run_bind_of_ok hrun]
  · refine ⟨none, r, hd, rfl, fun h herald buffer message priority deadline => ?_⟩
    rw [Turn.first, run_get_bind, if_neg hempty]
    rfl

/-- As long as there are free slots and the counter admits it, sends use them up. -/
theorem serves_send (hs : h.sizing.Valid) (hd : Divided h.sizing r used (slot :: free) loose)
    (hroom : r.read .queued < h.sizing.capacity) (herald : Herald) (buffer : ByteArray) :
    ∃ t r' used', Turn.Serves h r (Turn.first h herald buffer (.send .empty 0 none)) t r' ∧
      Divided h.sizing r' used' free loose ∧ r'.read .queued = r.read .queued + 1 := by
  obtain ⟨delivery, r₁, hd₁, hqueued₁, hfirst⟩ := hd.exists_lead
  obtain ⟨r₂, used', hrun, hd₂, -, -⟩ := hd₁.run_enqueue (m := ⟨.empty, 0⟩) hs (Nat.zero_le _)
    (by decide)
  have hfit : r₁.read .queued + 1 < 256 ^ 4 := by
    have hcapacity := hs.1.2
    rw [hqueued₁]
    exact Nat.lt_of_le_of_lt (Nat.le_trans hroom hcapacity) (by decide)
  have hcounted : (r₂.write .queued (r₁.read .queued + 1)).read .queued = r₁.read .queued + 1 :=
    read_header_write_self (by decide) hd₂.fileSize_le hfit
  have hsend : (Turn.trySend h .empty 0).run r₁ = (.ok (.finish (.ok .sent)
      (if decide (r₁.read .queued + 1 = 1) then some .notEmpty else none)),
        r₂.write .queued (r₁.read .queued + 1)) := by
    rw [Turn.trySend, run_get_bind, if_pos (by rw [hqueued₁]; exact hroom), run_bind_of_ok hrun]
    rfl
  have hturn := (hfirst h herald buffer .empty 0 none).trans (run_bind_of_ok hsend)
  exact ⟨_, _, used', ⟨hturn, ⟨.sent, _, rfl⟩, rfl⟩, (hd₂.write_queued _).1,
    by rw [hcounted, hqueued₁]⟩

/-- And when there is none left, the next one comes to a fault. -/
theorem run_send_fault (hd : Divided h.sizing r used [] loose)
    (hroom : r.read .queued < h.sizing.capacity) (herald : Herald) (buffer : ByteArray) :
    ∃ r', (Turn.first h herald buffer (.send .empty 0 none)).run r =
      (.error (.noFreeSlot (r.read .queued)), r') := by
  obtain ⟨delivery, r₁, hd₁, hqueued₁, hfirst⟩ := hd.exists_lead
  refine ⟨r₁, ?_⟩
  rw [hfirst, Turn.trySend]
  refine run_bind_of_error ?_
  rw [run_get_bind, if_pos (by rw [hqueued₁]; exact hroom), ← hqueued₁]
  exact run_bind_of_error (run_bind_of_error hd₁.run_allocate_empty)

theorem serves_receive (hs : h.sizing.Valid) (hd : Divided h.sizing r (slot :: used) free loose)
    (hsome : 0 < r.read .queued) (herald : Herald) (buffer : ByteArray) :
    ∃ t r', Turn.Serves h r (Turn.first h herald buffer (.receive none)) t r' ∧
      Divided h.sizing r' used (slot :: free) loose ∧ r'.read .queued = r.read .queued - 1 := by
  obtain ⟨r₂, hrun, hd₂, -, -⟩ := hd.run_dequeue hs
  have hfit : r.read .queued - 1 < 256 ^ 4 :=
    Nat.lt_of_le_of_lt (Nat.sub_le _ _) (Region.read_lt r .queued)
  have hturn : (Turn.first h herald buffer (.receive none)).run r =
      (Turn.receive h buffer).run r := by
    rw [Turn.first, run_get_bind, if_neg (Nat.ne_of_gt hsome)]
  exact ⟨_, _, ⟨hturn.trans (run_bind_of_ok hrun), ⟨_, _, rfl⟩, rfl⟩, (hd₂.write_queued _).1,
    read_header_write_self (by decide) hd₂.fileSize_le hfit⟩

theorem run_receive_fault (hd : Divided h.sizing r [] free loose) (hsome : 0 < r.read .queued)
    (herald : Herald) (buffer : ByteArray) :
    (Turn.first h herald buffer (.receive none)).run r =
      (.error (.noMessage (r.read .queued)), r) := by
  rw [Turn.first, run_get_bind, if_neg (Nat.ne_of_gt hsome), Turn.receive]
  exact run_bind_of_error (run_bind_of_error hd.run_popHead_empty)

end Divided

/-- What a thread shows that makes the same transfer again and again, each time with success. -/
def Happening.Repeats (thread : Nat) (request : Request) : Happening → Prop
  | .delivered other _ _ => other = thread
  | .answered other _ request' answer _ =>
    other = thread ∧ request' = request ∧ ∃ reply, answer = .ok reply

namespace System

/-- A thread that is left alone and makes the same transfer again and again comes to a fault. -/
def Falls (S : System) (thread : Nat) (around : Surroundings) (request : Request) : Prop :=
  ∃ shown S' w, Path (PromptedBy thread around) S shown S' ∧
    (∀ x ∈ shown, x.Repeats thread request) ∧
    S'.workers thread = some w ∧ w.call.request = request ∧ w.call.Broken

theorem Falls.after {shown : List Happening} (hf : S'.Falls thread around request)
    (hpath : Path (PromptedBy thread around) S shown S')
    (hshown : ∀ x ∈ shown, x.Repeats thread request) : S.Falls thread around request := by
  obtain ⟨shown', S'', w, hpath', hshown', hrest⟩ := hf
  refine ⟨shown ++ shown', S'', w, hpath.trans hpath', fun x hx => ?_, hrest⟩
  rcases List.mem_append.mp hx with hx | hx
  · exact hshown x hx
  · exact hshown' x hx

/-- A thread in no call, a free lock, and an open handle that nobody gives up. -/
structure Ready (S : System) (thread number : Nat) (h : Handle) : Prop where
  idle : S.workers thread = none
  holder_eq : S.shared.holder = none
  handle_eq : S.handles number = some h
  kept : ∀ t w, S.workers t = some w → w.number = number → w.purpose = .request

/-- The system when a thread has the lock for a call that it has begun. -/
def entered (S : System) (thread number : Nat) (request : Request) (buffer : ByteArray) : System :=
  { S.setWorker thread (some ⟨number, .request, ⟨request, buffer, .inside⟩⟩) with
    shared := S.shared.seize thread }

theorem workers_entered (S : System) (thread number : Nat) (request : Request)
    (buffer : ByteArray) : (S.entered thread number request buffer).workers thread =
      some ⟨number, .request, ⟨request, buffer, .inside⟩⟩ := Function.update_self ..

namespace Ready

/-- A thread that is ready can begin a call, and gets the lock for it. -/
theorem enters (hr : S.Ready thread number h) (htagged : S.shared.tagged = true)
    (hcancelled : around.cancelled = false) (haccepted : Call.refusal? h buffer request = none)
    (hfits : request.Fits) :
    Path (PromptedBy thread around) S [] (S.entered thread number request buffer) := by
  have hbegins : Path (PromptedBy thread around) S []
      (S.setWorker thread (some ⟨number, .request, { request, buffer }⟩)) :=
    Path.begins hr.idle hr.handle_eq hr.kept hfits
  have hpath := hbegins.trans (Path.of_comes
    (Call.Comes.inside hcancelled htagged haccepted hr.holder_eq) rfl hr.handle_eq
    (Function.update_self thread _ S.workers))
  simp only [setWorker, Function.update_idem] at hpath
  exact hpath

/-- A transfer whose turn ends it well leaves the thread ready for the next one. -/
theorem serves {t : Turn} (hr : S.Ready thread number h) (htagged : S.shared.tagged = true)
    (hcancelled : around.cancelled = false) (haccepted : Call.refusal? h buffer request = none)
    (hfits : request.Fits)
    (hturn : Turn.Serves h S.shared.region (Turn.first h around.herald buffer request) t r) :
    ∃ shown S', Path (PromptedBy thread around) S shown S' ∧
      (∀ x ∈ shown, x.Repeats thread request) ∧ S'.Ready thread number h ∧
      S'.shared.region = r := by
  obtain ⟨reply, wake, hverdict⟩ := hturn.succeeds
  let S₁ := S.entered thread number request buffer
  let c : Call := ⟨request, buffer, .inside⟩
  obtain ⟨last, hlast⟩ : ∃ last,
      c.takeTurn h 0 S₁.shared (Turn.first h around.herald buffer request) = last := ⟨_, rfl⟩
  obtain ⟨hcall, hregion, hmode, -, hholder, -⟩ :=
    Call.takeTurn_of_ok (q := S₁.shared) hturn.run_eq hlast
  have hstep : c.step thread h around 0 S₁.shared = some last :=
    hlast ▸ Call.step_of_program rfl
  have hanswer : last.call.point = .answered (.ok reply) := by
    rw [hcall, Turn.point, hverdict]
  have hpath := (hr.enters htagged hcancelled haccepted hfits).trans
    (Path.of_passes (S := S₁) (.ends hstep hanswer) rfl hr.handle_eq
      (workers_entered ..))
  refine ⟨_, _, hpath, fun x hx => ?_, ⟨Function.update_self .., ?_, ?_, ?_⟩, hregion⟩
  · unfold news at hx
    rw [hanswer, List.nil_append] at hx
    rcases List.mem_append.mp hx with hx | hx
    · obtain ⟨d, -, rfl⟩ := Option.map_eq_some_iff.mp (Option.mem_toList.mp hx)
      exact rfl
    · rw [List.mem_singleton.mp hx, hcall]
      exact ⟨rfl, rfl, reply, rfl⟩
  · change last.shared.holder = none
    rw [hholder, Turn.holder, hverdict]
  · change Function.update S.handles number _ number = _
    rw [Function.update_self, hmode, hturn.nonblocking_eq]
  · intro t' w hw hnumber
    obtain ⟨-, hnone⟩ | ⟨hne, hother⟩ := worker_cases hw
    · cases hnone
    · exact hr.kept t' w ((Function.update_of_ne hne _ _).symm.trans hother) hnumber

/-- A transfer whose turn finds the region broken comes to a fault. -/
theorem falls {fault : Fault} (hr : S.Ready thread number h) (htagged : S.shared.tagged = true)
    (hcancelled : around.cancelled = false) (haccepted : Call.refusal? h buffer request = none)
    (hfits : request.Fits)
    (hturn : (Turn.first h around.herald buffer request).run S.shared.region = (.error fault, r)) :
    S.Falls thread around request := by
  let S₁ := S.entered thread number request buffer
  let w : Worker := ⟨number, .request, ⟨request, buffer, .inside⟩⟩
  let next : Advance :=
    { call := { w.call with point := .broken fault },
      shared := { S₁.shared with region := r }, nonblocking := h.nonblocking }
  have hstep : w.call.step thread h around 0 S₁.shared = some next := by
    have htakes : w.call.step thread h around 0 S₁.shared =
        some (w.call.takeTurn h 0 S₁.shared (Turn.first h around.herald buffer request)) :=
      Call.step_of_program rfl
    have hrun : (Turn.first h around.herald buffer request).run S₁.shared.region =
      (.error fault, r) := hturn
    rw [htakes, Call.takeTurn, hrun]
  have hact := PromptedBy.acts (S := S₁) (workers_entered ..) hr.handle_eq hstep
  exact ⟨[], _, { w with call := next.call },
    (hr.enters htagged hcancelled haccepted hfits).trans (Path.single hact),
    fun x hx => absurd hx List.not_mem_nil, workers_advance .., rfl, fault, rfl⟩

/-- Where fewer slots are free than the counter admits, sends come to a fault. -/
theorem falls_of_sends (hs : h.sizing.Valid) (hcancelled : around.cancelled = false) :
    ∀ {free : List Nat} {S : System} {used : List Nat}, S.Ready thread number h →
      Divided h.sizing S.shared.region used free loose →
      free.length + S.shared.region.read .queued < h.sizing.capacity →
        S.Falls thread around (.send .empty 0 none) := by
  have haccepted : Call.refusal? h .empty (.send .empty 0 none) = none := rfl
  intro free
  -- Each send takes a free slot and counts one message.
  induction free with
  | nil =>
    intro S used hr hd hcount
    rw [List.length_nil, Nat.zero_add] at hcount
    obtain ⟨r, hturn⟩ := hd.run_send_fault hcount around.herald .empty
    exact hr.falls (decide_eq_true hd.tag_eq) hcancelled haccepted trivial hturn
  | cons slot free ih =>
    intro S used hr hd hcount
    rw [List.length_cons] at hcount
    obtain ⟨t, r, used', hturn, hd', hqueued⟩ :=
      hd.serves_send hs (by omega) around.herald .empty
    obtain ⟨shown, S', hpath, hshown, hr', rfl⟩ :=
      hr.serves (decide_eq_true hd.tag_eq) hcancelled haccepted trivial hturn
    exact (ih hr' hd' (by omega)).after hpath hshown

/-- Where fewer messages are on the list than are counted, receives come to a fault. -/
theorem falls_of_receives (hs : h.sizing.Valid) (hcancelled : around.cancelled = false) :
    ∀ {used : List Nat} {S : System} {free : List Nat}, S.Ready thread number h →
      Divided h.sizing S.shared.region used free loose →
      used.length < S.shared.region.read .queued → S.Falls thread around (.receive none) := by
  let buffer := Region.zeroBytes h.sizing.messageSize
  have haccepted : Call.refusal? h buffer (.receive none) = none := by
    have hsize : ¬ buffer.size < h.sizing.messageSize := by
      simp only [buffer, Region.size_zeroBytes, Nat.lt_irrefl, not_false_eq_true]
    simp only [Call.refusal?, if_neg hsize]
  intro used
  -- Each receive takes a message and counts one less.
  induction used with
  | nil =>
    intro S free hr hd hcount
    exact hr.falls (decide_eq_true hd.tag_eq) hcancelled haccepted trivial
      (hd.run_receive_fault hcount around.herald buffer)
  | cons slot used ih =>
    intro S free hr hd hcount
    rw [List.length_cons] at hcount
    obtain ⟨t, r, hturn, hd', hqueued⟩ := hd.serves_receive hs (by omega) around.herald buffer
    obtain ⟨shown, S', hpath, hshown, hr', rfl⟩ :=
      hr.serves (decide_eq_true hd.tag_eq) hcancelled haccepted trivial hturn
    exact (ih hr' hd' (by omega)).after hpath hshown

end Ready

/-- Some transfer, made again and again by a thread that is left alone, comes to a fault. -/
def Doomed (S : System) (thread : Nat) (around : Surroundings) : Prop :=
  ∃ request : Request, request.transfers = true ∧ S.Falls thread around request

theorem Ready.doomed (hr : S.Ready thread number h) (hs : h.sizing.Valid)
    (htorn : Torn h.sizing S.shared.region) (hcancelled : around.cancelled = false) :
    S.Doomed thread around := by
  obtain ⟨used, free, loose, hd, hcount | hcount⟩ := htorn
  · exact ⟨_, rfl, hr.falls_of_sends hs hcancelled hd hcount⟩
  · exact ⟨_, rfl, hr.falls_of_receives hs hcancelled hd hcount⟩

/-- What is left when a thread that holds the lock has died and has left `region`. The lock is
recovered by whoever asks for it next, who finds it free and does nothing to the region. -/
def bereave (S : System) (thread : Nat) (region : Region) : System :=
  { S.setWorker thread none with
    shared := { S.shared with region, holder := none, orphaned := true } }

theorem workers_bereave (S : System) (thread : Nat) (region : Region) :
    (S.bereave thread region).workers thread = none := Function.update_self ..

/-- Some call has come to a fault. -/
def Broken (S : System) : Prop := ∃ thread w, S.workers thread = some w ∧ w.call.Broken

/-- A death that leaves a queue behind leaves nothing that a run could not have come to. -/
theorem Inv.bereave (hi : Inv s S a) (thread : Nat) (hwhole : Whole s r) :
    ∃ b, Inv s (S.bereave thread r) b := by
  obtain ⟨b, hb⟩ := hwhole.refines
  exact ⟨b, hi.valid, hb, hi.handles, hi.set_worker thread fun w hw => by cases hw⟩

theorem Inv.not_broken (hi : Inv s S a) : ¬ S.Broken := by
  rintro ⟨thread, w, hw, hbroken⟩
  exact (hi.workers thread w hw).not_broken hbroken

/-- After the death of a thread another one can use its handle, and comes to a fault if the queue
is torn. -/
theorem Kept.doomed_bereave {w : Worker} {other : Nat} (hk : S.Kept)
    (hworker : S.workers thread = some w) (hhandle : S.handles w.number = some h)
    (hs : h.sizing.Valid) (htorn : Torn h.sizing r)
    (hidle : (S.bereave thread r).workers other = none) (hcancelled : around.cancelled = false) :
    (S.bereave thread r).Doomed other around := by
  have hready : (S.bereave thread r).Ready other w.number h := by
    refine ⟨hidle, rfl, hhandle, fun t w' hw' hnumber => ?_⟩
    obtain ⟨-, hnone⟩ | ⟨hne, hold⟩ := worker_cases hw'
    · cases hnone
    · by_contra hgives
      exact hne (hk.alone t w' hold hgives thread w hworker hnumber.symm).symm
  exact hready.doomed hs htorn hcancelled

end System

namespace World

variable {q : Shared} {W : World} {w : Worker} {herald : Herald} {turn : Access Turn}

/-- A thread that holds the lock has died and has left `region`. -/
def bereave (W : World) (thread : Nat) (region : Region) : World :=
  { W with system := W.system.bereave thread region }

/-- A send that has the lock. -/
def sender : Worker := ⟨0, .request, ⟨.send ⟨#[7]⟩ 0 none, .empty, .inside⟩⟩

def senderHandle : Handle := ⟨⟨1, 4⟩, 1, false⟩

def sendersTurn : Access Turn :=
  Turn.first senderHandle .smooth .empty (.send ⟨#[7]⟩ 0 none)

/-- A send on an empty queue can be cut short by the death of its thread after one write. -/
theorem exists_sender : ∃ q W, Made ⟨1, 4⟩ q ∧ Reachable q W ∧
    W.system.workers 1 = some sender ∧ W.system.handles 0 = some senderHandle ∧
    CutShort (sendersTurn.strokes W.system.shared.region) 1 := by
  obtain ⟨q, hm⟩ := exists_made (s := ⟨1, 4⟩) (by decide)
  let W₀ : World := { system := System.idle q }
  let around := W₀.around 1 .smooth
  obtain ⟨S, hattach, hrest⟩ := System.exists_rest hm 1 around 0 1 false (by decide)
  have htagged : S.shared.tagged = true := decide_eq_true hrest.inv.refines.represents.tag_eq
  have hready : S.Ready 1 0 senderHandle := by
    refine ⟨?_, hrest.holder_eq, hrest.handle_eq, fun t w hw _ => ?_⟩
    · rw [hrest.workers_eq]
    · rw [hrest.workers_eq] at hw
      cases hw
  have henters : System.Path (System.PromptedBy 1 around) S []
      (S.entered 1 0 (.send ⟨#[7]⟩ 0 none) .empty) := hready.enters htagged rfl rfl trivial
  have hworld := Path.of_prompted (W := W₀) (hattach.trans henters) rfl rfl
  refine ⟨q, _, hm, ⟨W₀, rfl, hworld.leads⟩, System.workers_entered .., hrest.handle_eq, ?_⟩
  exact @Refines.cutShort_first_send _ ⟨⟨#[7]⟩, 0⟩ senderHandle hrest.inv.valid hrest.inv.refines
    (by decide) (by decide) _ _ _

/-- Not every death of a thread in a transfer is one that the queue recovers from. -/
theorem broken_after_death : ¬ ∀ (q : Shared) (W : World) (w : Worker) (h : Handle)
    (turn : Access Turn) (writes : Nat) (around : Surroundings), Made ⟨1, 4⟩ q → Reachable q W →
      W.system.workers 1 = some w → W.system.handles w.number = some h →
        w.call.request.transfers = true → w.call.program h around.herald = some turn →
          around.cancelled = false →
            ¬ (W.bereave 1 (turn.runFor writes W.system.shared.region)).system.Doomed 1 around := by
  intro hnever
  obtain ⟨q, W, hm, hr, hworker, hhandle, hcut⟩ := exists_sender
  obtain ⟨a, hi⟩ := hr.inv hm
  have hw := hi.workers 1 sender hworker
  have hprogram : sender.call.program senderHandle .smooth = some sendersTurn := rfl
  obtain ⟨htorn, -⟩ := Call.left_by_turn hi.valid ⟨_, hi.refines.represents⟩
    (hw.admitted senderHandle rfl) hprogram 1
  exact hnever q W sender senderHandle sendersTurn 1 ⟨false, 0, 0, .smooth⟩ hm hr hworker
    hhandle rfl rfl rfl (hr.kept.doomed_bereave hworker hhandle hi.valid (htorn hcut)
      (System.workers_bereave ..) rfl)

/-- A thread dies in its turn, after any number of its writes. If it has made some of its strokes
to the messages and not all of them, then every thread that is in no call and is left alone comes to
a fault by some transfer. Otherwise nobody ever does. -/
theorem recovered_unless_cut_short (hm : Made s q) (hr : Reachable q W)
    (hworker : W.system.workers thread = some w) (hhandle : W.system.handles w.number = some h)
    (hprogram : w.call.program h herald = some turn) (writes : Nat) :
    let left := W.bereave thread (turn.runFor writes W.system.shared.region)
    (¬ CutShort (turn.strokes W.system.shared.region) writes →
      ∀ V, Relation.ReflTransGen Leads left V → ¬ V.system.Broken) ∧
    (CutShort (turn.strokes W.system.shared.region) writes →
      ∀ other around, left.system.workers other = none → around.cancelled = false →
        left.system.Doomed other around) := by
  intro left
  obtain ⟨a, hi⟩ := hr.inv hm
  obtain ⟨rfl, hh⟩ := hi.handles _ h hhandle
  have hw := hi.workers _ w hworker
  obtain ⟨htorn, hwhole⟩ := Call.left_by_turn hi.valid ⟨_, hi.refines.represents⟩
    (hw.admitted h rfl) hprogram writes
  refine ⟨fun hnot V hleads => ?_, fun hcut other around hidle hcancelled => ?_⟩
  · obtain ⟨b, hb⟩ := hi.bereave thread (hwhole hnot)
    obtain ⟨history, hrun⟩ := exists_run hleads
    obtain ⟨b', hb'⟩ := hrun.inv hb
    exact hb'.not_broken
  · exact hr.kept.doomed_bereave hworker hhandle hi.valid (htorn hcut) hidle hcancelled

/-- A thread dies after the first write of a send: other sends come to a fault. Before that write
nobody ever does. -/
theorem recovered_before_first_stroke : ∃ q W, Made ⟨1, 4⟩ q ∧ Reachable q W ∧
    W.system.workers 1 = some sender ∧ W.system.handles 0 = some senderHandle ∧
    sender.call.program senderHandle .smooth = some sendersTurn ∧
    (W.bereave 1 (sendersTurn.runFor 1 W.system.shared.region)).system.Doomed 1
      ⟨false, 0, 0, .smooth⟩ ∧
    ∀ V, Relation.ReflTransGen Leads
      (W.bereave 1 (sendersTurn.runFor 0 W.system.shared.region)) V → ¬ V.system.Broken := by
  obtain ⟨q, W, hm, hr, hworker, hhandle, hcut⟩ := exists_sender
  have hprogram : sender.call.program senderHandle .smooth = some sendersTurn := rfl
  obtain ⟨-, hdoomed⟩ := recovered_unless_cut_short hm hr hworker hhandle hprogram 1
  obtain ⟨hsafe, -⟩ := recovered_unless_cut_short hm hr hworker hhandle hprogram 0
  exact ⟨q, W, hm, hr, hworker, hhandle, hprogram,
    hdoomed hcut 1 _ (System.workers_bereave ..) rfl, hsafe (not_cutShort_zero _)⟩

end World

end MappedQueue
