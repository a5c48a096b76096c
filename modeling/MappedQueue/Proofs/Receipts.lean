import MappedQueue.Command.Run
import MappedQueue.Proofs.Attaching
import MappedQueue.Proofs.Containment
import MappedQueue.Proofs.QueuePlaces
import MappedQueue.Proofs.Transfers
import MappedQueue.Proofs.Waits

/-!
# What `recv` shows

The command receives message after message into one buffer and shows each of them before it goes
on to the next. So whenever it comes to its end, it has shown the messages that it has taken off
the queue, and the others are still there.
-/

namespace MappedQueue.Command

variable {site : Site} {session : Session} {file : Nat} {messages : List Message}
  {buffer : ByteArray} {timeout : Option Nat} {s : Sizing}

/-- The messages, one entry after the other. -/
def transcript : List Message → String
  | [] => ""
  | m :: rest => messageLine m.priority m.bytes ++ transcript rest

namespace Site

/-- A command has a queue with these messages open, which nobody else uses. -/
structure Holds (site : Site) (session : Session) (file : Nat) (messages : List Message) :
    Prop where
  fits : session.handle.Fits
  valid : session.handle.sizing.Valid
  file_eq : site.host.fileOf session.store.mapping = file
  file_lt : file < site.host.disk.files.size
  holder_eq : (site.host.disk.shared file).holder = none
  sleepers_eq : (site.host.disk.shared file).sleepers = []
  represents : Represents session.handle.sizing (site.host.disk.shared file).region messages

/-- The call of a session as it begins. -/
def begun (site : Site) (session : Session) (request : Request) (buffer : ByteArray) : Alone :=
  { shared := site.host.shared session.store.mapping, call := { request, buffer },
    handle := session.handle, clock := site.clock }

/-- The call of a session as it is when it is not followed any further. -/
def ended (site : Site) (session : Session) (request : Request) (buffer : ByteArray) : Alone :=
  (site.begun session request buffer).run (Notifier.signals.herald site.notices)
    (site.slices request)

/-- The site after a call of a session that has delivered nothing. -/
def after (site : Site) (session : Session) (a : Alone) : Site :=
  { site with host := site.host.withShared session.store.mapping a.shared, clock := a.clock }

variable {request : Request} {answer : Answer}

/-- What a call that is over comes to. -/
def outcome (buffer : ByteArray) : Answer → Except Stop (Reply × ByteArray)
  | .ok reply => .ok (reply, buffer)
  | .error error => .error (.refused error)

theorem call_of_answered
    (hpoint : (site.ended session request buffer).call.point = .answered answer)
    (hdeliveries : (site.ended session request buffer).deliveries = []) :
    site.call session request buffer =
      (outcome (site.ended session request buffer).call.buffer answer,
        site.after session (site.ended session request buffer)) := by
  unfold ended begun at *
  simp only [call, Host.access_eq, hpoint, hdeliveries]
  cases answer <;> rfl

theorem call_of_asleep {seen : Nat}
    (hpoint : (site.ended session request buffer).call.point = .asleep seen)
    (hdeliveries : (site.ended session request buffer).deliveries = []) :
    site.call session request buffer =
      (.error .waiting, site.after session (site.ended session request buffer)) := by
  unfold ended begun at *
  simp only [call, Host.access_eq, hpoint, hdeliveries]
  rfl

theorem Holds.shared_eq (hq : site.Holds session file messages) :
    site.host.shared session.store.mapping = site.host.disk.shared file := by
  rw [Host.shared, hq.file_eq]

/-- What a call that is over has left is what the command holds. -/
theorem Holds.after_over {left : List Message} {a : Alone} {buffer' : ByteArray}
    (hq : site.Holds session file messages)
    (ha : Alone.Over session.handle answer buffer' left a) :
    (site.after session a).Holds session file left := by
  have hlt : site.host.fileOf session.store.mapping < site.host.disk.files.size := by
    rw [hq.file_eq]
    exact hq.file_lt
  have hshared : (site.after session a).host.disk.shared file = a.shared := by
    rw [← hq.file_eq]
    exact Host.shared_withShared hlt a.shared
  constructor
  · exact hq.fits
  · exact hq.valid
  · exact hq.file_eq
  · exact Nat.lt_of_lt_of_eq hq.file_lt (Disk.size_setShared ..).symm
  · rw [hshared]
    exact ha.holder_eq
  · rw [hshared]
    exact ha.sleepers_eq
  · rw [hshared]
    exact ha.represents

/-- A call that its first turn ends. Nothing has changed after it but what is on the queue. -/
theorem Holds.call_first {left : Ideal} {t : Turn} {wake : Option Condition}
    (hq : site.Holds session file messages)
    (haccepted : Call.refusal? session.handle buffer request = none) (hfits : request.Fits)
    (hfirst : ((site.host.disk.shared file).region.ideal messages).first session.handle
      (Notifier.signals.herald site.notices) buffer request = (t, left))
    (hverdict : t.verdict = .finish answer wake) (hdelivery : t.delivery = none) :
    ∃ host, site.call session request buffer = (outcome t.buffer answer, { site with host }) ∧
      ({ site with host } : Site).Holds session file left.messages := by
  have hshared := hq.shared_eq
  have hrefines : Refines session.handle.sizing (site.host.shared session.store.mapping).region
      ((site.host.disk.shared file).region.ideal messages) := by
    rw [hshared]
    exact hq.represents.refines
  obtain ⟨hover, hclock⟩ := Alone.run_first (n := site.slices request)
    (a := site.begun session request buffer) hq.valid hq.fits hfits haccepted hrefines
    (hshared.symm ▸ hq.holder_eq) (hshared.symm ▸ hq.sleepers_eq) hfirst hverdict hdelivery rfl
  have hafter : site.after session (site.ended session request buffer) =
      { site with host := (site.after session (site.ended session request buffer)).host } := by
    rw [after, show (site.ended session request buffer).clock = site.clock from hclock]
  refine ⟨(site.after session (site.ended session request buffer)).host, ?_, ?_⟩
  · rw [call_of_answered hover.point_eq hover.deliveries_eq, ← hafter,
      show (site.ended session request buffer).call.buffer = t.buffer from hover.buffer_eq]
  · rw [← hafter]
    exact hq.after_over hover

/-- The command learns the attributes of the queue. -/
theorem Holds.call_attributes (hq : site.Holds session file messages) :
    ∃ attributes host, site.call session .attributes ByteArray.empty =
        (.ok (.attributes attributes, ByteArray.empty), { site with host }) ∧
      attributes.sizing = session.handle.sizing ∧
      ({ site with host } : Site).Holds session file messages := by
  have haccepted : Call.refusal? session.handle ByteArray.empty .attributes = none := rfl
  obtain ⟨host, hcall, hholds⟩ := hq.call_first haccepted trivial rfl rfl rfl
  exact ⟨_, host, hcall, rfl, hholds⟩

/-- The first message is received into the buffer. -/
theorem Holds.call_receive {m : Message} {rest : List Message}
    (hq : site.Holds session file (m :: rest))
    (hbuffer : session.handle.sizing.messageSize ≤ buffer.size) (deadline : Option Nat) :
    ∃ host, site.call session (.receive deadline) buffer =
        (.ok (.received m.bytes.size m.priority, Turn.overwrite buffer m.bytes),
          { site with host }) ∧
      ({ site with host } : Site).Holds session file rest := by
  have haccepted : Call.refusal? session.handle buffer (.receive deadline) = none :=
    if_neg (Nat.not_lt_of_le hbuffer)
  exact hq.call_first haccepted trivial rfl rfl rfl

/-- Why a command is refused a message that the queue does not have. -/
def setback (site : Site) (nonblocking : Bool) (timeout : Option Nat) : Stop :=
  if nonblocking then .refused .wouldBlock
  else match site.clock.setback? (deadline site timeout)
      (site.slices (.receive (deadline site timeout))) with
    | some setback => .refused setback.error
    | none => .waiting

/-- There is no message to receive. If the command comes to its end, it leaves the queue empty to
whoever comes next. -/
theorem Holds.call_receive_none (hq : site.Holds session file [])
    (hbuffer : session.handle.sizing.messageSize ≤ buffer.size) (timeout : Option Nat) :
    ∃ site', site.call session (.receive (deadline site timeout)) buffer =
        (.error (site.setback session.handle.nonblocking timeout), site') ∧
      (site.setback session.handle.nonblocking timeout ≠ .waiting →
        site'.Holds session file []) := by
  generalize hdeadline : deadline site timeout = due
  have haccepted : Call.refusal? session.handle buffer (.receive due) = none :=
    if_neg (Nat.not_lt_of_le hbuffer)
  cases hmode : session.handle.nonblocking with
  | true =>
    have hfirst : ((site.host.disk.shared file).region.ideal []).first session.handle
        (Notifier.signals.herald site.notices) buffer (.receive due) =
        ({ verdict := .finish (.error .wouldBlock) none, buffer, nonblocking := true },
          (site.host.disk.shared file).region.ideal []) := by
      simp [Ideal.first, Region.ideal, hmode]
    obtain ⟨host, hcall, hholds⟩ := hq.call_first haccepted trivial hfirst rfl rfl
    exact ⟨_, hcall, fun _ => hholds⟩
  | false =>
    have hshared := hq.shared_eq
    have hslices : ∀ d ∈ due, d - site.clock.now ≤ site.slices (.receive due) := by
      intro d hd
      obtain rfl : due = some d := hd
      exact Nat.le_refl _
    have hcame : Alone.CameTo session.handle due buffer
        (site.clock.setback? due (site.slices (.receive due)))
        (site.ended session (.receive due) buffer) :=
      Alone.run_receive_none hq.valid hq.fits hbuffer hmode (hshared ▸ hq.represents)
        (hshared ▸ hq.holder_eq) (hshared ▸ hq.sleepers_eq) hslices rfl
    rw [setback, hdeadline]
    cases hsetback : site.clock.setback? due (site.slices (.receive due)) with
    | some setback =>
      rw [hsetback] at hcame
      have hended : Alone.Over .. := hcame
      refine ⟨_, call_of_answered hended.point_eq hended.deliveries_eq, fun _ => ?_⟩
      exact hq.after_over hended
    | none =>
      rw [hsetback] at hcame
      have hasleep : Alone.Dozes .. := hcame
      refine ⟨_, call_of_asleep hasleep.point_eq hasleep.deliveries_eq, fun h => ?_⟩
      exact absurd rfl h

/-- The registration of the session is withdrawn. -/
theorem Holds.request_withdraw (hq : site.Holds session file messages) :
    ∃ host, site.request session (.notify none) = (.ok (), { site with host }) ∧
      ({ site with host } : Site).Holds session file messages := by
  have haccepted : Call.refusal? session.handle ByteArray.empty (.notify none) = none := rfl
  obtain ⟨host, hcall, hholds⟩ := hq.call_first haccepted trivial rfl rfl rfl
  refine ⟨host, ?_, hholds⟩
  rw [request, hcall]
  rfl

/-- How a command ends that is to receive `count` messages where `available` ones are. -/
def ending (site : Site) (nonblocking : Bool) (timeout : Option Nat) (count available : Nat) :
    Except Stop Unit :=
  if count ≤ available then .ok () else .error (site.setback nonblocking timeout)

theorem ending_eq_ok_iff {nonblocking : Bool} {count available : Nat} :
    site.ending nonblocking timeout count available = .ok () ↔ count ≤ available := by
  rw [ending]
  split <;> simp [*]

/-- One message after the other is received and shown, until there is none or none is asked
for any more. -/
theorem Holds.receiveMessages (timeout : Option Nat) (count : Nat) :
    ∀ {messages : List Message} {buffer : ByteArray} {site : Site} (shown : String),
      site.Holds session file messages → session.handle.sizing.messageSize ≤ buffer.size →
      ∃ site', receiveMessages timeout session count buffer shown site =
          ((site.ending session.handle.nonblocking timeout count messages.length,
            shown ++ transcript (messages.take count)), site') ∧
        (site.ending session.handle.nonblocking timeout count messages.length ≠ .error .waiting →
          site'.Holds session file (messages.drop count)) := by
  induction count with
  | zero =>
    intro messages buffer site shown hq _
    have hending : site.ending session.handle.nonblocking timeout 0 messages.length = .ok () :=
      if_pos (Nat.zero_le _)
    rw [hending, List.take_zero, transcript, String.append_empty]
    exact ⟨site, rfl, fun _ => hq⟩
  | succ count ih =>
    intro messages buffer site shown hq hbuffer
    cases messages with
    | nil =>
      obtain ⟨site', hcall, hleft⟩ := hq.call_receive_none hbuffer timeout
      have hending : site.ending session.handle.nonblocking timeout (count + 1) 0 =
          .error (site.setback session.handle.nonblocking timeout) := if_neg (by omega)
      rw [Command.receiveMessages, hcall, List.length_nil, hending, List.take_nil, transcript,
        String.append_empty]
      refine ⟨site', rfl, fun h => ?_⟩
      apply hleft
      rintro hwaiting
      exact h (congrArg _ hwaiting)
    | cons m rest =>
      obtain ⟨host, hcall, hholds⟩ := hq.call_receive hbuffer (deadline site timeout)
      have hfit : m.bytes.size ≤ buffer.size :=
        Nat.le_trans (hq.represents.size_le List.mem_cons_self) hbuffer
      have hroom : session.handle.sizing.messageSize ≤ (Turn.overwrite buffer m.bytes).size := by
        rw [Turn.size_overwrite hfit]
        exact hbuffer
      -- Only the host is another one now, so what would end a wait is the same as before.
      obtain ⟨site', hrest, hleft⟩ := ih (shown ++ messageLine m.priority m.bytes) hholds hroom
      have hending : ({ site with host } : Site).ending session.handle.nonblocking timeout count
          rest.length = site.ending session.handle.nonblocking timeout (count + 1)
            (m :: rest).length := by
        simp only [ending, List.length_cons, Nat.add_le_add_iff_right]
        rfl
      rw [hending] at hrest hleft
      refine ⟨site', ?_, hleft⟩
      rw [Command.receiveMessages, hcall]
      dsimp only
      rw [extract_overwrite, hrest, List.take_succ_cons, transcript, String.append_assoc]

/-- Without its mapping the command has nothing to do with the queue any more. -/
theorem Holds.unmap (hq : site.Holds session file messages) :
    ({ site with host := site.host.unmap session.store.mapping } : Site).Holds session file
      messages where
  fits := hq.fits
  valid := hq.valid
  file_eq := (Host.fileOf_modify site.host _ (by intro _; rfl) _).trans hq.file_eq
  file_lt := hq.file_lt
  holder_eq := hq.holder_eq
  sleepers_eq := hq.sleepers_eq
  represents := hq.represents

theorem Holds.close (hq : site.Holds session file messages) :
    ∃ site', site.close session = (.ok (), site') ∧ site'.Holds session file messages := by
  obtain ⟨host, hrequest, hholds⟩ := hq.request_withdraw
  rw [Site.close, hrequest]
  exact ⟨_, rfl, hholds.unmap⟩

theorem Holds.drop (hq : site.Holds session file messages) :
    (site.drop session).Holds session file messages := by
  obtain ⟨host, hrequest, hholds⟩ := hq.request_withdraw
  rw [Site.drop, hrequest]
  exact hholds.unmap

theorem Holds.receiveInto (hq : site.Holds session file messages) (count : Nat)
    (timeout : Option Nat) :
    ∃ site', receiveInto count timeout session site =
        ((site.ending session.handle.nonblocking timeout count messages.length,
          transcript (messages.take count)), site') ∧
      (site.ending session.handle.nonblocking timeout count messages.length ≠ .error .waiting →
        site'.Holds session file (messages.drop count)) := by
  obtain ⟨attributes, host, hcall, hsizing, hholds⟩ := hq.call_attributes
  have hroom : session.handle.sizing.messageSize ≤
      (Region.zeroBytes attributes.sizing.messageSize).size := by
    apply Nat.le_of_eq
    rw [Region.size_zeroBytes, hsizing]
  obtain ⟨site', hreceive, hleft⟩ := hholds.receiveMessages timeout count "" hroom
  refine ⟨site', ?_, hleft⟩
  rw [Command.receiveInto, hcall]
  dsimp only
  rw [hreceive, String.empty_append]
  rfl

end Site

/-- A queue is there for a command: its name leads to a file that holds these messages, nobody
else uses it, and the system keeps the process from nothing. -/
structure Ready (site : Site) (directory name : String) (file : Nat) (s : Sizing)
    (messages : List Message) : Prop where
  self : 0 < site.notices.self ∧ site.notices.self < 2 ^ 32
  houses : site.host.disk.Houses directory name
  opens : site.host.disk.Opens (Name.storePath directory name) file
  makes : site.host.refused (.makeDirectories directory) = none
  lets : site.host.Lets (Name.storePath directory name) file
  valid : s.Valid
  represents : Represents s (site.host.disk.shared file).region messages
  holder_eq : (site.host.disk.shared file).holder = none
  sleepers_eq : (site.host.disk.shared file).sleepers = []

variable {directory name : String} {nonblocking : Bool}

theorem Ready.run_attach (hr : Ready site directory name file s messages) :
    ∃ store host, (Store.attach (Name.storePath directory name)).run site.host =
        (.ok (.ok store), host) ∧
      store.sizing = s ∧ host.fileOf store.mapping = file ∧ host.disk = site.host.disk := by
  have hverdict : (site.host.disk.shared file).region.verdict = .ok s := by
    obtain ⟨used, free, harranged, -⟩ := hr.represents
    have hsizing : (site.host.disk.shared file).region.sizing = s := by
      rw [Region.sizing, harranged.capacity_eq, harranged.messageSize_eq]
    rw [Region.verdict_of_isQueue ⟨harranged.tag_eq, hsizing.symm ▸ hr.valid,
      hsizing.symm ▸ harranged.size_eq⟩, hsizing]
  have htells := Disk.tells_verdict hr.opens
  rw [hverdict] at htells
  obtain ⟨answer, host, hrun, hsizing, hfile⟩ := htells site.host rfl hr.lets
  have hdisk : host.disk = site.host.disk := by
    rw [← Store.disk_attach (Name.storePath directory name) site.host, hrun]
  cases answer with
  | error error => cases hsizing
  | ok store => exact ⟨store, host, hrun, Except.ok.inj hsizing, hfile store rfl, hdisk⟩

/-- The command gets the queue open. -/
theorem Ready.openQueue (hr : Ready site directory name file s messages) (nonblocking : Bool) :
    ∃ session host, site.openQueue directory name { nonblocking } =
        (.ok session, { site with host }) ∧
      session.handle = ⟨s, site.notices.self, nonblocking⟩ ∧
      ({ site with host } : Site).Holds session file messages := by
  obtain ⟨store, host, hattach, hsizing, hfile, hdisk⟩ := hr.run_attach
  obtain ⟨hname, path, hpath, hhas⟩ := hr.houses
  have hmake : site.host.perform (.makeDirectories directory) = (.ok (), site.host) := by
    rw [Host.perform_of_not_refused hr.makes]
    simp only [Host.carryOut, hpath, Disk.makeDirectories, Disk.makeAll_of_has hhas]
  have htwice : (Opening.attach (Name.storePath directory name) 10).run site.host =
      (.ok (.ok store), host) := by
    rw [Opening.attach, Script.run_bind_of_ok hattach]
    rfl
  have hround : (Opening.round (Name.storePath directory name) { nonblocking }
      Opening.rounds).run site.host = (.ok (.ok store), host) := by
    rw [Opening.rounds, Opening.round, if_neg Bool.false_ne_true, Opening.join,
      Script.run_bind_of_ok htwice]
    rfl
  have hrun : (Opening.run directory name { nonblocking }).run site.host =
      (.ok (.ok store), host) := by
    rw [Opening.run, hname]
    dsimp only
    rw [if_neg (by simp), Script.run_call_bind, hmake]
    exact hround
  refine ⟨⟨store, ⟨store.sizing, site.notices.self, nonblocking⟩⟩, host, ?_, ?_, ?_⟩
  · rw [Site.openQueue, Site.perform, hrun]
  · rw [hsizing]
  · constructor
    · exact hr.self
    · exact hsizing.symm ▸ hr.valid
    · exact hfile
    · obtain ⟨p, -, hopen⟩ := hr.opens
      exact hdisk.symm ▸ Disk.openFile_lt hopen
    · exact hdisk.symm ▸ hr.holder_eq
    · exact hdisk.symm ▸ hr.sleepers_eq
    · rw [hdisk, hsizing]
      exact hr.represents

/-- The file holds these messages, and nobody is in the way of whoever comes next. -/
structure Site.Leaves (site : Site) (file : Nat) (s : Sizing) (messages : List Message) : Prop where
  represents : Represents s (site.host.disk.shared file).region messages
  holder_eq : (site.host.disk.shared file).holder = none
  sleepers_eq : (site.host.disk.shared file).sleepers = []

theorem Site.Holds.leaves (hq : site.Holds session file messages) :
    site.Leaves file session.handle.sizing messages :=
  ⟨hq.represents, hq.holder_eq, hq.sleepers_eq⟩

/-- The command from its opening of the queue to its end. -/
theorem Ready.withQueue (hr : Ready site directory name file s messages) (nonblocking : Bool)
    (count : Nat) (timeout : Option Nat) :
    ∃ site', site.withQueue directory name { nonblocking } (receiveInto count timeout) =
        ((site.ending nonblocking timeout count messages.length,
          transcript (messages.take count)), site') ∧
      (site.ending nonblocking timeout count messages.length ≠ .error .waiting →
        site'.Leaves file s (messages.drop count)) := by
  obtain ⟨session, host, hopen, hhandle, hholds⟩ := hr.openQueue nonblocking
  obtain ⟨site', hreceive, hleft⟩ := hholds.receiveInto count timeout
  rw [hhandle] at hreceive hleft
  change receiveInto count timeout session { site with host } =
    ((site.ending nonblocking timeout count messages.length, _), site') at hreceive
  change site.ending nonblocking timeout count messages.length ≠ .error .waiting → _ at hleft
  have hleaves : ∀ {site : Site}, site.Holds session file (messages.drop count) →
      site.Leaves file s (messages.drop count) := by
    intro site hq
    have hend := hq.leaves
    rw [hhandle] at hend
    exact hend
  rw [Site.withQueue, hopen]
  dsimp only
  rw [hreceive]
  cases hending : site.ending nonblocking timeout count messages.length with
  | ok done =>
    obtain ⟨site'', hclose, hend⟩ := (hleft (by simp [hending])).close
    dsimp only
    rw [hclose]
    exact ⟨site'', rfl, fun _ => hleaves hend⟩
  | error stop =>
    refine ⟨site'.drop session, rfl, fun h => ?_⟩
    exact hleaves (hleft (hending.symm ▸ h)).drop

/-- A report tells what was printed, and its code whether the command has succeeded. -/
theorem of_report?_eq_some {stop : Except Stop Unit} {out : String} {r : Report}
    (h : report? (stop, out) = some r) :
    r.out = out ∧ stop ≠ .error .waiting ∧ (r.code = 0 ↔ stop = .ok ()) := by
  unfold report? at h
  split at h
  case h_5 => cases h
  all_goals
    rename_i hcase
    cases hcase
    cases h
    simp

/-- What a command tells that is refused a message. -/
theorem report?_setback (site : Site) (nonblocking : Bool) (timeout : Option Nat) (out : String) :
    report? (.error (site.setback nonblocking timeout), out) =
      if nonblocking then some {
        code := 1, out, err := some (program ++ ": " ++ Error.message .wouldBlock) }
      else if site.clock.Interrupts (deadline site timeout)
          (site.slices (.receive (deadline site timeout))) then some {
        code := 130, out, err := some "interrupted" }
      else if timeout.isSome then some {
        code := 1, out, err := some (program ++ ": " ++ Error.message .timedOut) }
      else none := by
  rw [Site.setback]
  cases nonblocking with
  | true => rfl
  | false =>
    have hsome : (deadline site timeout).isSome = timeout.isSome := Option.isSome_map
    rw [if_neg Bool.false_ne_true, if_neg Bool.false_ne_true, Clock.setback?, hsome]
    by_cases hcame : site.clock.Interrupts (deadline site timeout)
        (site.slices (.receive (deadline site timeout)))
    · rw [if_pos hcame, if_pos hcame]
      rfl
    · rw [if_neg hcame, if_neg hcame]
      cases timeout <;> rfl

/-- How `recv` ends. It takes as many messages off the queue as it is asked for, or all if there
are fewer, in their order, and shows exactly these. If there were enough, it succeeds. Otherwise it
fails at once if it must not wait; an interruption that comes while it waits, before its deadline,
ends it as interrupted, and otherwise its deadline ends it, if it has one. -/
theorem receive_shows_what_it_takes (environment : Environment) {arguments : List String}
    {i : Invocation} {count : Nat} (hi : Invocation.ofArguments arguments = .ok i)
    (haction : i.action = .receive count timeout)
    (hr : Ready site (Command.directory i environment) i.queue file s messages) :
    Backlog.Ordered messages ∧
    ∃ report site', run environment arguments site = (report, site') ∧
      (count ≤ messages.length →
        report = some { code := 0, out := transcript (messages.take count) }) ∧
      (messages.length < count → report =
        if i.nonblocking then some {
          code := 1, out := transcript messages
          err := some (program ++ ": " ++ Error.message .wouldBlock) }
        else if site.clock.Interrupts (deadline site timeout)
            (site.slices (.receive (deadline site timeout))) then some {
          code := 130, out := transcript messages, err := some "interrupted" }
        else if timeout.isSome then some {
          code := 1, out := transcript messages
          err := some (program ++ ": " ++ Error.message .timedOut) }
        else none) ∧
      ∀ r, report = some r → r.out = transcript (messages.take count) ∧
        (r.code = 0 ↔ count ≤ messages.length) ∧ site'.Leaves file s (messages.drop count) := by
  obtain ⟨site', hwith, hleaves⟩ := hr.withQueue i.nonblocking count timeout
  have hrun : run environment arguments site =
      (report? (site.ending i.nonblocking timeout count messages.length,
        transcript (messages.take count)), site') := by
    rw [run, hi]
    dsimp only
    rw [carryOut, haction]
    dsimp only
    rw [hwith]
  have hordered : Backlog.Ordered messages := by
    obtain ⟨used, free, harranged, rfl⟩ := hr.represents
    exact harranged.queued.ordered
  refine ⟨hordered, _, site', hrun, ?_, ?_, ?_⟩
  · intro henough
    rw [Site.ending, if_pos henough]
    rfl
  · intro hfew
    have htake : messages.take count = messages := List.take_of_length_le (Nat.le_of_lt hfew)
    rw [Site.ending, if_neg (Nat.not_le_of_lt hfew), htake, report?_setback]
  · intro r hreport
    obtain ⟨hout, hover, hcode⟩ := of_report?_eq_some hreport
    exact ⟨hout, hcode.trans Site.ending_eq_ok_iff, hleaves hover⟩

/-- Two messages of which the first one is the longer one, and no text. -/
def pair : List Message := [⟨⟨#[0xff, 0x41]⟩, 3⟩, ⟨⟨#[0x42]⟩, 0⟩]

/-- The queue `/q` in the top directory holds the two messages. -/
theorem exists_ready_pair : ∃ host : Host,
    Ready { host, notices := { self := 7 } } "/" "/q" 0 ⟨4, 2⟩ pair := by
  have hs : Sizing.Valid ⟨4, 2⟩ := by decide
  obtain ⟨r, -, hvacant⟩ := run_layOut (r := Region.zeros (Sizing.fileSize ⟨4, 2⟩)) hs
    (Region.size_zeroBytes _)
  obtain ⟨hempty, -, -⟩ := hvacant.published
  obtain ⟨r₁, -, hone, -⟩ := run_enqueue (m := ⟨⟨#[0x42]⟩, 0⟩) hs hempty (by decide) (by decide)
    (by decide)
  obtain ⟨r₂, -, htwo, -⟩ := run_enqueue (m := ⟨⟨#[0xff, 0x41]⟩, 3⟩) hs hone (by decide) (by decide)
    (by decide)
  obtain ⟨made, hfile⟩ : ∃ made, ({} : Host).perform (.createFile "/q" 0o600) = (.ok 0, made) :=
    ⟨_, Prod.ext rfl rfl⟩
  have hopens := Host.opens_of_createFile Disk.formed_fresh (by decide) hfile
  have hlt : 0 < made.disk.files.size := by
    obtain ⟨p, -, hopen⟩ := hopens
    exact Disk.openFile_lt hopen
  have hshared : (made.disk.setShared 0 { region := r₂ }).shared 0 = { region := r₂ } :=
    Disk.shared_setShared hlt
  refine ⟨{ disk := made.disk.setShared 0 { region := r₂ } }, ?_⟩
  constructor
  · exact (by decide : 0 < 7 ∧ 7 < 2 ^ 32)
  · exact ⟨by decide, ⟨true, [], true⟩, by decide, Or.inl rfl⟩
  · exact hopens.setShared 0 { region := r₂ }
  · rfl
  · exact ⟨rfl, fun _ => rfl, fun _ hentry => absurd hentry List.not_mem_nil⟩
  · exact hs
  · rw [hshared]
    exact htwo
  · rw [hshared]
  · rw [hshared]

/-- A third message is asked for in vain; the two that are there have been shown. -/
theorem receive_shows_what_it_takes_pair : ∃ host site',
    run {} ["--dir", "/", "--nonblocking", "recv", "/q", "-n", "3"]
        { host, notices := { self := 7 } } =
      (some {
        code := 1, out := "[3] \uFFFDA\n[0] B\n", err := some "mq_demo: operation would block" },
        site') ∧ site'.Leaves 0 ⟨4, 2⟩ [] := by
  obtain ⟨host, hready⟩ := exists_ready_pair
  have hi : Invocation.ofArguments ["--dir", "/", "--nonblocking", "recv", "/q", "-n", "3"] =
      .ok ⟨some "/", true, "/q", .receive 3 none⟩ := by decide
  have hshown : transcript pair = "[3] \uFFFDA\n[0] B\n" := by decide +kernel
  obtain ⟨-, report, site', hrun, -, hfew, hleaves⟩ :=
    receive_shows_what_it_takes {} hi rfl hready
  have hreport := hfew (by decide)
  rw [hshown] at hreport
  obtain ⟨-, -, hleft⟩ := hleaves _ hreport
  rw [hreport] at hrun
  exact ⟨host, site', hrun, hleft⟩

end MappedQueue.Command
