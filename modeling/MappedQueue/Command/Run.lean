import MappedQueue.Alone
import MappedQueue.Command.Invocation
import MappedQueue.Notifier
import MappedQueue.Opening
import MappedQueue.Text.Lossy

/-!
# Carrying out a command

A command opens its queue, does one thing with it, and closes it again. What it prints
and how it exits is all that its user learns. Each message that `recv` takes off the
queue is printed before the next one is taken, so a command that fails halfway has shown
every message it removed.
-/

namespace MappedQueue.Command

/-- What a command finds around itself. -/
structure Environment where
  directory : Option String := none
  sharedMemory : Bool := true
  temporary : String := "/tmp"

/-- The process that carries out a command. -/
structure Site where
  host : Host
  notices : Notices
  clock : Clock := {}
  /-- A call without a deadline that is blocked for more slices than this waits for ever. -/
  patience : Nat := 65536

/-- How a command ends: its exit code, what it prints, and its complaint. -/
structure Report where
  code : Nat
  out : String := ""
  err : Option String := none
  deriving DecidableEq, Repr

/-- Why a command stops before its end. -/
inductive Stop where
  | refused (error : Error)
  | broken (fault : Fault)
  /-- It waits, and nothing happens any more. -/
  | waiting
  deriving DecidableEq, Repr

structure Session where
  store : Store
  handle : Handle
  deriving DecidableEq, Repr

namespace Site

/-- For how many slices a call is followed. Each slice takes some of the time that is left
until the deadline. -/
def slices (site : Site) (request : Request) : Nat :=
  match request.deadline with
  | some deadline => deadline - site.clock.now
  | none => site.patience

def perform {α : Type} (site : Site) (script : Script (Except Error α)) :
    Except Stop α × Site :=
  match script.run site.host with
  | (.ok (.ok a), host) => (.ok a, { site with host })
  | (.ok (.error error), host) => (.error (.refused error), { site with host })
  | (.error fault, host) => (.error (.broken fault), { site with host })

/-- Makes a call and yields its reply, and the buffer as it left it. -/
def call (site : Site) (session : Session) (request : Request) (buffer : ByteArray) :
    Except Stop (Reply × ByteArray) × Site :=
  let herald := Notifier.signals.herald site.notices
  let (after, host) := site.host.access session.store.mapping fun shared =>
    let start : Alone := {
      shared, call := { request, buffer }, handle := session.handle, clock := site.clock }
    let after := start.run herald (site.slices request)
    ((after.call, after.clock, after.deliveries), after.shared)
  let (call, clock, deliveries) := after
  let notices := deliveries.foldr
    (fun delivery notices => (Notifier.signals.deliver notices delivery.toDelivery).2) site.notices
  let site := { site with host, notices, clock }
  match call.point with
  | .answered (.ok reply) => (.ok (reply, call.buffer), site)
  | .answered (.error error) => (.error (.refused error), site)
  | .broken fault => (.error (.broken fault), site)
  | _ => (.error .waiting, site)

/-- Makes a call and forgets its reply. -/
def request (site : Site) (session : Session) (request : Request) : Except Stop Unit × Site :=
  let (outcome, site) := site.call session request ByteArray.empty
  (outcome.map fun _ => (), site)

def openQueue (site : Site) (directory name : String) (options : Options) :
    Except Stop Session × Site :=
  match site.perform (Opening.run directory name options) with
  | (.ok store, site) =>
    (.ok ⟨store, ⟨store.sizing, site.notices.self, options.nonblocking⟩⟩, site)
  | (.error stop, site) => (.error stop, site)

def drop (site : Site) (session : Session) : Site :=
  let (_, site) := site.request session (.notify none)
  { site with host := site.host.unmap session.store.mapping }

def close (site : Site) (session : Session) : Except Stop Unit × Site :=
  match site.request session (.notify none) with
  | (.ok (), site) => (.ok (), { site with host := site.host.unmap session.store.mapping })
  | (.error stop, site) => (.error stop, site.drop session)

/-- Opens a queue, lets `body` use it, and closes it, or gives it up if `body` stops. -/
def withQueue (site : Site) (directory name : String) (options : Options)
    (body : Session → Site → (Except Stop Unit × String) × Site) :
    (Except Stop Unit × String) × Site :=
  match site.openQueue directory name options with
  | (.error stop, site) => ((.error stop, ""), site)
  | (.ok session, site) =>
    match body session site with
    | ((.ok (), out), site) =>
      let (outcome, site) := site.close session
      ((outcome, out), site)
    | ((.error stop, out), site) => ((.error stop, out), site.drop session)

end Site

/-- The lines that show the attributes of a queue. -/
def attributeLines (name : String) (a : Attributes) : String :=
  "queue:            " ++ name ++ "\n" ++
  "max messages:     " ++ toString a.sizing.capacity ++ "\n" ++
  "message size:     " ++ toString a.sizing.messageSize ++ "\n" ++
  "current messages: " ++ toString a.queued ++ "\n" ++
  "nonblocking:      " ++ toString a.nonblocking ++ "\n"

def messageLine (priority : Nat) (bytes : ByteArray) : String :=
  "[" ++ toString priority ++ "] " ++ Text.Lossy.decode bytes.toList ++ "\n"

/-- When a wait that begins now has to be over. -/
def deadline (site : Site) (timeout : Option Nat) : Option Nat := timeout.map (site.clock.now + ·)

def showAttributes (name : String) (session : Session) (site : Site) :
    (Except Stop Unit × String) × Site :=
  match site.call session .attributes ByteArray.empty with
  | (.ok (.attributes a, _), site) => ((.ok (), attributeLines name a), site)
  | (.ok _, site) => ((.ok (), ""), site)
  | (.error stop, site) => ((.error stop, ""), site)

def sendMessage (message : String) (priority : Nat) (timeout : Option Nat) (session : Session)
    (site : Site) : (Except Stop Unit × String) × Site :=
  let (outcome, site) :=
    site.request session (.send message.toUTF8 priority (deadline site timeout))
  ((outcome, ""), site)

/-- Receives `count` messages, one after the other, all into one buffer, and shows each of
them behind `shown`. -/
def receiveMessages (timeout : Option Nat) (session : Session) : (count : Nat) →
    (buffer : ByteArray) → (shown : String) → Site → (Except Stop Unit × String) × Site
  | 0, _, shown, site => ((.ok (), shown), site)
  | count + 1, buffer, shown, site =>
    match site.call session (.receive (deadline site timeout)) buffer with
    | (.ok (.received length priority, buffer), site) =>
      receiveMessages timeout session count buffer
        (shown ++ messageLine priority (buffer.extract 0 length)) site
    | (.ok _, site) => ((.ok (), shown), site)
    | (.error stop, site) => ((.error stop, shown), site)

/-- Receives `count` messages from an open queue and shows them. -/
def receiveInto (count : Nat) (timeout : Option Nat) (session : Session) (site : Site) :
    (Except Stop Unit × String) × Site :=
  match site.call session .attributes ByteArray.empty with
  | (.ok (.attributes a, _), site) =>
    receiveMessages timeout session count (Region.zeroBytes a.sizing.messageSize) "" site
  | (.ok _, site) => ((.ok (), ""), site)
  | (.error stop, site) => ((.error stop, ""), site)

/-- Does what a command line asks for, in a directory. -/
def carryOut (i : Invocation) (directory : String) (site : Site) :
    (Except Stop Unit × String) × Site :=
  let options : Options := { nonblocking := i.nonblocking }
  match i.action with
  | .create sizing mode =>
    site.withQueue directory i.queue { options with create := true, exclusive := true, mode, sizing }
      (showAttributes i.queue)
  | .send message priority timeout =>
    site.withQueue directory i.queue options (sendMessage message priority timeout)
  | .receive count timeout =>
    site.withQueue directory i.queue options (receiveInto count timeout)
  | .info => site.withQueue directory i.queue options (showAttributes i.queue)
  | .unlink =>
    let (outcome, site) := site.perform (Opening.unlink directory i.queue)
    ((outcome, ""), site)

/-- The name under which the program speaks. -/
def program : String := "mq_demo"

/-- How the program ends after the command has come to an end; a command that waits for
ever has none. -/
def report? : Except Stop Unit × String → Option Report
  | (.ok (), out) => some { code := 0, out }
  | (.error (.refused .interrupted), out) => some { code := 130, out, err := some "interrupted" }
  | (.error (.refused error), out) =>
    some { code := 1, out, err := some (program ++ ": " ++ error.message) }
  | (.error (.broken _), out) => some { code := 134, out }
  | (.error .waiting, _) => none

def directory (i : Invocation) (environment : Environment) : String :=
  i.directory.getD
    (Name.defaultDirectory environment.directory environment.sharedMemory environment.temporary)

def run (environment : Environment) (arguments : List String) (site : Site) :
    Option Report × Site :=
  match Invocation.ofArguments arguments with
  | .error .misuse => (some { code := 2 }, site)
  | .error .version => (some { code := 0, out := program ++ " 0.1.0\n" }, site)
  | .ok i =>
    let (ending, site) := carryOut i (directory i environment) site
    (report? ending, site)

end MappedQueue.Command
