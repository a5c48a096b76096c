import MappedQueue.Proofs.Creation
import MappedQueue.Proofs.Plans

/-!
# The account of an opening

An opening looks at files that exist, and it may make a file of its own. Its operations alone
tell what the last look at a file has shown and how far a file of its own has come, whatever
other threads do in between. The answer of an attempt to attach depends only on what it has
seen. A new file is filled, then its lock is prepared, and then it gets its tag, once; what
nobody can use is removed, and nothing else is.
-/

namespace MappedQueue

/-- What an attempt to attach has seen. -/
structure Look where
  file : Option Nat := none
  /-- What the system did not do for it. -/
  failure : Option SystemError := none
  length : Option Nat := none
  tag : Option Nat := none
  capacity : Option Nat := none
  messageSize : Option Nat := none

namespace Look

def read (look : Look) (field : Field) (value : Nat) : Look :=
  if field = .tag then { look with tag := some value }
  else if field = .capacity then { look with capacity := some value }
  else { look with messageSize := some value }

/-- It came before the length or before the tag. -/
def Early (look : Look) : Prop :=
  (∃ n < Layout.headerSize, look.length = some n) ∨ look.tag = some 0

/-- A queue file of this sizing. -/
def Shows (look : Look) (s : Sizing) : Prop :=
  look.tag = some Layout.validTag ∧ look.capacity = some s.capacity ∧
    look.messageSize = some s.messageSize ∧
    ∃ n, look.length = some n ∧ Layout.headerSize ≤ n ∧ s.fileSize? = some n

/-- Something that no queue file has. -/
def Spoilt (look : Look) : Prop :=
  ∃ n v, look.length = some n ∧ Layout.headerSize ≤ n ∧ look.tag = some v ∧ v ≠ 0 ∧
    (v = Layout.validTag → ∃ s : Sizing, look.capacity = some s.capacity ∧
      look.messageSize = some s.messageSize ∧ s.fileSize? ≠ some n)

/-- What goes with the result of an attempt. -/
def Answers (look : Look) : Except Error Sizing → Prop
  | .ok s => look.Shows s
  | .error .notReady => look.Early
  | .error .badHandle => look.Spoilt
  | .error (.system error) => look.failure = some error ∧ look.tag = none ∧
      ∀ n, look.length = some n → Layout.headerSize ≤ n
  | .error _ => False

/-- An attempt is too early just when it finds no length or no tag. -/
theorem Answers.notReady_iff {look : Look} {result : Except Error Sizing} (h : look.Answers result) :
    result = .error .notReady ↔ look.Early := by
  constructor
  · intro hresult
    rw [hresult] at h
    exact h
  · intro hearly
    have hlength : ∀ {n}, look.length = some n → Layout.headerSize ≤ n → look.tag = some 0 := by
      intro n hn hle
      refine hearly.resolve_left fun ⟨m, hlt, hm⟩ => ?_
      cases hn.symm.trans hm
      omega
    cases result with
    | ok s =>
      obtain ⟨htag, -, -, n, hn, hle, -⟩ := h
      cases (hlength hn hle).symm.trans htag
    | error error =>
      cases error with
      | notReady => rfl
      | badHandle =>
        obtain ⟨n, v, hn, hle, htag, hv, -⟩ := h
        cases (hlength hn hle).symm.trans htag
        exact absurd rfl hv
      | system error =>
        obtain ⟨-, htag, hle⟩ := h
        rcases hearly with ⟨n, hlt, hn⟩ | hzero
        · exact absurd (hle n hn) (Nat.not_le_of_lt hlt)
        · cases htag.symm.trans hzero
      | _ => exact absurd h id

end Look

/-- How far a new file is. -/
inductive Stage where
  | raw
  /-- It is laid out, and its lock is ready. -/
  | prepared
  /-- It has its tag. -/
  | published
  deriving DecidableEq

/-- A new file, as its maker has made it. -/
structure Draft where
  region : Region
  stage : Stage := .raw

/-- What the operations of an opening come to. -/
structure Account where
  /-- Whether the directory has been made. -/
  housed : Bool := false
  look : Look := {}
  /-- The file that it has made, unless it has been removed. -/
  draft : Option Draft := none

namespace Account

def revise (c : Account) (stage : Stage) (change : Region → Region) : Account :=
  { c with draft := c.draft.map fun draft => ⟨change draft.region, stage⟩ }

def after (c : Account) : Deed → Account
  | ⟨.makeDirectories _, .ok _⟩ => { c with housed := true }
  | ⟨.createFile _ _, .ok _⟩ => { c with look := {}, draft := some { region := Region.zeros 0 } }
  | ⟨.openFile _, .ok file⟩ => { c with look := { file := some file }, draft := none }
  | ⟨.openFile _, .error error⟩ => { c with look := { failure := some error } }
  | ⟨.removeFile _, _⟩ => { c with draft := none }
  | ⟨.fileLength _, n⟩ => { c with look := { c.look with length := some n } }
  | ⟨.setFileLength _ n, .ok _⟩ => c.revise .raw (·.resize n)
  | ⟨.map _ _, .error error⟩ => { c with look := { c.look with failure := some error } }
  | ⟨.load _ field, value⟩ => { c with look := c.look.read field value }
  | ⟨.store _ field value, _⟩ =>
    c.revise (if field = .tag then .published else .raw) (·.write field value)
  | ⟨.prepareLock _, .ok _⟩ =>
    c.revise .prepared (·.setSlice Layout.lockOffset (Region.zeroBytes Layout.lockSize))
  | _ => c

/-- What an opening of a queue does: everything by the path of the queue, and everything in its
time. -/
def Allows (directory name : String) (s : Sizing) (c : Account) : Operation → Prop
  | .makeDirectories path => path = directory ∧ Name.validate name = .ok ()
  | .createFile path _ =>
    path = Name.storePath directory name ∧ c.housed = true ∧ c.draft = none ∧ s.Valid
  | .openFile path => path = Name.storePath directory name ∧ c.draft = none
  | .removeFile path => path = Name.storePath directory name ∧ ∃ r, c.draft = some ⟨r, .raw⟩
  | .fileLength _ => c.look.file ≠ none
  | .setFileLength _ n => c.draft = some ⟨Region.zeros 0, .raw⟩ ∧ n = s.fileSize
  | .load _ field => c.look.file ≠ none ∧ (field = .tag ∨
      c.look.tag = some Layout.validTag ∧ (field = .capacity ∨ field = .messageSize))
  | .store _ field value => ∃ r, (c.draft = some ⟨r, .raw⟩ ∧ Field.tag.Apart field) ∨
      (c.draft = some ⟨r, .prepared⟩ ∧ field = .tag ∧ value = Layout.validTag)
  | .prepareLock _ => ∃ r, c.draft = some ⟨r, .raw⟩ ∧ Vacant s r
  | .fetch _ _ _ | .put _ _ _ => False
  | .closeFile _ | .map _ _ | .unmap _ | .pause => True

/-- The rules for opening a queue. -/
def rules (directory name : String) (s : Sizing) : Rules Account where
  after := after
  Allows := Allows directory name s

end Account

variable {α β : Type} {directory name : String} {s : Sizing} {c : Account}

/-- What goes with the result of an attempt to attach. -/
def Account.Attempted (housed : Bool) (c : Account) (result : Except Error Store) : Prop :=
  c.housed = housed ∧ c.draft = none ∧ c.look.Answers (result.map (·.sizing))

namespace Store

theorem accounts_preamble {length mapping : Nat} (hfile : c.look.file ≠ none)
    (hlength : c.look.length = some length) (hle : Layout.headerSize ≤ length) :
    (Script.through mapping (preamble length)).Obeys (Account.rules directory name s)
      (fun c' result => c'.housed = c.housed ∧ c'.draft = c.draft ∧ c'.look.Answers result) c := by
  refine ⟨⟨hfile, Or.inl rfl⟩, fun (tag : Nat) _ => ?_⟩
  change (Script.through mapping (if tag = 0 then Access.done (Except.error Error.notReady)
    else if tag ≠ Layout.validTag then Access.done (Except.error Error.badHandle) else _)).Obeys ..
  split
  case isTrue hzero =>
    subst hzero
    exact ⟨rfl, rfl, Or.inr rfl⟩
  case isFalse hzero =>
  split
  case isTrue htag =>
    exact ⟨rfl, rfl, length, tag, hlength, hle, rfl, hzero, fun heq => absurd heq htag⟩
  case isFalse htag =>
    have htag : tag = Layout.validTag := Decidable.not_not.mp htag
    subst htag
    refine ⟨⟨hfile, Or.inr ⟨rfl, Or.inl rfl⟩⟩, fun (capacity : Nat) _ => ?_⟩
    refine ⟨⟨hfile, Or.inr ⟨rfl, Or.inr rfl⟩⟩, fun (messageSize : Nat) _ => ?_⟩
    change (Script.through mapping (if (⟨capacity, messageSize⟩ : Sizing).fileSize? = some length
      then Access.done (Except.ok _) else Access.done (Except.error Error.badHandle))).Obeys ..
    split
    case isTrue hsize => exact ⟨rfl, rfl, rfl, rfl, rfl, length, hlength, hle, hsize⟩
    case isFalse hsize =>
      exact ⟨rfl, rfl, length, Layout.validTag, hlength, hle, rfl, hzero,
        fun _ => ⟨⟨capacity, messageSize⟩, rfl, rfl, hsize⟩⟩

theorem accounts_attach (hdraft : c.draft = none) :
    (attach (Name.storePath directory name)).Obeys (Account.rules directory name s)
      (Account.Attempted c.housed) c := by
  refine .call ⟨rfl, hdraft⟩ fun outcome _ => ?_
  cases outcome with
  | error error => exact ⟨rfl, hdraft, rfl, rfl, fun _ h => nomatch h⟩
  | ok file =>
    refine .call (fun h => nomatch h) fun (length : Nat) _ => ?_
    split
    case isTrue hlt => exact .call trivial fun _ _ => ⟨rfl, rfl, Or.inl ⟨length, hlt, rfl⟩⟩
    case isFalse hle =>
      replace hle := Nat.le_of_not_lt hle
      refine .call trivial fun mapped _ => .call trivial fun _ _ => ?_
      cases mapped with
      | error error =>
        refine ⟨rfl, rfl, rfl, rfl, fun n hn => ?_⟩
        cases hn
        exact hle
      | ok mapping =>
        refine Script.Obeys.bind (accounts_preamble ?_ rfl hle) fun c' result hresult => ?_
        · exact Option.some_ne_none file
        obtain ⟨hhoused, hdraft', hanswers⟩ := hresult
        cases result with
        | ok sizing => exact ⟨hhoused, hdraft', hanswers⟩
        | error error => exact .call trivial fun _ _ => ⟨hhoused, hdraft', hanswers⟩

end Store

/-- A program that only fills a file, and leaves its tag alone. -/
def Access.Fills : Access α → Prop
  | done _ | fault _ => True
  | store field _ next => Field.tag.Apart field ∧ ∀ u, (next u).Fills
  | load _ _ | fetch _ _ _ | put _ _ _ => False

theorem Access.Fills.bind {p : Access α} {k : α → Access β} (hp : p.Fills) (hk : ∀ a, (k a).Fills) :
    (p >>= k).Fills := by
  change (p.bind k).Fills
  induction p with
  | done a => exact hk a
  | fault f => exact trivial
  | store field value next ih => exact ⟨hp.1, fun u => ih u (hp.2 u)⟩
  | load field next => exact absurd hp id
  | fetch offset count next => exact absurd hp id
  | put offset bytes next => exact absurd hp id

theorem Access.fills_set {field : Field} {value : Nat} (h : Field.tag.Apart field) :
    (Access.set field value).Fills := ⟨h, fun _ => trivial⟩

theorem Format.fills_chain (s : Sizing) (left : Nat) : ∀ i, (Format.chain s left i).Fills := by
  induction left with
  | zero => exact fun _ => trivial
  | succ left ih =>
    intro i
    have hslot : ∀ {n}, Field.tag.Apart ⟨s.slotOffset i + n, 8⟩ ∧
        Field.tag.Apart ⟨s.slotOffset i + n, 4⟩ := by
      intro n
      have : 4 ≤ s.slotOffset i := Nat.le_trans (by decide) (Nat.le_add_right Layout.headerSize _)
      simp only [Field.Apart, Field.tag]
      omega
    refine .bind ?_ fun _ => .bind (Access.fills_set (hslot (n := 0)).1) fun _ =>
      .bind (Access.fills_set hslot.2) fun _ => .bind (Access.fills_set hslot.2) fun _ => ih (i + 1)
    unfold Slot.check
    split <;> exact trivial

theorem Format.fills_layOut (s : Sizing) : (Format.layOut s).Fills := by
  have hset : ∀ {field : Field} {value : Nat} {k : Unit → Access Unit},
      Field.tag.Apart field → (k ()).Fills → (Access.set field value >>= k).Fills :=
    fun h hk => .bind (Access.fills_set h) fun _ => hk
  refine hset (by decide) (hset (by decide) ?_)
  refine hset (by decide) (hset (by decide) (hset (by decide) (hset (by decide) ?_)))
  refine hset (by decide) (hset (by decide) (.bind ?_ fun _ => Format.fills_chain s _ _))
  exact hset (by decide) (hset (by decide) (Access.fills_set (by decide)))

/-- What a program makes of a new file is what it makes of a region. -/
theorem Script.accounts_fill {mapping : Nat} (p : Access α) (hp : p.Fills) {a : α} {r' : Region} :
    ∀ {c : Account} {r : Region}, c.draft = some ⟨r, .raw⟩ → p.run r = (.ok a, r') →
      (Script.through mapping p).Obeys (Account.rules directory name s)
        (fun c' _ => c'.housed = c.housed ∧ c'.draft = some ⟨r', .raw⟩) c := by
  induction p with
  | done a =>
    intro c r hdraft hrun
    cases hrun
    exact ⟨rfl, hdraft⟩
  | fault f =>
    intro c r hdraft hrun
    cases hrun
  | store field value next ih =>
    intro c r hdraft hrun
    refine ⟨⟨r, Or.inl ⟨hdraft, hp.1⟩⟩, fun u _ => ?_⟩
    have hfield : field ≠ .tag := by
      rintro rfl
      exact absurd hp.1 (by decide)
    have hrevised : (c.after ⟨.store mapping field value, u⟩).draft =
        some ⟨r.write field value, .raw⟩ := by
      simp only [Account.after, Account.revise, hdraft, if_neg hfield, Option.map_some]
    exact ih u (hp.2 u) hrevised hrun
  | load field next => exact absurd hp id
  | fetch offset count next => exact absurd hp id
  | put offset bytes next => exact absurd hp id

/-- What goes with the result of a creation. -/
def Account.Created (s : Sizing) (c : Account) : Except Error Store → Prop
  | .ok store => c.housed = true ∧ store.sizing = s ∧
      ∃ r, c.draft = some ⟨r, .raw⟩ ∧ r.size = s.fileSize
  | .error error => c.housed = true ∧ c.draft = none ∧ error ≠ .notReady ∧ error ≠ .badHandle

/-- What goes with the result of an opening. -/
def Account.Opened (s : Sizing) (c : Account) : Except Error Store → Prop
  | .ok store => (c.draft = none ∧ c.look.Shows store.sizing) ∨
      (store.sizing = s ∧ ∃ r, c.draft = some ⟨r, .published⟩)
  | .error error => c.draft = none ∧ error ≠ .notReady ∧ (error = .badHandle → c.look.Spoilt)

namespace Store

theorem accounts_extend {file : Nat} (hhoused : c.housed = true)
    (hdraft : c.draft = some ⟨Region.zeros 0, .raw⟩) :
    (extend file s.fileSize).Obeys (Account.rules directory name s) (fun c' result =>
      c'.housed = true ∧
        ∃ r, c'.draft = some ⟨r, .raw⟩ ∧ ∀ mapping, result = .ok mapping → r.size = s.fileSize) c := by
  refine .call ⟨hdraft, rfl⟩ fun outcome _ => ?_
  cases outcome with
  | error error => exact ⟨hhoused, _, hdraft, nofun⟩
  | ok u =>
    have hrevised : (c.after ⟨.setFileLength file s.fileSize, .ok u⟩).draft =
        some ⟨(Region.zeros 0).resize s.fileSize, .raw⟩ := by
      simp only [Account.after, Account.revise, hdraft, Option.map_some]
    refine ⟨trivial, fun mapped _ => ?_⟩
    cases mapped with
    | error error => exact ⟨hhoused, _, hrevised, nofun⟩
    | ok mapping => exact ⟨hhoused, _, hrevised, fun _ _ => Region.size_slice ..⟩

theorem accounts_create {path : String} (mode : Nat) (hs : s.Valid) (hhoused : c.housed = true)
    (hdraft : c.draft = none) (hpath : path = Name.storePath directory name) :
    (create path s mode).Obeys (Account.rules directory name s) (Account.Created s) c := by
  have hsystem : ∀ {error : SystemError}, Error.system error ≠ .notReady ∧
      Error.system error ≠ .badHandle := ⟨nofun, nofun⟩
  unfold create
  rw [Sizing.fileSize?_of_valid hs]
  refine .call ⟨hpath, hhoused, hdraft, hs⟩ fun outcome _ => ?_
  cases outcome with
  | error error => exact ⟨hhoused, hdraft, hsystem⟩
  | ok file =>
    refine Script.Obeys.bind (accounts_extend hhoused rfl) fun c' result hresult => ?_
    cases result with
    | ok mapping =>
      obtain ⟨hhoused', r, hraw, hsize⟩ := hresult
      exact .call trivial fun _ _ => ⟨hhoused', rfl, r, hraw, hsize mapping rfl⟩
    | error error =>
      obtain ⟨hhoused', r, hraw, -⟩ := hresult
      refine .call ⟨hpath, r, hraw⟩ fun removed _ => ?_
      exact .call trivial fun _ _ => ⟨hhoused', rfl, hsystem⟩

/-- A store of a file that is filled becomes a queue. -/
theorem accounts_initialise {store : Store} (hs : s.Valid) (hsizing : store.sizing = s)
    {r : Region} (hdraft : c.draft = some ⟨r, .raw⟩) (hsize : r.size = s.fileSize) :
    store.initialise.Obeys (Account.rules directory name s) (fun c' result => match result with
      | .ok () => ∃ r', c'.draft = some ⟨r', .published⟩
      | .error error => (∃ r', c'.draft = some ⟨r', .raw⟩) ∧ error ≠ .notReady ∧ error ≠ .badHandle) c := by
  subst hsizing
  obtain ⟨r', hrun, hvacant⟩ := run_layOut hs hsize
  refine (Script.accounts_fill _ (Format.fills_layOut _) hdraft hrun).bind fun c' _ hfilled => ?_
  refine .call ⟨r', hfilled.2, hvacant⟩ fun prepared _ => ?_
  cases prepared with
  | error error => exact ⟨⟨r', hfilled.2⟩, nofun, nofun⟩
  | ok u =>
    have hprepared : (c'.after ⟨.prepareLock store.mapping, .ok u⟩).draft = some ⟨r'.setSlice
        Layout.lockOffset (Region.zeroBytes Layout.lockSize), .prepared⟩ := by
      simp only [Account.after, Account.revise, hfilled.2, Option.map_some]
    refine ⟨⟨_, Or.inr ⟨hprepared, rfl, rfl⟩⟩, fun written _ => ?_⟩
    have hpublished : ((c'.after ⟨.prepareLock store.mapping, .ok u⟩).after
        ⟨.store store.mapping .tag Layout.validTag, written⟩).draft = some ⟨Region.write (r'.setSlice
          Layout.lockOffset (Region.zeroBytes Layout.lockSize)) .tag Layout.validTag, .published⟩ := by
      simp only [Account.after, Account.revise, hfilled.2, Option.map_some, if_true]
    exact ⟨_, hpublished⟩

end Store

namespace Opening

theorem accounts_attach (retries : Nat) : ∀ {c : Account}, c.draft = none →
    (attach (Name.storePath directory name) retries).Obeys (Account.rules directory name s)
      (fun c' result => c'.housed = c.housed ∧ c'.Opened s result) c := by
  -- The answer of the last attempt is the answer of all, but for one that came too early.
  have hends : ∀ {housed : Bool} {c' : Account} {result : Except Error Store},
      c'.Attempted housed result → result ≠ .error .notReady →
        c'.housed = housed ∧ c'.Opened s result := by
    intro housed c' result ⟨hhoused, hdraft, hanswers⟩ hready
    refine ⟨hhoused, ?_⟩
    cases result with
    | ok store => exact Or.inl ⟨hdraft, hanswers⟩
    | error error =>
      refine ⟨hdraft, fun heq => hready (congrArg _ heq), fun heq => ?_⟩
      rw [heq] at hanswers
      exact hanswers
  induction retries with
  | zero =>
    intro c hdraft
    refine (Store.accounts_attach hdraft).bind fun c' result hattempted => ?_
    split
    · exact ⟨hattempted.1, hattempted.2.1, nofun, nofun⟩
    · rename_i hready
      exact hends hattempted hready
  | succ retries ih =>
    intro c hdraft
    refine (Store.accounts_attach hdraft).bind fun c' result hattempted => ?_
    split
    · refine .call trivial fun _ _ => ?_
      rw [← hattempted.1]
      exact ih hattempted.2.1
    · rename_i hready
      exact hends hattempted hready

theorem accounts_finish {path : String} {store : Store} (hs : s.Valid)
    (hpath : path = Name.storePath directory name) (hcreated : c.Created s (.ok store)) :
    (finish path store).Obeys (Account.rules directory name s) (Account.Opened s) c := by
  obtain ⟨-, hsizing, r, hdraft, hsize⟩ := hcreated
  refine (Store.accounts_initialise hs hsizing hdraft hsize).bind fun c' result hresult => ?_
  cases result with
  | ok u => exact Or.inr ⟨hsizing, hresult⟩
  | error error =>
    obtain ⟨⟨r', hraw⟩, hready, hhandle⟩ := hresult
    refine .call trivial fun _ _ => .call ⟨hpath, r', hraw⟩ fun removed _ => ?_
    exact ⟨rfl, hready, fun heq => absurd heq hhandle⟩

theorem accounts_join {options : Options} {path : String} (hpath : path = Name.storePath directory name)
    (hdraft : c.draft = none) {again : Script (Except Error Store)}
    (hagain : ∀ {c' : Account}, c'.housed = c.housed → c'.draft = none →
      again.Obeys (Account.rules directory name s) (Account.Opened s) c') :
    (join path options again).Obeys (Account.rules directory name s) (Account.Opened s) c := by
  subst hpath
  refine (accounts_attach options.retries hdraft).bind fun c' result hopened => ?_
  cases result with
  | ok store => exact hopened.2
  | error error =>
    dsimp only
    split
    · exact hagain hopened.1 hopened.2.1
    · exact hopened.2

theorem accounts_round {options : Options} {path : String} (hpath : path = Name.storePath directory name)
    (hs : options.create = true → options.sizing.Valid) (left : Nat) : ∀ {c : Account},
      c.housed = true → c.draft = none →
        (round path options left).Obeys (Account.rules directory name options.sizing)
          (Account.Opened options.sizing) c := by
  induction left with
  | zero => exact fun _ hdraft => ⟨hdraft, nofun, nofun⟩
  | succ left ih =>
    intro c hhoused hdraft
    have hjoin : ∀ {c' : Account}, c'.housed = true → c'.draft = none →
        (join path options (round path options left)).Obeys
          (Account.rules directory name options.sizing) (Account.Opened options.sizing) c' :=
      fun hhoused' hdraft' => accounts_join hpath hdraft' fun heq => ih (heq.trans hhoused')
    unfold round
    split
    case isTrue hcreate =>
      refine (Store.accounts_create _ (hs hcreate) hhoused hdraft hpath).bind fun c' result hcreated => ?_
      cases result with
      | ok store => exact accounts_finish (hs hcreate) hpath hcreated
      | error error =>
        obtain ⟨hhoused', hdraft', hready, hhandle⟩ := hcreated
        dsimp only
        split
        · exact hjoin hhoused' hdraft'
        · exact ⟨hdraft', hready, fun heq => absurd heq hhandle⟩
    case isFalse => exact hjoin hhoused hdraft

theorem accounts_run (directory name : String) (options : Options) :
    (run directory name options).Obeys (Account.rules directory name options.sizing)
      (Account.Opened options.sizing) {} := by
  unfold run
  split
  case h_1 error hname =>
    refine ⟨rfl, ?_⟩
    unfold Name.validate at hname
    split at hname
    · cases hname
    · cases hname
      exact ⟨nofun, nofun⟩
  case h_2 u hname =>
    split
    case isTrue => exact ⟨rfl, nofun, nofun⟩
    case isFalse hsizing =>
      refine .call ⟨rfl, hname⟩ fun made _ => ?_
      cases made with
      | error error => exact ⟨rfl, nofun, nofun⟩
      | ok u =>
        refine accounts_round rfl (fun hcreate => ?_) rounds rfl rfl
        exact Decidable.not_not.mp fun hnot => hsizing ⟨hcreate, hnot⟩

end Opening

namespace Plan

/-- To open the queue of a name, or to attach to its file once. -/
def Seeks (directory name : String) : Plan → Prop
  | opens directory' name' _ => directory' = directory ∧ name' = name
  | attaches path => path = Name.storePath directory name
  | unlinks _ _ => False

/-- The sizing of a queue that is made. -/
def sizing : Plan → Sizing
  | opens _ _ options => options.sizing
  | _ => Sizing.standard

end Plan

/-- What goes with the result of a plan. -/
def Account.Ends (c : Account) (plan : Plan) (outcome : Except Error (Option Store)) : Prop :=
  match plan with
  | .opens _ _ options => ∃ result, outcome = result.map some ∧ c.Opened options.sizing result
  | .attaches _ => ∃ result, outcome = result.map some ∧ c.Attempted false result
  | .unlinks _ _ => False

theorem Plan.accounts_script {plan : Plan} (hseeks : plan.Seeks directory name) :
    plan.script.Obeys (Account.rules directory name plan.sizing)
      (fun c outcome => c.Ends plan outcome) {} := by
  cases plan with
  | opens directory' name' options =>
    obtain ⟨rfl, rfl⟩ := hseeks
    exact (Opening.accounts_run _ _ options).bind fun c result hopened => ⟨result, rfl, hopened⟩
  | attaches path =>
    subst hseeks
    exact (Store.accounts_attach rfl).bind fun c result hattempted => ⟨result, rfl, hattempted⟩
  | unlinks directory' name' => exact absurd hseeks id

end MappedQueue
