import MappedQueue.Proofs.Contests

/-!
# Waiting for a file that is never finished

When the maker of a file stops for good before it has written the tag, the others change
nothing. Whoever opens the queue from then on looks at the file once, and again as often as he
may, and gives up. Nothing keeps him from coming to this end.
-/

namespace MappedQueue

namespace Deed

/-- Whether an attempt to attach begins. -/
def Opens (deed : Deed) : Bool :=
  match deed.operation with
  | .openFile _ => true
  | _ => false

/-- The system has not done what it was asked to. A file that is there already is no failure. -/
def Fails : Deed → Prop
  | ⟨.createFile _ _, .error error⟩ => error ≠ .code Errno.alreadyExists
  | ⟨.makeDirectories _, .error _⟩ | ⟨.openFile _, .error _⟩ | ⟨.removeFile _, .error _⟩
  | ⟨.setFileLength _ _, .error _⟩ | ⟨.map _ _, .error _⟩ | ⟨.prepareLock _, .error _⟩ => True
  | _ => False

end Deed

/-- How often a thread has begun to attach. -/
def Party.attempts (a : Party) : Nat := a.past.countP Deed.Opens

/-- The rules for an opening while there is a file without a tag, and the system does what it is
asked to; the attempts are counted. -/
def vainRules : Rules Nat where
  after attempts deed := attempts + if deed.Opens = true then 1 else 0
  Allows _ operation := match operation with
    | .map _ length => 0 < length
    | .removeFile _ | .setFileLength _ _ | .store _ _ _ | .put _ _ _ | .prepareLock _ => False
    | _ => True
  Expects _ deed := ¬ deed.Fails ∧ match deed with
    | ⟨.createFile _ _, .ok _⟩ => False
    | ⟨.load _ field, value⟩ => field = .tag → value = 0
    | _ => True

theorem Store.vain_attach (path : String) (attempts : Nat) :
    (attach path).Obeys vainRules
      (fun n result => result = .error .notReady ∧ n = attempts + 1) attempts := by
  refine .call trivial fun outcome hexpects => ?_
  cases outcome with
  | error error => exact absurd trivial hexpects.1
  | ok file =>
    refine .call trivial fun (length : Nat) _ => ?_
    split
    case isTrue hlt => exact .call trivial fun _ _ => ⟨rfl, rfl⟩
    case isFalse hle =>
      have hlength : 0 < length := Nat.lt_of_lt_of_le (by decide) (Nat.le_of_not_lt hle)
      refine .call hlength fun mapped hmapped => .call trivial fun _ _ => ?_
      cases mapped with
      | error error => exact absurd trivial hmapped.1
      | ok mapping =>
        refine ⟨trivial, fun (tag : Nat) htag => ?_⟩
        have hzero : tag = 0 := htag.2 rfl
        subst hzero
        exact ⟨trivial, fun _ _ => ⟨rfl, rfl⟩⟩

namespace Opening

theorem vain_attach (path : String) (retries : Nat) : ∀ attempts : Nat,
    (attach path retries).Obeys vainRules
      (fun n result => result = .error .timedOut ∧ n = attempts + (retries + 1)) attempts := by
  induction retries with
  | zero =>
    intro attempts
    refine (Store.vain_attach path attempts).bind fun n result hresult => ?_
    obtain ⟨rfl, rfl⟩ := hresult
    exact ⟨rfl, rfl⟩
  | succ retries ih =>
    intro attempts
    refine (Store.vain_attach path attempts).bind fun n result hresult => ?_
    obtain ⟨rfl, rfl⟩ := hresult
    refine .call trivial fun _ _ => ?_
    have hagain := ih (attempts + 1)
    rw [show attempts + 1 + (retries + 1) = attempts + (retries + 1 + 1) by omega] at hagain
    exact hagain

theorem vain_join {path : String} {options : Options} {again : Script (Except Error Store)} :
    (join path options again).Obeys vainRules
      (fun n result => result = .error .timedOut ∧ n = options.retries + 1) 0 := by
  refine (vain_attach path options.retries 0).bind fun n result hresult => ?_
  obtain ⟨rfl, rfl⟩ := hresult
  exact ⟨rfl, Nat.zero_add _⟩

/-- An opening in vain ends when it has attached once and as often again as it may. -/
theorem vain_run {directory name : String} {options : Options} (hname : Name.validate name = .ok ())
    (hshared : options.create = true → options.exclusive = false ∧ options.sizing.Valid) :
    (run directory name options).Obeys vainRules
      (fun n result => result = .error .timedOut ∧ n = options.retries + 1) 0 := by
  unfold run
  rw [hname]
  dsimp only
  rw [if_neg fun h => h.2 (hshared h.1).2]
  refine .call trivial fun made hmade => ?_
  cases made with
  | error error => exact absurd trivial hmade.1
  | ok u =>
    show (round (Name.storePath directory name) options (15 + 1)).Obeys vainRules _ 0
    unfold round
    split
    case isFalse => exact vain_join
    case isTrue hcreate =>
      obtain ⟨hexclusive, hs⟩ := hshared hcreate
      unfold Store.create
      rw [Sizing.fileSize?_of_valid hs]
      refine ⟨trivial, fun outcome hexpects => ?_⟩
      cases outcome with
      | ok file => exact absurd hexpects.2 id
      | error error =>
        have herror : error = .code Errno.alreadyExists := Decidable.not_not.mp hexpects.1
        subst herror
        change Script.Obeys vainRules _ (if _ then _ else _) 0
        rw [if_pos ⟨rfl, by rw [hexclusive]; rfl⟩]
        exact vain_join

end Opening

theorem Plan.vain_script {directory name : String} {options : Options}
    (hname : Name.validate name = .ok ())
    (hshared : options.create = true → options.exclusive = false ∧ options.sizing.Valid) :
    (Plan.opens directory name options).script.Obeys vainRules
      (fun n outcome => outcome = .error .timedOut ∧ n = options.retries + 1) 0 := by
  refine (Opening.vain_run hname hshared).bind fun n result hresult => ?_
  obtain ⟨rfl, hn⟩ := hresult
  exact ⟨rfl, hn⟩

/-- A thread that looks at a file in vain. -/
structure Party.Waits (file : Nat) (options : Options) (a : Party) : Prop where
  found {other : Nat} (h : a.hands.found = some other) : other = file
  /-- As long as the system does what it is asked to, the thread is on its way to give up. -/
  vain (hheeded : ∀ deed ∈ a.past, ¬ deed.Fails) : ∃ rest, a.phase = .busy rest ∧
    rest.Obeys vainRules (fun n outcome => outcome = .error .timedOut ∧ n = options.retries + 1)
      a.attempts

theorem Party.attempts_next (a : Party) (deed : Deed) (phase : Phase) :
    (a.next deed phase).attempts = a.attempts + if deed.Opens = true then 1 else 0 := List.countP_cons

namespace Realm

variable {R R' : Realm} {M : Machine} {directory name : String} {m i j file : Nat} {a b : Party}
  {options : Options}

/-- A thread has made a file and has not finished it yet. -/
def Unfinished (R : Realm) (m file : Nat) : Prop :=
  ∃ b draft, R.machine.parties[m]? = some b ∧ b.hands.found = some file ∧
    b.account.draft = some draft ∧ draft.stage ≠ .published

/-- A run in which one thread does nothing. -/
def Without (m : Nat) : Realm → Realm → Prop :=
  Relation.ReflTransGen fun R R' => ∃ i shown, i ≠ m ∧ Step R (.plan i) shown R'

/-- A run in which nobody else does anything. -/
def Through (i : Nat) : Realm → Realm → Prop :=
  Relation.ReflTransGen fun R R' => ∃ shown, Step R (.plan i) shown R'

theorem Without.runs (hw : Without m R R') : Runs R R' := by
  refine Relation.ReflTransGen.mono (fun _ _ h => ?_) _ _ hw
  obtain ⟨i, shown, -, hstep⟩ := h
  exact ⟨i, shown, hstep⟩

/-- A contest goes on with every operation. -/
theorem Contest.operate {operation : Operation}
    {next : operation.Outcome → Script (Except Error (Option Store))} {outcome : operation.Outcome}
    {h : Host} (hr : R.Contest directory name M) (ha : R.machine.parties[i]? = some a)
    (hphase : a.phase = .busy (.perform operation next))
    (hdoes : R.machine.Does a.process operation outcome h) : Contest directory name M
      { R with machine := R.machine.after i a h ⟨operation, outcome⟩ (.busy (next outcome)) } := by
  refine ⟨hr.starts, hr.runs.tail ⟨i, [], .operate ha hphase hdoes⟩, fun hb => ?_⟩
  rcases Machine.getElem?_set_cases hb with ⟨-, rfl⟩ | ⟨-, hb⟩
  · exact (hr.seeks ha : a.plan.Seeks directory name)
  · exact hr.seeks hb

namespace Unfinished

/-- Its path leads to the file, which has no tag. -/
theorem stands (hu : R.Unfinished m file) (hr : R.Contest directory name M) :
    (∃ place node, R.machine.disk.Stands directory name M.disk.files.size place ∧
      R.machine.disk.entry? place.1 place.2 = some node) ∧
        R.machine.disk.Leads directory name file ∧
          (R.machine.disk.shared file).region.read .tag = 0 := by
  obtain ⟨b, draft, hb, hfound, hdraft, hunpublished⟩ := hu
  have hc := hr.contested
  obtain ⟨file', hkeeps⟩ := hc.kept hb hdraft
  cases hfound.symm.trans hkeeps.found
  refine ⟨?_, hkeeps.leads, ?_⟩
  · rcases hc.placed with hsize | ⟨place, hstands⟩
    · cases (hc.untouched hr.reachable.sound.machine hsize hb).1.symm.trans hdraft
    · obtain ⟨node, hentry, -⟩ := hstands.entry_of_leads hkeeps.leads
      exact ⟨place, node, hstands, hentry⟩
  · rw [hkeeps.content]
    obtain ⟨r, stage⟩ := draft
    have hright := hkeeps.right
    cases stage with
    | raw => exact hright.1
    | prepared => exact hright.1
    | published => exact absurd rfl hunpublished

/-- What others do leaves the disk as it is, and they find no other file. -/
theorem others (hu : R.Unfinished m file) (hr : R.Contest directory name M) {deed : Deed} {h : Host}
    (hne : i ≠ m) (hp : R.Performs i a deed h) : h.disk = R.machine.disk ∧
      (∀ path mode serial, deed ≠ ⟨.createFile path mode, .ok serial⟩) ∧
        ∀ path other, deed = ⟨.openFile path, .ok other⟩ → other = file := by
  obtain ⟨b, draft, hb, hfound, hdraft, -⟩ := hu
  exact hr.contested.others hr.reachable.sound.machine hb hdraft hfound hp.party hne (hr.aftermath hp)

theorem step {shown : List Happening} (hu : R.Unfinished m file) (hr : R.Contest directory name M)
    (hne : i ≠ m) (hstep : Step R (.plan i) shown R') :
    R'.Unfinished m file ∧ R'.machine.disk = R.machine.disk := by
  obtain ⟨b, draft, hb, hfound, hdraft, hunpublished⟩ := id hu
  cases hstep with
  | begin process plan =>
    exact ⟨⟨b, draft, Machine.getElem?_concat_of hb _, hfound, hdraft, hunpublished⟩, rfl⟩
  | operate ha hphase hdoes =>
    have hp : R.Performs _ _ ⟨_, _⟩ _ := ⟨ha, ⟨_, hphase⟩, hdoes⟩
    exact ⟨⟨b, draft, (List.getElem?_set_ne hne).trans hb, hfound, hdraft, hunpublished⟩,
      (hu.others hr hne hp).1⟩
  | obtain ha hphase hplan hidentity =>
    exact ⟨⟨b, draft, (List.getElem?_set_ne hne).trans hb, hfound, hdraft, hunpublished⟩, rfl⟩

/-- One more operation in vain. -/
theorem waits (hu : R.Unfinished m file) (hr : R.Contest directory name M) (hne : i ≠ m)
    {operation : Operation} {next : operation.Outcome → Script (Except Error (Option Store))}
    {outcome : operation.Outcome} {h : Host} (ha : R.machine.parties[i]? = some a)
    (hphase : a.phase = .busy (.perform operation next))
    (hdoes : R.machine.Does a.process operation outcome h) (hw : a.Waits file options) :
    (a.next ⟨operation, outcome⟩ (.busy (next outcome))).Waits file options := by
  have hp : R.Performs i a ⟨operation, outcome⟩ h := ⟨ha, ⟨next, hphase⟩, hdoes⟩
  obtain ⟨-, hcreates, hopens⟩ := hu.others hr hne hp
  obtain ⟨-, -, htag⟩ := hu.stands hr
  have hs := hr.reachable.sound
  have hmapping := (hs.allows ha hphase).1
  constructor
  case found =>
    intro other hother
    rcases a.hands.found_after ⟨operation, outcome⟩ with hsame | ⟨path, f, heq, hf⟩ | ⟨path, mode, f, heq, -⟩
    · exact hw.found (hsame.symm.trans hother)
    · rw [← Option.some.inj (hf.symm.trans hother)]
      exact hopens path f heq
    · exact absurd heq (hcreates path mode f)
  case vain =>
    intro hheeded
    obtain ⟨rest, hbusy, hobeys⟩ := hw.vain fun deed hdeed =>
      hheeded deed (List.mem_cons_of_mem _ hdeed)
    cases hphase.symm.trans hbusy
    refine ⟨next outcome, rfl, ?_⟩
    rw [Party.attempts_next]
    refine hobeys.2 outcome ⟨hheeded _ List.mem_cons_self, ?_⟩
    cases operation with
    | createFile path mode =>
      cases outcome with
      | ok serial => exact absurd rfl (hcreates path mode serial)
      | error error => exact trivial
    | load mapping field =>
      intro hfield
      have hfound := (hs.machine.settled ha).held.mapping_eq mapping hmapping
      have hfile := hw.found hfound
      rw [hfile] at hfound
      rw [hp.loads hs hfound, hfield]
      exact htag
    | _ => exact trivial

/-- Without its maker the file stays as it is, and whoever comes later looks at it in vain. -/
theorem vain (hu : R.Unfinished m file) (hw : Without m R R') (hruns : Runs { machine := M } R)
    (hr : R'.Contest directory name M) : R'.Unfinished m file ∧
      R'.machine.disk = R.machine.disk ∧ ∀ {i : Nat} {a : Party} {options : Options},
        R.machine.parties.length ≤ i → R'.machine.parties[i]? = some a →
          a.plan = .opens directory name options →
            (options.create = true → options.exclusive = false ∧ options.sizing.Valid) →
              a.Waits file options := by
  induction hw with
  | refl =>
    refine ⟨hu, rfl, fun hle ha => ?_⟩
    exact absurd (List.getElem?_eq_some_iff.mp ha).1 (Nat.not_lt_of_le hle)
  | @tail R₁ R₂ hw hstep ih =>
    obtain ⟨i, shown, hne, hstep⟩ := hstep
    have hr₁ := hr.before (hruns.trans (Without.runs hw)) hstep
    obtain ⟨hu₁, hdisk, hwaits⟩ := ih hr₁
    obtain ⟨hu₂, hdisk₂⟩ := hu₁.step hr₁ hne hstep
    refine ⟨hu₂, hdisk₂.trans hdisk, fun {j a options} hle ha hplan hshared => ?_⟩
    cases hstep with
    | begin process plan =>
      rcases Machine.getElem?_concat_cases ha with ha | rfl
      · exact hwaits hle ha hplan hshared
      · obtain ⟨⟨place, node, hstands, -⟩, -⟩ := hu₁.stands hr₁
        subst hplan
        exact ⟨fun h => (nomatch h), fun _ => ⟨_, rfl, Plan.vain_script hstands.houses.1 hshared⟩⟩
    | operate hb hphase hdoes =>
      rcases Machine.getElem?_set_cases ha with ⟨rfl, rfl⟩ | ⟨-, ha⟩
      · exact hu₁.waits hr₁ hne hb hphase hdoes (hwaits hle hb hplan hshared)
      · exact hwaits hle ha hplan hshared
    | obtain hb hphase hplan' hidentity =>
      rcases Machine.getElem?_set_cases ha with ⟨rfl, rfl⟩ | ⟨-, ha⟩
      · have hbefore := hwaits hle hb hplan hshared
        refine ⟨hbefore.found, fun hheeded => ?_⟩
        obtain ⟨rest, hbusy, hobeys⟩ := hbefore.vain hheeded
        cases hphase.symm.trans hbusy
        cases hobeys.1
      · exact hwaits hle ha hplan hshared

/-- Nothing keeps the system from doing what a thread asks for in vain. -/
theorem exists_heeded {operation : Operation} {attempts : Nat}
    {next : operation.Outcome → Script (Except Error (Option Store))} (hu : R.Unfinished m file)
    (hr : R.Contest directory name M)
    (hpermits : R.machine.disk.permits file (Disk.ownerReads ||| Disk.ownerWrites) = true)
    (ha : R.machine.parties[i]? = some a) (hphase : a.phase = .busy (.perform operation next))
    (hallows : vainRules.Allows attempts operation) : ∃ outcome h,
      R.machine.Does a.process operation outcome h ∧ ¬ Deed.Fails ⟨operation, outcome⟩ := by
  obtain ⟨⟨place, node, hstands, hentry⟩, ⟨path, hpath, hfind⟩, -⟩ := hu.stands hr
  have hrules := (hr.contested.allows ha hphase).1
  obtain ⟨numbering, hdoes⟩ := R.machine.exists_willing a.process operation
  refine ⟨_, _, hdoes, ?_⟩
  cases operation with
  | makeDirectories path' =>
    obtain ⟨rfl, -⟩ := hrules
    obtain ⟨-, path'', hpath'', -⟩ := id hstands.houses
    have hmade := hstands.makeDirectories_eq hpath''
    simp only [Host.carryOut, hpath'', Machine.sees, Machine.disk_host, hmade]
    exact id
  | createFile path' mode =>
    obtain ⟨rfl, -⟩ := hrules
    have hthere := hstands.createFile_eq hpath hentry mode
    simp only [Host.carryOut, hpath, Machine.sees, Machine.disk_host, bind, Except.bind, hthere]
    exact fun h => h rfl
  | openFile path' =>
    obtain ⟨rfl, -⟩ := hrules
    have hopen : R.machine.disk.openFile path = .ok file := by
      simp only [Disk.openFile, hfind, bind, Except.bind, hpermits]
      rfl
    simp only [Host.carryOut, hpath, Machine.sees, Machine.disk_host, bind, Except.bind, hopen]
    exact id
  | map file' length =>
    have hlength : length ≠ 0 := Nat.ne_of_gt hallows
    simp only [Host.carryOut, Host.map, if_neg hlength]
    split <;> exact id
  | removeFile path' => exact absurd hallows id
  | setFileLength file' length => exact absurd hallows id
  | prepareLock mapping => exact absurd hallows id
  | _ => exact id

/-- Whoever looks at the file in vain can come to the end. -/
theorem exists_end (hu : R.Unfinished m file) (hr : R.Contest directory name M) (hne : i ≠ m)
    (hpermits : R.machine.disk.permits file (Disk.ownerReads ||| Disk.ownerWrites) = true)
    (ha : R.machine.parties[i]? = some a) (hw : a.Waits file options)
    (hheeded : ∀ deed ∈ a.past, ¬ deed.Fails) : ∃ R' b, Through i R R' ∧
      R'.machine.parties[i]? = some b ∧ b.phase = .busy (.done (.error .timedOut)) ∧
        b.attempts = options.retries + 1 ∧ b.plan = a.plan ∧ ∀ deed ∈ b.past, ¬ deed.Fails := by
  obtain ⟨rest, hphase, hobeys⟩ := hw.vain hheeded
  induction rest generalizing R a with
  | done outcome =>
    obtain ⟨rfl, hattempts⟩ := hobeys
    exact ⟨R, a, .refl, ha, hphase, hattempts, rfl, hheeded⟩
  | fault f => exact absurd hobeys id
  | perform operation next ih =>
    obtain ⟨outcome, h, hdoes, hdone⟩ := hu.exists_heeded hr hpermits ha hphase hobeys.1
    have hstep := Step.operate ha hphase hdoes
    obtain ⟨hu', hdisk⟩ := hu.step hr hne hstep
    have hself := Machine.getElem?_set_of ha (a.next ⟨operation, outcome⟩ (.busy (next outcome)))
    have hheeded' : ∀ deed ∈ (a.next ⟨operation, outcome⟩ (.busy (next outcome))).past, ¬ deed.Fails := by
      intro deed hdeed
      rcases List.mem_cons.mp hdeed with rfl | hdeed
      · exact hdone
      · exact hheeded deed hdeed
    have hw' := hu.waits hr hne ha hphase hdoes hw
    obtain ⟨rest', hphase', hobeys'⟩ := hw'.vain hheeded'
    cases hphase'
    obtain ⟨R', b, hthrough, hend⟩ := ih outcome hu' (hr.operate ha hphase hdoes)
      (by rw [hdisk]; exact hpermits) hself hw' hheeded' rfl hobeys'
    exact ⟨R', b, .head ⟨[], hstep⟩ hthrough, hend⟩

end Unfinished

end Realm

end MappedQueue
