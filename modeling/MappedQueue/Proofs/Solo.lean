import MappedQueue.Proofs.Bookkeeping

/-!
# Scripts that run alone

Nobody comes between the operations of a script that runs alone. The system may refuse an
operation that needs room, another one every time; what it cannot refuse, and the removal of
a name, it does. Such a run has an end, and what the script has in its hands at the end is
all that has come into the process.
-/

namespace MappedQueue

namespace Host

variable {h h' : Host} {operation : Operation} {outcome : operation.Outcome}

/-- What an operation may come to: the system refuses it, which changes nothing, or does it. -/
inductive Tries (h : Host) (operation : Operation) : operation.Outcome → Host → Prop
  | refused {error : SystemError} {outcome : operation.Outcome}
      (hkept : ∀ path, operation ≠ .removeFile path)
      (hrefused : refusal? error operation = some outcome) : Tries h operation outcome h
  | done : Tries h operation (h.carryOut operation).1 (h.carryOut operation).2

theorem Tries.cases (ht : h.Tries operation outcome h') :
    (∃ error, refusal? error operation = some outcome ∧ h' = h) ∨
      h.carryOut operation = (outcome, h') := by
  cases ht with
  | refused _ hrefused => exact Or.inl ⟨_, hrefused, rfl⟩
  | done => exact Or.inr rfl

theorem Tries.carryOut_eq (ht : h.Tries operation outcome h')
    (hnot : ∀ error, refusal? error operation ≠ some outcome) :
    h.carryOut operation = (outcome, h') := by
  rcases ht.cases with ⟨error, hrefused, -⟩ | hdone
  · exact absurd hrefused (hnot error)
  · exact hdone

theorem Tries.change (ht : h.Tries operation outcome h') (hf : h.disk.Formed) :
    Change h ⟨operation, outcome⟩ h' := by
  cases ht with
  | @refused error _ _ hrefused =>
    refine .quiet (fun hands => ?_) (.refl hf)
    cases operation <;> cases hrefused <;> rfl
  | done => exact carryOut_change hf operation

theorem Tries.formed (ht : h.Tries operation outcome h') (hf : h.disk.Formed) : h'.disk.Formed :=
  ((ht.change hf).extends_ hf).2

theorem Tries.sound (ht : h.Tries operation outcome h') (hs : h.Sound) (hp : h.Proper operation) :
    h'.Sound := by
  cases ht with
  | refused => exact hs
  | done => exact hs.carryOut hp

/-- What cannot be refused is done. -/
theorem Tries.eq (ht : h.Tries operation outcome h')
    (ho : (∃ path, operation = .removeFile path) ∨ ∀ error, refusal? error operation = none) :
    h.carryOut operation = (outcome, h') := by
  cases ht with
  | @refused error _ hkept hrefused =>
    rcases ho with ⟨path, rfl⟩ | hnone
    · exact absurd rfl (hkept path)
    · rw [hnone error] at hrefused
      cases hrefused
  | done => rfl

theorem tries_perform (hw : ∀ path, h.refused (.removeFile path) = none) :
    h.Tries operation (h.perform operation).1 (h.perform operation).2 := by
  rw [perform]
  cases hr : (h.refused operation).bind (refusal? · operation) with
  | none => exact .done
  | some outcome =>
    obtain ⟨error, hrefused, herror⟩ := Option.bind_eq_some_iff.mp hr
    refine .refused (fun path heq => ?_) herror
    subst heq
    rw [hw path] at hrefused
    cases hrefused

/-- What the system refuses makes no difference to what it does. -/
theorem carryOut_refused (h : Host) (refused : Operation → Option SystemError)
    (operation : Operation) : ({ h with refused } : Host).carryOut operation =
      ((h.carryOut operation).1, { (h.carryOut operation).2 with refused }) := by
  cases operation with
  | makeDirectories path =>
    simp only [carryOut]
    split <;> rfl
  | createFile path mode =>
    have hused : used { h with refused } = h.used := rfl
    simp only [carryOut, hused]
    split <;> rfl
  | openFile path =>
    simp only [carryOut]
    split <;> rfl
  | removeFile path =>
    simp only [carryOut]
    split <;> rfl
  | map file length =>
    have hinUse : inUse { h with refused } = h.inUse := rfl
    simp only [carryOut, Host.map, hinUse]
    split
    · rfl
    · split <;> rfl
  | _ => rfl

theorem Tries.exists_perform (ht : h.Tries operation outcome h') :
    ∃ refused, ({ h with refused } : Host).perform operation = (outcome, { h' with refused }) := by
  cases ht with
  | @refused error _ hkept hrefused =>
    refine ⟨fun _ => some error, ?_⟩
    simp only [perform, Option.bind_some, hrefused]
  | done => exact ⟨fun _ => none, (perform_of_willing rfl _).trans (carryOut_refused ..)⟩

theorem refused_perform (h : Host) (operation : Operation) :
    (h.perform operation).2.refused = h.refused := by
  have hcarried := carryOut_refused h h.refused operation
  rcases h.perform_cases operation with ⟨error, outcome, -, hp⟩ | hp
  · rw [hp]
  · rw [hp]
    exact congrArg (fun done => done.2.refused) hcarried

end Host

namespace Script

variable {α β σ : Type} {p : Script α} {k : α → Script β} {h h' : Host} {deeds : List Deed}
  {result : Except Fault α}

/-- A run of a script in which nobody comes between, with its operations in order. -/
inductive Solo : Script α → Host → List Deed → Except Fault α → Host → Prop
  | done {a : α} {h : Host} : Solo (.done a) h [] (.ok a) h
  | fault {f : Fault} {h : Host} : Solo (.fault f) h [] (.error f) h
  | perform {operation : Operation} {next : operation.Outcome → Script α} {h h₁ h' : Host}
      {outcome : operation.Outcome} {deeds : List Deed} {result : Except Fault α}
      (htries : h.Tries operation outcome h₁) (hrest : Solo (next outcome) h₁ deeds result h') :
      Solo (.perform operation next) h (⟨operation, outcome⟩ :: deeds) result h'

/-- A run of a whole is one of the first part, and then, if it has a result, one of the rest. -/
theorem Solo.of_bind {result : Except Fault β} (hrun : (p >>= k).Solo h deeds result h') :
    (∃ f, p.Solo h deeds (.error f) h' ∧ result = .error f) ∨
      ∃ before after a h₁, p.Solo h before (.ok a) h₁ ∧ (k a).Solo h₁ after result h' ∧
        deeds = before ++ after := by
  change (p.bind k).Solo h deeds result h' at hrun
  induction p generalizing h deeds with
  | done a => exact Or.inr ⟨[], deeds, a, h, .done, hrun, rfl⟩
  | fault f =>
    cases hrun
    exact Or.inl ⟨f, .fault, rfl⟩
  | perform operation next ih =>
    cases hrun with
    | perform htries hrest =>
      rcases ih _ hrest with ⟨f, hp, hresult⟩ | ⟨before, after, a, h₁, hp, hk, rfl⟩
      · exact Or.inl ⟨f, .perform htries hp, hresult⟩
      · exact Or.inr ⟨_, after, a, h₁, .perform htries hp, hk, rfl⟩

theorem Solo.of_call {operation : Operation} {k : operation.Outcome → Script β}
    {result : Except Fault β} (hrun : (Script.call operation >>= k).Solo h deeds result h') :
    ∃ outcome h₁ after, h.Tries operation outcome h₁ ∧ (k outcome).Solo h₁ after result h' ∧
      deeds = ⟨operation, outcome⟩ :: after := by
  change (Script.perform operation k).Solo h deeds result h' at hrun
  cases hrun with
  | perform htries hrest => exact ⟨_, _, _, htries, hrest, rfl⟩

theorem Solo.formed (hrun : p.Solo h deeds result h') (hf : h.disk.Formed) : h'.disk.Formed := by
  induction hrun with
  | done => exact hf
  | fault => exact hf
  | perform htries _ ih => exact ih (htries.formed hf)

/-- A run follows the rules of its script. -/
theorem Solo.fits {rules : Rules σ} {fits : σ → α → Prop} {a : α} {state : σ}
    (hexpects : ∀ state deed, rules.Expects state deed) (hrun : p.Solo h deeds result h')
    (hresult : result = .ok a) (hp : p.Obeys rules fits state) :
    fits (deeds.foldl rules.after state) a := by
  induction hrun generalizing state with
  | done =>
    cases hresult
    exact hp
  | fault => cases hresult
  | perform _ _ ih => exact ih hresult (hp.2 _ (hexpects _ _))

/-- Every script can be run alone, and comes to an end. -/
theorem exists_solo (p : Script α) : ∀ h : Host, ∃ deeds result h', p.Solo h deeds result h' := by
  induction p with
  | done a => exact fun h => ⟨[], _, h, .done⟩
  | fault f => exact fun h => ⟨[], _, h, .fault⟩
  | perform operation next ih =>
    intro h
    obtain ⟨deeds, result, h', hrun⟩ := ih (h.carryOut operation).1 (h.carryOut operation).2
    exact ⟨_, result, h', .perform .done hrun⟩

/-- What a script does at one go it does alone. -/
theorem solo_run (p : Script α) : ∀ {h : Host}, (∀ path, h.refused (.removeFile path) = none) →
    ∃ deeds, p.Solo h deeds (p.run h).1 (p.run h).2 := by
  induction p with
  | done a => exact fun _ => ⟨[], .done⟩
  | fault f => exact fun _ => ⟨[], .fault⟩
  | perform operation next ih =>
    intro h hw
    have hw' : ∀ path, (h.perform operation).2.refused (.removeFile path) = none := by
      rw [h.refused_perform]
      exact hw
    obtain ⟨deeds, hrun⟩ := ih (h.perform operation).1 hw'
    exact ⟨_, .perform (Host.tries_perform hw) hrun⟩

theorem refused_run (p : Script α) : ∀ h : Host, (p.run h).2.refused = h.refused := by
  induction p with
  | done a => exact fun _ => rfl
  | fault f => exact fun _ => rfl
  | perform operation next ih => exact fun h => (ih _ _).trans (h.refused_perform operation)

/-- Alone, a program through a mapping does what it does. -/
theorem Solo.of_through {mapping : Nat} {p : Access α}
    (hrun : (through mapping p).Solo h deeds result h') : (through mapping p).run h = (result, h') := by
  induction p generalizing h deeds with
  | done a =>
    cases hrun
    rfl
  | fault f =>
    cases hrun
    rfl
  | load field next ih =>
    obtain ⟨outcome, h₁, after, htries, hrest, -⟩ := hrun.of_call
    rw [through, run, Host.perform_eq fun _ => rfl, htries.eq (Or.inr fun _ => rfl)]
    exact ih _ hrest
  | fetch offset count next ih =>
    obtain ⟨outcome, h₁, after, htries, hrest, -⟩ := hrun.of_call
    rw [through, run, Host.perform_eq fun _ => rfl, htries.eq (Or.inr fun _ => rfl)]
    exact ih _ hrest
  | store field value next ih =>
    obtain ⟨outcome, h₁, after, htries, hrest, -⟩ := hrun.of_call
    rw [through, run, Host.perform_eq fun _ => rfl, htries.eq (Or.inr fun _ => rfl)]
    exact ih _ hrest
  | put offset bytes next ih =>
    obtain ⟨outcome, h₁, after, htries, hrest, -⟩ := hrun.of_call
    rw [through, run, Host.perform_eq fun _ => rfl, htries.eq (Or.inr fun _ => rfl)]
    exact ih _ hrest

end Script

namespace Host

variable {h₀ h h' : Host} {hands : Hands} {deed : Deed}

theorem Sound.lt_of_serves (hs : h.Sound) (hf : h.disk.Formed) {file : Nat} (hserves : h.Serves file) :
    file < h.disk.files.size := by
  rcases hserves with hnamed | hopened | ⟨mapping, hin, rfl⟩
  · obtain ⟨_, _, _, _, node, -, -, hkind⟩ := Disk.mem_named.mp hnamed
    exact hf.file_lt hkind
  · exact hs.opened_lt file hopened
  · exact hs.mapped_lt mapping (lt_of_inUse hin)

/-- Files that a process can come across keep different numbers. -/
theorem Change.distinct (hc : Change h deed h') (hd : h.Distinct) (hs : h.Sound)
    (hf : h.disk.Formed) (hp : h.Proper deed.operation) : h'.Distinct := by
  obtain ⟨hextends, -⟩ := hc.extends_ hf
  have hold : ∀ {f}, h.Serves f → h'.disk.identity f = h.disk.identity f := fun hserves =>
    hextends.identity_eq _ (hs.lt_of_serves hf hserves)
  -- A file that has just been made has a number that was free.
  have hnew : ∀ {f g}, h.Serves f → Makes h h' deed g → h'.disk.identity f ≠ h'.disk.identity g := by
    rintro f g hserves ⟨-, -, hidentity⟩ heq
    rw [hold hserves, hidentity] at heq
    exact h.numbering.2 h.used (heq ▸ hserves.identity_mem_used)
  intro f g hserves hserves' hidentity
  rcases hc.serves hp hserves with hf' | hf'
  · rcases hc.serves hp hserves' with hg' | hg'
    · rw [hold hf', hold hg'] at hidentity
      exact hd f g hf' hg' hidentity
    · exact absurd hidentity (hnew hf' hg')
  · rcases hc.serves hp hserves' with hg' | hg'
    · exact absurd hidentity.symm (hnew hg' hf')
    · exact hf'.2.1.trans hg'.2.1.symm

/-- The bookkeeping of a process is right. -/
structure Settled (h : Host) : Prop where
  sound : h.Sound
  distinct : h.Distinct
  formed : h.disk.Formed

theorem settled_default : Settled {} where
  sound := sound_default
  distinct f g hserves := by
    have hnameless : ({} : Host).disk.named = [] := by decide
    rcases hserves with hnamed | hopened | ⟨mapping, hin, -⟩
    · rw [hnameless] at hnamed
      cases hnamed
    · cases hopened
    · cases hin
  formed := Disk.formed_fresh

/-- The process has open and mapped what it had, and what is in the thread's hands. -/
structure Custody (h₀ : Host) (hands : Hands) (h : Host) : Prop where
  settled : h.Settled
  held : hands.Held h
  opened (file : Nat) :
    h.opened.count file = h₀.opened.count file + if hands.file = some file then 1 else 0
  users (mapping : Nat) :
    h.users mapping = h₀.users mapping + if hands.mapping = some mapping then 1 else 0
  fileOf (mapping : Nat) (hlt : mapping < h₀.mappings.size) :
    h.fileOf mapping = h₀.fileOf mapping ∧ mapping < h.mappings.size

theorem Settled.custody (hs : h.Settled) : Custody h {} h :=
  ⟨hs, ⟨nofun, nofun, nofun, nofun⟩, fun _ => rfl, fun _ => rfl, fun _ hlt => ⟨rfl, hlt⟩⟩

/-- An operation that the thread may do leaves with the process what the thread has. -/
theorem Custody.tries (hc : Custody h₀ hands h) {operation : Operation}
    {outcome : operation.Outcome} (ht : h.Tries operation outcome h')
    (hallows : hands.Allows operation) : Custody h₀ (hands.after ⟨operation, outcome⟩) h' := by
  obtain ⟨⟨hs, hd, hf⟩, hheld, hopened, husers, hfiles⟩ := hc
  have hopens : ∀ {file}, hands.file = some file → 0 < h.opened.count file := fun hfile => by
    rw [hopened, if_pos hfile]
    omega
  have huses : ∀ {mapping}, hands.mapping = some mapping → 0 < h.users mapping := fun hmapping => by
    rw [husers, if_pos hmapping]
    omega
  have hproper : h.Proper operation := by
    cases operation with
    | map file length => exact List.count_pos_iff.mp (hopens hallows.1)
    | _ => exact trivial
  have hchange := ht.change hf
  have hformed := (hchange.extends_ hf).2
  refine ⟨⟨ht.sound hs hproper, hchange.distinct hd hs hf hproper, hformed⟩,
    hchange.held hs hd hproper hf hallows hheld, fun file => ?_, fun mapping => ?_,
    fun mapping hlt => ?_⟩
  · have hcount := hchange.count_opened (f := file) hallows hopens
    have hbefore := hopened file
    omega
  · have hcount := hchange.users_eq (m := mapping) hallows huses
    have hbefore := husers mapping
    omega
  · obtain ⟨hbefore, hlt⟩ := hfiles mapping hlt
    obtain ⟨hafter, hlt⟩ := hchange.fileOf_eq hlt
    exact ⟨hafter.trans hbefore, hlt⟩

end Host

/-- A script that keeps to what its thread may do leaves with the process what the thread has. -/
theorem Script.Solo.custody {α : Type} {p : Script α} {fits : Hands → α → Prop} {h₀ h h' : Host}
    {deeds : List Deed} {result : Except Fault α} {a : α} (hrun : p.Solo h deeds result h')
    (hresult : result = .ok a) : ∀ {hands : Hands}, p.Orderly fits hands → h₀.Custody hands h →
      ∃ hands', fits hands' a ∧ h₀.Custody hands' h' := by
  induction hrun with
  | done =>
    intro hands hp hc
    cases hresult
    exact ⟨hands, hp, hc⟩
  | fault => cases hresult
  | perform htries _ ih => exact fun hp hc => ih hresult (hp.2 _ trivial) (hc.tries htries hp.1)

end MappedQueue
