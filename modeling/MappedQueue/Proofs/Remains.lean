import MappedQueue.Proofs.Attaching
import MappedQueue.Proofs.Rounds
import MappedQueue.Proofs.Solo
import MappedQueue.Proofs.Spared

/-!
# What an opening leaves behind

Whoever opens a queue while nobody else touches the disk comes to an end within a few
rounds, whatever there is on the disk and whatever the system refuses. If he fails, every
file is as it was and no file is there that was not, though directories may have been made.
If he attaches, no file has changed, and his sizing is the one that the file states. If he
creates, there was nothing of that name, not even a link to nowhere, and the file is a queue
without messages in the sizing he asked for.
-/

namespace MappedQueue

variable {d : Disk} {h₀ h h' : Host} {hands : Hands} {path : String} {s : Sizing} {mode file : Nat}
  {store : Store} {deeds : List Deed}

namespace Host.Tries

theorem openFile (ht : h.Tries (.openFile path) (.ok file) h') :
    h.disk.Opens path file ∧ h'.disk = h.disk := by
  have hdone := ht.carryOut_eq fun _ => nofun
  rcases h.carryOut_openFile_cases path with ⟨p, serial, hpath, hopen, hfound⟩ | ⟨error, hfound⟩
  · cases hfound.symm.trans hdone
    exact ⟨⟨p, hpath, hopen⟩, rfl⟩
  · cases hfound.symm.trans hdone

/-- A file that is made has no bytes, and the path leads to it. -/
theorem createFile (ht : h.Tries (.createFile path mode) (.ok file) h') (hs : h.Sound) :
    h'.Unmapped file ∧ h'.disk.shared file = { region := Region.zeros 0 } ∧
      ∃ p, Path.ofString path = .ok p ∧ Disk.Drafts p file h.disk h'.disk := by
  obtain ⟨refused, hperform⟩ := ht.exists_perform
  obtain ⟨hunmapped, hshared⟩ := createFile_ok (h := { h with refused })
    ⟨hs.opened_lt, hs.mapped_lt, hs.known⟩ hperform
  refine ⟨⟨hunmapped.lt, hunmapped.unused⟩, hshared, ?_⟩
  have hdone := ht.carryOut_eq fun _ => nofun
  rcases h.carryOut_createFile_cases path mode with ⟨p, disk, hpath, hcreate, hmade⟩ | ⟨error, hmade⟩
  · cases hmade.symm.trans hdone
    exact ⟨p, hpath, Disk.drafts_createFile hcreate⟩
  · cases hmade.symm.trans hdone

theorem disk_eq_of_error {error : SystemError}
    (ht : h.Tries (.createFile path mode) (.error error) h') : h'.disk = h.disk := by
  rcases ht.cases with ⟨_, -, rfl⟩ | hdone
  · rfl
  rcases h.carryOut_createFile_cases path mode with ⟨p, disk, -, -, hmade⟩ | ⟨error, hmade⟩
  · cases hmade.symm.trans hdone
  · cases hmade.symm.trans hdone
    rfl

theorem setFileLength {length : Nat} (ht : h.Tries (.setFileLength file length) (.ok ()) h')
    (hu : h.Unmapped file) : h'.Unmapped file ∧ h'.disk = h.disk.setLength file length ∧
      h'.disk.shared file =
        { h.disk.shared file with region := (h.disk.shared file).region.resize length } := by
  obtain ⟨refused, hperform⟩ := ht.exists_perform
  obtain ⟨hunmapped, hshared⟩ := setFileLength_ok (h := { h with refused })
    ⟨hu.lt, hu.unused⟩ hperform
  refine ⟨⟨hunmapped.lt, hunmapped.unused⟩, ?_, hshared⟩
  cases ht.carryOut_eq fun _ => nofun
  rfl

theorem looks {operation : Operation} {outcome : operation.Outcome}
    (ht : h.Tries operation outcome h') (ho : operation.Looks) : h'.disk = h.disk := by
  obtain ⟨refused, hperform⟩ := ht.exists_perform
  have hdisk := disk_perform ho { h with refused }
  rw [hperform] at hdisk
  exact hdisk

/-- The name of a new file is removed. -/
theorem removeFile {p : Path} {outcome : Except SystemError Unit}
    (ht : h.Tries (.removeFile path) outcome h') (hpath : Path.ofString path = .ok p)
    (hd : Disk.Drafts p file d h.disk) (hf : d.Formed) (hf' : h.disk.Formed) :
    d.Spares h'.disk := by
  obtain ⟨d'', hunlink, hspares⟩ := hd.unlink hf hf'
  have hdone := ht.eq (Or.inl ⟨path, rfl⟩)
  simp only [carryOut, hpath, bind, Except.bind, hunlink] at hdone
  cases hdone
  exact hspares

theorem makeDirectories {outcome : Except SystemError Unit}
    (ht : h.Tries (.makeDirectories path) outcome h') (hf : h.disk.Formed) :
    h.disk.Spares h'.disk := by
  rcases ht.cases with ⟨error, -, rfl⟩ | hdone
  · exact .refl hf
  simp only [carryOut] at hdone
  split at hdone
  · cases hdone
    exact Disk.spares_makeAll hf ..
  · cases hdone
    exact .refl hf

end Host.Tries

/-- What a thread has got by attaching: the file of the path, as a queue of the sizing that the
file states. -/
structure Host.Attached (h : Host) (path : String) (store : Store) : Prop where
  opens : h.disk.Opens path (h.fileOf store.mapping)
  isQueue : (h.shared store.mapping).region.IsQueue
  sizing_eq : store.sizing = (h.shared store.mapping).region.sizing

theorem Region.verdict_eq_ok {r : Region} (h : r.verdict = .ok s) : r.IsQueue ∧ s = r.sizing := by
  unfold verdict at h
  split at h
  · cases h
  · split at h
    · rename_i hqueue
      cases h
      exact ⟨hqueue, rfl⟩
    · cases h

namespace Store

theorem disk_solo_attach {result : Except Fault (Except Error Store)}
    (hrun : (attach path).Solo h deeds result h') : h'.disk = h.disk := by
  have hlooks := looking_attach path
  generalize attach path = p at hrun hlooks
  induction hrun with
  | done | fault => rfl
  | perform htries _ ih => exact (ih (hlooks.2 _ trivial)).trans (htries.looks hlooks.1)

/-- What a mapped file is told to be decides whether there is a store. -/
theorem solo_recognise {mapping : Nat} {result : Except Fault (Except Error Store)}
    (hlt : h.fileOf mapping < h.disk.files.size) (hopens : h.disk.Opens path (h.fileOf mapping))
    (hlong : Layout.headerSize ≤ (h.shared mapping).region.size)
    (hrun : Script.Solo (do
      match ← Script.through mapping (preamble (h.shared mapping).region.size) with
      | .ok sizing => return .ok ⟨mapping, sizing⟩
      | .error error =>
        Script.call (.unmap mapping)
        return .error error) h deeds result h') :
    ∃ answer, result = .ok answer ∧ ∀ store, answer = .ok store → h'.Attached path store := by
  have hread := run_through_preamble hlt hlong
  rcases hrun.of_bind with ⟨f, hfault, -⟩ | ⟨before, after, verdict, h₁, hthrough, hrun, -⟩
  · cases hread.symm.trans hfault.of_through
  · have hsame := hread.symm.trans hthrough.of_through
    simp only [Prod.mk.injEq, Except.ok.injEq] at hsame
    obtain ⟨hverdict, rfl⟩ := hsame
    cases verdict with
    | ok sizing =>
      cases hrun
      refine ⟨_, rfl, fun store hstore => ?_⟩
      cases hstore
      obtain ⟨hqueue, hsizing⟩ := Region.verdict_eq_ok hverdict
      exact ⟨hopens, hqueue, hsizing⟩
    | error error =>
      obtain ⟨_, h₂, _, -, hrun, -⟩ := hrun.of_call
      cases hrun
      exact ⟨_, rfl, nofun⟩

/-- Attaching comes to an answer, and to a store only if the path leads to a queue file. -/
theorem solo_attach {result : Except Fault (Except Error Store)} (hc : h₀.Custody hands h)
    (he : hands.Empty) (hrun : (attach path).Solo h deeds result h') :
    ∃ answer, result = .ok answer ∧ ∀ store, answer = .ok store → h'.Attached path store := by
  obtain ⟨opened, h₁, rest₁, hopen, hrun, -⟩ := hrun.of_call
  have hc₁ := hc.tries hopen he
  cases opened with
  | error error =>
    cases hrun
    exact ⟨_, rfl, nofun⟩
  | ok file =>
  obtain ⟨hopens, hdisk₁⟩ := hopen.openFile
  obtain ⟨length, h₂, rest₂, hlength, hrun, -⟩ := hrun.of_call
  have hmeasured := hlength.eq (Or.inr fun _ => rfl)
  cases hmeasured
  split at hrun
  · obtain ⟨_, h₃, rest₃, -, hrun, -⟩ := hrun.of_call
    cases hrun
    exact ⟨_, rfl, nofun⟩
  · rename_i hlong
    obtain ⟨mapped, h₃, rest₃, hmap, hrun, -⟩ := hrun.of_call
    have hc₃ := hc₁.tries hmap ⟨rfl, he.2⟩
    have hdisk₃ := hmap.looks trivial
    obtain ⟨closed, h₄, rest₄, hclose, hrun, -⟩ := hrun.of_call
    have hdisk₄ := hclose.looks trivial
    cases mapped with
    | error error =>
      cases hrun
      exact ⟨_, rfl, nofun⟩
    | ok mapping =>
    have hc₄ := hc₃.tries hclose rfl
    have hfile : h₄.fileOf mapping = file := Option.some.inj (hc₄.held.mapping_eq mapping rfl).symm
    have hlt : h₄.fileOf mapping < h₄.disk.files.size := by
      rw [hfile]
      exact hc₄.held.found_lt file rfl
    have hshared : h₄.shared mapping = h₁.disk.shared file := by
      rw [Host.shared, hfile, hdisk₄, hdisk₃]
    rw [← hshared] at hlong hrun
    refine solo_recognise hlt ?_ (Nat.le_of_not_lt hlong) hrun
    rw [hfile, hdisk₄, hdisk₃, hdisk₁]
    exact hopens

end Store

namespace Opening

/-- What goes on after an attempt to attach goes on from what the attempt has come to. -/
theorem solo_attempt {β : Type} {k : Except Error Store → Script β} {result : Except Fault β}
    (hc : h₀.Custody hands h) (he : hands.Empty)
    (hrun : (Store.attach path >>= k).Solo h deeds result h') :
    ∃ answer h₁ rest hands₁, (k answer).Solo h₁ rest result h' ∧ h₁.disk = h.disk ∧
      Hands.Fits hands₁ answer ∧ h₀.Custody hands₁ h₁ ∧
      ∀ store, answer = .ok store → h₁.Attached path store := by
  rcases hrun.of_bind with ⟨f, hfault, -⟩ | ⟨before, after, first, h₁, hfirst, hrun, -⟩
  · obtain ⟨answer, heq, -⟩ := Store.solo_attach hc he hfault
    cases heq
  · obtain ⟨answer, heq, hattached⟩ := Store.solo_attach hc he hfirst
    cases heq
    obtain ⟨hands₁, hfits, hc₁⟩ := hfirst.custody rfl (Store.orderly_attach path he) hc
    exact ⟨_, h₁, after, hands₁, hrun, Store.disk_solo_attach hfirst, hfits, hc₁, hattached⟩

theorem solo_attach (retries : Nat) : ∀ {hands : Hands} {h : Host} {deeds : List Deed}
    {result : Except Fault (Except Error Store)}, h₀.Custody hands h → hands.Empty →
      (attach path retries).Solo h deeds result h' →
        ∃ answer, result = .ok answer ∧ h'.disk = h.disk ∧
          ∀ store, answer = .ok store → h'.Attached path store := by
  -- The last attempt gives the answer, unless it has come too early.
  induction retries with
  | zero =>
    intro hands h deeds result hc he hrun
    obtain ⟨answer, h₁, rest, hands₁, hrun, hdisk, -, -, hattached⟩ := solo_attempt hc he hrun
    split at hrun
    · cases hrun
      exact ⟨_, rfl, hdisk, nofun⟩
    · cases hrun
      exact ⟨_, rfl, hdisk, hattached⟩
  | succ retries ih =>
    intro hands h deeds result hc he hrun
    obtain ⟨answer, h₁, rest, hands₁, hrun, hdisk, hfits, hc₁, hattached⟩ :=
      solo_attempt hc he hrun
    split at hrun
    · obtain ⟨_, h₂, rest, hpause, hrun, -⟩ := hrun.of_call
      have hc₂ := hc₁.tries hpause trivial
      obtain ⟨answer, hanswer, hdisk₂, hattached⟩ := ih hc₂ hfits hrun
      refine ⟨answer, hanswer, ?_, hattached⟩
      rw [hdisk₂, hpause.looks trivial, hdisk]
    · cases hrun
      exact ⟨_, rfl, hdisk, hattached⟩

end Opening

namespace Store

/-- A new file gets its length and is mapped, or it does not. -/
theorem solo_extend {p : Path} {length : Nat} {result : Except Fault (Except SystemError Nat)}
    (hu : h.Unmapped file) (hd : Disk.Drafts p file d h.disk)
    (hrun : (extend file length).Solo h deeds result h') : ∃ answer, result = .ok answer ∧
      Disk.Drafts p file d h'.disk ∧ ∀ mapping, answer = .ok mapping →
        h'.fileOf mapping = file ∧ file < h'.disk.files.size ∧ h'.disk.shared file =
          { h.disk.shared file with region := (h.disk.shared file).region.resize length } := by
  obtain ⟨stretched, h₁, rest, hlength, hrun, -⟩ := hrun.of_call
  cases stretched with
  | error error =>
    cases hrun
    rcases hlength.cases with ⟨_, -, rfl⟩ | hdone
    · exact ⟨_, rfl, hd, nofun⟩
    · cases hdone
  | ok u =>
    obtain ⟨hu₁, hdisk₁, hshared⟩ := hlength.setFileLength hu
    have hd₁ : Disk.Drafts p file d h₁.disk := by
      rw [hdisk₁]
      exact hd.setLength length
    cases hrun with
    | @perform _ _ _ h₂ _ mapped _ _ hmap hrest =>
    have hdisk₂ : h₂.disk = h₁.disk := hmap.looks trivial
    cases hrest
    refine ⟨mapped, rfl, by rw [hdisk₂]; exact hd₁, fun mapping hmapping => ?_⟩
    subst hmapping
    obtain ⟨refused, hperform⟩ := hmap.exists_perform
    obtain ⟨hfile, -⟩ := Host.map_ok (h := { h₁ with refused }) ⟨hu₁.lt, hu₁.unused⟩ hperform
    refine ⟨hfile, ?_, ?_⟩
    · rw [hdisk₂]
      exact hu₁.lt
    · rw [hdisk₂, hshared]

end Store

/-- A store of a file that has been made by the path, beside what there was. -/
structure Host.Founded (h : Host) (d : Disk) (path : String) (store : Store) : Prop where
  drafts : ∃ p, Path.ofString path = .ok p ∧ Disk.Drafts p (h.fileOf store.mapping) d h.disk
  lt : h.fileOf store.mapping < h.disk.files.size

namespace Store

/-- What cannot be used is removed again. -/
theorem solo_create {result : Except Fault (Except Error Store)} (hs : h.Settled)
    (hrun : (create path s mode).Solo h deeds result h') : ∃ answer, result = .ok answer ∧
      match answer with
      | .ok store => s.Valid ∧ store.sizing = s ∧ h'.Founded h.disk path store ∧
          (h'.shared store.mapping).region.size = s.fileSize
      | .error _ => h.disk.Spares h'.disk := by
  rw [create] at hrun
  cases hlength : s.fileSize? with
  | none =>
    rw [hlength] at hrun
    cases hrun
    exact ⟨_, rfl, .refl hs.formed⟩
  | some length =>
    obtain ⟨hvalid, rfl⟩ := Sizing.fileSize?_eq_some.mp hlength
    simp only [hlength] at hrun
    obtain ⟨made, h₁, rest₁, hmake, hrun, -⟩ := hrun.of_call
    have hformed₁ := hmake.formed hs.formed
    cases made with
    | error error =>
      have hdisk := hmake.disk_eq_of_error
      cases hrun
      refine ⟨_, rfl, ?_⟩
      rw [hdisk]
      exact .refl hs.formed
    | ok file =>
    obtain ⟨hunmapped, hshared, p, hpath, hdrafts⟩ := hmake.createFile hs.sound
    rcases hrun.of_bind with ⟨f, hfault, -⟩ | ⟨before, after, extended, h₂, hextend, hrun, -⟩
    · obtain ⟨answer, heq, -⟩ := solo_extend hunmapped hdrafts hfault
      cases heq
    obtain ⟨answer, heq, hdrafts₂, hmapped⟩ := solo_extend hunmapped hdrafts hextend
    cases heq
    have hformed₂ := hextend.formed hformed₁
    cases extended with
    | ok mapping =>
      obtain ⟨hfile, hlt, hcut⟩ := hmapped mapping rfl
      obtain ⟨u, h₃, rest₃, hclose, hrun, -⟩ := hrun.of_call
      have hclosed := hclose.eq (Or.inr fun _ => rfl)
      cases hclosed
      cases hrun
      subst hfile
      refine ⟨_, rfl, hvalid, rfl, ⟨⟨p, hpath, hdrafts₂⟩, hlt⟩, ?_⟩
      change (h₂.disk.shared (h₂.fileOf mapping)).region.size = _
      rw [hcut]
      exact Region.size_slice ..
    | error error =>
      obtain ⟨removed, h₃, rest₃, hremove, hrun, -⟩ := hrun.of_call
      have hspares := hremove.removeFile hpath hdrafts₂ hs.formed hformed₂
      obtain ⟨u, h₄, rest₄, hclose, hrun, -⟩ := hrun.of_call
      have hdisk := hclose.looks trivial
      cases hrun
      refine ⟨_, rfl, ?_⟩
      rw [hdisk]
      exact hspares

/-- A file of the right length becomes a queue without messages, or nothing comes of it. -/
theorem solo_initialise {result : Except Fault (Except Error Unit)} (hs : store.sizing.Valid)
    (hfounded : h.Founded d path store)
    (hsize : (h.shared store.mapping).region.size = store.sizing.fileSize)
    (hrun : store.initialise.Solo h deeds result h') : ∃ answer, result = .ok answer ∧
      h'.Founded d path store ∧ (answer = .ok () → Fresh store.sizing (h'.shared store.mapping)) := by
  obtain ⟨⟨p, hpath, hdrafts⟩, hlt⟩ := hfounded
  obtain ⟨r, hlayOut, hvacant⟩ := run_layOut hs hsize
  have hfilled := Script.run_through_of_ok hlt hlayOut
  -- What the users share is what was written last.
  have hkeeps : ∀ (q : Shared), (h.withShared store.mapping q).Founded d path store := fun q =>
    ⟨⟨p, hpath, hdrafts.setShared q⟩, h.lt_withShared hlt q⟩
  rcases hrun.of_bind with ⟨f, hfault, -⟩ | ⟨before, after, u, h₁, hfill, hrun, -⟩
  · cases hfilled.symm.trans hfault.of_through
  cases hfilled.symm.trans hfill.of_through
  obtain ⟨prepared, h₂, rest, hprepare, hrun, -⟩ := hrun.of_call
  rcases hprepare.cases with ⟨error, hrefused, rfl⟩ | hdone
  · cases hrefused
    cases hrun
    exact ⟨_, rfl, hkeeps _, nofun⟩
  · rw [Host.carryOut_prepareLock_eq, Host.shared_withShared hlt, Host.withShared_withShared] at hdone
    have hfresh := hvacant.prepared.fresh
    generalize r.setSlice Layout.lockOffset (Region.zeroBytes Layout.lockSize) = r' at hdone hfresh
    cases hdone
    have hpublish : Format.publish.run r' = (.ok (), r'.write .tag Layout.validTag) := rfl
    have hlt' := h.lt_withShared hlt { region := r' }
    have hready := Script.run_through_of_ok hlt' (by
      rw [Host.shared_withShared hlt]
      exact hpublish)
    rw [Host.shared_withShared hlt, Host.withShared_withShared] at hready
    rcases hrun.of_bind with ⟨f, hfault, -⟩ | ⟨before, after, u, h₃, hpublished, hrun, -⟩
    · cases hready.symm.trans hfault.of_through
    cases hready.symm.trans hpublished.of_through
    cases hrun
    refine ⟨_, rfl, hkeeps _, fun _ => ?_⟩
    rw [Host.shared_withShared hlt]
    exact hfresh

end Store

namespace Opening

theorem solo_finish {result : Except Fault (Except Error Store)} (hs : store.sizing.Valid)
    (hf : d.Formed) (hf' : h.disk.Formed) (hfounded : h.Founded d path store)
    (hsize : (h.shared store.mapping).region.size = store.sizing.fileSize)
    (hrun : (finish path store).Solo h deeds result h') : ∃ answer, result = .ok answer ∧
      match answer with
      | .ok store' => store' = store ∧ h'.Founded d path store ∧
          Fresh store.sizing (h'.shared store.mapping)
      | .error _ => d.Spares h'.disk := by
  rcases hrun.of_bind with ⟨f, hfault, -⟩ | ⟨before, after, initialised, h₁, hinitialise, hrun, -⟩
  · obtain ⟨answer, heq, -⟩ := Store.solo_initialise hs hfounded hsize hfault
    cases heq
  obtain ⟨answer, heq, hfounded₁, hfresh⟩ := Store.solo_initialise hs hfounded hsize hinitialise
  cases heq
  have hformed₁ := hinitialise.formed hf'
  cases initialised with
  | ok u =>
    cases hrun
    exact ⟨_, rfl, rfl, hfounded₁, hfresh rfl⟩
  | error error =>
    obtain ⟨⟨p, hpath, hdrafts⟩, -⟩ := hfounded₁
    obtain ⟨u, h₂, rest₂, hunmap, hrun, -⟩ := hrun.of_call
    have hdisk := hunmap.looks trivial
    rw [← hdisk] at hdrafts hformed₁
    obtain ⟨removed, h₃, rest₃, hremove, hrun, -⟩ := hrun.of_call
    have hspares := hremove.removeFile hpath hdrafts hf hformed₁
    cases hrun
    exact ⟨_, rfl, hspares⟩

/-- What there is on a disk that somebody has opened a queue on alone, with this answer. -/
inductive Leaves (d : Disk) (path : String) (options : Options) (h : Host) :
    Except Error Store → Prop
  | failed {error : Error} (hspares : d.Spares h.disk) : Leaves d path options h (.error error)
  | attached {store : Store} (hshared : ¬ (options.create = true ∧ options.exclusive = true))
      (hspares : d.Spares h.disk) (hattached : h.Attached path store) :
      Leaves d path options h (.ok store)
  | founded {store : Store} {d₁ : Disk} (hcreate : options.create = true)
      (hvalid : options.sizing.Valid) (hsizing : store.sizing = options.sizing)
      (hspares : d.Spares d₁) (hfounded : h.Founded d₁ path store)
      (hfresh : Fresh options.sizing (h.shared store.mapping)) :
      Leaves d path options h (.ok store)

section

variable {options : Options} {again : Script (Except Error Store)}
  {result : Except Fault (Except Error Store)}

theorem solo_join (hc : h₀.Custody hands h) (he : hands.Empty) (hspares : d.Spares h.disk)
    (hshared : ¬ (options.create = true ∧ options.exclusive = true))
    (hagain : ∀ {hands : Hands} {h : Host} {deeds : List Deed}, h₀.Custody hands h → hands.Empty →
      d.Spares h.disk → again.Solo h deeds result h' →
        ∃ answer, result = .ok answer ∧ Leaves d path options h' answer)
    (hrun : (join path options again).Solo h deeds result h') :
    ∃ answer, result = .ok answer ∧ Leaves d path options h' answer := by
  rcases hrun.of_bind with ⟨f, hfault, -⟩ | ⟨before, after, first, h₁, hattach, hrun, -⟩
  · obtain ⟨answer, heq, -⟩ := solo_attach options.retries hc he hfault
    cases heq
  obtain ⟨answer, heq, hdisk, hattached⟩ := solo_attach options.retries hc he hattach
  cases heq
  rw [← hdisk] at hspares
  obtain ⟨hands₁, hfits, hc₁⟩ := hattach.custody rfl (orderly_attach path _ he) hc
  cases first with
  | ok store =>
    cases hrun
    exact ⟨_, rfl, .attached hshared hspares (hattached store rfl)⟩
  | error error =>
    dsimp only at hrun
    split at hrun
    · exact hagain hc₁ hfits hspares hrun
    · cases hrun
      exact ⟨_, rfl, .failed hspares⟩

/-- Every round begins with a disk on which nothing but directories has been made. -/
theorem solo_round (left : Nat) : ∀ {hands : Hands} {h : Host} {deeds : List Deed},
    h₀.Custody hands h → hands.Empty → d.Spares h.disk →
      (round path options left).Solo h deeds result h' →
        ∃ answer, result = .ok answer ∧ Leaves d path options h' answer := by
  induction left with
  | zero =>
    intro hands h deeds hc he hspares hrun
    cases hrun
    exact ⟨_, rfl, .failed hspares⟩
  | succ left ih =>
    intro hands h deeds hc he hspares hrun
    unfold round at hrun
    split at hrun
    case isFalse hcreate => exact solo_join hc he hspares (fun h => hcreate h.1) ih hrun
    case isTrue hcreate =>
      rcases hrun.of_bind with ⟨f, hfault, -⟩ | ⟨before, after, created, h₁, hmake, hrun, -⟩
      · obtain ⟨answer, heq, -⟩ := Store.solo_create hc.settled hfault
        cases heq
      obtain ⟨answer, heq, hmade⟩ := Store.solo_create hc.settled hmake
      cases heq
      cases created with
      | ok store =>
        obtain ⟨hvalid, hsizing, hfounded, hsize⟩ := hmade
        have hformed := hmake.formed hc.settled.formed
        obtain ⟨answer, hanswer, hfinished⟩ := solo_finish (by rw [hsizing]; exact hvalid)
          hc.settled.formed hformed hfounded (by rw [hsizing]; exact hsize) hrun
        cases answer with
        | ok store' =>
          obtain ⟨rfl, hfounded, hfresh⟩ := hfinished
          rw [hsizing] at hfresh
          exact ⟨_, hanswer, .founded hcreate hvalid hsizing hspares hfounded hfresh⟩
        | error error => exact ⟨_, hanswer, .failed (hspares.trans hfinished)⟩
      | error error =>
        obtain ⟨hands₁, hcreates, hc₁⟩ := hmake.custody rfl (Store.orderly_create path _ _ he) hc
        replace hspares := hspares.trans hmade
        dsimp only at hrun
        split at hrun
        · rename_i hexists
          have hshared : ¬ (options.create = true ∧ options.exclusive = true) := fun h => by
            simp [h.2] at hexists
          exact solo_join hc₁ hcreates.1 hspares hshared ih hrun
        · cases hrun
          exact ⟨_, rfl, .failed hspares⟩

theorem solo_run {directory name : String} (hs : h.Settled)
    (hrun : (run directory name options).Solo h deeds result h') : ∃ answer, result = .ok answer ∧
      Leaves h.disk (Name.storePath directory name) options h' answer ∧
      (Name.validate name ≠ .ok () ∨ options.create = true ∧ ¬ options.sizing.Valid →
        deeds = [] ∧ h' = h ∧ ∃ error, answer = .error error) := by
  unfold run at hrun
  split at hrun
  case h_1 error hname =>
    cases hrun
    exact ⟨_, rfl, .failed (.refl hs.formed), fun _ => ⟨rfl, rfl, error, rfl⟩⟩
  case h_2 u hname =>
    split at hrun
    case isTrue hsizing =>
      cases hrun
      exact ⟨_, rfl, .failed (.refl hs.formed), fun _ => ⟨rfl, rfl, _, rfl⟩⟩
    case isFalse hsizing =>
      have hright : ¬ (Name.validate name ≠ .ok () ∨ options.create = true ∧ ¬ options.sizing.Valid) :=
        fun hwrong => hwrong.elim (fun hnot => hnot hname) hsizing
      obtain ⟨made, h₁, rest, hmake, hrun, -⟩ := hrun.of_call
      have hspares := hmake.makeDirectories hs.formed
      cases made with
      | error error =>
        cases hrun
        exact ⟨_, rfl, .failed hspares, fun hwrong => absurd hwrong hright⟩
      | ok u =>
        have hc := hs.custody.tries hmake trivial
        obtain ⟨answer, hanswer, hleaves⟩ := solo_round rounds hc ⟨rfl, rfl⟩ hspares hrun
        exact ⟨answer, hanswer, hleaves, fun hwrong => absurd hwrong hright⟩

end

end Opening

namespace Host

/-- No file has changed, none is there that was not, and none is gone. -/
structure Untouched (h h' : Host) : Prop where
  spares : h.disk.Spares h'.disk
  serves (file : Nat) : h'.Serves file ↔ h.Serves file

/-- The store is of a file that was there, a queue of that sizing, and no file has changed. -/
structure Joins (h h' : Host) (path : String) (store : Store) : Prop where
  named : h'.fileOf store.mapping ∈ h.disk.named
  opens : h'.disk.Opens path (h'.fileOf store.mapping)
  isQueue : (h.disk.shared (h'.fileOf store.mapping)).region.IsQueue
  sizing_eq : store.sizing = (h.disk.shared (h'.fileOf store.mapping)).region.sizing
  unchanged : h'.disk.files[h'.fileOf store.mapping]? = h.disk.files[h'.fileOf store.mapping]?
  spares : h.disk.Spares h'.disk

/-- The store is of a new file, a queue without messages, where there was nothing of its name,
not even a link to nowhere. What there was is there as it was. -/
structure Founds (h h' : Host) (path : String) (s : Sizing) (store : Store) : Prop where
  nothing {p : Path} {l : Landing} (hpath : Path.ofString path = .ok p)
    (hl : h.disk.locate { follow := false } p = .ok l) : l.node = none
  found : ∃ p, Path.ofString path = .ok p ∧
    h'.disk.find p = .ok (.file (h'.fileOf store.mapping))
  new : h.disk.files.size ≤ h'.fileOf store.mapping
  sizing_eq : store.sizing = s
  fresh : Fresh s (h'.shared store.mapping)
  unchanged : ∀ file < h.disk.files.size, h'.disk.files[file]? = h.disk.files[file]?
  keeps : ∃ place, Disk.KeepsBut place h.disk h'.disk

/-- With nothing in its hands a thread leaves the process the files it had. -/
theorem Custody.untouched (hc : Custody h hands h') (he : hands.Empty) (hf : h.disk.Formed)
    (hspares : h.disk.Spares h'.disk) : h.Untouched h' := by
  have hopened : ∀ file, h'.opened.count file = h.opened.count file := fun file => by
    have hcount := hc.opened file
    rw [he.1] at hcount
    simpa using hcount
  have husers : ∀ mapping, h'.users mapping = h.users mapping := fun mapping => by
    have hcount := hc.users mapping
    rw [he.2] at hcount
    simpa using hcount
  have hmapped : ∀ mapping, (h'.inUse mapping = true ↔ h.inUse mapping = true) ∧
      (h.inUse mapping = true → h'.fileOf mapping = h.fileOf mapping) := fun mapping => by
    rw [inUse_iff, inUse_iff, husers]
    exact ⟨Iff.rfl, fun hin => (hc.fileOf mapping (lt_of_inUse (inUse_iff.mpr hin))).1⟩
  refine ⟨hspares, fun file => or_congr (hspares.mem_named_iff hf) (or_congr ?_ ?_)⟩
  · rw [← List.count_pos_iff, hopened, List.count_pos_iff]
  · constructor
    · rintro ⟨mapping, hin, rfl⟩
      replace hin := (hmapped mapping).1.mp hin
      exact ⟨mapping, hin, ((hmapped mapping).2 hin).symm⟩
    · rintro ⟨mapping, hin, rfl⟩
      exact ⟨mapping, (hmapped mapping).1.mpr hin, (hmapped mapping).2 hin⟩

theorem Attached.joins (ha : h'.Attached path store) (hs : h.Settled)
    (hs' : h'.disk.Formed) (hspares : h.disk.Spares h'.disk) : h.Joins h' path store := by
  obtain ⟨p, hpath, hopen⟩ := ha.opens
  have hnamed := (hspares.mem_named_iff hs.formed).mp
    (Disk.mem_named_of_find hs' (Disk.openFile_ok hopen).1)
  have hsame := hspares.files_eq _ (hs.sound.lt_of_serves hs.formed (Or.inl hnamed))
  have hshared : h'.shared store.mapping = h.disk.shared (h'.fileOf store.mapping) := by
    simp only [shared, Disk.shared, hsame]
  have hqueue := ha.isQueue
  have hsizing := ha.sizing_eq
  rw [hshared] at hqueue hsizing
  exact ⟨hnamed, ha.opens, hqueue, hsizing, hsame, hspares⟩

theorem Founded.founds {d₁ : Disk} (hf : h'.Founded d₁ path store) (hs : h.disk.Formed)
    (hspares : h.disk.Spares d₁) (hsizing : store.sizing = s)
    (hfresh : Fresh s (h'.shared store.mapping)) : h.Founds h' path s store := by
  obtain ⟨p, hpath, hdrafts⟩ := hf.drafts
  obtain ⟨place, hkeeps⟩ := hdrafts.keeps hspares.formed
  refine ⟨fun {p' l} hpath' hl => ?_, ⟨p, hpath, hdrafts.find hspares.formed⟩, ?_, hsizing, hfresh,
    fun file hlt => ?_, place, (hspares.keeps place).trans hkeeps⟩
  · cases hpath.symm.trans hpath'
    exact hdrafts.nothing_before hspares hs hl
  · rw [hdrafts.file_eq]
    exact hspares.files_le
  · rw [hdrafts.files_eq file (Nat.lt_of_lt_of_le hlt hspares.files_le), hspares.files_eq file hlt]

end Host

/-- Whoever opens a queue alone comes to an end after no more than 16 rounds and is never told that
it is not ready, whatever there is on the disk and whatever the system refuses. A wrong name or
sizing makes no difference to the disk. Who fails leaves every file as it was, and makes nothing
but directories. Who attaches changes no file, and his sizing is the file's. Who creates, and
above all who must, finds nothing of that name, and has a queue without messages. -/
theorem opening_alone_keeps_files {h : Host} (hs : h.Settled) (directory name : String)
    (options : Options) :
    (∃ deeds result h', (Opening.run directory name options).Solo h deeds result h') ∧
    ∀ deeds result h', (Opening.run directory name options).Solo h deeds result h' →
      deeds.countP Deed.Makes ≤ 16 ∧ deeds.countP Deed.Opens ≤ 16 * (options.retries + 1) ∧
      ∃ answer, result = .ok answer ∧ answer ≠ .error .notReady ∧
        (Name.validate name ≠ .ok () ∨ options.create = true ∧ ¬ options.sizing.Valid →
          deeds = [] ∧ h' = h ∧ ∃ error, answer = .error error) ∧
        (∀ error, answer = .error error → h.Untouched h') ∧
        ∀ store, answer = .ok store →
          (¬ (options.create = true ∧ options.exclusive = true) ∧
            h.Joins h' (Name.storePath directory name) store) ∨
          (options.create = true ∧
            h.Founds h' (Name.storePath directory name) options.sizing store) := by
  refine ⟨Script.exists_solo _ h, fun deeds result h' hrun => ?_⟩
  obtain ⟨answer, rfl, hleaves, hwrong⟩ := Opening.solo_run hs hrun
  have hformed := hrun.formed hs.formed
  obtain ⟨hands, hfits, hc⟩ := hrun.custody rfl
    (Opening.orderly_run directory name options ⟨rfl, rfl⟩) hs.custody
  have hcounts := hrun.fits (fun _ _ => trivial) rfl (Opening.takes_run directory name options {})
  rw [show effortRules.after = Effort.after from rfl, Effort.foldl_after, Nat.zero_add, Nat.zero_add]
    at hcounts
  have hopened := hrun.fits (fun _ _ => trivial) rfl (Opening.accounts_run directory name options)
  have hattempts := Nat.le_trans hcounts.2 (Nat.le_of_eq (Nat.zero_add _))
  refine ⟨hcounts.1, hattempts, answer, rfl, ?_, hwrong, ?_, ?_⟩
  · rintro rfl
    exact hopened.2.1 rfl
  · rintro error rfl
    cases hleaves with
    | failed hspares => exact hc.untouched hfits hs.formed hspares
  · rintro store rfl
    cases hleaves with
    | attached hshared hspares hattached =>
      exact Or.inl ⟨hshared, hattached.joins hs hformed hspares⟩
    | founded hcreate _ hsizing hspares hfounded hfresh =>
      exact Or.inr ⟨hcreate, hfounded.founds hs.formed hspares hsizing hfresh⟩

/-- An opening that is done at one go is done alone, and leaves the process in order. -/
theorem Opening.solo_of_run (directory name : String) (options : Options)
    {answer : Except Error Store} (hs : h.Settled) (hw : h.refused = fun _ => none)
    (hrun : (run directory name options).run h = (.ok answer, h')) :
    (∃ deeds, (run directory name options).Solo h deeds (.ok answer) h') ∧ h'.Settled ∧
      h'.refused = fun _ => none := by
  have hrefused := (run directory name options).refused_run h
  obtain ⟨deeds, hsolo⟩ := Script.solo_run (run directory name options) fun path =>
    congrFun hw (.removeFile path)
  rw [hrun] at hrefused hsolo
  obtain ⟨hands, -, hc⟩ := hsolo.custody rfl (orderly_run directory name options ⟨rfl, rfl⟩) hs.custody
  exact ⟨⟨deeds, hsolo⟩, hc.settled, hrefused.trans hw⟩

/-- Who must make the queue makes it on an empty disk, and who asks for another sizing then
attaches to it. Who must make it once more fails. -/
theorem opening_alone_keeps_files_thrice :
    let must : Options := { create := true, exclusive := true, sizing := ⟨1, 1⟩ }
    ∃ (h₁ h₂ h₃ : Host) (store : Store), ({} : Host).Founds h₁ (Name.storePath "." "/q") ⟨1, 1⟩ store ∧
      h₁.Joins h₂ (Name.storePath "." "/q") store ∧ store.sizing ≠ Sizing.standard ∧
      h₂.Untouched h₃ ∧ (Opening.run "." "/q" must).run h₂ =
        (.ok (.error (.system (.code Errno.alreadyExists))), h₃) := by
  intro must
  obtain ⟨h₁, h₂, h₃, hmake, hattach, hfail⟩ : ∃ h₁ h₂ h₃,
      (Opening.run "." "/q" must).run {} = (.ok (.ok ⟨0, ⟨1, 1⟩⟩), h₁) ∧
      (Opening.run "." "/q" { create := true }).run h₁ = (.ok (.ok ⟨0, ⟨1, 1⟩⟩), h₂) ∧
      (Opening.run "." "/q" must).run h₂ =
        (.ok (.error (.system (.code Errno.alreadyExists))), h₃) :=
    ⟨_, _, _, Prod.ext (by decide +kernel) rfl, Prod.ext (by decide +kernel) rfl,
      Prod.ext (by decide +kernel) rfl⟩
  obtain ⟨⟨_, hrun₁⟩, hs₁, hw₁⟩ := Opening.solo_of_run _ _ _ Host.settled_default rfl hmake
  obtain ⟨⟨_, hrun₂⟩, hs₂, hw₂⟩ := Opening.solo_of_run _ _ _ hs₁ hw₁ hattach
  obtain ⟨⟨_, hrun₃⟩, -, -⟩ := Opening.solo_of_run _ _ _ hs₂ hw₂ hfail
  obtain ⟨-, -, answer₁, heq₁, -, -, -, hfirst⟩ :=
    (opening_alone_keeps_files Host.settled_default _ _ _).2 _ _ _ hrun₁
  obtain ⟨-, -, answer₂, heq₂, -, -, -, hsecond⟩ := (opening_alone_keeps_files hs₁ _ _ _).2 _ _ _ hrun₂
  obtain ⟨-, -, answer₃, heq₃, -, -, hthird, -⟩ := (opening_alone_keeps_files hs₂ _ _ _).2 _ _ _ hrun₃
  cases heq₁
  cases heq₂
  cases heq₃
  obtain ⟨-, hfounds⟩ := (hfirst _ rfl).resolve_left fun h => h.1 ⟨rfl, rfl⟩
  -- The second sizing is not the one that was asked for.
  obtain ⟨-, hjoins⟩ := (hsecond _ rfl).resolve_right fun h =>
    absurd h.2.sizing_eq (by decide)
  exact ⟨h₁, h₂, h₃, _, hfounds, hjoins, by decide, hthird _ rfl, hfail⟩

end MappedQueue
