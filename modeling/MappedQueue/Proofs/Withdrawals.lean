import MappedQueue.Proofs.Calls

/-!
# Withdrawing a registration

The call that withdraws a registration looks at the tag, waits for the lock, and takes one turn.
It looks for a cancellation only after a slice has ended without the lock, and it goes on
whatever interruptions there are. Its turn ends the registration of its own identity, if that
is the one in force, and nothing else is written.
-/

namespace MappedQueue

open Layout (headerSize)

variable {h : Handle} {r r' : Region} {q q' : Shared} {c c' : Call} {around : Surroundings}
  {me pick identity : Nat} {next : Advance} {error : SystemError} {point : Point}

/-- No byte has changed but those of the owner, and the owner only if it is the identity, whose
registration has come to an end. -/
structure Region.Withdrawn (identity : Nat) (r r' : Region) : Prop where
  size_eq : r'.size = r.size
  ended : r.read .owner = identity → r'.read .owner = 0
  kept : r.read .owner ≠ identity → r' = r
  beside (i : Nat) (hi : i < Field.owner.offset ∨ Field.owner.offset + Field.owner.width ≤ i) :
    r'.byte i = r.byte i

theorem Registration.exists_withdraw (hsize : headerSize ≤ r.size) (identity : Nat) :
    ∃ r', (Registration.withdraw identity).run r = (.ok (), r') ∧ r.Withdrawn identity r' := by
  by_cases howner : r.read .owner = identity
  · refine ⟨r.write .owner 0, ?_, r.size_write .owner 0, fun _ => ?_, absurd howner, fun i hi => ?_⟩
    · rw [withdraw, Access.run_get_bind, if_pos howner, Access.run_set]
    · exact Region.read_write_self (Nat.le_trans (by decide) hsize) (by decide)
    · exact Region.byte_setWord_of_not_mem _ _ _ _ hi
  · refine ⟨r, ?_, rfl, fun h => absurd h howner, fun _ => rfl, fun _ _ => rfl⟩
    rw [withdraw, Access.run_get_bind, if_neg howner]
    rfl

/-- Where a call stands that withdraws a registration. -/
def Point.Leaving : Point → Prop
  | .arriving | .knocking | .atDoor _ | .doorCancelled _ | .doorInterrupted _ | .inside => True
  | _ => False

/-- How a call that withdraws gets from one point to the next. -/
inductive Point.Approaches : Point → Point → Prop
  | arrives : Approaches .arriving .knocking
  | knocks {seen : Nat} : Approaches .knocking (.atDoor seen)
  | enters {seen : Nat} : Approaches (.atDoor seen) .inside
  /-- There has been no cancellation. -/
  | stays {seen : Nat} : Approaches (.doorCancelled seen) (.doorInterrupted seen)
  /-- Whatever interruptions there have been, another slice begins. -/
  | returns {seen seen' : Nat} : Approaches (.doorInterrupted seen) (.atDoor seen')

theorem Point.Approaches.leaving {before : Point} (ha : before.Approaches point) :
    point.Leaving := by
  cases ha <;> trivial

namespace Call

/-- What a step of a call is that withdraws a registration. -/
inductive Withdraws (me : Nat) (h : Handle) (around : Surroundings) (q : Shared) (c : Call) :
    Advance → Prop
  /-- The call goes on, and takes the lock if that is what it has come to. -/
  | goes {point : Point} {q' : Shared} (happroaches : c.point.Approaches point)
      (hlock : q.Seized me q') (hsame : point ≠ .inside → q' = q) :
      Withdraws me h around q c
        { call := { c with point }, shared := q', nonblocking := h.nonblocking }
  | refused (hpoint : c.point = .knocking) (htag : q.tagged = false) :
      Withdraws me h around q c
        { call := { c with point := .answered (.error .badHandle) }, shared := q,
          nonblocking := h.nonblocking }
  | cancelled {seen : Nat} (hpoint : c.point = .doorCancelled seen)
      (hcancelled : around.cancelled = true) :
      Withdraws me h around q c
        { call := { c with point := .answered (.error .cancelled) }, shared := q,
          nonblocking := h.nonblocking }
  | withdrawn {region : Region} (hpoint : c.point = .inside)
      (hregion : q.region.Withdrawn h.identity region) :
      Withdraws me h around q c
        { call := { c with point := .answered (.ok .notified) },
          shared := { q with region, holder := none }, nonblocking := h.nonblocking }

/-- The turn in which the registration is withdrawn. -/
theorem exists_takeTurn_withdraw (hsize : headerSize ≤ q.region.size)
    (hrequest : c.request = .notify none) (h : Handle) (pick : Nat) (herald : Herald) :
    ∃ region, q.region.Withdrawn h.identity region ∧
      c.takeTurn h pick q (Turn.first h herald c.buffer c.request) =
        { call := { c with point := .answered (.ok .notified) },
          shared := { q with region, holder := none }, nonblocking := h.nonblocking } := by
  obtain ⟨region, hrun, hwithdrawn⟩ := Registration.exists_withdraw hsize h.identity
  refine ⟨region, hwithdrawn, ?_⟩
  have hturn : (Turn.first h herald c.buffer c.request).run q.region =
      (.ok { verdict := .finish (.ok .notified) none, buffer := c.buffer,
             nonblocking := h.nonblocking }, region) := by
    rw [hrequest, Turn.first, Access.run_bind_of_ok hrun, Access.run_pure]
  simp only [takeTurn, hturn]

theorem step_withdraws (hsize : headerSize ≤ q.region.size) (hrequest : c.request = .notify none)
    (hleaving : c.point.Leaving) (hstep : c.step me h around pick q = some next) :
    Withdraws me h around q c next := by
  have hrestarts : c.request.lockPolicy ≠ .fail := by rw [hrequest]; decide
  have harrives : c.arrive h around q = .knocking := by rw [arrive, hrequest]; rfl
  cases pace_of_step hstep with
  | goes hpoint hway =>
    rw [hpoint] at hleaving
    cases hway with
    | accepted => exact .goes (by rw [hpoint]; exact .arrives) .same fun _ => rfl
    | refused harrive => cases harrives.symm.trans harrive
    | untagged _ htag => exact .refused hpoint htag
    | tagged => exact .goes (by rw [hpoint]; exact .knocks) .same fun _ => rfl
    | doorCancelled hcancelled => exact .cancelled hpoint hcancelled
    | doorOn => exact .goes (by rw [hpoint]; exact .stays) .same fun _ => rfl
    | doorInterrupted _ hpolicy => exact absurd hpolicy hrestarts
    | doorAgain => exact .goes (by rw [hpoint]; exact .returns) .same fun _ => rfl
    | _ => exact absurd hleaving id
  | enters hpoint hfree =>
    exact .goes (by rw [hpoint]; exact .enters) (.taken hfree) fun hne => absurd rfl hne
  | returns hpoint | sleeps hpoint =>
    rw [hpoint] at hleaving
    exact absurd hleaving id
  | turns hturn =>
    obtain hpoint | hpoint | ⟨setback, hpoint⟩ := point_of_program hturn
    · obtain ⟨region, hwithdrawn, hturned⟩ :=
        exists_takeTurn_withdraw hsize hrequest h pick around.herald
      rw [program, hpoint] at hturn
      cases hturn
      rw [hturned]
      exact .withdrawn hpoint hwithdrawn
    · rw [hpoint] at hleaving
      exact absurd hleaving id
    · rw [hpoint] at hleaving
      exact absurd hleaving id

/-- A slice of such a call can end only while the lock is held. -/
theorem expire_withdraws (hleaving : c.point.Leaving) (he : c.expire me q = some (q', c')) :
    q' = q ∧ q.holder ≠ none ∧
      ∃ seen, c.point = .atDoor seen ∧ c' = { c with point := .doorCancelled seen } := by
  cases expiry_of_expire he with
  | atDoor hpoint hheld => exact ⟨rfl, hheld, _, hpoint, rfl⟩
  | asleep hpoint hmem =>
    rw [hpoint] at hleaving
    exact absurd hleaving id

/-- Such a call does not wait for a condition, but the lock can fail. -/
theorem falter_leaving (hleaving : c.point.Leaving) (hfalter : c.falter me h error q = some next) :
    (∃ seen, c.point = .atDoor seen) ∧ next =
      { call := { c with point := .answered (.error (.system error)) }, shared := q,
        nonblocking := h.nonblocking } := by
  cases failure_of_falter hfalter with
  | barred hpoint => exact ⟨⟨_, hpoint⟩, rfl⟩
  | early hpoint | late hpoint =>
    rw [hpoint] at hleaving
    exact absurd hleaving id

/-- Such a call goes on whatever its thread sees around itself, unless it asks for the lock and
somebody else has it. -/
theorem exists_step_leaving (hrequest : c.request = .notify none) (hleaving : c.point.Leaving)
    (hfree : ∀ seen, c.point = .atDoor seen → q.holder = none) :
    ∃ next, c.step me h around pick q = some next := by
  have hrestarts : c.request.lockPolicy ≠ .fail := by rw [hrequest]; decide
  unfold step
  dsimp only
  cases hpoint : c.point <;> rw [hpoint] at hleaving <;> dsimp only
  case arriving => exact ⟨_, rfl⟩
  case knocking => split <;> exact ⟨_, rfl⟩
  case atDoor seen =>
    rw [hfree seen hpoint]
    exact ⟨_, rfl⟩
  case doorCancelled seen => split <;> exact ⟨_, rfl⟩
  case doorInterrupted seen =>
    rw [if_neg fun hfails => hrestarts hfails.2]
    exact ⟨_, rfl⟩
  case inside => exact ⟨_, rfl⟩
  all_goals exact absurd hleaving id

end Call

end MappedQueue
