import Mathlib.Data.List.Induction
import MappedQueue.Proofs.Runs

/-!
# Who is registered

From what could be seen of a run it follows who is registered: the identity that registered
last, unless it withdrew or its notification was delivered since. The region agrees with it
in every state, so every delivery has a registration that is in force.
-/

namespace MappedQueue

variable {s : Sizing} {q : Shared} {S S' : System} {a b : Ideal} {history shown : List Happening}
  {owner : Nat} {d : Delivery}

namespace Happening

/-- Who is registered after something was seen, and for what. -/
def registration (registered : Option Delivery) : Happening → Option Delivery
  | .delivered _ _ _ => none
  | .answered _ identity (.notify (some event)) (.ok .notified) _ => some ⟨identity, event⟩
  | .answered _ identity (.notify none) (.ok .notified) _ =>
    registered.filter (·.owner ≠ identity)
  | _ => registered

/-- The registration of an identity for an event. -/
def Registers (d : Delivery) : Happening → Prop
  | .answered _ identity (.notify (some event)) (.ok .notified) _ => d = ⟨identity, event⟩
  | _ => False

/-- What ends a registration of `owner`: a delivery, another registration, or the
withdrawal by the same identity, as closing and giving up a handle make it as well. -/
def Ends (owner : Nat) : Happening → Prop
  | .delivered _ _ _ => True
  | .answered _ _ (.notify (some _)) (.ok .notified) _ => True
  | .answered _ identity (.notify none) (.ok .notified) _ => identity = owner
  | _ => False

/-- What a happening would be if the notifier had succeeded. -/
def smooth : Happening → Happening
  | .delivered thread delivery _ => .delivered thread delivery (.ok ())
  | other => other

end Happening

/-- Who is registered after a history, and for what. -/
def standing (history : List Happening) : Option Delivery :=
  history.foldl Happening.registration none

/-- The registration that was made at position `i` of a history is in force up to position
`k`: it is for `d`, and nothing between the two has ended it. -/
def InForce (history : List Happening) (i k : Nat) (d : Delivery) : Prop :=
  i < k ∧ (∃ x, history[i]? = some x ∧ x.Registers d) ∧
    ∀ j x, i < j → j < k → history[j]? = some x → ¬ x.Ends d.owner

theorem registration_of_plain {thread identity : Nat} {request : Request} {answer : Answer}
    {buffer : ByteArray} (hp : Plain answer) (registered : Option Delivery) :
    (Happening.answered thread identity request answer buffer).registration registered =
      registered := by
  unfold Happening.registration
  split
  case h_2 h => cases h; exact hp.elim
  case h_3 h => cases h; exact hp.elim
  all_goals first | rfl | contradiction

/-- What a turn shows tells who is registered after it. -/
theorem Turn.Does.registered {h : Handle} {c : Call} {t : Turn} (hd : t.Does h c a b)
    (thread : Nat) :
    (t.news thread h c.request).foldl Happening.registration a.registered = b.registered := by
  unfold Turn.news
  cases hd with
  | send hrequest hroom hverdict hmessages hdelivery =>
    rw [hrequest, hverdict]
    rcases hdelivery with ⟨hnone, hsame⟩ | ⟨-, hdue, hended⟩
    · rw [hnone, hsame]
      rfl
    · rw [← hdue, hended]
      cases t.delivery <;> rfl
  | receive hrequest hhead hverdict hbuffer hmessages hdelivery hregistered =>
    rw [hrequest, hverdict, hdelivery, hregistered]
    rfl
  | register hrequest hverdict hdelivery hmessages hregistered =>
    rw [hrequest, hverdict, hdelivery, hregistered]
    rfl
  | withdraw hrequest hverdict hdelivery hmessages hregistered =>
    rw [hrequest, hverdict, hdelivery, hregistered]
    rfl
  | decline hverdict hplain hdelivery hmessages hregistered =>
    rw [hverdict, hdelivery, hregistered]
    exact registration_of_plain hplain _
  | wait hverdict hbuffer hdelivery hmessages hregistered =>
    rw [hverdict, hdelivery, hregistered]
    rfl

theorem Effect.registered (hcapacity : 0 < s.capacity) (he : Effect s a shown b) :
    shown.foldl Happening.registration a.registered = b.registered := by
  cases he with
  | silent => rfl
  | @refused thread identity request error buffer b hbusy hmessages hregistered =>
    have hplain : Plain (.error error) := trivial
    exact (registration_of_plain hplain _).trans hregistered.symm
  | turn hs hh hturn =>
    subst hs
    exact (Ideal.turn_does hcapacity hturn).registered _

/-- A delivery is made by a send that finds the queue empty and no receiver waiting, and the
message of the send is then the only one. -/
theorem Turn.Does.delivered {h : Handle} {c : Call} {t : Turn} (hd : t.Does h c a b)
    {dispatch : Dispatch} (hdelivery : t.delivery = some dispatch) (thread : Nat) :
    a.Quiet ∧ a.registered = some dispatch.toDelivery ∧ ∃ bytes priority deadline buffer,
      t.news thread h c.request = [.delivered thread dispatch.toDelivery dispatch.report,
        .answered thread h.identity (.send bytes priority deadline) (.ok .sent) buffer] ∧
      b.messages = [⟨bytes, priority⟩] := by
  cases hd with
  | @send bytes priority deadline hrequest hroom hverdict hmessages hdue =>
    rcases hdue with ⟨hnone, -⟩ | ⟨hquiet, hdue, -⟩
    · rw [hnone] at hdelivery
      cases hdelivery
    · rw [hdelivery] at hdue
      refine ⟨hquiet, hdue.symm, bytes, priority, deadline, t.buffer, ?_, ?_⟩
      · rw [Turn.news, hdelivery, hverdict, hrequest]
        rfl
      · rw [hmessages, hquiet.1]
        rfl
  | receive hrequest hhead hverdict hbuffer hmessages hnone =>
    rw [hnone] at hdelivery
    cases hdelivery
  | register hrequest hverdict hnone => rw [hnone] at hdelivery; cases hdelivery
  | withdraw hrequest hverdict hnone => rw [hnone] at hdelivery; cases hdelivery
  | decline hverdict hplain hnone => rw [hnone] at hdelivery; cases hdelivery
  | wait hverdict hbuffer hnone => rw [hnone] at hdelivery; cases hdelivery

/-- What a turn shows as delivered it has handed to the notifier. -/
theorem Turn.delivered_mem_news {h : Handle} {request : Request} {t : Turn} {thread actor : Nat}
    {report : Except SystemError Unit}
    (hmem : .delivered thread d report ∈ t.news actor h request) :
    ∃ dispatch, t.delivery = some dispatch ∧ actor = thread ∧ dispatch.toDelivery = d ∧
      dispatch.report = report := by
  unfold Turn.news at hmem
  rcases List.mem_append.mp hmem with hdelivered | hanswered
  · cases hd : t.delivery with
    | none =>
      rw [hd] at hdelivered
      cases hdelivered
    | some dispatch =>
      rw [hd] at hdelivered
      cases List.mem_singleton.mp hdelivered
      exact ⟨dispatch, rfl, rfl, rfl, rfl⟩
  · cases hv : t.verdict <;> simp [hv] at hanswered

theorem Effect.delivered (hcapacity : 0 < s.capacity) (he : Effect s a shown b) {thread : Nat}
    {report : Except SystemError Unit} (hmem : .delivered thread d report ∈ shown) :
    a.Quiet ∧ a.registered = some d ∧ ∃ identity bytes priority deadline buffer,
      shown = [.delivered thread d report,
        .answered thread identity (.send bytes priority deadline) (.ok .sent) buffer] ∧
      b.messages = [⟨bytes, priority⟩] := by
  cases he with
  | silent => cases hmem
  | refused thread identity request buffer hbusy => simp at hmem
  | @turn thread' h herald c t _ hs hh hturn =>
    subst hs
    obtain ⟨dispatch, hdelivery, rfl, rfl, rfl⟩ := Turn.delivered_mem_news hmem
    obtain ⟨hquiet, hregistered, bytes, priority, deadline, buffer, hnews, hmessages⟩ :=
      (Ideal.turn_does hcapacity hturn).delivered hdelivery thread'
    exact ⟨hquiet, hregistered, h.identity, bytes, priority, deadline, buffer, hnews, hmessages⟩

theorem standing_concat (history : List Happening) (x : Happening) :
    standing (history ++ [x]) = x.registration (standing history) := by
  rw [standing, List.foldl_append]
  rfl

/-- Whoever is registered after something was seen has registered by it, or was registered
before and it did not end the registration. -/
theorem registration_eq_some {x : Happening} {registered : Option Delivery}
    (h : x.registration registered = some d) :
    x.Registers d ∨ (registered = some d ∧ ¬ x.Ends d.owner) := by
  unfold Happening.registration at h
  split at h
  case h_1 => cases h
  case h_2 => exact Or.inl (Option.some.inj h).symm
  case h_3 thread identity buffer =>
    obtain ⟨hregistered, howner⟩ := Option.filter_eq_some_iff.mp h
    exact Or.inr ⟨hregistered, fun hends => of_decide_eq_true howner hends.symm⟩
  case h_4 hdelivered hregisters hwithdraws =>
    refine Or.inr ⟨h, fun hends => ?_⟩
    unfold Happening.Ends at hends
    split at hends
    · exact hdelivered _ _ _ rfl
    · exact hregisters _ _ _ _ rfl
    · exact hwithdraws _ _ _ rfl
    · exact hends

/-- Whoever is registered after a history has a registration in force. -/
theorem exists_inForce (history : List Happening) : ∀ {d : Delivery}, standing history = some d →
    ∃ i, InForce history i history.length d := by
  induction history using List.reverseRecOn with
  | nil => intro d h; cases h
  | append_singleton history x ih =>
    intro d h
    rw [standing_concat] at h
    have hlast : (history ++ [x])[history.length]? = some x := List.getElem?_concat_length
    rw [List.length_append, List.length_singleton]
    -- Either the last happening registers, or the registration before it goes on.
    rcases registration_eq_some h with hregisters | ⟨hbefore, hends⟩
    · exact ⟨history.length, Nat.lt_succ_self _, ⟨x, hlast, hregisters⟩,
        fun j y hij hjk => by omega⟩
    · obtain ⟨i, hi, ⟨y, hy, hregisters⟩, hbetween⟩ := ih hbefore
      refine ⟨i, Nat.lt_succ_of_lt hi, ⟨y, ?_, hregisters⟩, fun j z hij hjk hz => ?_⟩
      · rw [List.getElem?_append_left hi]
        exact hy
      · rcases Nat.lt_succ_iff_lt_or_eq.mp hjk with hj | rfl
        · rw [List.getElem?_append_left hj] at hz
          exact hbetween j z hij hj hz
        · rw [hlast] at hz
          cases hz
          exact hends

/-- A registration replaces whatever was registered before. -/
theorem Happening.Registers.ends {x : Happening} (hx : x.Registers d) (owner : Nat) :
    x.Ends owner := by
  unfold Happening.Registers at hx
  split at hx
  · trivial
  · exact hx.elim

namespace InForce

variable {i i' k k' : Nat} {d' : Delivery}

theorem append (h : InForce history i k d) (hk : k ≤ history.length) (more : List Happening) :
    InForce (history ++ more) i k d := by
  obtain ⟨hik, ⟨x, hx, hregisters⟩, hbetween⟩ := h
  refine ⟨hik, ⟨x, ?_, hregisters⟩, fun j y hij hjk hy => hbetween j y hij hjk ?_⟩
  · rwa [List.getElem?_append_left (by omega)]
  · rwa [List.getElem?_append_left (by omega)] at hy

/-- Of two registrations for the same, the earlier one is no longer in force. -/
theorem unique (h : InForce history i k d) (h' : InForce history i' k d) : i = i' := by
  have hnot : ∀ {i i' : Nat}, InForce history i k d → InForce history i' k d → ¬ i < i' := by
    intro i i' h h' hlt
    obtain ⟨x, hx, hregisters⟩ := h'.2.1
    exact h.2.2 i' x hlt h'.1 hx (hregisters.ends d.owner)
  exact Nat.le_antisymm (Nat.le_of_not_lt (hnot h' h)) (Nat.le_of_not_lt (hnot h h'))

/-- A registration is in force at one delivery at most. -/
theorem once {thread thread' : Nat} {report report' : Except SystemError Unit}
    (h : InForce history i k d) (h' : InForce history i k' d')
    (hk : history[k]? = some (.delivered thread d report))
    (hk' : history[k']? = some (.delivered thread' d' report')) : k = k' := by
  have hlt : ¬ k < k' := fun hlt => h'.2.2 k _ h.1 hlt hk trivial
  have hlt' : ¬ k' < k := fun hlt => h.2.2 k' _ h'.1 hlt hk' trivial
  omega

end InForce

/-- The region knows who is registered, and every delivery has its registration. -/
theorem Effect.inForce (hcapacity : 0 < s.capacity) (he : Effect s a shown b)
    (hregistered : a.registered = standing history)
    (hdelivered : ∀ k thread d report, history[k]? = some (.delivered thread d report) →
      ∃ i, InForce history i k d) (k thread : Nat) (d : Delivery) (report : Except SystemError Unit)
    (hk : (history ++ shown)[k]? = some (.delivered thread d report)) :
    ∃ i, InForce (history ++ shown) i k d := by
  by_cases hlt : k < history.length
  · rw [List.getElem?_append_left hlt] at hk
    obtain ⟨i, hi⟩ := hdelivered k thread d report hk
    exact ⟨i, hi.append (Nat.le_of_lt hlt) shown⟩
  · rw [List.getElem?_append_right (Nat.le_of_not_lt hlt)] at hk
    obtain ⟨-, hheld, identity, bytes, priority, deadline, buffer, hshown, -⟩ :=
      he.delivered hcapacity (List.mem_of_getElem? hk)
    -- What follows the delivery is the answer of the send.
    have hlast : k = history.length := by
      rw [hshown] at hk
      rcases hj : k - history.length with _ | _ | j <;> rw [hj] at hk
      · omega
      · cases hk
      · cases hk
    obtain ⟨i, hi⟩ := exists_inForce history (hregistered.symm.trans hheld)
    rw [hlast]
    exact ⟨i, hi.append (Nat.le_refl _) shown⟩

/-- In every state of a run the region agrees with the history about who is registered, and
each delivery of the history has its registration. -/
theorem System.Run.registered (hm : Made s q) (hr : System.Run (System.idle q) history S) :
    ∃ a, System.Inv s S a ∧ a.registered = standing history ∧
      ∀ k thread d report, history[k]? = some (.delivered thread d report) →
        ∃ i, InForce history i k d := by
  obtain ⟨hs, hfresh⟩ := hm.fresh
  refine hr.effects (P := fun history a => a.registered = standing history ∧
    ∀ k thread d report, history[k]? = some (.delivered thread d report) →
      ∃ i, InForce history i k d) (System.Inv.idle hs hfresh) ⟨rfl, nofun⟩ ?_
  rintro history shown a b ⟨hregistered, hdelivered⟩ he
  refine ⟨?_, he.inForce hs.1.1 hregistered hdelivered⟩
  rw [standing, List.foldl_append, ← he.registered hs.1.1, hregistered]
  rfl

end MappedQueue
