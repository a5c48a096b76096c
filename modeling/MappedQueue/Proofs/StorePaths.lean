import Mathlib.Data.List.Basic
import MappedQueue.Name
import MappedQueue.Path

/-!
# Where the files of queues are

The text of a path says where it leads if nothing on the way is a link: empty steps and steps
that stay count for nothing, a step up undoes the step before it, and any other step goes one
directory down.

The path of a queue takes one step from the queue directory, and this step is what comes after
the slash of the name. It goes down, into an entry of its own for each name, unless the name
is `/.` or `/..`: these two are accepted like any other, but lead to the directory itself and
to the one above it.
-/

namespace MappedQueue

namespace Path

/-- A place that a path names by its text: so many directories up from the start, and from
there down along some names, the last one first. -/
structure Spot where
  absolute : Bool
  ups : Nat := 0
  names : List String := []
  deriving DecidableEq, Repr

namespace Spot

/-- The directory that holds the place. The top directory holds itself. -/
def above (spot : Spot) : Spot :=
  match spot.names with
  | _ :: names => { spot with names }
  | [] => if spot.absolute then spot else { spot with ups := spot.ups + 1 }

/-- What has a name in the place. -/
def enter (spot : Spot) (name : String) : Spot := { spot with names := name :: spot.names }

def take (spot : Spot) (step : String) : Spot :=
  if step = here then spot else if step = up then spot.above else spot.enter step

/-- The place is an entry of a directory. -/
def EntryOf (spot directory : Spot) : Prop :=
  ∃ name, name ≠ here ∧ name ≠ up ∧ spot = directory.enter name

theorem enter_ne (spot : Spot) (name : String) : spot.enter name ≠ spot := by
  intro h
  have hlength := congrArg (fun spot => spot.names.length) h
  simp [enter] at hlength

/-- What is above a directory is no entry of it. -/
theorem enter_ne_above (spot : Spot) (name : String) : spot.enter name ≠ spot.above := by
  intro h
  have hlength := congrArg (fun spot => spot.names.length) h
  simp only [enter, above] at hlength
  split at hlength
  · rename_i names hnames
    simp only [hnames, List.length_cons] at hlength
    omega
  · rename_i hnames
    split at hlength <;> simp [hnames] at hlength

theorem enter_injective {spot : Spot} {name name' : String}
    (h : spot.enter name = spot.enter name') : name = name' := by
  have hnames := congrArg names h
  exact (List.cons.inj hnames).1

end Spot

/-- Where a path starts. -/
def start (text : String) : Spot := { absolute := text.toList.head? == some '/' }

/-- The place that a path names. -/
def spot (text : String) : Spot := (stepsOf text).foldl Spot.take (start text)

theorem pieces_ne_nil (cs : List Char) : pieces cs ≠ [] := by
  induction cs with
  | nil => simp [pieces]
  | cons c rest ih =>
    rw [pieces]
    cases hrest : pieces rest with
    | nil => exact absurd hrest ih
    | cons piece more =>
      dsimp only
      split <;> simp

theorem pieces_slash (rest : List Char) : pieces ('/' :: rest) = [] :: pieces rest := by
  rw [pieces]
  cases hrest : pieces rest with
  | nil => exact absurd hrest (pieces_ne_nil rest)
  | cons piece more => rfl

/-- A slash ends a piece and begins another one. -/
theorem pieces_append (front back : List Char) :
    pieces (front ++ '/' :: back) = pieces front ++ pieces back := by
  induction front with
  | nil => exact pieces_slash back
  | cons c front ih =>
    rw [List.cons_append, pieces, pieces, ih]
    cases hfront : pieces front with
    | nil => exact absurd hfront (pieces_ne_nil front)
    | cons piece more =>
      simp only [List.cons_append]
      split <;> rfl

/-- Without a slash there is one piece. -/
theorem pieces_of_not_mem {cs : List Char} (h : '/' ∉ cs) : pieces cs = [cs] := by
  induction cs with
  | nil => rfl
  | cons c rest ih =>
    rw [List.mem_cons, not_or] at h
    rw [pieces, ih h.2]
    exact if_neg (Ne.symm h.1)

/-- A path goes on from a directory with one more step. -/
theorem stepsOf_join (directory : List Char) {step : List Char} (hstep : '/' ∉ step)
    (hne : step ≠ []) : stepsOf (String.ofList (Name.join directory step)) =
      stepsOf (String.ofList directory) ++ [String.ofList step] := by
  have hone : ((pieces step).filter (!·.isEmpty)).map String.ofList = [String.ofList step] := by
    rw [pieces_of_not_mem hstep]
    cases step with
    | nil => exact absurd rfl hne
    | cons c rest => rfl
  simp only [stepsOf, String.toList_ofList]
  rw [Name.join]
  split
  case isTrue hend =>
    rcases List.eq_nil_or_concat directory with rfl | ⟨front, c, rfl⟩
    · exact hone
    · obtain rfl : c = '/' := by simpa using hend
      rw [List.concat_eq_append, List.append_assoc, List.singleton_append, pieces_append,
        pieces_append, List.filter_append, List.map_append, hone, List.filter_append,
        List.map_append]
      simp [pieces]
  case isFalse =>
    rw [List.append_assoc, List.singleton_append, pieces_append, List.filter_append,
      List.map_append, hone]

/-- A path that goes on from a directory starts where the directory starts. -/
theorem start_join (directory : List Char) {step : List Char} (hstep : '/' ∉ step) :
    start (String.ofList (Name.join directory step)) = start (String.ofList directory) := by
  simp only [start, String.toList_ofList, Spot.mk.injEq, and_true]
  cases directory with
  | nil =>
    cases step with
    | nil => rfl
    | cons c rest =>
      have hc : c ≠ '/' := fun h => hstep (by simp [h])
      simp [Name.join, hc]
  | cons c rest =>
    rw [Name.join]
    split <;> rfl

end Path

namespace Name

open MappedQueue.Path (Spot spot)

/-- An accepted name is a slash and a step. -/
theorem exists_body {name : String} (h : allowed name = true) :
    ∃ body : List Char, name = String.ofList ('/' :: body) ∧ '/' ∉ body ∧ body ≠ [] := by
  rw [allowed] at h
  split at h
  case h_1 body hname =>
    simp only [bodyAllowed, Bool.and_eq_true, Bool.not_eq_true', List.isEmpty_eq_false_iff,
      List.contains_eq_mem, decide_eq_false_iff_not] at h
    obtain ⟨⟨⟨hne, -⟩, hslash⟩, -⟩ := h
    refine ⟨body, ?_, hslash, hne⟩
    rw [← hname, String.ofList_toList]
  case h_2 => cases h

/-- The path of a queue takes one step from the queue directory. -/
theorem spot_storePath (directory : String) (body : List Char) (hslash : '/' ∉ body)
    (hne : body ≠ []) : spot (storePath directory (String.ofList ('/' :: body))) =
      (spot directory).take (String.ofList body) := by
  have hdrop : (String.ofList ('/' :: body)).toList.dropWhile (· == '/') = body := by
    rw [String.toList_ofList, List.dropWhile_cons_of_pos (by rfl)]
    cases body with
    | nil => exact absurd rfl hne
    | cons c rest =>
      have hc : c ≠ '/' := fun h => hslash (by simp [h])
      exact List.dropWhile_cons_of_neg (by simpa using hc)
  rw [storePath, hdrop, spot, Path.stepsOf_join _ hslash hne, Path.start_join _ hslash,
    String.ofList_toList, List.foldl_append]
  rfl

theorem spot_here (directory : String) :
    allowed "/." = true ∧ spot (storePath directory "/.") = spot directory :=
  ⟨by decide, spot_storePath directory ['.'] (by decide) (by decide)⟩

theorem spot_up (directory : String) :
    allowed "/.." = true ∧ spot (storePath directory "/..") = (spot directory).above :=
  ⟨by decide, spot_storePath directory ['.', '.'] (by decide) (by decide)⟩

/-- Every other accepted name leads to an entry of the queue directory, which has the name that
comes after the slash. -/
theorem spot_down {name : String} (h : allowed name = true) (hhere : name ≠ "/.")
    (hup : name ≠ "/..") (directory : String) : ∃ body, name = "/" ++ body ∧
      body ≠ Path.here ∧ body ≠ Path.up ∧
      spot (storePath directory name) = (spot directory).enter body := by
  obtain ⟨cs, rfl, hslash, hne⟩ := exists_body h
  have hname : String.ofList ('/' :: cs) = "/" ++ String.ofList cs := by
    simp
  have hhere' : String.ofList cs ≠ Path.here := by
    intro hcs
    rw [hname, hcs] at hhere
    exact hhere rfl
  have hup' : String.ofList cs ≠ Path.up := by
    intro hcs
    rw [hname, hcs] at hup
    exact hup rfl
  refine ⟨String.ofList cs, hname, hhere', hup', ?_⟩
  rw [spot_storePath directory cs hslash hne, Spot.take, if_neg hhere', if_neg hup']

/-- A name that leads to an entry leads there alone. -/
theorem spot_ne {name name' : String} (h : allowed name = true) (h' : allowed name' = true)
    (hne : name ≠ name') (hhere : name ≠ "/.") (hup : name ≠ "/..") (directory : String) :
    spot (storePath directory name) ≠ spot (storePath directory name') := by
  obtain ⟨body, rfl, -, -, hspot⟩ := spot_down h hhere hup directory
  rw [hspot]
  by_cases hhere' : name' = "/."
  · rw [hhere', (spot_here directory).2]
    exact Spot.enter_ne _ _
  by_cases hup' : name' = "/.."
  · rw [hup', (spot_up directory).2]
    exact Spot.enter_ne_above _ _
  obtain ⟨body', rfl, -, -, hspot'⟩ := spot_down h' hhere' hup' directory
  rw [hspot']
  intro heq
  rw [Spot.enter_injective heq] at hne
  exact hne rfl

/-- The file of a queue is an entry of the queue directory exactly if the name is neither `/.` nor
`/..`. These two are accepted as well, and lead to the directory itself and to the one above it.
Two names lead to one place only if they are these two and the directory is the top one. -/
theorem stored_inside_unless_dots (directory : String) :
    (∀ name, allowed name = true →
      ((spot (storePath directory name)).EntryOf (spot directory) ↔ name ≠ "/." ∧ name ≠ "/..")) ∧
    (allowed "/." = true ∧ spot (storePath directory "/.") = spot directory) ∧
    (allowed "/.." = true ∧ spot (storePath directory "/..") = (spot directory).above) ∧
    ∀ name name', allowed name = true → allowed name' = true → name ≠ name' →
      (spot (storePath directory name) = spot (storePath directory name') ↔
        (spot directory).above = spot directory ∧
          (name = "/." ∧ name' = "/.." ∨ name = "/.." ∧ name' = "/.")) := by
  have hentry : ∀ name, allowed name = true →
      ((spot (storePath directory name)).EntryOf (spot directory) ↔
        name ≠ "/." ∧ name ≠ "/..") := by
    intro name hname
    constructor
    · rintro ⟨step, -, -, hstep⟩
      constructor
      · rintro rfl
        rw [(spot_here directory).2] at hstep
        exact Spot.enter_ne _ _ hstep.symm
      · rintro rfl
        rw [(spot_up directory).2] at hstep
        exact Spot.enter_ne_above _ _ hstep.symm
    · rintro ⟨hhere, hup⟩
      obtain ⟨body, -, hbody⟩ := spot_down hname hhere hup directory
      exact ⟨body, hbody⟩
  refine ⟨hentry, spot_here directory, spot_up directory, ?_⟩
  intro name name' hname hname' hne
  have hhere := (spot_here directory).2
  have hup := (spot_up directory).2
  constructor
  · intro heq
    have hdots : name = "/." ∨ name = "/.." := by
      by_contra hother
      rw [not_or] at hother
      exact spot_ne hname hname' hne hother.1 hother.2 directory heq
    have hdots' : name' = "/." ∨ name' = "/.." := by
      by_contra hother
      rw [not_or] at hother
      exact spot_ne hname' hname hne.symm hother.1 hother.2 directory heq.symm
    rcases hdots with rfl | rfl <;> rcases hdots' with rfl | rfl
    · exact absurd rfl hne
    · rw [hhere, hup] at heq
      exact ⟨heq.symm, Or.inl ⟨rfl, rfl⟩⟩
    · rw [hhere, hup] at heq
      exact ⟨heq, Or.inr ⟨rfl, rfl⟩⟩
    · exact absurd rfl hne
  · rintro ⟨htop, ⟨rfl, rfl⟩ | ⟨rfl, rfl⟩⟩
    · rw [hhere, hup, htop]
    · rw [hhere, hup, htop]

/-- Other names that begin with dots are names like any other. -/
theorem stored_inside_unless_dots_hidden :
    spot (storePath "/srv/./queues/" "/..jobs") ≠ spot (storePath "/srv/./queues/" "/.jobs") ∧
      (spot (storePath "/srv/./queues/" "/..jobs")).EntryOf (spot "/srv/./queues/") := by
  obtain ⟨hentry, -, -, hapart⟩ := stored_inside_unless_dots "/srv/./queues/"
  constructor
  · intro heq
    obtain ⟨-, ⟨hname, -⟩ | ⟨hname, -⟩⟩ := (hapart "/..jobs" "/.jobs" (by decide) (by decide)
      (by decide)).mp heq
    · exact absurd hname (by decide)
    · exact absurd hname (by decide)
  · exact (hentry "/..jobs" (by decide)).mpr (by decide)

/-- The queue `/..` is stored beside its directory, not in it. -/
theorem stored_outside : allowed "/.." = true ∧
    spot (storePath "/srv/queues" "/..") = spot "/srv" ∧
    ¬ (spot (storePath "/srv/queues" "/..")).EntryOf (spot "/srv/queues") := by
  have hspot : spot (storePath "/srv/queues" "/..") = spot "/srv" := by decide
  refine ⟨by decide, hspot, ?_⟩
  rintro ⟨name, -, -, hname⟩
  rw [hspot] at hname
  have hlength := congrArg (fun spot => spot.names.length) hname
  simp [Spot.enter, show spot "/srv" = ⟨true, 0, ["srv"]⟩ by decide,
    show spot "/srv/queues" = ⟨true, 0, ["queues", "srv"]⟩ by decide] at hlength

end Name

end MappedQueue
