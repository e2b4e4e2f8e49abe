import Mathlib.Data.List.Basic
import Mathlib.Data.List.DropRight
import Mathlib.Data.List.TakeWhile

/-!
# Strings cut at separators

The components of a string are its longest parts without separators, however
many separators stand between two of them.  `induction_on_components` follows
a string that begins with a component: it is that component alone, the
component and some separators, or the component, some separators and another
such string.
-/

namespace Cosec.Lib.Components

open List

universe u

variable {Char : Type u} (isSep : Char → Bool)

/-- The parts of a string between separators, without the empty ones. -/
def components (string : List Char) : List (List Char) :=
  (string.splitOnP isSep).filter fun part => !part.isEmpty

/-- A string that begins with a separator. -/
def startsInSep (string : List Char) : Bool := string.head?.any isSep

/-- A string that ends with a separator. -/
def endsInSep (string : List Char) : Bool := string.getLast?.any isSep

/-- A string without the separators at its end. -/
def body (string : List Char) : List Char := string.rdropWhile isSep

/-- No character is a separator. -/
def Run (string : List Char) : Prop := ∀ char ∈ string, isSep char = false

/-- Every character is a separator. -/
def Seps (string : List Char) : Prop := ∀ char ∈ string, isSep char = true

variable {isSep}

theorem seps_nil : Seps isSep [] := by
  intro char member
  cases member

variable {string : List Char}

theorem run_of_all (all : string.all (fun char => !isSep char) = true) : Run isSep string := by
  intro char member
  simpa using all_eq_true.mp all char member

theorem seps_of_all (all : string.all isSep = true) : Seps isSep string := all_eq_true.mp all

/-! ## Components of parts -/

theorem components_append_sep
    (front rest : List Char) {sep : Char} (isSeparator : isSep sep = true) :
    components isSep (front ++ sep :: rest) = components isSep front ++ components isSep rest := by
  unfold components
  rw [splitOnP_append_cons front rest isSeparator, filter_append]

variable {run : List Char}

theorem components_run (nonempty : run ≠ []) (isRun : Run isSep run) :
    components isSep run = [run] := by
  unfold components
  rw [splitOnP_eq_singleton isRun]
  simp [nonempty]

theorem components_nil : components isSep [] = [] := by simp [components]

theorem components_cons_sep {sep : Char} (isSeparator : isSep sep = true) (rest : List Char) :
    components isSep (sep :: rest) = components isSep rest := by
  have split := components_append_sep [] rest isSeparator
  rwa [components_nil, nil_append, nil_append] at split

variable {seps : List Char}

theorem components_seps_append (areSeps : Seps isSep seps) (rest : List Char) :
    components isSep (seps ++ rest) = components isSep rest := by
  induction seps with
  | nil => rfl
  | cons sep seps ih =>
    obtain ⟨isSeparator, others⟩ := forall_mem_cons.mp areSeps
    rw [cons_append, components_cons_sep isSeparator]
    exact ih others

theorem components_seps (areSeps : Seps isSep seps) : components isSep seps = [] := by
  have all := components_seps_append areSeps []
  rw [append_nil] at all
  rw [all, components_nil]

variable {rest : List Char}

/-- A component in front of a separator or of nothing. -/
theorem components_first (nonempty : run ≠ []) (isRun : Run isSep run)
    (stops : ∀ sep tail, rest = sep :: tail → isSep sep = true) :
    components isSep (run ++ rest) = run :: components isSep rest := by
  cases rest with
  | nil => rw [append_nil, components_run nonempty isRun, components_nil]
  | cons sep tail =>
    have isSeparator := stops sep tail rfl
    rw [components_append_sep _ _ isSeparator, components_cons_sep isSeparator,
      components_run nonempty isRun]
    rfl

theorem endsInSep_append (front : List Char) (nonempty : rest ≠ []) :
    endsInSep isSep (front ++ rest) = endsInSep isSep rest := by
  unfold endsInSep
  rw [getLast?_append_of_ne_nil front nonempty]

theorem endsInSep_run (isRun : Run isSep run) : endsInSep isSep run = false := by
  unfold endsInSep
  cases last : run.getLast? with
  | none => rfl
  | some char => exact isRun char (mem_of_getLast? last)

theorem endsInSep_seps (nonempty : seps ≠ []) (areSeps : Seps isSep seps) :
    endsInSep isSep seps = true := by
  unfold endsInSep
  rw [getLast?_eq_some_getLast nonempty]
  exact areSeps _ (getLast_mem nonempty)

/-- Separators at the end are not part of the body. -/
theorem body_append_seps (front : List Char) (areSeps : Seps isSep seps) :
    body isSep (front ++ seps) = body isSep front := by
  unfold body List.rdropWhile
  rw [reverse_append, dropWhile_append_of_pos]
  intro char member
  exact areSeps char (mem_reverse.mp member)

theorem body_run (isRun : Run isSep run) : body isSep run = run := by
  refine rdropWhile_eq_self_iff.mpr fun nonempty => ?_
  rw [isRun _ (getLast_mem nonempty)]
  exact Bool.false_ne_true

theorem body_append (front : List Char) (nonempty : body isSep rest ≠ []) :
    body isSep (front ++ rest) = front ++ body isSep rest := by
  unfold body List.rdropWhile at nonempty ⊢
  rw [ne_eq, reverse_eq_nil_iff] at nonempty
  rw [reverse_append, dropWhile_append, if_neg (by
    rw [List.isEmpty_iff]
    exact nonempty), reverse_append, reverse_reverse]

theorem body_ne_nil (nonempty : string ≠ []) (proper : startsInSep isSep string = false) :
    body isSep string ≠ [] := by
  intro empty
  have seps := rdropWhile_eq_nil_iff.mp empty
  cases string with
  | nil => exact nonempty rfl
  | cons char rest =>
    have isSeparator := seps char mem_cons_self
    rw [show isSep char = false from proper] at isSeparator
    cases isSeparator

/-- A string is what fulfils a test and something that begins otherwise. -/
theorem exists_span (test : Char → Bool) (string : List Char) :
    ∃ front rest, string = front ++ rest ∧ (∀ char ∈ front, test char = true) ∧
      ∀ char tail, rest = char :: tail → test char = false := by
  refine ⟨string.takeWhile test, string.dropWhile test, takeWhile_append_dropWhile.symm,
    fun char member => mem_takeWhile_imp member, ?_⟩
  intro char tail isRest
  have head := head?_dropWhile_not test string
  rw [isRest] at head
  exact head

theorem exists_component (nonempty : string ≠ []) (proper : startsInSep isSep string = false) :
    ∃ component behind, string = component ++ behind ∧ component ≠ [] ∧ Run isSep component ∧
      ∀ sep tail, behind = sep :: tail → isSep sep = true := by
  obtain ⟨component, behind, rfl, unseparated, stops⟩ :=
    exists_span (fun char => !isSep char) string
  refine ⟨component, behind, rfl, ?_, ?_, ?_⟩
  · rintro rfl
    cases behind with
    | nil => exact nonempty rfl
    | cons char tail =>
      have isSeparator := stops char tail rfl
      rw [show isSep char = false from proper] at isSeparator
      cases isSeparator
  · intro char member
    simpa using unseparated char member
  · intro sep tail isBehind
    simpa using stops sep tail isBehind

theorem components_ne_nil (nonempty : string ≠ []) (proper : startsInSep isSep string = false) :
    components isSep string ≠ [] := by
  obtain ⟨component, behind, rfl, hasRun, isRun, stops⟩ := exists_component nonempty proper
  rw [components_first hasRun isRun stops]
  exact cons_ne_nil _ _

theorem seps_of_components_eq_nil (none_ : components isSep string = []) : Seps isSep string := by
  induction string with
  | nil => exact seps_nil
  | cons char rest ih =>
    cases isSeparator : isSep char with
    | false => exact absurd none_ (components_ne_nil (cons_ne_nil _ _) isSeparator)
    | true =>
      rw [components_cons_sep isSeparator] at none_
      exact forall_mem_cons.mpr ⟨isSeparator, ih none_⟩

@[elab_as_elim]
theorem induction_on_components {motive : List Char → Prop}
    (run : ∀ component, component ≠ [] → Run isSep component → motive component)
    (trailing :
      ∀ component sep seps, component ≠ [] → Run isSep component →
        Seps isSep (sep :: seps) → motive (component ++ sep :: seps))
    (more :
      ∀ component sep seps rest, component ≠ [] → Run isSep component →
        Seps isSep (sep :: seps) → rest ≠ [] → startsInSep isSep rest = false → motive rest →
        motive (component ++ sep :: (seps ++ rest)))
    (string : List Char) (nonempty : string ≠ []) (proper : startsInSep isSep string = false) :
    motive string := by
  induction size : string.length using Nat.strong_induction_on generalizing string with
  | _ bound ih =>
    obtain ⟨component, behind, rfl, hasRun, isRun, stops⟩ := exists_component nonempty proper
    cases behind with
    | nil =>
      rw [append_nil]
      exact run component hasRun isRun
    | cons sep tail =>
      have isSeparator : isSep sep = true := stops sep tail rfl
      obtain ⟨seps, rest, rfl, areSeps, stopsAgain⟩ := exists_span isSep tail
      have sepsAll : Seps isSep (sep :: seps) := forall_mem_cons.mpr ⟨isSeparator, areSeps⟩
      cases rest with
      | nil =>
        rw [append_nil]
        exact trailing component sep seps hasRun isRun sepsAll
      | cons char others =>
        have restProper := stopsAgain char others rfl
        have shorter : (char :: others).length < bound := by
          simp only [length_append, length_cons] at size ⊢
          omega
        exact more component sep seps _ hasRun isRun sepsAll (cons_ne_nil _ _) restProper
          (ih _ shorter _ (cons_ne_nil _ _) restProper rfl)

/-! ## Strings behind their first components -/

variable (isSep) in
/-- A string behind its first components and the separators there. -/
def afterComponents : Nat → List Char → List Char
  | 0, string => string.dropWhile isSep
  | count + 1, string =>
    afterComponents count ((string.dropWhile isSep).dropWhile fun char => !isSep char)

theorem dropWhile_of_proper (proper : startsInSep isSep string = false) :
    string.dropWhile isSep = string := by
  cases string with
  | nil => rfl
  | cons char rest =>
    have notSep : isSep char = false := proper
    rw [dropWhile_cons_of_neg (by
      rw [notSep]
      exact Bool.false_ne_true)]

variable {front : List Char}

theorem startsInSep_append (nonempty : front ≠ []) (behind : List Char) :
    startsInSep isSep (front ++ behind) = startsInSep isSep front := by
  cases front with
  | nil => exact absurd rfl nonempty
  | cons char rest => rfl

theorem dropWhile_seps_append
    (areSeps : Seps isSep seps) (proper : startsInSep isSep rest = false) :
    (seps ++ rest).dropWhile isSep = rest := by
  rw [dropWhile_append_of_pos areSeps, dropWhile_of_proper proper]

theorem startsInSep_dropWhile (string : List Char) :
    startsInSep isSep (string.dropWhile isSep) = false := by
  have head := head?_dropWhile_not isSep string
  unfold startsInSep
  cases first : (string.dropWhile isSep).head? with
  | none => rfl
  | some char =>
    rw [first] at head
    exact head

theorem components_dropWhile (string : List Char) :
    components isSep (string.dropWhile isSep) = components isSep string := by
  have areSeps : Seps isSep (string.takeWhile isSep) :=
    fun char member => mem_takeWhile_imp member
  have whole := components_seps_append areSeps (string.dropWhile isSep)
  rw [takeWhile_append_dropWhile] at whole
  exact whole.symm

theorem afterComponents_dropWhile (count : Nat) (string : List Char) :
    afterComponents isSep count (string.dropWhile isSep) = afterComponents isSep count string := by
  have again : (string.dropWhile isSep).dropWhile isSep = string.dropWhile isSep :=
    dropWhile_of_proper (startsInSep_dropWhile string)
  cases count with
  | zero => rw [afterComponents, afterComponents, again]
  | succ count => rw [afterComponents, afterComponents, again]

variable {behind : List Char}

/-- One component and a separator are passed together. -/
theorem afterComponents_component
    {component : List Char} (nonempty : component ≠ []) (isRun : Run isSep component)
    (boundary : startsInSep isSep behind = true) (count : Nat) :
    afterComponents isSep (count + 1) (component ++ behind) =
      afterComponents isSep count behind := by
  have proper : startsInSep isSep (component ++ behind) = false := by
    cases component with
    | nil => exact absurd rfl nonempty
    | cons char rest => exact isRun char mem_cons_self
  have passed : (component ++ behind).dropWhile (fun char => !isSep char) = behind := by
    rw [dropWhile_append_of_pos (fun char member => by
      rw [isRun char member]
      rfl)]
    cases behind with
    | nil => rfl
    | cons sep rest =>
      have isSeparator : isSep sep = true := boundary
      rw [dropWhile_cons_of_neg (by simp [isSeparator])]
  rw [afterComponents, dropWhile_of_proper proper, passed]

section

variable (nonempty : front ≠ []) (proper : startsInSep isSep front = false)
  (finish : endsInSep isSep front = false)

include nonempty proper finish

theorem afterComponents_append (boundary : startsInSep isSep behind = true) (count : Nat) :
    afterComponents isSep ((components isSep front).length + count) (front ++ behind) =
      afterComponents isSep count behind := by
  revert finish
  refine induction_on_components ?run ?trailing ?more front nonempty proper
  case run =>
    intro component hasRun isRun _
    rw [components_run hasRun isRun, length_singleton, Nat.add_comm]
    exact afterComponents_component hasRun isRun boundary count
  case trailing =>
    intro component sep seps _ _ areSeps finish
    rw [endsInSep_append _ (cons_ne_nil _ _), endsInSep_seps (cons_ne_nil _ _) areSeps] at finish
    cases finish
  case more =>
    intro component sep seps rest hasRun isRun areSeps restNonempty restProper ih finish
    obtain ⟨isSeparator, others⟩ := forall_mem_cons.mp areSeps
    have restFinish : endsInSep isSep rest = false := by
      rw [← finish, endsInSep_append _ (cons_ne_nil _ _),
        ← cons_append, endsInSep_append _ restNonempty]
    have restBehind : startsInSep isSep (rest ++ behind) = false := by
      rw [startsInSep_append restNonempty, restProper]
    have starts : startsInSep isSep ((sep :: (seps ++ rest)) ++ behind) = true := isSeparator
    have regrouped : (sep :: (seps ++ rest)) ++ behind = (sep :: seps) ++ (rest ++ behind) := by
      simp only [cons_append, append_assoc]
    rw [components_append_sep _ _ isSeparator,
      components_run hasRun isRun, components_seps_append others,
      length_append, length_singleton, Nat.add_assoc, Nat.add_comm 1, append_assoc,
      afterComponents_component hasRun isRun starts, regrouped, ← afterComponents_dropWhile,
      dropWhile_seps_append areSeps restBehind]
    exact ih restFinish

theorem not_components_prefix (hasMore : behind ≠ []) (inside : startsInSep isSep behind = false) :
    ¬ components isSep front <+: components isSep (front ++ behind) := by
  obtain ⟨added, tail, rfl, hasAdded, addedRun, stops⟩ := exists_component hasMore inside
  revert finish
  refine induction_on_components ?run ?trailing ?more front nonempty proper
  case run =>
    intro component hasRun isRun _ isFront
    have longer : Run isSep (component ++ added) := forall_mem_append.mpr ⟨isRun, addedRun⟩
    have longerNonempty : component ++ added ≠ [] := by simp [hasRun]
    rw [components_run hasRun isRun, ← append_assoc,
      components_first longerNonempty longer stops] at isFront
    have same := (cons_prefix_cons.mp isFront).1
    exact hasAdded (append_right_eq_self.mp same.symm)
  case trailing =>
    intro component sep seps _ _ areSeps finish
    rw [endsInSep_append _ (cons_ne_nil _ _), endsInSep_seps (cons_ne_nil _ _) areSeps] at finish
    cases finish
  case more =>
    intro component sep seps rest hasRun isRun areSeps restNonempty restProper ih finish isFront
    obtain ⟨isSeparator, others⟩ := forall_mem_cons.mp areSeps
    have restFinish : endsInSep isSep rest = false := by
      rw [← finish, endsInSep_append _ (cons_ne_nil _ _),
        ← cons_append, endsInSep_append _ restNonempty]
    rw [append_assoc, cons_append, append_assoc,
      components_append_sep _ _ isSeparator, components_append_sep _ _ isSeparator,
      components_seps_append others, components_seps_append others,
      prefix_append_right_inj] at isFront
    exact ih restFinish isFront

end

end Cosec.Lib.Components
