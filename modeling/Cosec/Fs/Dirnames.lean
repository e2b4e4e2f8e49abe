import Cosec.Fs.PathLookup
import Cosec.Lib.Components

/-!
# The directory and the last component of a path

A path has no separator, or begins with its only separators, or has a front
that ends in a character, some separators, and a last part without any.  The
functions that take a path apart are computed for each of these shapes.
-/

namespace Cosec.Fs.Dirnames

open Fs.Ramfs Fs.Vfs Lib.Components Libc.Strings List

/-! ## Shapes of paths -/

/-- Separators, and behind them a part without any. -/
structure AtTop (path seps base : CString) : Prop where
  split : path = seps ++ base
  hasSeps : seps ≠ []
  areSeps : Seps isSep seps
  isRun : Run isSep base

/-- A front, separators, and behind them a part without any. -/
structure Below (path front seps base : CString) : Prop where
  split : path = front ++ (seps ++ base)
  hasFront : front ≠ []
  finish : endsInSep isSep front = false
  hasSeps : seps ≠ []
  areSeps : Seps isSep seps
  isRun : Run isSep base

/-- The shapes of paths. -/
inductive Shape (path : CString) : Prop
  | single (isRun : Run isSep path)
  | atTop {seps base : CString} (top : AtTop path seps base)
  | below {front seps base : CString} (under : Below path front seps base)

theorem AtTop.startsInSep {path seps base : CString} (top : AtTop path seps base) :
    Lib.Components.startsInSep isSep path = true := by
  obtain ⟨sep, others, sepsEq⟩ := exists_cons_of_ne_nil top.hasSeps
  rw [top.split, sepsEq]
  exact top.areSeps sep (sepsEq ▸ mem_cons_self)

theorem endsInSep_body (path : CString) : endsInSep isSep (body isSep path) = false := by
  unfold endsInSep
  by_cases empty : body isSep path = []
  · rw [empty]
    rfl
  · rw [getLast?_eq_some_getLast empty]
    exact Bool.not_eq_true _ ▸ rdropWhile_last_not isSep path empty

theorem shape (path : CString) : Shape path := by
  have baseSplit :
      (path.rdropWhile fun char => !isSep char) ++ (path.rtakeWhile fun char => !isSep char) =
        path :=
    rdropWhile_append_rtakeWhile
  have baseRun : Run isSep (path.rtakeWhile fun char => !isSep char) := by
    intro char member
    simpa using mem_rtakeWhile_imp member
  by_cases noSeps : path.rdropWhile (fun char => !isSep char) = []
  · rw [noSeps, nil_append] at baseSplit
    rw [baseSplit] at baseRun
    exact .single baseRun
  · have sepsSplit :
        (path.rdropWhile fun char => !isSep char).rdropWhile isSep ++
            (path.rdropWhile fun char => !isSep char).rtakeWhile isSep =
          path.rdropWhile fun char => !isSep char :=
      rdropWhile_append_rtakeWhile
    have areSeps : Seps isSep ((path.rdropWhile fun char => !isSep char).rtakeWhile isSep) :=
      fun char member => mem_rtakeWhile_imp member
    have hasSeps : (path.rdropWhile fun char => !isSep char).rtakeWhile isSep ≠ [] := by
      rw [ne_eq, rtakeWhile_eq_nil_iff]
      intro noSep
      have last := rdropWhile_last_not (fun char => !isSep char) path noSeps
      simp only [Bool.not_eq_true', Bool.not_eq_false] at last
      exact noSep noSeps last
    by_cases noFront : (path.rdropWhile fun char => !isSep char).rdropWhile isSep = []
    · rw [noFront, nil_append] at sepsSplit
      rw [sepsSplit] at areSeps
      exact .atTop ⟨baseSplit.symm, noSeps, areSeps, baseRun⟩
    · rw [← sepsSplit, append_assoc] at baseSplit
      exact .below ⟨baseSplit.symm, noFront, endsInSep_body _, hasSeps, areSeps, baseRun⟩

theorem strnrchr_run {path : CString} (isRun : Run isSep path) (count : Nat) :
    strnrchr path count = none := by
  induction path generalizing count with
  | nil => rfl
  | cons char rest ih =>
    cases count with
    | zero => rfl
    | succ count =>
      have later := ih (fun other member =>
            isRun other (mem_cons_of_mem char member)) count
      rw [strnrchr, later]
      simp [isRun char mem_cons_self]

theorem strnrchr_last
    {base : CString} (isRun : Run isSep base) {sep : CChar} (isSeparator : isSep sep = true)
    {front : CString} {count : Nat} (inside : front.length < count) :
    strnrchr (front ++ sep :: base) count = some front.length := by
  induction front generalizing count with
  | nil =>
    obtain ⟨more, rfl⟩ := Nat.exists_eq_add_of_lt inside
    rw [nil_append, length_nil, zero_add, strnrchr, strnrchr_run isRun]
    exact if_pos isSeparator
  | cons char rest ih =>
    cases count with
    | zero => exact absurd inside (Nat.not_lt_zero _)
    | succ count =>
      have later := ih (Nat.lt_of_succ_lt_succ inside)
      rw [cons_append, strnrchr, later]
      rfl

/-- The last separator of some separators in front of a last part. -/
theorem strnrchr_seps {base : CString} (isRun : Run isSep base)
    {seps : CString} (hasSeps : seps ≠ []) (areSeps : Seps isSep seps)
    (front : CString) {count : Nat} (inside : front.length + seps.length ≤ count) :
    strnrchr (front ++ (seps ++ base)) count = some (front.length + (seps.length - 1)) := by
  have isSeparator := areSeps _ (getLast_mem hasSeps)
  have regrouped :
      front ++ (seps ++ base) = (front ++ seps.dropLast) ++ seps.getLast hasSeps :: base := by
    calc
      front ++ (seps ++ base) = front ++ ((seps.dropLast ++ [seps.getLast hasSeps]) ++ base) := by
        rw [dropLast_append_getLast]
      _ = _ := by simp only [append_assoc, singleton_append]
  have length : (front ++ seps.dropLast).length = front.length + (seps.length - 1) := by
    rw [length_append, length_dropLast]
  have positive := length_pos_of_ne_nil hasSeps
  rw [regrouped, strnrchr_last isRun isSeparator (by omega), length]

variable {path front seps base : CString}

theorem dirnameEnd_below
    (under : Below path front seps base) {back : Nat} (inside : back ≤ seps.length) :
    dirnameEnd path (front.length + back) = front.length := by
  induction back with
  | zero =>
    have positive := length_pos_of_ne_nil under.hasFront
    obtain ⟨last, isLast⟩ := Nat.exists_eq_add_of_lt positive
    rw [zero_add] at isLast
    have finish := under.finish
    unfold endsInSep at finish
    rw [getLast?_eq_getElem?, isLast, Nat.add_sub_cancel] at finish
    have char : path[last]? = front[last]? := by
      rw [under.split, getElem?_append_left (by omega)]
    rw [add_zero, isLast, dirnameEnd, char]
    cases found : front[last]? with
    | none => rfl
    | some char =>
      rw [found] at finish
      have notSep : isSep char = false := finish
      simp [notSep]
  | succ back ih =>
    have here : back < seps.length := inside
    have char : path[front.length + back]? = some seps[back] := by
      rw [under.split, getElem?_append_right (by omega),
        Nat.add_sub_cancel_left, getElem?_append_left here, getElem?_eq_getElem here]
    have isSeparator : isSep seps[back] = true := under.areSeps _ (getElem_mem here)
    rw [← add_assoc, dirnameEnd, char]
    dsimp only
    rw [if_pos isSeparator]
    exact ih (le_of_lt here)

/-- Going back over separators at the beginning ends in front of them. -/
theorem dirnameEnd_atTop (top : AtTop path seps base) {back : Nat} (inside : back ≤ seps.length) :
    dirnameEnd path back = -1 := by
  induction back with
  | zero => rfl
  | succ back ih =>
    have here : back < seps.length := inside
    have char : path[back]? = some seps[back] := by
      rw [top.split, getElem?_append_left here, getElem?_eq_getElem here]
    have isSeparator : isSep seps[back] = true := top.areSeps _ (getElem_mem here)
    rw [dirnameEnd, char]
    dsimp only
    rw [if_pos isSeparator]
    exact ih (le_of_lt here)

theorem pathDirnameLen_single (isRun : Run isSep path) (pathlen : Nat) :
    pathDirnameLen path pathlen = 0 := by
  unfold pathDirnameLen
  rw [strnrchr_run isRun]

variable {pathlen : Nat}

theorem pathDirnameLen_atTop (top : AtTop path seps base) (bounded : path.length ≤ pathlen) :
    pathDirnameLen path pathlen = -1 := by
  have inside : ([] : CString).length + seps.length ≤ pathlen := by
    rw [top.split, length_append] at bounded
    rw [length_nil]
    omega
  have last := strnrchr_seps top.isRun top.hasSeps top.areSeps [] inside
  rw [nil_append, ← top.split] at last
  unfold pathDirnameLen
  rw [last]
  exact dirnameEnd_atTop top (by simp)

theorem pathDirnameLen_below (under : Below path front seps base) (bounded : path.length ≤ pathlen)
    : pathDirnameLen path pathlen = front.length := by
  have inside : front.length + seps.length ≤ pathlen := by
    rw [under.split, length_append, length_append] at bounded
    omega
  have last := strnrchr_seps under.isRun under.hasSeps under.areSeps front inside
  rw [← under.split] at last
  unfold pathDirnameLen
  rw [last]
  exact dirnameEnd_below under (Nat.sub_le _ _)

theorem startsInSep_run (isRun : Run isSep base) : startsInSep isSep base = false := by
  cases base with
  | nil => rfl
  | cons char rest => exact isRun char mem_cons_self

theorem skipSeps_append (areSeps : Seps isSep seps) (proper : startsInSep isSep base = false) :
    skipSeps (seps ++ base) = base :=
  dropWhile_seps_append areSeps proper

theorem linkName_single (isRun : Run isSep path) : linkName path 0 = path := by
  have skipped := skipSeps_append seps_nil (startsInSep_run isRun)
  exact skipped

theorem linkName_below (under : Below path front seps base) :
    linkName path front.length = base := by
  unfold linkName
  rw [Int.toNat_natCast, under.split, drop_left]
  exact skipSeps_append under.areSeps (startsInSep_run under.isRun)

theorem skipToBasename_seps (areSeps : Seps isSep seps) (proper : startsInSep isSep base = false)
    {dirlen : Nat} (inside : dirlen + seps.length ≤ pathlen) :
    skipToBasename (seps ++ base) dirlen pathlen = some (base, dirlen + seps.length) := by
  induction seps generalizing dirlen with
  | nil =>
    cases base with
    | nil => rfl
    | cons char rest =>
      have notSep : isSep char = false := proper
      rw [nil_append, skipToBasename, notSep]
      rfl
  | cons sep others ih =>
    have isSeparator := areSeps sep mem_cons_self
    rw [length_cons] at inside
    rw [cons_append, skipToBasename, if_pos isSeparator, if_neg (by omega),
      ih (fun char member => areSeps char (mem_cons_of_mem sep member)) (by omega), length_cons]
    congr 2
    omega

/-! ## The split at the directory name

Callers use the result as the length of the directory name and as the offset
of the last component, without a check. -/

/-- The difference of the two pointers, converted to `int`. -/
def vfsPathDirnameLen (path : CString) (pathlen : Nat) : Int :=
  (pathDirnameLen path pathlen).bmod 4294967296

/-- The length splits the path into a directory name and a last part. -/
structure SplitsAt (path : CString) (length : Int) : Prop where
  nonnegative : 0 ≤ length
  inside : length ≤ path.length
  finish : endsInSep isSep (path.take length.toNat) = false
  rest : ∃ seps base, path.drop length.toNat = seps ++ base ∧ Seps isSep seps ∧ Run isSep base

theorem bmod_of_large {length : Nat} (large : 2147483648 ≤ length) (bounded : length < 4294967296) :
    (length : Int).bmod 4294967296 < 0 := by
  rw [Int.bmod_def]
  split_ifs <;> omega

theorem splitsAt_single (isRun : Run isSep path) : SplitsAt path 0 where
  nonnegative := le_refl _
  inside := Int.natCast_nonneg _
  finish := rfl
  rest := ⟨[], path, rfl, seps_nil, isRun⟩

theorem splitsAt_below (under : Below path front seps base) : SplitsAt path front.length where
  nonnegative := Int.natCast_nonneg _
  inside := by
    rw [under.split, length_append]
    omega
  finish := by
    rw [Int.toNat_natCast, under.split, take_left]
    exact under.finish
  rest := by
    refine ⟨seps, base, ?_, under.areSeps, under.isRun⟩
    rw [Int.toNat_natCast, under.split, drop_left]

/--
For every path inside the root mount, the length is a split of the path
exactly when the path does not consist of separators and one part behind them,
and what lies in front of its last separators is shorter than 2 GiB.
-/
theorem dirname_splits_iff
    (path : Path) (fspath : CString) (accepted : mountnodeByPath path.chars = .ok fspath) :
    SplitsAt fspath (vfsPathDirnameLen fspath sizeMax) ↔
      (¬ ∃ seps base, AtTop fspath seps base) ∧
        ∀ front seps base, Below fspath front seps base → front.length < 2147483648 := by
  have bounded : fspath.length ≤ sizeMax :=
    le_of_lt (lt_trans (mountnodeByPath_length accepted) path.bounded)
  unfold vfsPathDirnameLen
  constructor
  · intro split
    constructor
    · rintro ⟨seps, base, top⟩
      rw [pathDirnameLen_atTop top bounded] at split
      exact absurd split.nonnegative (by decide)
    · intro front seps base under
      rw [pathDirnameLen_below under bounded] at split
      have shorter : front.length ≤ fspath.length := by
        rw [under.split, length_append]
        exact Nat.le_add_right _ _
      by_contra large
      have negative := bmod_of_large (Nat.le_of_not_lt large) (by unfold sizeMax at bounded; omega)
      exact absurd split.nonnegative (not_le.mpr negative)
  · rintro ⟨notTop, short⟩
    cases shape fspath with
    | single isRun =>
      rw [pathDirnameLen_single isRun]
      exact splitsAt_single isRun
    | atTop top => exact absurd ⟨_, _, top⟩ notTop
    | below under =>
      have small := short _ _ _ under
      rw [pathDirnameLen_below under bounded, Int.bmod_eq_of_le (by omega) (by omega)]
      exact splitsAt_below under

/-- The path `//a`. -/
def doubledPath : Path where
  chars := ofBytes [fsSep, fsSep, 97]
  bounded := by decide

/-- The path `/a//b`, and what follows the mount. -/
def deepPath : Path where
  chars := ofBytes [fsSep, 97, fsSep, fsSep, 98]
  bounded := by decide

theorem dirname_splits_iff_sample :
    SplitsAt deepPath.chars.tail
      (vfsPathDirnameLen deepPath.chars.tail sizeMax) := by
  have splits := dirname_splits_iff deepPath deepPath.chars.tail rfl
  refine splits.mpr ⟨?_, ?_⟩
  · rintro ⟨seps, base, top⟩
    have negative := @pathDirnameLen_atTop _ _ _ sizeMax top (by decide)
    exact absurd negative (by decide)
  · intro front seps base under
    have length := congrArg List.length under.split
    have four : deepPath.chars.tail.length = 4 := rfl
    rw [four, length_append] at length
    omega

/-- For `//a` the length is `-1`. -/
theorem dirname_leaves_path :
    ¬ ∀ (path : Path) (fspath : CString),
      mountnodeByPath path.chars = .ok fspath →
        SplitsAt fspath (vfsPathDirnameLen fspath sizeMax) := by
  intro always
  have split := always doubledPath (ofBytes [fsSep, 97]) rfl
  have nonnegative := split.nonnegative
  exact absurd nonnegative (by decide)

end Cosec.Fs.Dirnames
