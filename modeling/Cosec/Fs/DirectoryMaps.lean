import Mathlib.Data.List.FinRange
import Mathlib.Data.List.Infix
import Cosec.Fs.FailedCalls
import Cosec.Lib.HashChains

/-!
# Directories as maps from names to inode numbers

A hashed directory keeps every entry in the bucket of its name and no name
twice, so it is a finite map.  Insertion compares whole names and always
updates that map.  Deletion hashes the part of a name that its caller means
and compares the whole of it, and a search accepts every entry of the right
hash that begins with the name; both agree with the map only for some
arguments.
-/

namespace Cosec.Fs.DirectoryMaps

open Fs.FailedCalls Fs.InodeNumbers Fs.MountSteps Fs.NewDirectories Fs.Ramfs Function Lib.Commands
open Lib.Commands.Command Lib.HashChains Lib.ObjectStore Lib.Transition Libc.ErrorNumbers
open Libc.Strings List

/-! ## Hashed directories -/

/-- The bucket of a name. -/
def nameBucket (name : CString) : Fin 8 := htIndex (strhash name)

/-- The entries in the order of the hash table. -/
def direntries (table : Directory) : List Direntry := entries (List.finRange 8) table.ht

/-- Every entry is where its name says, no name comes twice. -/
structure Hashed (table : Directory) : Prop where
  hash : ∀ bucket, ∀ de ∈ table.ht bucket, de.hash = strhash de.name
  keyed : Keyed Direntry.name nameBucket table.ht
  size : table.size = (direntries table).length

/-- The map from names to inode numbers that a directory stands for. -/
def nameMap (table : Directory) (name : CString) : Option Nat :=
  (lookup Direntry.name nameBucket table.ht name).map Direntry.ino

variable {table grown shrunk : Directory} {name : CString} {de : Direntry} {ino len : Nat}

theorem emptyDirectory_hashed : Hashed emptyDirectory where
  hash := by
    intro bucket de member
    cases member
  keyed := ⟨fun _ _ member => absurd member not_mem_nil, fun _ => nodup_nil⟩
  size := rfl

theorem length_direntries_update
    (table : Directory) (bucket : Fin 8) (chain : List Direntry) (size : Nat) :
    (direntries ⟨size, update table.ht bucket chain⟩).length + (table.ht bucket).length =
      (direntries table).length + chain.length :=
  length_entries_update _ (nodup_finRange 8) (mem_finRange bucket) chain

theorem nameMap_emptyDirectory (name : CString) : nameMap emptyDirectory name = none := rfl

theorem nameMap_eq_none_iff :
    nameMap table name = none ↔ ∀ de ∈ table.ht (nameBucket name), de.name ≠ name := by
  unfold nameMap
  rw [Option.map_eq_none_iff, lookup_none_iff]

theorem exists_entry_of_nameMap (mapped : nameMap table name = some ino) :
    ∃ de ∈ table.ht (nameBucket name), de.name = name ∧ de.ino = ino := by
  obtain ⟨de, found, rfl⟩ := Option.map_eq_some_iff.mp mapped
  exact ⟨de, mem_of_find?_eq_some found, by simpa using find?_some found, rfl⟩

/-- The comparison of whole names is exact for a string in memory. -/
theorem sameName_iff {hash : UInt32} (bounded : name.length < sizeMax) :
    sameName hash name de = true ↔ de.hash = hash ∧ de.name = name := by
  have whole : strncmp name de.name 0xFFFFFFFF = 0 ↔ name = de.name := strncmp_eq_zero_of_lt bounded
  unfold sameName strcmp
  rw [Bool.and_eq_true, beq_iff_eq, beq_iff_eq, strncmp_eq_zero_comm, whole, eq_comm (a := name)]

/-! ## Insertion, deletion and search -/

/-- A directory with one more entry. -/
def withEntry (table : Directory) (name : CString) (ino : Nat) : Directory where
  size := table.size + 1
  ht :=
    update table.ht (nameBucket name) (table.ht (nameBucket name) ++ [⟨strhash name, name, ino⟩])

@[simp]
theorem withEntry_ht (table : Directory) (name : CString) (ino : Nat) :
    (withEntry table name ino).ht =
      update table.ht (nameBucket name)
        (table.ht (nameBucket name) ++ [⟨strhash name, name, ino⟩]) :=
  rfl

theorem nameMap_withEntry (free : nameMap table name = none) (ino : Nat) :
    nameMap (withEntry table name ino) = update (nameMap table) name (some ino) := by
  have absent :
      lookup Direntry.name nameBucket table.ht (Direntry.name ⟨strhash name, name, ino⟩) = none :=
    Option.map_eq_none_iff.mp free
  have looked := congrArg (Option.map Direntry.ino ∘ ·) (lookup_append absent)
  dsimp only at looked
  rw [Function.comp_update] at looked
  exact looked

/-- A directory without the entry of a name. -/
def withoutEntry (table : Directory) (name : CString) : Directory where
  size := table.size - 1
  ht :=
    update table.ht (nameBucket name) ((table.ht (nameBucket name)).eraseP fun de => de.name = name)

@[simp]
theorem withoutEntry_ht (table : Directory) (name : CString) :
    (withoutEntry table name).ht =
      update table.ht (nameBucket name)
        ((table.ht (nameBucket name)).eraseP fun de => de.name = name) :=
  rfl

/-- Another name has the hash of a name and begins with it. -/
def Shadowed (map : CString → Option Nat) (wanted : CString) : Prop :=
  ∃ other, map other ≠ none ∧ other ≠ wanted ∧ strhash other = strhash wanted ∧ wanted <+: other

/-- The search compares whole names, or none is mistaken for another. -/
def SearchExact (map : CString → Option Nat) (name : CString) (len : Nat) : Prop :=
  name.length < len ∨ ¬ Shadowed map (name.take len)

/-- An inode number, or the error of a search. -/
def foundOr : Option Nat → Except Errno Nat
  | some ino => .ok ino
  | none => .error .enoent

/-! ## Operations on hashed directories -/

section Hashed

variable (hashed : Hashed table)

include hashed

/-- An entry is what the map says about its name. -/
theorem Hashed.nameMap_of_mem {bucket : Fin 8} (member : de ∈ table.ht bucket) :
    nameMap table de.name = some de.ino := by
  unfold nameMap
  rw [hashed.keyed.lookup_key member]
  rfl

section Bounded

variable (bounded : name.length < sizeMax)

include bounded

theorem Hashed.sameName_eq (member : de ∈ table.ht (nameBucket name)) :
    sameName (strhash name) name de = decide (de.name = name) := by
  rw [Bool.eq_iff_iff, sameName_iff bounded, decide_eq_true_iff]
  constructor
  · exact And.right
  · intro same
    exact ⟨by rw [hashed.hash _ de member, same], same⟩

theorem Hashed.hasName_iff : HasName table name ↔ nameMap table name ≠ none := by
  rw [ne_eq, nameMap_eq_none_iff]
  push Not
  refine exists_congr fun de => and_congr_right fun member => ?_
  rw [hashed.sameName_eq bounded member, decide_eq_true_iff]

theorem Hashed.insert (ino : Nat) :
    directoryInsert table ⟨strhash name, name, ino⟩ =
      if nameMap table name = none then .ok (withEntry table name ino) else .error .eexist := by
  split
  · rename_i free
    refine directoryInsert_ok_iff.mpr ⟨fun taken => ?_, rfl⟩
    exact (hashed.hasName_iff bounded).mp taken free
  · rename_i taken
    exact directoryInsert_error_iff.mpr ⟨(hashed.hasName_iff bounded).mpr taken, rfl⟩

/-- A deletion is about the whole string, in the bucket of its prefix. -/
theorem Hashed.delete_any_iff (namelen : Nat) :
    (table.ht (nameBucket (name.take namelen))).any
        (sameName (strhash (name.take namelen)) name) = true ↔
      strhash (name.take namelen) = strhash name ∧ nameMap table name ≠ none := by
  rw [ne_eq, nameMap_eq_none_iff, any_eq_true]
  push Not
  constructor
  · rintro ⟨de, member, same⟩
    obtain ⟨sameHash, rfl⟩ := (sameName_iff bounded).mp same
    have hashes := hashed.hash _ de member
    rw [sameHash] at hashes
    refine ⟨hashes, de, ?_, rfl⟩
    unfold nameBucket at member ⊢
    rw [← hashes]
    exact member
  · rintro ⟨hashes, de, member, rfl⟩
    unfold nameBucket
    rw [hashes]
    exact ⟨de, member, (sameName_iff bounded).mpr ⟨hashed.hash _ de member, rfl⟩⟩

theorem Hashed.eraseP_sameName :
    (table.ht (nameBucket name)).eraseP (sameName (strhash name) name) =
      (table.ht (nameBucket name)).eraseP fun de => de.name = name := by
  have equal := fun de (member : de ∈ table.ht (nameBucket name)) =>
      hashed.sameName_eq bounded member
  generalize table.ht (nameBucket name) = chain at equal
  induction chain with
  | nil => rfl
  | cons de rest ih =>
    rw [eraseP_cons, eraseP_cons, equal de mem_cons_self,
      ih fun other member => equal other (mem_cons_of_mem de member)]

theorem Hashed.delete (namelen : Nat) :
    directoryDelete table name namelen =
      if strhash (name.take namelen) = strhash name ∧ nameMap table name ≠ none then
        .ok (withoutEntry table name)
      else .error .enoent := by
  have found := hashed.delete_any_iff bounded namelen
  split
  · rename_i present
    have erased := hashed.eraseP_sameName bounded
    unfold directoryDelete withoutEntry
    unfold nameBucket at found erased ⊢
    rw [← erased]
    rw [if_pos (found.mpr present), present.1]
  · rename_i missing
    exact if_neg (mt found.mp missing)

end Bounded

theorem Hashed.withEntry (free : nameMap table name = none) (ino : Nat) :
    Hashed (withEntry table name ino) where
  hash := by
    intro bucket de member
    rw [withEntry_ht] at member
    by_cases here : bucket = nameBucket name
    · subst here
      rw [update_self, mem_append, mem_singleton] at member
      rcases member with older | rfl
      · exact hashed.hash _ de older
      · rfl
    · rw [update_of_ne here] at member
      exact hashed.hash bucket de member
  keyed := by
    have absent :
        lookup Direntry.name nameBucket table.ht (Direntry.name ⟨strhash name, name, ino⟩) = none :=
      Option.map_eq_none_iff.mp free
    have appended := hashed.keyed.append absent
    rw [withEntry_ht]
    exact appended
  size := by
    have moved :=
      length_direntries_update table (nameBucket name)
        (table.ht (nameBucket name) ++ [⟨strhash name, name, ino⟩]) (table.size + 1)
    rw [length_append, length_singleton, ← hashed.size] at moved
    unfold DirectoryMaps.withEntry
    dsimp only
    omega

theorem Hashed.matches_iff (exactly : SearchExact (nameMap table) name len)
    (member : de ∈ table.ht (nameBucket (name.take len))) :
    (de.hash == strhash (name.take len) && strncmp name de.name len == 0) =
      decide (de.name = name.take len) := by
  rw [Bool.eq_iff_iff, Bool.and_eq_true, beq_iff_eq, beq_iff_eq,
    decide_eq_true_iff, strncmp_eq_zero_iff, hashed.hash _ de member]
  constructor
  · rintro ⟨sameHash, sameStart⟩
    rcases exactly with short | unshadowed
    · have whole := (strncmp_eq_zero_of_lt short).mp (strncmp_eq_zero_iff.mpr sameStart)
      rw [← whole, take_of_length_le (Nat.le_of_lt short)]
    · by_contra different
      have mapped := hashed.nameMap_of_mem member
      exact unshadowed ⟨de.name, by rw [mapped]; simp, different,
        sameHash, sameStart ▸ take_prefix len de.name⟩
  · intro same
    rw [same, take_take, Nat.min_self]
    exact ⟨rfl, rfl⟩

theorem Hashed.search (exactly : SearchExact (nameMap table) name len) :
    directorySearch table name len = foundOr (nameMap table (name.take len)) := by
  have found : (table.ht (nameBucket (name.take len))).find? (fun de =>
            de.hash == strhash (name.take len) && strncmp name de.name len == 0) =
        lookup Direntry.name nameBucket table.ht (name.take len) :=
    find?_congr fun de member => hashed.matches_iff exactly member
  unfold nameBucket at found
  unfold directorySearch nameMap nameBucket
  dsimp only
  rw [found]
  cases lookup Direntry.name (fun name => htIndex (strhash name)) table.ht (name.take len) with
  | none => rfl
  | some de => rfl

theorem Hashed.nameMap_withoutEntry (name : CString) :
    nameMap (withoutEntry table name) = update (nameMap table) name none := by
  have looked := congrArg (Option.map Direntry.ino ∘ ·) (hashed.keyed.lookup_erase name)
  rw [Function.comp_update] at looked
  exact looked

theorem Hashed.withoutEntry (present : nameMap table name ≠ none) :
    Hashed (withoutEntry table name) where
  hash := by
    intro bucket de member
    rw [withoutEntry_ht] at member
    by_cases here : bucket = nameBucket name
    · subst here
      rw [update_self] at member
      exact hashed.hash _ de (mem_of_mem_eraseP member)
    · rw [update_of_ne here] at member
      exact hashed.hash bucket de member
  keyed := hashed.keyed.erase name
  size := by
    obtain ⟨ino, mapped⟩ := Option.ne_none_iff_exists'.mp present
    obtain ⟨de, member, sameName, _⟩ := exists_entry_of_nameMap mapped
    have shorter :=
      length_eraseP_add_one (p := fun de => de.name = name) member (decide_eq_true sameName)
    have moved :=
      length_direntries_update table (nameBucket name)
        ((table.ht (nameBucket name)).eraseP fun de => de.name = name) (table.size - 1)
    rw [← shorter, ← hashed.size] at moved
    unfold DirectoryMaps.withoutEntry
    dsimp only
    omega

end Hashed

/-! ## Calls and their meaning -/

/-- A call on one directory; a name is a pointer and a length. -/
inductive Call where
  | newEntry (name : Path) (ino : Nat)
  | deleteEntry (name : Path) (namelen : Nat)
  | search (name : Path) (len : Nat)

/-- The call on a directory of a mount; a search returns an inode number. -/
def Call.command (machine : Machine) (dir : Nat) : Call → MountCommand (Option Nat)
  | .newEntry name ino => do
      directoryNewEntry machine (some dir) name.chars ino
      pure none
  | .deleteEntry name namelen => do
      directoryDeleteEntry dir name.chars namelen
      pure none
  | .search name len => do
      let ino ← consult fun fs => searchAt fs dir name.chars len
      pure (some ino)

/-- What a call should return and make of a finite map. -/
def mapCall (map : CString → Option Nat) : Call → Except Errno (Option Nat) × (CString → Option Nat)
  | .newEntry name ino =>
    if map name.chars = none then
      (.ok none, update map name.chars (some ino))
    else (.error .eexist, map)
  | .deleteEntry name namelen =>
    if map (name.chars.take namelen) = none then (.error .enoent, map)
    else (.ok none, update map (name.chars.take namelen) none)
  | .search name len => ((foundOr (map (name.chars.take len))).map some, map)

/--
When a call is about the name that it means: an insertion has its memory, a
deletion is given the whole string, and a search mistakes no name.
-/
def Meant (machine : Machine) (state : Mount × (CString → Option Nat)) : Call → Prop
  | .newEntry _ _ => ¬ PairRefused machine state.1.kmallocs
  | .deleteEntry name namelen => name.chars.length ≤ namelen
  | .search name len => SearchExact state.2 name.chars len

/-- A directory of a mount, hashed. -/
structure Holds (fs : Mount) (dir : Nat) (table : Directory) : Prop where
  reading : fs.directories.read dir = some table
  hashed : Hashed table

variable {machine : Machine} {fs : Mount} {dir : Nat}

/--
The call returns what the map says and leaves what the map becomes; when
that is the same map, the table stays as it is.
-/
def Answers (machine : Machine) (dir : Nat) (fs : Mount) (table : Directory) (call : Call) : Prop :=
  ∃ changed after,
    Returns (call.command machine dir) fs (mapCall (nameMap table) call).1 changed ∧
      Holds changed dir after ∧ nameMap after = (mapCall (nameMap table) call).2 ∧
      (nameMap after = nameMap table → after = table)

section

variable (holds : Holds fs dir table)

include holds

theorem Holds.change {after : Directory} (hashed : Hashed after) (kmallocs : Nat) :
    Holds
      { fs with
        directories := fs.directories.change dir fun _ => after
        kmallocs := kmallocs }
      dir after where
  reading := by
    rw [Store.read_change, if_pos rfl, holds.reading]
    rfl
  hashed := hashed

theorem Holds.newEntry (name : Path) (ino : Nat) (granted : ¬ PairRefused machine fs.kmallocs) :
    Answers machine dir fs table (.newEntry name ino) := by
  have inserted := holds.hashed.insert name.bounded ino
  simp only [Answers, Call.command, mapCall]
  by_cases free : nameMap table name.chars = none
  · rw [if_pos free] at inserted ⊢
    have map := nameMap_withEntry free ino
    refine ⟨_, withEntry table name.chars ino,
      .bind
        (returns_pair granted (.bind (.demand rfl)
          (.bind (.consult (by simp [holds.reading, inserted])) .update))) .pure,
      holds.change (holds.hashed.withEntry free ino) _, map, ?_⟩
    intro same
    have taken := congrFun (map.symm.trans same) name.chars
    rw [update_self, free] at taken
    cases taken
  · rw [if_neg free] at inserted ⊢
    exact ⟨_, table,
      .bind_error
        (returns_pair granted (.bind (.demand rfl)
          (.bind_error (.consult (by simp [holds.reading, inserted]))))),
      ⟨holds.reading, holds.hashed⟩, rfl, fun _ => rfl⟩

theorem Holds.deleteEntry (name : Path) {namelen : Nat} (whole : name.chars.length ≤ namelen) :
    Answers machine dir fs table (.deleteEntry name namelen) := by
  have deleted := holds.hashed.delete name.bounded namelen
  simp only [Answers, Call.command, mapCall]
  rw [take_of_length_le whole] at deleted ⊢
  by_cases missing : nameMap table name.chars = none
  · rw [if_neg fun present => present.2 missing] at deleted
    rw [if_pos missing]
    exact ⟨fs, table, .bind_error (.bind_error (.consult (by simp [holds.reading, deleted]))),
      holds, rfl, fun _ => rfl⟩
  · rw [if_pos ⟨rfl, missing⟩] at deleted
    rw [if_neg missing]
    have map := holds.hashed.nameMap_withoutEntry name.chars
    refine ⟨_, withoutEntry table name.chars,
      .bind (.bind (.consult (by simp [holds.reading, deleted])) .update) .pure,
      holds.change (holds.hashed.withoutEntry missing) _, map, ?_⟩
    intro same
    have absent := congrFun (map.symm.trans same) name.chars
    rw [update_self] at absent
    exact absurd absent.symm missing

theorem Holds.search (name : Path) (exactly : SearchExact (nameMap table) name.chars len) :
    Answers machine dir fs table (.search name len) := by
  have searched := holds.hashed.search exactly
  have answered :
      searchAt fs dir name.chars len = some (foundOr (nameMap table (name.chars.take len))) := by
    unfold searchAt
    rw [holds.reading, Option.map_some, searched]
  refine ⟨fs, table, ?_, holds, rfl, fun _ => rfl⟩
  simp only [Call.command, mapCall]
  generalize nameMap table (name.chars.take len) = found at answered ⊢
  cases found with
  | none => exact .bind_error (.consult answered)
  | some ino => exact .bind (.consult answered) .pure

theorem Holds.answers {call : Call} (meant : Meant machine (fs, nameMap table) call) :
    Answers machine dir fs table call := by
  cases call with
  | newEntry name ino => exact holds.newEntry name ino meant
  | deleteEntry name namelen => exact holds.deleteEntry name meant
  | search name len => exact holds.search name meant

end

/-! ## Runs -/

/-- Calls on a directory that is empty at first, beside those on a map. -/
def directoryCalls (machine : Machine) (dir : Nat) :
    System (Mount × (CString → Option Nat)) Call where
  start := fun state => state.1.directories.read dir = some emptyDirectory ∧ state.2 = fun _ => none
  step := fun source call target =>
    (∃ outcome, Returns (call.command machine dir) source.1 outcome target.1) ∧
      target.2 = (mapCall source.2 call).2

/-- A map has this many names. -/
def CountsNames (map : CString → Option Nat) (count : Nat) : Prop :=
  ∃ names : List CString,
    names.Nodup ∧ (∀ name, name ∈ names ↔ map name ≠ none) ∧ names.length = count

/-- A directory is the map, of the right size, and so is every answer. -/
def RefinesMap (machine : Machine) (dir : Nat) (state : Mount × (CString → Option Nat)) : Prop :=
  ∃ table,
    Holds state.1 dir table ∧ nameMap table = state.2 ∧ CountsNames state.2 table.size ∧
      ∀ call, Meant machine state call → Answers machine dir state.1 table call

theorem Hashed.countsNames (hashed : Hashed table) : CountsNames (nameMap table) table.size := by
  refine ⟨(direntries table).map Direntry.name, hashed.keyed.nodup_keys (nodup_finRange 8), ?_, ?_⟩
  · intro name
    constructor
    · intro member
      obtain ⟨de, inside, rfl⟩ := mem_map.mp member
      obtain ⟨bucket, _, here⟩ := mem_flatMap.mp inside
      rw [hashed.nameMap_of_mem here]
      simp
    · intro present
      obtain ⟨ino, mapped⟩ := Option.ne_none_iff_exists'.mp present
      obtain ⟨de, member, rfl, _⟩ := exists_entry_of_nameMap mapped
      exact mem_map_of_mem (mem_flatMap.mpr ⟨_, mem_finRange _, member⟩)
  · rw [length_map, hashed.size]

/-- The directory is hashed and stands for the map. -/
def Tracks (dir : Nat) (state : Mount × (CString → Option Nat)) : Prop :=
  ∃ table, Holds state.1 dir table ∧ nameMap table = state.2

theorem tracks_start
    {state : Mount × (CString → Option Nat)} (initial : (directoryCalls machine dir).start state) :
    Tracks dir state := by
  refine ⟨emptyDirectory, ⟨initial.1, emptyDirectory_hashed⟩, ?_⟩
  rw [initial.2]
  rfl

theorem tracks_step
    {source target : Mount × (CString → Option Nat)} {call : Call} (tracks : Tracks dir source)
    (meant : Meant machine source call)
    (taken : (directoryCalls machine dir).step source call target) : Tracks dir target := by
  obtain ⟨fs, map⟩ := source
  obtain ⟨table, holds, rfl⟩ := tracks
  obtain ⟨⟨outcome, returned⟩, stepped⟩ := taken
  obtain ⟨changed, after, answer, afterHolds, afterMap, _⟩ := holds.answers meant
  have same := returned.run.symm.trans answer.run
  simp only [Option.some.injEq, Prod.mk.injEq] at same
  refine ⟨after, ?_, afterMap.trans stepped.symm⟩
  rw [same.2]
  exact afterHolds

/--
As long as every call is about the name it means, a directory is a finite
map of the right size, and answers as the map does.
-/
theorem directory_refines_map {state : Mount × (CString → Option Nat)}
    (reached : (directoryCalls machine dir).Reached (Meant machine) state) :
    RefinesMap machine dir state := by
  have tracks : Tracks dir state := by
    refine System.Reached.invariant ?_ ?_ reached
    · intro initial isStart
      exact tracks_start isStart
    · intro source call target before meant taken
      exact tracks_step before meant taken
  obtain ⟨fs, map⟩ := state
  obtain ⟨table, holds, rfl⟩ := tracks
  exact ⟨table, holds, rfl, holds.hashed.countsNames, fun call meant => holds.answers meant⟩

/-- A mount with one directory. -/
def directoryMount (table : Directory) (kmallocs : Nat) : Mount :=
  { blank zeroMemory with
    directories := Store.empty.add table
    kmallocs := kmallocs }

/-- One insertion into an empty directory. -/
theorem reached_oneEntry
    {allowed : Mount × (CString → Option Nat) → Call → Prop} (name : Path) (ino : Nat)
    (permitted : allowed (directoryMount emptyDirectory 0, fun _ => none) (.newEntry name ino)) :
    (directoryCalls generous 0).Reached allowed
      (directoryMount (withEntry emptyDirectory name.chars ino) 2,
        update (fun _ => none) name.chars (some ino)) := by
  have taken :
      (directoryCalls generous 0).step (directoryMount emptyDirectory 0, fun _ => none)
        (.newEntry name ino)
        (directoryMount (withEntry emptyDirectory name.chars ino) 2,
          update (fun _ => none) name.chars (some ino)) :=
    ⟨⟨.ok none, ⟨rfl⟩⟩, rfl⟩
  have begun :
      (directoryCalls generous 0).Reached allowed
        (directoryMount emptyDirectory 0, fun _ => none) :=
    .start ⟨rfl, rfl⟩
  exact begun.step permitted taken

/-- A directory with one name, "a". -/
theorem directory_refines_map_one_name :
    RefinesMap generous 0
      (directoryMount (withEntry emptyDirectory (ofBytes [97]) 7) 2,
        update (fun _ => none) (ofBytes [97]) (some 7)) :=
  directory_refines_map
    (reached_oneEntry ⟨ofBytes [97], by decide⟩ 7 (not_pairRefused (fun _ => rfl) 0))

/-- A call returns something else than the map says. -/
def Mistaken (state : Mount × (CString → Option Nat)) (call : Call)
    (outcome : Except Errno (Option Nat)) : Prop :=
  (∃ changed, Returns (call.command generous 0) state.1 outcome changed) ∧
    (mapCall state.2 call).1 ≠ outcome

/--
In a directory whose only name is "arwoxek" a search for "a" finds it, and
in a directory with the name "a" a deletion of the first character of "ab"
finds nothing.
-/
theorem directory_mistakes_names :
    (∃ state,
      (directoryCalls generous 0).Reached unrestricted state ∧
        Mistaken state (.search ⟨ofBytes [97], by decide⟩ 1) (.ok (some 7))) ∧
      ∃ state,
        (directoryCalls generous 0).Reached unrestricted state ∧
          Mistaken state (.deleteEntry ⟨ofBytes [97, 98], by decide⟩ 1) (.error .enoent) := by
  have searched :
      directorySearch (withEntry emptyDirectory (ofBytes [97, 114, 119, 111, 120, 101, 107]) 7)
          (ofBytes [97]) 1 = .ok 7 := by
    decide +kernel
  have deleted :
      directoryDelete (withEntry emptyDirectory (ofBytes [97]) 7) (ofBytes [97, 98]) 1 =
        .error .enoent := by
    rw [(emptyDirectory_hashed.withEntry rfl 7).delete (by decide) 1]
    refine if_neg fun present => present.2 ?_
    rfl
  constructor
  · refine ⟨_, reached_oneEntry ⟨ofBytes [97, 114, 119, 111, 120, 101, 107], by decide⟩ 7 trivial,
      ⟨_, .bind (.consult (congrArg some searched)) .pure⟩, ?_⟩
    have absent : (ofBytes [97]).take 1 ≠ ofBytes [97, 114, 119, 111, 120, 101, 107] := by decide
    simp [mapCall, update_of_ne absent, foundOr, Except.map]
  · refine ⟨_, reached_oneEntry ⟨ofBytes [97], by decide⟩ 7 trivial,
      ⟨_, .bind_error (.bind_error (.consult (congrArg some deleted)))⟩, ?_⟩
    have meant : (ofBytes [97, 98]).take 1 = ofBytes [97] := by decide
    simp [mapCall, meant]

end Cosec.Fs.DirectoryMaps
