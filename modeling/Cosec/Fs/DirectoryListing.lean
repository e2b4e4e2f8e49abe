import Mathlib.Data.List.Perm.Basic
import Mathlib.Data.List.TakeWhile
import Cosec.Fs.DirectoryMaps
import Cosec.Lib.KeyedWalks

/-!
# Listing a directory

`ramfs_get_direntry` returns one entry a call and leaves the hash of the next
one in the caller's iterator, where the null pointer begins the listing and
ends it.  `print_ls` calls it in a loop.

The listing is a walk that remembers a key, over the entries in the order of
the hash table.
-/

namespace Cosec.Fs.DirectoryListing

open Fs.DirectoryMaps Fs.InodeNumbers Fs.Ramfs Lib.HashChains Lib.KeyedWalks Lib.ObjectStore
open Libc.ErrorNumbers Libc.Strings List

/-! ## The entry of the caller -/

/-- `enum dentry_type`. -/
inductive DentryType where
  | dtUnknown
  | dtFifo
  | dtChr
  | dtDir
  | dtBlk
  | dtReg
  | dtLnk
  | dtSock

/-- `struct dirent`. -/
structure Dirent where
  ino : Nat
  reclen : UInt16
  type : DentryType
  namlen : UInt8
  name : CString

/-- The type of an entry, from the mode of its inode. -/
def dentryType (mode : UInt32) : DentryType :=
  if fileType mode = sIfreg then .dtReg
  else if fileType mode = sIfdir then .dtDir
  else if fileType mode = sIflnk then .dtLnk
  else if fileType mode = sIfchr then .dtChr
  else if fileType mode = sIfblk then .dtBlk
  else if fileType mode = sIfsock then .dtSock
  else if fileType mode = sIfifo then .dtFifo
  else .dtUnknown

/-- `UCHAR_MAX`, the size of `d_name`. -/
def ucharMax : Nat := 255

/-- `sizeof(struct dirent)`, with the byte that pads the name. -/
def direntSize : Nat := 264

/--
The caller's entry is filled in.  The zero behind a name that takes the whole
of `d_name` falls on the padding, and the type stays what it was when the
number has no inode.
-/
def fillDirent (fs : Mount) (de : Direntry) (dirent : Dirent) : Option Dirent :=
  let namlen : UInt8 := UInt8.ofNat de.name.length
  let filled : Dirent :=
    { ino := de.ino
      reclen := UInt16.ofNat (direntSize - ucharMax + namlen.toNat + 1)
      type := dirent.type
      namlen := namlen
      name := de.name.take ucharMax }
  match idataByInode fs de.ino with
  | none => none
  | some none => some filled
  | some (some (_, idata)) => some { filled with type := dentryType idata.mode }

/-- The first entry of the first bucket in use, and what is behind it. -/
def firstEntry (table : Directory) : List (Fin 8) → Option (Direntry × List Direntry × List (Fin 8))
  | [] => none
  | htindex :: later =>
    match table.ht htindex with
    | [] => firstEntry table later
    | de :: htnext => some (de, htnext, later)

/--
The entry an iterator means, what is behind it in its bucket, and the buckets
behind that.
-/
def currentEntry (table : Directory) (hash : UInt32) :
    Option (Except Errno (Direntry × List Direntry × List (Fin 8))) :=
  if hash = 0 then
    (firstEntry table (List.finRange 8)).map .ok
  else if table.ht (htIndex hash) = [] then
    none
  else
    match (table.ht (htIndex hash)).dropWhile fun de => de.hash ≠ hash with
    | [] => some (.error .ekern)
    | de :: htnext => some (.ok (de, htnext, (List.finRange 8).drop ((htIndex hash).val + 1)))

/-- The iterator of the next entry. -/
def nextIter (table : Directory) (htnext : List Direntry) (later : List (Fin 8)) : UInt32 :=
  match htnext with
  | de :: _ => de.hash
  | [] =>
    match firstEntry table later with
    | some (de, _) => de.hash
    | none => 0

/-- `ramfs_get_direntry`: the iterator and the entry of the caller. -/
def getDirentry (fs : Mount) (dirnode : Nat) (iter : UInt32)
    (dirent : Dirent) : Option (Except Errno (UInt32 × Dirent)) :=
  match idataByInode fs dirnode with
  | none => none
  | some none => some (.error .ekern)
  | some (some (_, dirIdata)) =>
    if ¬ IsDir dirIdata.mode then some (.error .enotdir)
    else
      match dirIdata.data.bind fs.directories.read with
      | none => none
      | some table =>
        match currentEntry table iter with
        | none => none
        | some (.error error) => some (.error error)
        | some (.ok (de, htnext, later)) =>
          (fillDirent fs de dirent).map fun filled =>
            .ok (nextIter table htnext later, filled)

/--
The loop of `print_ls`, for at most `calls` calls: the entries printed.
-/
def printLs (fs : Mount) (dirnode : Nat) :
    Nat → UInt32 → Dirent → Option (Except Errno (List Dirent))
  | 0, _, _ => none
  | calls + 1, iter, dirent =>
    match getDirentry fs dirnode iter dirent with
    | none => none
    | some (.error error) => some (.error error)
    | some (.ok (next, filled)) =>
      if next = 0 then some (.ok [filled])
      else
        (printLs fs dirnode calls next filled).map fun printed => printed.map (filled :: ·)

/-! ## The listing as a walk -/

/-- An inode number of a hashed directory whose entries can be looked up. -/
structure Listed (fs : Mount) (dirnode : Nat) (table : Directory) : Prop where
  found :
    ∃ idata inode dir,
      idataByInode fs dirnode = some (some (idata, inode)) ∧
        IsDir inode.mode ∧ inode.data = some dir ∧ fs.directories.read dir = some table
  hashed : Hashed table
  numbers : ∀ bucket, ∀ de ∈ table.ht bucket, idataByInode fs de.ino ≠ none

variable {fs : Mount} {dirnode : Nat} {table : Directory} {de : Direntry} {iter : UInt32}

theorem entries_of_firstEntry_none
    {buckets : List (Fin 8)} (unused : firstEntry table buckets = none) :
    entries buckets table.ht = [] := by
  induction buckets with
  | nil => rfl
  | cons htindex later ih =>
    rw [firstEntry] at unused
    cases chain : table.ht htindex with
    | nil =>
      rw [chain] at unused
      rw [entries, flatMap_cons, chain, nil_append]
      exact ih unused
    | cons de htnext =>
      rw [chain] at unused
      cases unused

theorem entries_of_firstEntry {buckets later : List (Fin 8)} {htnext : List Direntry}
    (first : firstEntry table buckets = some (de, htnext, later)) :
    entries buckets table.ht = de :: (htnext ++ entries later table.ht) := by
  induction buckets with
  | nil => cases first
  | cons htindex others ih =>
    rw [firstEntry] at first
    cases chain : table.ht htindex with
    | nil =>
      rw [chain] at first
      rw [entries, flatMap_cons, chain, nil_append]
      exact ih first
    | cons head tail =>
      rw [chain] at first
      cases first
      rw [entries, flatMap_cons, chain]
      rfl

/-- The iterator remembers the key of the entries still to come. -/
theorem nextIter_eq (table : Directory) (htnext : List Direntry) (later : List (Fin 8)) :
    nextIter table htnext later = nextKey Direntry.hash 0 (htnext ++ entries later table.ht) := by
  cases htnext with
  | cons de rest => rfl
  | nil =>
    unfold nextIter nextKey
    cases first : firstEntry table later with
    | none =>
      rw [entries_of_firstEntry_none first]
      rfl
    | some triple =>
      rw [entries_of_firstEntry first]
      rfl

theorem finRange_split (bucket : Fin 8) :
    List.finRange 8 =
        (List.finRange 8).take bucket.val ++ bucket :: (List.finRange 8).drop (bucket.val + 1) ∧
      bucket ∉ (List.finRange 8).take bucket.val ∧
      bucket ∉ (List.finRange 8).drop (bucket.val + 1) := by
  revert bucket
  decide

section Hashed

variable (hashed : Hashed table)

include hashed

theorem hash_ne_of_mem {hash : UInt32} {buckets : List (Fin 8)} (others : htIndex hash ∉ buckets) :
    ∀ de ∈ entries buckets table.ht, decide (de.hash ≠ hash) = true := by
  intro de member
  obtain ⟨bucket, inside, here⟩ := mem_flatMap.mp member
  refine decide_eq_true ?_
  rintro rfl
  apply others
  have placed : htIndex (strhash de.name) = bucket := hashed.keyed.placed bucket de here
  rwa [hashed.hash bucket de here, placed]

theorem dropWhile_direntries (hash : UInt32) :
    (direntries table).dropWhile (fun de => de.hash ≠ hash) =
      ((table.ht (htIndex hash)).dropWhile fun de => de.hash ≠ hash) ++
        if (table.ht (htIndex hash)).dropWhile (fun de => de.hash ≠ hash) = [] then [] else
          entries ((List.finRange 8).drop ((htIndex hash).val + 1)) table.ht := by
  obtain ⟨split, before, behind⟩ := finRange_split (htIndex hash)
  have parts :
      direntries table =
        entries ((List.finRange 8).take (htIndex hash).val) table.ht ++
          (table.ht (htIndex hash) ++
            entries ((List.finRange 8).drop ((htIndex hash).val + 1)) table.ht) := by
    unfold direntries entries
    rw [← flatMap_cons, ← flatMap_append, ← split]
  rw [parts, dropWhile_append_of_pos (hash_ne_of_mem hashed before), dropWhile_append]
  split
  · rename_i noneHere
    rw [List.isEmpty_iff] at noneHere
    rw [noneHere, if_pos rfl, nil_append, dropWhile_eq_nil_iff]
    exact hash_ne_of_mem hashed behind
  · rename_i someHere
    rw [List.isEmpty_iff] at someHere
    rw [if_neg someHere]

/-- An iterator finds the entry at which the walk goes on. -/
theorem currentEntry_of_resume {rest : List Direntry}
    (here : resume Direntry.hash 0 (direntries table) iter = de :: rest) :
    ∃ htnext later,
      currentEntry table iter = some (.ok (de, htnext, later)) ∧
        rest = htnext ++ entries later table.ht := by
  unfold resume at here
  unfold currentEntry
  split at here
  · rename_i begins
    rw [if_pos begins]
    cases first : firstEntry table (List.finRange 8) with
    | none =>
      have none_ := entries_of_firstEntry_none first
      rw [show direntries table = [] from none_] at here
      cases here
    | some triple =>
      obtain ⟨head, htnext, later⟩ := triple
      have all := entries_of_firstEntry first
      rw [show direntries table = _ from all] at here
      cases here
      exact ⟨htnext, later, rfl, rfl⟩
  · rename_i goesOn
    rw [if_neg goesOn]
    rw [dropWhile_direntries hashed] at here
    cases chain : (table.ht (htIndex iter)).dropWhile fun de => de.hash ≠ iter with
    | nil =>
      rw [chain] at here
      cases here
    | cons head htnext =>
      have used : table.ht (htIndex iter) ≠ [] := by
        intro unused
        rw [unused] at chain
        cases chain
      rw [chain] at here
      rw [if_neg used]
      cases here
      exact ⟨htnext, _, rfl, rfl⟩

/-- An iterator at which the walk does not go on finds no entry. -/
theorem currentEntry_of_resume_nil (here : resume Direntry.hash 0 (direntries table) iter = []) :
    currentEntry table iter = none ∨ currentEntry table iter = some (.error .ekern) := by
  unfold resume at here
  unfold currentEntry
  split at here
  · rename_i begins
    rw [if_pos begins]
    cases first : firstEntry table (List.finRange 8) with
    | none => exact Or.inl rfl
    | some triple =>
      have all := entries_of_firstEntry first
      rw [show direntries table = _ from all] at here
      cases here
  · rename_i goesOn
    rw [if_neg goesOn]
    rw [dropWhile_direntries hashed, append_eq_nil_iff] at here
    rw [here.1]
    split
    · exact Or.inl rfl
    · exact Or.inr rfl

end Hashed

/-- The number and the name that the caller is shown. -/
def shown (dirent : Dirent) : Nat × CString := (dirent.ino, dirent.name)

/-- The number of an entry and as much of its name as fits. -/
def showing (de : Direntry) : Nat × CString := (de.ino, de.name.take ucharMax)

/-- The loop ends and prints every entry exactly once. -/
def Complete (fs : Mount) (dirnode : Nat) (table : Directory) : Prop :=
  ∀ dirent, ∃ calls printed,
    printLs fs dirnode calls 0 dirent = some (.ok printed) ∧
      (printed.map shown).Perm ((direntries table).map showing)

section Listed

variable (listed : Listed fs dirnode table)

include listed

theorem Listed.getDirentry_eq (iter : UInt32) (dirent : Dirent) :
    getDirentry fs dirnode iter dirent = match currentEntry table iter with
      | none => none
      | some (.error error) => some (.error error)
      | some (.ok (de, htnext, later)) =>
        (fillDirent fs de dirent).map fun filled =>
          .ok (nextIter table htnext later, filled) := by
  obtain ⟨idata, inode, dir, found, isDir, data, reading⟩ := listed.found
  unfold getDirentry
  rw [found]
  dsimp only
  rw [if_neg (not_not.mpr isDir), data, Option.bind_some, reading]

/-- A call returns the entry the walk meets and remembers the next key. -/
theorem Listed.getDirentry_of_resume {rest : List Direntry}
    (here : resume Direntry.hash 0 (direntries table) iter = de :: rest) (dirent : Dirent) :
    ∃ filled,
      getDirentry fs dirnode iter dirent = some (.ok (nextKey Direntry.hash 0 rest, filled)) ∧
        shown filled = showing de := by
  obtain ⟨htnext, later, current, behind⟩ := currentEntry_of_resume listed.hashed here
  have member : de ∈ direntries table := by
    have inside : de ∈ resume Direntry.hash 0 (direntries table) iter := by
      rw [here]
      exact mem_cons_self
    unfold resume at inside
    split at inside
    · exact inside
    · exact (dropWhile_sublist _).mem inside
  obtain ⟨bucket, _, inBucket⟩ := mem_flatMap.mp member
  obtain ⟨filled, fills, shows_⟩ :
      ∃ filled, fillDirent fs de dirent = some filled ∧ shown filled = showing de := by
    unfold fillDirent
    cases found : idataByInode fs de.ino with
    | none => exact absurd found (listed.numbers bucket de inBucket)
    | some content => cases content <;> exact ⟨_, rfl, rfl⟩
  refine ⟨filled, ?_, shows_⟩
  rw [listed.getDirentry_eq, current]
  dsimp only
  rw [fills, nextIter_eq, behind]
  rfl

theorem Listed.printLs_of_visit {calls : Nat} {met : List Direntry}
    (walked : visit Direntry.hash 0 (direntries table) calls iter = some met) (dirent : Dirent) :
    ∃ printed,
      printLs fs dirnode calls iter dirent = some (.ok printed) ∧
        printed.map shown = met.map showing := by
  induction calls generalizing iter met dirent with
  | zero => cases walked
  | succ calls ih =>
    rw [visit] at walked
    cases here : resume Direntry.hash 0 (direntries table) iter with
    | nil =>
      rw [here] at walked
      cases walked
    | cons de rest =>
      obtain ⟨filled, returned, shows_⟩ := listed.getDirentry_of_resume here dirent
      rw [here] at walked
      rw [printLs, returned]
      dsimp only at walked ⊢
      by_cases last : nextKey Direntry.hash 0 rest = 0
      · rw [if_pos last] at walked ⊢
        cases walked
        exact ⟨[filled], rfl, by simp [shows_]⟩
      · rw [if_neg last] at walked ⊢
        obtain ⟨later, walkedOn, rfl⟩ := Option.map_eq_some_iff.mp walked
        obtain ⟨printed, printing, same⟩ := ih walkedOn filled
        rw [printing]
        exact ⟨filled :: printed, rfl, by simp [shows_, same]⟩

/-- The loop prints nothing else. -/
theorem Listed.visit_of_printLs {calls : Nat} {dirent : Dirent} {printed : List Dirent}
    (printing : printLs fs dirnode calls iter dirent = some (.ok printed)) :
    ∃ met,
      visit Direntry.hash 0 (direntries table) calls iter = some met ∧
        met.length = printed.length := by
  cases walked : visit Direntry.hash 0 (direntries table) calls iter with
  | some met =>
    obtain ⟨others, printingOthers, same⟩ := listed.printLs_of_visit walked dirent
    rw [printing] at printingOthers
    cases printingOthers
    have lengths := congrArg List.length same
    rw [length_map, length_map] at lengths
    exact ⟨met, rfl, lengths.symm⟩
  | none =>
    exfalso
    induction calls generalizing iter dirent printed with
    | zero => cases printing
    | succ calls ih =>
      rw [visit] at walked
      rw [printLs] at printing
      cases here : resume Direntry.hash 0 (direntries table) iter with
      | nil =>
        rw [listed.getDirentry_eq] at printing
        rcases currentEntry_of_resume_nil listed.hashed here with undefined | failed
        · rw [undefined] at printing
          cases printing
        · rw [failed] at printing
          cases printing
      | cons de rest =>
        obtain ⟨filled, returned, _⟩ := listed.getDirentry_of_resume here dirent
        rw [here] at walked
        rw [returned] at printing
        dsimp only at walked printing
        by_cases last : nextKey Direntry.hash 0 rest = 0
        · rw [if_pos last] at walked
          cases walked
        · rw [if_neg last] at walked printing
          obtain ⟨outcome, later, equal⟩ := Option.map_eq_some_iff.mp printing
          cases outcome with
          | error error => cases equal
          | ok others => exact ih later (Option.map_eq_none_iff.mp walked)

theorem Listed.complete_of_walkable (walkable : Walkable Direntry.hash 0 (direntries table)) :
    Complete fs dirnode table := by
  intro dirent
  obtain ⟨printed, printing, same⟩ := listed.printLs_of_visit walkable.visit_all dirent
  exact ⟨_, printed, printing, .of_eq same⟩

theorem Listed.walkable_of_complete (complete : Complete fs dirnode table) :
    Walkable Direntry.hash 0 (direntries table) := by
  obtain ⟨calls, printed, printing, same⟩ := complete ⟨0, 0, .dtUnknown, 0, []⟩
  obtain ⟨met, walked, lengths⟩ := listed.visit_of_printLs printing
  refine visit_length_iff.mp ⟨calls, met, walked, ?_⟩
  have equal := same.length_eq
  rw [length_map, length_map] at equal
  exact lengths.trans equal

end Listed

/-! ## Complete listings -/

/--
A listing is complete exactly when the directory is not empty, no two names
have the same hash, and no name but the first one listed has the hash zero.
-/
theorem listing_complete_iff (listed : Listed fs dirnode table) :
    Complete fs dirnode table ↔
      direntries table ≠ [] ∧ ((direntries table).map Direntry.hash).Nodup ∧
        ∀ de ∈ (direntries table).tail, de.hash ≠ 0 := by
  constructor
  · intro complete
    have walkable := listed.walkable_of_complete complete
    exact ⟨walkable.nonempty, walkable.distinct, walkable.proper⟩
  · rintro ⟨nonempty, distinct, proper⟩
    exact listed.complete_of_walkable ⟨nonempty, distinct, proper⟩

/-- The inode of a directory that nothing else is linked in. -/
def loneDirectory : Inode := setData 0 (newInode 1 sIfdir)

/-- A mount with one directory, of this content. -/
def listingMount (table : Directory) : Mount :=
  { withInode (dataMount zeroMemory) loneDirectory 3 with
    directories := Store.empty.add table }

theorem listingMount_found (table : Directory) :
    idataByInode (listingMount table) 1 = some (some (1, loneDirectory)) := by
  rfl

theorem listingMount_listed (hashed : Hashed table) (own : ∀ de ∈ direntries table, de.ino = 1) :
    Listed (listingMount table) 1 table where
  found := ⟨1, loneDirectory, 0, listingMount_found table, by decide, rfl, rfl⟩
  hashed := hashed
  numbers := by
    intro bucket de member
    rw [own de (mem_flatMap.mpr ⟨bucket, mem_finRange _, member⟩), listingMount_found]
    simp

/-- The names "a" and "bc". -/
def twoNames : Directory :=
  withEntry (withEntry emptyDirectory (ofBytes [97]) 1) (ofBytes [98, 99]) 1

theorem listing_complete_two_names :
    Complete (listingMount twoNames) 1 twoNames := by
  have hashed : Hashed twoNames := by
    refine (emptyDirectory_hashed.withEntry rfl 1).withEntry ?_ 1
    rfl
  apply (listing_complete_iff (listingMount_listed hashed (by decide +kernel))).mpr
  decide +kernel

/-- The names "c450" and "c4lg". -/
def collidingTable : Directory :=
  withEntry (withEntry emptyDirectory (ofBytes [99, 52, 53, 48]) 1) (ofBytes [99, 52, 108, 103]) 1

/-- With two names of the same hash the listing never ends. -/
theorem listing_of_collision_incomplete :
    Listed (listingMount collidingTable) 1 collidingTable ∧
      ¬ Complete (listingMount collidingTable) 1 collidingTable := by
  have hashed : Hashed collidingTable := by
    refine (emptyDirectory_hashed.withEntry rfl 1).withEntry ?_ 1
    rfl
  have listed := listingMount_listed hashed (by decide +kernel)
  refine ⟨listed, fun complete => ?_⟩
  have distinct := (listed.walkable_of_complete complete).distinct
  revert distinct
  decide +kernel

end Cosec.Fs.DirectoryListing
