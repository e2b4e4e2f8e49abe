import Mathlib.Data.List.Range
import Cosec.Fs.MountSteps

/-!
# Inode numbers

`ramfs_inode_new` numbers inodes by the slot of the inode table in which
`btree_new_leaf` stores them.  The table has one node of 64 slots to begin
with, and slot `0` is taken, so 63 inodes fit before it grows.  When it grows,
the inode that made it grow is not stored: it is given the number of an empty
slot.
-/

namespace Cosec.Fs.InodeNumbers

open Fs.FileBlocks Fs.InodeTree Fs.MountSteps Fs.Ramfs Lib.Commands Lib.Commands.Command
open Lib.ObjectStore List

variable {machine : Machine} {fs : Mount}

/-! ## Mounts whose table has not grown -/

/-- Object number `n` is in slot `n`, and the table is one node. -/
structure FlatMount (fs : Mount) : Prop where
  inhabited : 0 < fs.inodes.count
  fits : fs.inodes.count ≤ 64
  tree : fs.tree = flatTable 64 (List.range fs.inodes.count)

theorem getIndex_flat (flat : FlatMount fs) (ino : Nat) :
    getIndex fs.tree ino = some (if ino < fs.inodes.count then .leaf ino else .null) := by
  have fits := flat.fits
  rw [flat.tree, getIndex_flatTable (by simpa using fits) (by decide)]
  congr 1
  split
  · rename_i inside
    rw [getElem?_range inside]
    rfl
  · rename_i outside
    rw [getElem?_eq_none (by simpa using outside)]
    rfl

/-- With room in the table, the new object goes into the slot of its number. -/
theorem newLeaf_flat
    (flat : FlatMount fs) (room : fs.inodes.count < 64) (grants : Nat → Bool) (calls : Nat) :
    newLeaf grants calls fs.tree fs.inodes.count =
      some (fs.inodes.count, flatTable 64 (List.range (fs.inodes.count + 1)), calls) := by
  have nonempty : List.range fs.inodes.count ≠ [] :=
    ne_nil_of_length_pos (by simpa using flat.inhabited)
  have room : (List.range fs.inodes.count).length < 64 := by simpa using room
  have stored := newLeaf_flatTable nonempty room (by decide) grants calls fs.inodes.count
  rw [length_range, ← range_succ] at stored
  rw [flat.tree]
  exact stored

/-- The mount with one more inode in a table that has not grown. -/
def withInode (fs : Mount) (node : Inode) (kmallocs : Nat) : Mount :=
  { fs with
    tree := flatTable 64 (List.range (fs.inodes.count + 1))
    inodes := fs.inodes.add node
    kmallocs := kmallocs }

theorem withInode_flat (room : fs.inodes.count < 64) (node : Inode) (kmallocs : Nat) :
    FlatMount (withInode fs node kmallocs) where
  inhabited := by simp [withInode]
  fits := by
    simp only [withInode, Store.count_add]
    omega
  tree := by simp [withInode]

/-- A new inode of a flat mount carries the number of its object. -/
theorem grown_flat
    (flat : FlatMount fs) (room : fs.inodes.count < 64) {node : Inode} {changed : Mount}
    (grown : Grown machine fs node changed) :
    node.ino = fs.inodes.count ∧ changed = withInode fs node (fs.kmallocs + 1) := by
  cases grown with
  | intro granted inserted =>
    rw [newLeaf_flat flat room] at inserted
    simp only [Option.some.injEq, Prod.mk.injEq] at inserted
    obtain ⟨inoEq, treeEq, callsEq⟩ := inserted
    subst treeEq callsEq
    exact ⟨inoEq.symm, rfl⟩

theorem inodeNew_flat (flat : FlatMount fs) (room : fs.inodes.count < 64)
    (granted : machine.grants fs.kmallocs = true) (mode : UInt32) :
    Returns (inodeNew machine mode) fs (.ok fs.inodes.count)
      (withInode fs (newInode fs.inodes.count mode) (fs.kmallocs + 1)) := by
  have stored := newLeaf_flat flat room machine.grants (fs.kmallocs + 1)
  refine .bind (returns_kmalloc granted) ?_
  refine .bind (.failIf (by simp)) ?_
  refine .bind .query ?_
  refine .bind (.demand stored) ?_
  exact .bind .update .pure

/-! ## Runs of `ramfs_inode_new` -/

/-- The numbers and objects of one new inode for each mode. -/
def inodeNews (machine : Machine) : List UInt32 → MountCommand (List (Nat × Nat))
  | [] => pure []
  | mode :: rest => do
      let idata ← inodeNew machine mode
      let inode ← demand fun fs => fs.inodes.read idata
      let later ← inodeNews machine rest
      pure ((inode.ino, idata) :: later)

/--
The numbers of new inodes are not zero and pairwise distinct, each of them
finds its inode in the table, and every other number but zero finds nothing.
-/
structure TableCorrect (fs : Mount) (made : List (Nat × Nat)) : Prop where
  nonzero : ∀ entry ∈ made, entry.1 ≠ 0
  distinct : (made.map Prod.fst).Nodup
  found : ∀ entry ∈ made, getIndex fs.tree entry.1 = some (.leaf entry.2)
  empty :
    ∀ number, number ≠ 0 → number < 4294967296 → number ∉ made.map Prod.fst →
      getIndex fs.tree number = some .null

variable {modes : List UInt32}

/-- The new inodes of a flat mount with room for all of them. -/
theorem inodeNews_flat (granting : ∀ call, machine.grants call = true) (flat : FlatMount fs)
    (room : fs.inodes.count + modes.length ≤ 64) :
    ∃ changed,
      Returns (inodeNews machine modes) fs
          (.ok ((List.range' fs.inodes.count modes.length).map fun number => (number, number)))
          changed ∧ FlatMount changed ∧ changed.inodes.count = fs.inodes.count + modes.length := by
  induction modes generalizing fs with
  | nil => exact ⟨fs, .pure, flat, rfl⟩
  | cons mode rest ih =>
    simp only [length_cons] at room
    have roomHere : fs.inodes.count < 64 := by omega
    obtain ⟨changed, later, flatLater, countLater⟩ :=
      ih (withInode_flat roomHere (newInode fs.inodes.count mode) (fs.kmallocs + 1))
        (by simp only [withInode, Store.count_add]; omega)
    have reading :
        (withInode fs (newInode fs.inodes.count mode)
            (fs.kmallocs + 1)).inodes.read fs.inodes.count = some (newInode fs.inodes.count mode) :=
      Store.read_add_count
    simp only [withInode, Store.count_add] at countLater
    refine ⟨changed, ?_, flatLater, by rw [countLater, length_cons]; omega⟩
    simp only [withInode, Store.count_add] at later
    refine .bind (inodeNew_flat flat roomHere (granting _) mode) ?_
    refine .bind (.demand reading) ?_
    exact .bind later .pure

/-- An object that is not in the table stays out of it. -/
theorem inodeNews_not_holds
    {idata : Nat} (earlier : idata < fs.inodes.count) (absent : ¬ Holds idata fs.tree) :
    Ensures (inodeNews machine modes) fs fun _ changed =>
      ¬ Holds idata changed.tree := by
  induction modes generalizing fs with
  | nil =>
    rw [inodeNews, ensures_pure]
    exact absent
  | cons mode rest ih =>
    refine inodeNew_spec.bind ?_ ?_
    · rintro _ _ ⟨untouched, _⟩
      rw [untouched]
      exact absent
    · rintro other _ ⟨_, _, ino, tree, kmallocs, inserted, rfl⟩
      simp only [continues_ok, ensures_bind, ensures_demand]
      intro inode reading
      have stillAbsent : ¬ Holds idata tree := by
        intro held
        unfold newLeaf at inserted
        split at inserted
        · cases inserted
        · rename_i res searched setting
          have kept : Holds idata searched := by
            split at inserted
            · cases inserted
              exact held
            · exact growTable_holds inserted held
          rcases setLeaf_holds setting kept with same | older
          · omega
          · exact absent older
      refine (ih ?_ stillAbsent).cases (fun _ _ held => held) ?_
      · simp only [Store.count_add]
        omega
      · intro later final held
        simpa only [continues_ok, ensures_pure] using held

/-- The inode that finds a flat table full is not stored. -/
theorem inodeNews_overflow (flat : FlatMount fs) (overflow : 64 < fs.inodes.count + modes.length) :
    Ensures (inodeNews machine modes) fs fun outcome changed =>
      ∀ made, outcome = .ok made → 64 ∈ made.map Prod.snd ∧ ¬ Holds 64 changed.tree := by
  induction modes generalizing fs with
  | nil =>
    have fits := flat.fits
    simp only [length_nil] at overflow
    omega
  | cons mode rest ih =>
    simp only [length_cons] at overflow
    refine inodeNew_grown.bind (fun _ _ _ => nofun) ?_
    rintro _ changed ⟨rfl, ino, grown⟩
    simp only [continues_ok, ensures_bind, ensures_demand]
    intro inode reading
    rcases lt_or_ge fs.inodes.count 64 with room | full
    · obtain ⟨_, rfl⟩ := grown_flat flat room grown
      refine (ih (withInode_flat room _ _) ?_).cases (fun _ _ _ => nofun) ?_
      · simp only [withInode, Store.count_add]
        omega
      · intro made final later
        rw [continues_ok, ensures_pure]
        rintro _ ⟨rfl⟩
        obtain ⟨member, absent⟩ := later made rfl
        exact ⟨mem_cons_of_mem _ member, absent⟩
    · have count : fs.inodes.count = 64 := le_antisymm flat.fits full
      have absent : ¬ Holds 64 changed.tree := by
        cases grown with
        | intro granted inserted =>
          intro held
          have length : (List.range fs.inodes.count).length = 64 := by simp [count]
          rw [flat.tree, ← length] at inserted
          unfold newLeaf at inserted
          rw [flatTable, setLeaf, if_neg (by simp)] at inserted
          have member := holds_flatTable_iff.mp (growTable_holds inserted held)
          simp [count] at member
      have present : 64 < changed.inodes.count := by
        cases grown
        simp [count]
      refine (inodeNews_not_holds present absent).cases (fun _ _ _ => nofun) ?_
      intro made final later
      rw [continues_ok, ensures_pure]
      rintro _ ⟨rfl⟩
      exact ⟨by simp [count], later⟩

/-- The mount `ramfs_data_new` makes: `theInvalidInode` is in slot zero. -/
def dataMount (memory : PageMemory) : Mount :=
  { blank memory with tree := flatTable 64 [0], kmallocs := 2 }

theorem dataNew_spec {memory : PageMemory} :
    Ensures (dataNew machine) (blank memory) fun outcome changed =>
      outcome = .ok ⟨⟩ → changed = dataMount memory := by
  unfold dataNew
  simp only [ensures_bind, ensures_kmalloc, continues_ok, ensures_failIf,
    continues_error, ensures_demand, reduceCtorEq, false_implies, implies_true, true_and]
  rintro _ _ ⟨index, tree⟩ stored
  have treeEq : tree = flatTable 64 [0] := by
    cases stored.symm
    rfl
  subst treeEq
  rw [ensures_update]
  exact fun _ => rfl

theorem dataMount_flat (memory : PageMemory) : FlatMount (dataMount memory) where
  inhabited := Nat.one_pos
  fits := show 1 ≤ 64 by decide
  tree := rfl

theorem tableCorrect_flat {made : List (Nat × Nat)} (flat : FlatMount fs)
    (madeEq : made = (List.range' 1 (fs.inodes.count - 1)).map fun number => (number, number)) :
    TableCorrect fs made := by
  have numbers : made.map Prod.fst = List.range' 1 (fs.inodes.count - 1) := by
    rw [madeEq, map_map]
    exact map_id _
  refine ⟨?_, ?_, ?_, ?_⟩
  · intro entry member
    have number := mem_map_of_mem (f := Prod.fst) member
    rw [numbers, mem_range'_1] at number
    omega
  · rw [numbers]
    exact nodup_range'
  · intro entry member
    rw [madeEq] at member
    obtain ⟨number, inside, rfl⟩ := mem_map.mp member
    rw [mem_range'_1] at inside
    rw [getIndex_flat flat, if_pos (by omega)]
  · intro number nonzero _ absent
    rw [numbers, mem_range'_1] at absent
    rw [getIndex_flat flat, if_neg (by omega)]

/-- More than 63 new inodes leave a table that is not right. -/
theorem not_tableCorrect_of_overflow
    {made : List (Nat × Nat)} {changed : Mount} (flat : FlatMount fs)
    (overflow : 64 < fs.inodes.count + modes.length)
    (returned : Returns (inodeNews machine modes) fs (.ok made) changed) :
    ¬ TableCorrect changed made := by
  intro correct
  obtain ⟨member, absent⟩ := (inodeNews_overflow flat overflow).returns _ _ returned.run made rfl
  obtain ⟨entry, inside, entryEq⟩ := mem_map.mp member
  have held := getIndex_holds (correct.found entry inside)
  rw [entryEq] at held
  exact absent held

/--
The inode table is right after a number of new inodes exactly when there are
at most 63 of them.
-/
theorem inode_table_correct_iff {machine : Machine} {memory : PageMemory} {fs : Mount}
    (granting : ∀ call, machine.grants call = true)
    (mounted : Returns (dataNew machine) (blank memory) (.ok ⟨⟩) fs) (modes : List UInt32) :
    (∃ made changed,
      Returns (inodeNews machine modes) fs (.ok made) changed ∧ TableCorrect changed made) ↔
      modes.length ≤ 63 := by
  have fsEq := dataNew_spec.returns _ _ mounted.run rfl
  have flat : FlatMount fs := fsEq ▸ dataMount_flat memory
  have count : fs.inodes.count = 1 := by
    rw [fsEq]
    rfl
  constructor
  · rintro ⟨made, changed, returned, correct⟩
    by_contra tooMany
    exact not_tableCorrect_of_overflow flat (by omega) returned correct
  · intro few
    obtain ⟨changed, returned, flatChanged, countChanged⟩ :=
      inodeNews_flat granting flat (show fs.inodes.count + modes.length ≤ 64 by omega)
    refine ⟨_, changed, returned, tableCorrect_flat flatChanged ?_⟩
    rw [count, countChanged, count]
    simp

/-- A machine whose heap never runs out, and without pages for files. -/
def generous : Machine where
  grants := fun _ => true
  pages := fun _ => 0

/-- Kernel memory full of zeros. -/
def zeroMemory : PageMemory where
  bytes := fun _ => 0
  granted := 0

theorem returns_dataNew :
    Returns (dataNew generous) (blank zeroMemory) (.ok ⟨⟩) (dataMount zeroMemory) :=
  ⟨rfl⟩

theorem inode_table_correct_sample :
    (∀ call, generous.grants call = true) ∧
      Returns (dataNew generous) (blank zeroMemory) (.ok ⟨⟩) (dataMount zeroMemory) ∧
      ∃ made changed,
        Returns (inodeNews generous [sIfreg, sIfdir]) (dataMount zeroMemory) (.ok made) changed ∧
          TableCorrect changed made :=
  ⟨fun _ => rfl, returns_dataNew,
    (inode_table_correct_iff (fun _ => rfl) returns_dataNew [sIfreg, sIfdir]).mpr (by decide)⟩

/-- The calls return, whatever the table looks like afterwards. -/
def allMade (machine : Machine) (modes : List UInt32) (fs : Mount) : Bool :=
  match inodeNews machine modes fs with
  | some (.ok _, _) => true
  | _ => false

theorem returns_of_allMade (returned : allMade machine modes fs = true) :
    ∃ made changed, Returns (inodeNews machine modes) fs (.ok made) changed := by
  unfold allMade at returned
  split at returned
  · rename_i made changed run
    exact ⟨made, changed, ⟨run⟩⟩
  · cases returned

/-- The sixty-fourth inode is given a number that finds nothing. -/
theorem inode_table_incorrect :
    ∃ (machine : Machine) (memory : PageMemory) (fs changed : Mount)
      (modes : List UInt32) (made : List (Nat × Nat)),
      (∀ call, machine.grants call = true) ∧ Returns (dataNew machine) (blank memory) (.ok ⟨⟩) fs ∧
        Returns (inodeNews machine modes) fs (.ok made) changed ∧ ¬ TableCorrect changed made := by
  obtain ⟨made, changed, returned⟩ :=
    returns_of_allMade
      (show allMade generous (List.replicate 64 sIfreg) (dataMount zeroMemory) = true by
        decide +kernel)
  exact ⟨generous, zeroMemory, dataMount zeroMemory, changed,
    List.replicate 64 sIfreg, made, fun _ => rfl, returns_dataNew, returned,
    not_tableCorrect_of_overflow (dataMount_flat zeroMemory) (by decide) returned⟩

end Cosec.Fs.InodeNumbers
