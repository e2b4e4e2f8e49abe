import Mathlib.Data.List.FinRange
import Cosec.Fs.FailedCalls

/-!
# Counters of open descriptors

`sys_open` and `sys_close` change `i_nfds` in a copy of the inode, and
`vfs_inode_set` writes back another copy, the one it has read itself.  So the
counter of every inode is zero in every run: an open that succeeds breaks the
accounting, and an unlink then frees the inode under the descriptor.
-/

namespace Cosec.Fs.OpenCounts

open Fs.CallRuns Fs.FailedCalls Fs.FileCalls Fs.InodeNumbers Fs.MountSteps Fs.PathLookup Fs.Ramfs
open Fs.Vfs Fs.VfsSteps Lib.Commands Lib.ObjectStore Lib.Transition Libc.ErrorNumbers Libc.Strings
open List

variable {machine : Machine} {devices : Devices} {fs changed : Mount} {world : World}

/-! ## Open slots -/

/-- A slot that `sys_open` has filled with an inode number. -/
def openOn (process : Process) (ino : Nat) (fd : Fin 20) : Bool :=
  (process.fds fd).viaOpen && (process.fds fd).ino == ino

/-- The number of slots, of all processes, that are open on a number. -/
def openSlots (processes : List Process) (ino : Nat) : Nat := (processes.map fun process =>
    (List.finRange 20).countP (openOn process ino)).sum

theorem openSlots_eq_zero {processes : List Process} (closed : NoneOpen processes) (ino : Nat) :
    openSlots processes ino = 0 := by
  unfold openSlots
  rw [sum_eq_zero_iff]
  intro slots member
  obtain ⟨process, inside, rfl⟩ := mem_map.mp member
  rw [countP_eq_zero]
  intro fd _
  simp [openOn, closed process inside fd]

variable {fd : Fin 20}

/--
The counter of every inode that was never freed is the number of slots that
are open on it, and no slot is open on an inode that was freed.
-/
structure OpenCountsExact (world : World) : Prop where
  counted :
    ∀ ino idata inode, idataByInode world.fs ino = some (some (idata, inode)) →
      world.fs.inodes.Live idata → inode.nfds = openSlots world.processes ino
  unfreed :
    ∀ process ∈ world.processes, ∀ ino fd, openOn process ino fd = true →
      ∀ idata inode, idataByInode world.fs ino = some (some (idata, inode)) →
        world.fs.inodes.Live idata

/-- Every counter of openings is zero. -/
def NoneCounted (fs : Mount) : Prop :=
  ∀ idata inode, fs.inodes.read idata = some inode → inode.nfds = 0

theorem NoneCounted.change (noneCounted : NoneCounted fs) (idata : Nat) {edit : Inode → Inode}
    (kept : ∀ inode, (edit inode).nfds = inode.nfds) :
    NoneCounted { fs with inodes := fs.inodes.change idata edit } := by
  intro other inode reading
  obtain ⟨before, beforeReading, rfl | rfl⟩ := read_change_inode reading
  · exact noneCounted other inode beforeReading
  · rw [kept]
    exact noneCounted other before beforeReading

theorem NoneCounted.elementary (noneCounted : NoneCounted fs) (step : Elementary fs changed) :
    NoneCounted changed := by
  rcases step with quiet | freeing
  · cases quiet with
    | inodeNew fresh inserted =>
      intro idata inode reading
      simp only [Store.read_add] at reading
      split at reading
      · cases reading
        exact fresh.nfds
      · exact noneCounted idata inode reading
    | edit idata kept => exact noneCounted.change idata kept.nfds
    | attach idata present => exact noneCounted.change idata fun _ => rfl
    | kmalloc | memory | directoryNew | insert | delete => exact noneCounted
  · cases freeing with
    | inode idata =>
      intro other inode reading
      rw [Store.read_free] at reading
      exact noneCounted other inode reading
    | directory => exact noneCounted

theorem NoneCounted.eventually (noneCounted : NoneCounted fs) (steps : Eventually fs changed) :
    NoneCounted changed := by
  induction steps with
  | refl => exact noneCounted
  | tail _ step ih => exact ih.elementary step

def CountersZero (world : World) : Prop := NoneCounted world.fs

theorem countersZero_start (started : (kernel machine devices).start world) :
    CountersZero world := by
  obtain ⟨⟨memory, mounted⟩, _⟩ := started
  obtain ⟨middle, entries, isMounted⟩ := readSuperblock_spec.returns _ _ mounted.run rfl
  have base : NoneCounted (dataMount memory) := by
    intro idata inode reading
    have present := Store.lt_count_of_read reading
    obtain rfl : idata = 0 := by
      simpa [dataMount, blank, Store.empty, Store.count, Store.add] using present
    cases reading
    rfl
  have later := base.eventually (Quietly.eventually (mounted_quietly entries).1)
  unfold CountersZero
  rw [isMounted]
  exact later

/-- In every run, whatever its calls, every counter of openings is zero. -/
theorem reached_countersZero
    {allowed : World → Call → Prop} (reached : (kernel machine devices).Reached allowed world) :
    CountersZero world := by
  refine System.Reached.invariant ?_ ?_ reached
  · exact fun _ => countersZero_start
  · rintro source call target earlier _ ⟨outcome, returned⟩
    exact NoneCounted.eventually earlier (callOf_eventually.returns _ _ returned)

/-! ## Opens that are refused -/

/-- The file of an open with `O_CREAT` cannot be made. -/
def CreationRefused (machine : Machine) (fs : Mount) (path : CString) (umask : UInt32) : Prop :=
  MknodRefused machine fs path (sIfreg ||| umask) ∨
    (fs.inodes.count < 64 ∧ LeavesTrace machine fs (.mknod path (sIfreg ||| umask) 0))

/-- Why `sys_open` returns an error, in the world before the call. -/
inductive OpenRefused
    (machine : Machine) (world : World) (pid : Nat) (path : CString) (flags : UInt32) : Prop
  | noMode (mode : accessMode flags = 0)
  | ambiguous (several : Ambiguous (accessMode flags))
  | noSlot {process : Process}
      (running : world.processes[pid]? = some process)
      (full : allocFd process = none)
  | notFound {error : Errno}
      (fails : LookFails world.fs path error)
      (final : error ≠ .enoent ∨ flags &&& oCreat = 0)
  | notCreated {process : Process}
      (running : world.processes[pid]? = some process)
      (fails : LookFails world.fs path .enoent)
      (refused : CreationRefused machine world.fs path process.umask)

variable {path : CString}

theorem not_lookFails_of_looked {ino : Nat} {error : Errno} (looked : Looked fs path ino) :
    ¬ LookFails fs path error := by
  obtain ⟨fspath, mount, found⟩ := looked
  rintro (unmounted | ⟨other, otherMount, failed⟩)
  · cases mount.symm.trans unmounted
  · cases mount.symm.trans otherMount
    cases found.symm.trans failed

theorem lookFails_unique
    {error other : Errno} (fails : LookFails fs path error) (otherFails : LookFails fs path other) :
    error = other := by
  rcases fails with unmounted | ⟨fspath, mount, failed⟩ <;>
    rcases otherFails with otherUnmounted | ⟨otherPath, otherMount, again⟩
  · cases unmounted.symm.trans otherUnmounted
    rfl
  · cases unmounted.symm.trans otherMount
  · cases mount.symm.trans otherUnmounted
  · cases mount.symm.trans otherMount
    cases failed.symm.trans again
    rfl

theorem not_created_of_refused {umask : UInt32} (numbered : fs.inodes.count ≤ 64 → Numbered fs)
    (refused : CreationRefused machine fs path umask) :
    createFile machine path umask fs ≠ some (.ok ⟨⟩, changed) := by
  intro made
  rcases refused with refused | ⟨room, granted, _, _, _, parent, short, fault⟩
  · rcases vfsMknod_spec.returns _ _ made with
      ⟨_, impossible, _⟩ | ⟨_, _, _, _, _, parent, _, grown, _⟩
    · cases impossible
    · cases grown with
      | intro granted inserted =>
        rcases refused with parentless | refusedMemory
        · exact parentless _ _ _ parent
        · cases granted.symm.trans refusedMemory
  · have failed : Fails (createFile machine path umask) fs :=
      fails_vfsMknod (numbered (le_of_lt room)) room granted parent short fault
    obtain ⟨error, failedMount, returned⟩ := failed
    cases returned.run.symm.trans made

/-- An open that is refused returns no descriptor. -/
theorem not_opened_of_refused
    {pid : Nat} {flags : UInt32} (numbered : world.fs.inodes.count ≤ 64 → Numbered world.fs)
    (refused : OpenRefused machine world pid path flags) {after : World} :
    sysOpen machine devices pid path flags world ≠ some (.ok fd, after) := by
  intro returned
  obtain ⟨process, ino, middle, checks, located, _⟩ := sysOpen_spec.returns _ _ returned
  cases refused with
  | noMode mode => exact checks.mode mode
  | ambiguous several => exact checks.single several
  | noSlot running full =>
    cases checks.running.symm.trans running
    cases checks.free.symm.trans full
  | notFound fails final =>
    cases located with
    | found looked => exact not_lookFails_of_looked looked fails
    | created creating missing made looked =>
      rcases missing with looked | missing
      · exact not_lookFails_of_looked looked fails
      · rcases final with otherError | noCreate
        · exact otherError (lookFails_unique fails missing)
        · exact creating noCreate
  | notCreated running fails refused =>
    cases located with
    | found looked => exact not_lookFails_of_looked looked fails
    | created creating missing made looked =>
      cases checks.running.symm.trans running
      exact not_created_of_refused numbered refused made

/-- An open that succeeds makes the accounting wrong. -/
theorem not_exact_of_opened {pid : Nat} {flags : UInt32} (zero : CountersZero world) {after : World}
    (returned : sysOpen machine devices pid path flags world = some (.ok fd, after)) :
    ¬ OpenCountsExact after := by
  obtain ⟨_, ino, middle, _, located, opened⟩ := sysOpen_spec.returns _ _ returned
  have zeroAfter : NoneCounted after.fs :=
    NoneCounted.eventually zero (located.openFailed.eventually.trans opened.setBack.eventually)
  obtain ⟨idata, inode, found⟩ := opened.resolves
  have foundAfter : idataByInode after.fs ino = some (some (idata, inode)) := by
    rcases opened.setBack with unchanged | ⟨other, content, _, _, _, freed_⟩
    · rwa [unchanged]
    · rw [freed_]
      simpa only [idataByInode, freed, Store.read_free] using found
  obtain ⟨process, running, filled, viaOpen⟩ := opened.slot
  have member := mem_of_getElem? running
  have isOpen : openOn process ino fd = true := by simp [openOn, filled, viaOpen]
  intro exact_
  have live := exact_.unfreed process member ino fd isOpen _ _ foundAfter
  have counts := exact_.counted ino idata inode foundAfter live
  rw [zeroAfter idata inode (read_of_idataByInode foundAfter)] at counts
  have some_ := countP_pos_iff.mpr ⟨fd, mem_finRange fd, isOpen⟩
  have all : _ ≤ openSlots after.processes ino := le_sum_of_mem (mem_map_of_mem member)
  exact ne_of_lt (lt_of_lt_of_le some_ all) counts

/-! ## Runs -/

/-- The calls whose runs are considered. -/
def DescriptorCall (_ : World) : Call → Prop
  | .openFile .. | .close .. | .read .. | .write .. | .unlink ..
  | .rename .. => True
  | .mkdir .. | .mknod .. | .hardlink .. => False

/-- Any call, but an open only when it is refused. -/
def OpensRefused (machine : Machine) (world : World) : Call → Prop
  | .openFile pid path flags => OpenRefused machine world pid path.chars flags
  | _ => True

theorem reached_noneOpen (reached : (kernel machine devices).Reached (OpensRefused machine) world) :
    NoneOpen world.processes := by
  induction reached with
  | start initial => exact initial.2
  | @step source target call earlier permitted taken closed =>
    obtain ⟨outcome, returned⟩ := taken
    cases call with
    | mkdir | mknod | hardlink | unlink | rename =>
      rw [processes_of_onMount returned]
      exact closed
    | openFile pid path flags =>
      have kept :
          Ensures (sysOpen machine devices pid path.chars flags) source
            fun _ changed => NoneOpen changed.processes := by
        refine ⟨fun outcome changed opening => ?_⟩
        cases outcome with
        | ok fd =>
          have numbered := reached_numberedWhileFlat earlier
          exact absurd opening (not_opened_of_refused numbered permitted)
        | error error => exact (sysOpen_spec.returns _ _ opening).2 closed
      exact (ensures_dropValue kept).returns _ _ returned
    | close pid fd => exact (sysClose_spec.returns _ _ returned).1 closed
    | read pid fd answer buf count =>
      exact (ensures_dropValue (sysRead_spec.mono fun _ _ kept =>
        kept.1 closed)).returns _ _ returned
    | write pid fd answer buf =>
      exact (ensures_dropValue (sysWrite_spec.mono fun _ _ kept =>
        kept.1 closed)).returns _ _ returned

/--
The accounting is exact in every run whose opens are all refused, and the
first open that succeeds makes it wrong.
-/
theorem open_counts_exact {machine : Machine} {devices : Devices} {world : World}
    (reached : (kernel machine devices).Reached (OpensRefused machine) world) :
    OpenCountsExact world ∧
      ∀ pid path flags fd after,
        sysOpen machine devices pid path flags world = some (.ok fd, after) →
          ¬ OpenCountsExact after := by
  have zero := reached_countersZero reached
  have closed := reached_noneOpen reached
  refine ⟨⟨?_, ?_⟩, ?_⟩
  · intro ino idata inode found _
    rw [openSlots_eq_zero closed, zero idata inode (read_of_idataByInode found)]
  · intro process member ino fd isOpen
    simp [openOn, closed process member fd] at isOpen
  · intro pid path flags fd after returned
    exact not_exact_of_opened zero returned

/-- `sys_open` can create a file in the root directory. -/
def creates (world : World) : Bool :=
  match sysOpen generous noDevices 0 pathA.chars (oRdwr ||| oCreat) world with
  | some (.ok _, _) => true
  | _ => false

theorem open_counts_exact_sample :
    ∃ world,
      (kernel generous noDevices).Reached (OpensRefused generous) world ∧ OpenCountsExact world ∧
        ∃ fd after,
          sysOpen generous noDevices 0 pathA.chars (oRdwr ||| oCreat) world = some (.ok fd, after) ∧
          ¬ OpenCountsExact after := by
  obtain ⟨world, reached, creating⟩ : ∃ world,
      (kernel generous noDevices).Reached (OpensRefused generous) world ∧ creates world = true := by
    refine exists_sampleRun [.openFile 0 pathA 0] ?_ (by decide +kernel)
    intro call member world _
    rw [mem_singleton.mp member]
    exact .noMode rfl
  obtain ⟨exact_, breaks⟩ := open_counts_exact reached
  unfold creates at creating
  split at creating
  · rename_i fd after returned
    exact ⟨world, reached, exact_, fd, after, returned, breaks _ _ _ _ _ returned⟩
  · cases creating

/-- Two files that are created and stay open, and one of them unlinked. -/
def openUnlinked : List Call :=
  [.openFile 0 pathA (oRdwr ||| oCreat), .openFile 0 pathB (oRdwr ||| oCreat), .unlink pathA]

/-- The descriptors of a number, the counter of its inode, and its frees. -/
def accountOf (world : World) (ino : Nat) : Option (Nat × Nat × Nat) :=
  match idataByInode world.fs ino with
  | some (some (idata, inode)) =>
    some (openSlots world.processes ino, inode.nfds, world.fs.inodes.frees idata)
  | _ => none

/--
An inode with one open descriptor counts none, and another inode with one
open descriptor was freed.
-/
theorem open_counts_not_exact :
    ∃ (machine : Machine) (devices : Devices) (world : World),
      (kernel machine devices).Reached DescriptorCall world ∧ accountOf world 3 = some (1, 0, 0) ∧
        accountOf world 2 = some (1, 0, 1) ∧ ¬ OpenCountsExact world := by
  obtain ⟨world, reached, miscounted, freedOpen⟩ : ∃ world,
      (kernel generous noDevices).Reached DescriptorCall world ∧
        accountOf world 3 = some (1, 0, 0) ∧ accountOf world 2 = some (1, 0, 1) :=
    exists_sampleRun openUnlinked (by simp [openUnlinked, DescriptorCall]) (by decide +kernel)
  refine ⟨generous, noDevices, world, reached, miscounted, freedOpen, ?_⟩
  intro exact_
  unfold accountOf at miscounted
  split at miscounted
  · rename_i idata inode found
    simp only [Option.some.injEq, Prod.mk.injEq] at miscounted
    obtain ⟨slots, counter, frees⟩ := miscounted
    have live : world.fs.inodes.Live idata :=
      ⟨Store.lt_count_of_read (read_of_idataByInode found), frees⟩
    have equal := exact_.counted 3 idata inode found live
    rw [slots, counter] at equal
    cases equal
  · cases miscounted

end Cosec.Fs.OpenCounts
