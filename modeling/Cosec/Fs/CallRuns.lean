import Cosec.Fs.FileCalls
import Cosec.Fs.PathLookup
import Cosec.Lib.Transition

/-!
# Runs of file system calls

A run begins with a mount that `ramfs_read_superblock` has made and with
processes that have opened nothing.  A step is a call that returns, with or
without an error.  The system calls are specified the way the operations of
the virtual file system are, and every run is made of elementary changes of
the mount.
-/

namespace Cosec.Fs.CallRuns

open Fs.FileBlocks Fs.FileCalls Fs.InodeNumbers Fs.MountSteps Fs.PathLookup Fs.Ramfs Fs.Vfs
open Fs.VfsSteps Lib.Commands Lib.Commands.Command Lib.ObjectStore Lib.Transition Libc.ErrorNumbers
open Libc.Strings List

variable {machine : Machine} {devices : Devices} {world : World}

/-! ## Slots -/

/-- A world with one slot of one process edited. -/
def slotEdited (world : World) (pid : Nat) (fd : Fin 20) (edit : Filedescr → Filedescr) : World :=
  { world with
    processes := world.processes.modify pid fun process =>
        { process with
          fds := fun slot =>
            if slot = fd then edit (process.fds slot)
            else process.fds slot } }

variable {pid : Nat}

theorem slotEdited_slot {process : Process} (running : world.processes[pid]? = some process)
    (fd : Fin 20) (edit : Filedescr → Filedescr) :
    ∃ edited,
      (slotEdited world pid fd edit).processes[pid]? = some edited ∧
        edited.fds fd = edit (process.fds fd) := by
  refine
    ⟨{ process with
        fds := fun slot =>
          if slot = fd then edit (process.fds slot)
          else process.fds slot }, ?_, if_pos rfl⟩
  simp only [slotEdited, getElem?_modify, running, if_true]
  rfl

@[simp]
theorem ensures_editSlot {post : Except Errno PUnit → World → Prop} {fd : Fin 20}
    {edit : Filedescr → Filedescr} :
    Ensures (editSlot pid fd edit) world post ↔ post (.ok ⟨⟩) (slotEdited world pid fd edit) :=
  ensures_of_eq rfl

variable {Value : Type}

@[simp]
theorem ensures_onMount {command : MountCommand Value} {post : Except Errno Value → World → Prop} :
    Ensures (onMount command) world post ↔
      Ensures command world.fs (fun outcome fs => post outcome { world with fs := fs }) :=
  ensures_within

variable {fd : Int}

theorem returns_slotOr {bad : Errno} {slot : Fin 20} (inRange : filedescrForPid fd = some slot) :
    Returns (slotOr bad fd) world (.ok slot) world := by
  apply Returns.consult
  rw [inRange]

theorem returns_currentProc {process : Process} (running : world.processes[pid]? = some process) :
    Returns (currentProc pid) world (.ok process) world :=
  .demand running

variable {changed : Mount}

theorem returns_onMount {command : MountCommand Value} {outcome : Except Errno Value}
    (returned : Returns command world.fs outcome changed) :
    Returns (onMount command) world outcome { world with fs := changed } :=
  ⟨by simp only [onMount, within, returned.run, Option.map_some]⟩

section

variable {command : MountCommand Value} {outcome : Except Errno Value} {changed : World}
  (returned : onMount command world = some (outcome, changed))

include returned

/-- A command on the mount has run on the mount. -/
theorem run_of_onMount : command world.fs = some (outcome, changed.fs) := by
  obtain ⟨pair, run, equal⟩ := Option.map_eq_some_iff.mp returned
  cases equal
  exact run

theorem processes_of_onMount : changed.processes = world.processes := by
  obtain ⟨pair, run, equal⟩ := Option.map_eq_some_iff.mp returned
  cases equal
  rfl

end

/-- No slot was filled by `sys_open`. -/
def NoneOpen (processes : List Process) : Prop :=
  ∀ process ∈ processes, ∀ fd, (process.fds fd).viaOpen = false

theorem NoneOpen.slotEdited {fd : Fin 20} {edit : Filedescr → Filedescr}
    (noneOpen : NoneOpen world.processes)
    (kept : ∀ filedes, filedes.viaOpen = false → (edit filedes).viaOpen = false) :
    NoneOpen (slotEdited world pid fd edit).processes := by
  intro process member slot
  obtain ⟨index, found⟩ := mem_iff_getElem?.mp member
  simp only [CallRuns.slotEdited, getElem?_modify] at found
  obtain ⟨before, beforeFound, equal⟩ := Option.map_eq_some_iff.mp found
  have beforeClosed := noneOpen before (mem_of_getElem? beforeFound)
  rw [← equal]
  split
  · simp only
    split
    · exact kept _ (beforeClosed slot)
    · exact beforeClosed slot
  · exact beforeClosed slot

/-! ## Opening -/

/-- What `sys_open` checks about its flags and the process. -/
structure OpenChecks
    (world : World) (pid : Nat) (flags : UInt32) (process : Process) (fd : Fin 20) : Prop where
  mode : accessMode flags ≠ 0
  single : ¬ Ambiguous (accessMode flags)
  running : world.processes[pid]? = some process
  free : allocFd process = some fd

/-- The call that creates the file of `sys_open`. -/
abbrev createFile (machine : Machine) (path : CString) (umask : UInt32) : MountCommand PUnit :=
  vfsMknod machine path (sIfreg ||| umask) 0

/-- The inode to open, found or created, and the mount it is in. -/
inductive Located
    (machine : Machine) (path : CString) (flags umask : UInt32) (fs : Mount) : Nat → Mount → Prop
  | found {ino : Nat} (looked : Looked fs path ino) : Located machine path flags umask fs ino fs
  | created {ino : Nat} {middle : Mount}
      (creating : flags &&& oCreat ≠ 0)
      (missing : Looked fs path 0 ∨ LookFails fs path .enoent)
      (made : createFile machine path umask fs = some (.ok ⟨⟩, middle))
      (looked : Looked middle path ino) :
      Located machine path flags umask fs ino middle

/-- An open that fails leaves the mount, or an attempt to create a file. -/
def OpenFailed (machine : Machine) (path : CString) (flags : UInt32) (fs changed : Mount) : Prop :=
  changed = fs ∨
    (flags &&& oCreat ≠ 0 ∧
      ∃ umask outcome, createFile machine path umask fs = some (outcome, changed))

/-- The inode is freed when it has neither links nor openings. -/
def SetBack (ino : Nat) (fs changed : Mount) : Prop :=
  changed = fs ∨
    ∃ idata inode, idataByInode fs ino = some (some (idata, inode)) ∧
      inode.nlinks = 0 ∧ inode.nfds = 0 ∧ changed = freed fs idata inode

/-- The answer of the first lookup of `sys_open`. -/
def FirstFound (fs : Mount) (path : CString) (flags : UInt32) (found : Nat) : Prop :=
  Looked fs path found ∨ (found = 0 ∧ flags &&& oCreat ≠ 0 ∧ LookFails fs path .enoent)

variable {path : CString} {flags : UInt32}

theorem openLookup_spec :
    Ensures (openLookup path flags) world fun outcome changed =>
      changed = world ∧ match outcome with
        | .ok found => FirstFound world.fs path flags found
        | .error error => LookFails world.fs path error := by
  unfold openLookup
  simp only [ensures_handle, ensures_onMount]
  refine vfsLookup_spec.mono ?_
  rintro outcome _ ⟨rfl, looked⟩
  cases outcome with
  | ok ino => exact ⟨rfl, Or.inl looked⟩
  | error error =>
    simp only [recovers_error, ensures_ite, ensures_pure, ensures_fail]
    refine ⟨?_, fun _ => ⟨trivial, looked⟩⟩
    rintro ⟨rfl, creating⟩
    exact ⟨trivial, Or.inr ⟨rfl, creating, looked⟩⟩

theorem openInode_spec {umask : UInt32} {found : Nat} (first : FirstFound world.fs path flags found)
    : Ensures (openInode machine path flags umask found) world fun outcome changed =>
        changed = { world with fs := changed.fs } ∧ match outcome with
          | .ok ino => Located machine path flags umask world.fs ino changed.fs
          | .error _ =>
            OpenFailed machine path flags world.fs changed.fs := by
  unfold openInode
  simp only [ensures_ite, ensures_pure]
  constructor
  · rintro ⟨rfl, creating⟩
    have missing := first.imp_right fun absent => absent.2.2
    unfold openCreate
    simp only [ensures_bind, ensures_onMount]
    refine ⟨fun outcome middle made => ?_⟩
    cases outcome with
    | error error => exact ⟨rfl, Or.inr ⟨creating, umask, _, made⟩⟩
    | ok done =>
      simp only [continues_ok, ensures_handle, ensures_onMount]
      refine vfsLookup_spec.mono ?_
      rintro outcome _ ⟨rfl, looked⟩
      cases outcome with
      | ok ino => exact ⟨rfl, .created creating missing made looked⟩
      | error error =>
        simp only [recovers_error, ensures_fail]
        exact ⟨trivial, Or.inr ⟨creating, umask, _, made⟩⟩
  · intro notCreating
    rcases first with looked | ⟨isZero, creating, _⟩
    · exact ⟨trivial, .found looked⟩
    · exact absurd ⟨isZero, creating⟩ notCreating

variable {fs : Mount}

theorem Located.openFailed {umask : UInt32} {middle : Mount} {ino : Nat}
    (located : Located machine path flags umask fs ino middle) :
    OpenFailed machine path flags fs middle := by
  cases located with
  | found looked => exact Or.inl rfl
  | created creating missing made looked => exact Or.inr ⟨creating, _, _, made⟩

/-- The end of an open: the inode is set back, and the slot is filled. -/
structure Opened
    (pid : Nat) (fd : Fin 20) (ino : Nat) (middle : Mount) (changed : World) : Prop where
  resolves : ∃ idata inode, idataByInode middle ino = some (some (idata, inode))
  setBack : SetBack ino middle changed.fs
  slot :
    ∃ process,
      changed.processes[pid]? = some process ∧
        (process.fds fd).ino = ino ∧ (process.fds fd).viaOpen = true

theorem sysOpen_spec :
    Ensures (sysOpen machine devices pid path flags) world fun outcome changed =>
        match outcome with
        | .ok fd =>
          ∃ process ino middle,
            OpenChecks world pid flags process fd ∧
              Located machine path flags process.umask world.fs ino middle ∧
              Opened pid fd ino middle changed
        | .error _ =>
          OpenFailed machine path flags world.fs changed.fs ∧
            (NoneOpen world.processes → NoneOpen changed.processes) := by
  unfold sysOpen
  simp only [ensures_bind, ensures_failIf, continues_error, continues_ok]
  refine ⟨fun _ => ⟨Or.inl rfl, id⟩, fun mode => ⟨fun _ => ⟨Or.inl rfl, id⟩, fun single => ?_⟩⟩
  refine openLookup_spec.mono ?_
  rintro outcome world ⟨rfl, first⟩
  cases outcome with
  | error error => exact ⟨Or.inl rfl, id⟩
  | ok found =>
    simp only [continues_ok, ensures_bind, currentProc, ensures_demand, ensures_consult]
    intro process running outcome allocated
    cases free : allocFd process with
    | none =>
      rw [free] at allocated
      cases allocated
      exact ⟨Or.inl rfl, id⟩
    | some fd =>
      rw [free] at allocated
      cases allocated
      have checks : OpenChecks world pid flags process fd := ⟨mode, single, running, free⟩
      simp only [continues_ok, ensures_bind, ensures_editSlot]
      have stillClosed : NoneOpen world.processes → NoneOpen (slotEdited world pid fd fun filedes =>
                { filedes with flags := flags, pos := 0 }).processes :=
        fun closed => closed.slotEdited fun _ => id
      refine Ensures.mono (openInode_spec first) ?_
      rintro outcome changed ⟨changedEq, ready⟩
      cases outcome with
      | error error =>
        rw [changedEq]
        exact ⟨ready, stillClosed⟩
      | ok ino =>
        simp only [continues_ok, ensures_bind, ensures_onMount,
          ensures_attempt, ensures_editSlot, ensures_pure,
          vfsInodeGet, inodeGet, ensures_idataOr, continues_error]
        refine ⟨fun _ => ?_, fun idata inode found => ?_⟩
        · rw [changedEq]
          exact ⟨ready.openFailed, stillClosed⟩
        · refine vfsInodeSet_spec.mono ?_
          intro outcome final setBack
          refine ⟨process, ino, changed.fs, checks, ready, ⟨idata, inode, found⟩, setBack, ?_⟩
          obtain ⟨before, beforeRunning, _⟩ := slotEdited_slot running fd fun filedes =>
              { filedes with flags := flags, pos := 0 }
          rw [changedEq]
          obtain ⟨after, afterRunning, filled⟩ :=
            slotEdited_slot beforeRunning fd fun filedes =>
              { filedes with
                pos := openPos devices inode flags
                sb := true
                ino := ino
                viaOpen := true }
          exact ⟨after, afterRunning, by rw [filled], by rw [filled]⟩

theorem sysClose_spec :
    Ensures (sysClose pid fd) world fun _ changed =>
      (NoneOpen world.processes → NoneOpen changed.processes) ∧
      (changed.fs = world.fs ∨
        ∃ slot process,
          filedescrForPid fd = some slot ∧ world.processes[pid]? = some process ∧
            SetBack (process.fds slot).ino world.fs changed.fs) := by
  unfold sysClose slotOr currentProc
  simp only [ensures_bind, ensures_consult]
  intro outcome slotFound
  cases inRange : filedescrForPid fd with
  | none =>
    rw [inRange] at slotFound
    cases slotFound
    exact ⟨id, Or.inl rfl⟩
  | some slot =>
    rw [inRange] at slotFound
    cases slotFound
    simp only [continues_ok, ensures_bind, ensures_demand, ensures_ite,
      ensures_undefined, implies_true, true_and, ensures_onMount,
      vfsInodeGet, inodeGet, ensures_idataOr, continues_error,
      ensures_pure, ensures_attempt, ensures_editSlot]
    intro process running _
    refine ⟨fun _ => ⟨id, Or.inl trivial⟩, fun idata inode _ => ?_⟩
    refine vfsInodeSet_spec.mono ?_
    intro outcome changed setBack
    refine ⟨fun closed => NoneOpen.slotEdited ?_ ?_, Or.inr ⟨slot, process, rfl, running, setBack⟩⟩
    · exact closed
    · exact fun _ _ => rfl

/-- What `sys_read` and `sys_write` have in common. -/
def slotTransfer {Value : Type} (pid : Nat) (fd : Int) (forbidden : UInt32)
    (command : Filedescr → MountCommand Value) (moved : Value → Nat) :
    WorldCommand Value := do
  let process ← currentProc pid
  let slot ← slotOr .einval fd
  let filedes := process.fds slot
  failIf (filedes.flags &&& forbidden ≠ 0) .ebadf
  if filedes.sb = false then
    undefined
  else
    let value ← onMount (command filedes)
    editSlot pid slot (advance (moved value))
    pure value

variable {answer : Except Errno Nat}

theorem sysRead_eq {buf : Nat → UInt8} {count : Nat} :
    sysRead devices answer pid fd buf count = slotTransfer pid fd oWronly (fun filedes =>
          vfsInodeRead devices answer filedes.ino filedes.pos buf count)
        Prod.fst :=
  rfl

theorem sysWrite_eq {buf : List UInt8} :
    sysWrite machine devices answer pid fd buf = slotTransfer pid fd oRdonly (fun filedes =>
          vfsInodeWrite machine devices answer filedes.ino filedes.pos buf)
        id :=
  rfl

/-- A transfer is refused, or it is the command and then the new position. -/
theorem ensures_slotTransfer {forbidden : UInt32} {command : Filedescr → MountCommand Value}
    {moved : Value → Nat} {post : Except Errno Value → World → Prop}
    (outOfRange : post (.error .einval) world)
    (refused :
      ∀ process slot, world.processes[pid]? = some process → filedescrForPid fd = some slot →
        (process.fds slot).flags &&& forbidden ≠ 0 → post (.error .ebadf) world)
    (performed :
      ∀ process slot, world.processes[pid]? = some process → filedescrForPid fd = some slot →
        (process.fds slot).sb = true →
          Ensures (command (process.fds slot)) world.fs fun outcome fs =>
              (∀ error, outcome = .error error → post (.error error) { world with fs := fs }) ∧
                ∀ value, outcome = .ok value →
                  post (.ok value)
                    (slotEdited { world with fs := fs } pid slot (advance (moved value)))) :
    Ensures (slotTransfer pid fd forbidden command moved) world post := by
  unfold slotTransfer slotOr currentProc
  simp only [ensures_bind, ensures_demand, continues_ok, ensures_consult]
  intro process running outcome slotFound
  cases inRange : filedescrForPid fd with
  | none =>
    rw [inRange] at slotFound
    cases slotFound
    exact outOfRange
  | some slot =>
    rw [inRange] at slotFound
    cases slotFound
    simp only [continues_ok, ensures_bind, ensures_failIf,
      continues_error, ensures_ite, ensures_undefined, implies_true, true_and, ensures_onMount]
    refine ⟨refused process slot running inRange, fun _ mounted => ?_⟩
    refine (performed process slot running inRange (by simpa using mounted)).mono ?_
    rintro outcome fs ⟨failed, succeeded⟩
    cases outcome with
    | error error => exact failed error rfl
    | ok value =>
      simp only [continues_ok, ensures_bind, ensures_editSlot, ensures_pure]
      exact succeeded value rfl

theorem sysRead_spec {buf : Nat → UInt8} {count : Nat} :
    Ensures (sysRead devices answer pid fd buf count) world fun _ changed =>
        (NoneOpen world.processes → NoneOpen changed.processes) ∧ changed.fs = world.fs := by
  rw [sysRead_eq]
  refine ensures_slotTransfer ⟨id, rfl⟩ (fun _ _ _ _ _ => ⟨id, rfl⟩) ?_
  intro process slot _ _ _
  refine vfsInodeRead_spec.mono ?_
  rintro outcome _ rfl
  exact ⟨fun _ _ => ⟨id, rfl⟩, fun _ _ => ⟨fun closed => closed.slotEdited fun _ => id, rfl⟩⟩

theorem sysWrite_spec {buf : List UInt8} :
    Ensures (sysWrite machine devices answer pid fd buf) world fun _ changed =>
        (NoneOpen world.processes → NoneOpen changed.processes) ∧
          Rewritten world.fs changed.fs := by
  rw [sysWrite_eq]
  refine ensures_slotTransfer ⟨id, .refl _⟩ (fun _ _ _ _ _ => ⟨id, .refl _⟩) ?_
  intro process slot _ _ _
  refine vfsInodeWrite_rewritten.mono ?_
  intro outcome changed rewritten
  exact ⟨fun _ _ => ⟨id, rewritten⟩,
    fun _ _ => ⟨fun closed => closed.slotEdited fun _ => id, rewritten⟩⟩

/-- A call into the file system; the paths are strings in memory. -/
inductive Call where
  | mkdir (path : Path) (mode : UInt32)
  | mknod (path : Path) (mode : UInt32) (dev : UInt64)
  | hardlink (path newpath : Path)
  | unlink (path : Path)
  | rename (oldpath newpath : Path)
  | openFile (pid : Nat) (path : Path) (flags : UInt32)
  | close (pid : Nat) (fd : Int)
  | read (pid : Nat) (fd : Int) (answer : Except Errno Nat) (buf : Nat → UInt8) (count : Nat)
  | write (pid : Nat) (fd : Int) (answer : Except Errno Nat) (buf : List UInt8)

/-- A call whose value is dropped. -/
def dropValue {Value : Type} (command : WorldCommand Value) : WorldCommand PUnit := do
  let _ ← command
  pure ⟨⟩

def callOf (machine : Machine) (devices : Devices) : Call → WorldCommand PUnit
  | .mkdir path mode => sysMkdir machine path.chars mode
  | .mknod path mode dev => onMount (vfsMknod machine path.chars mode dev)
  | .hardlink path newpath => onMount (vfsHardlink machine path.chars newpath.chars)
  | .unlink path => sysUnlink path.chars
  | .rename oldpath newpath => sysRename machine oldpath.chars newpath.chars
  | .openFile pid path flags => dropValue (sysOpen machine devices pid path.chars flags)
  | .close pid fd => sysClose pid fd
  | .read pid fd answer buf count => dropValue (sysRead devices answer pid fd buf count)
  | .write pid fd answer buf => dropValue (sysWrite machine devices answer pid fd buf)

/-- The runs of calls on a mounted ramfs. -/
def kernel (machine : Machine) (devices : Devices) : System World Call where
  start := fun world =>
    (∃ memory, Returns (readSuperblock machine) (blank memory) (.ok ⟨⟩) world.fs) ∧
      NoneOpen world.processes
  step := fun world call target =>
    ∃ outcome, callOf machine devices call world = some (outcome, target)

theorem ensures_dropValue {command : WorldCommand Value} {post : World → Prop}
    (ensured : Ensures command world fun _ changed => post changed) :
    Ensures (dropValue command) world fun _ changed => post changed := by
  refine ensured.bind (fun _ _ kept => kept) fun _ _ kept => ?_
  exact ensures_pure.mpr kept

/-! ## The root mount -/

/-- The mode of the root directory. -/
def rootMode : UInt32 := sIfdir ||| (sIfdir ||| 0o755)

/-- The mount in which the entries of the root directory are made. -/
def rootMaking (memory : PageMemory) : Mount :=
  withDirectory (withInode (dataMount memory) (newInode 1 rootMode) 3)

variable {memory : PageMemory}

/-- A mounted file system has a root directory with two entries. -/
theorem readSuperblock_spec :
    Ensures (readSuperblock machine) (blank memory) fun outcome changed =>
        outcome = .ok ⟨⟩ →
          ∃ middle,
            EntriesMade machine [] 1 0 1 (rootMaking memory) middle ∧
              changed = { attached middle 1 0 with rootIno := 1 } := by
  unfold readSuperblock
  rw [ensures_bind]
  refine dataNew_spec.mono ?_
  intro outcome base returned
  cases outcome with
  | error error =>
    intro impossible
    cases impossible
  | ok done =>
    obtain rfl := returned rfl
    simp only [continues_ok, ensures_bind]
    refine makeDirectory_spec.mono ?_
    intro outcome changed returned
    rcases returned with ⟨_, rfl, _⟩ | ⟨ino, made, grown, populated⟩
    · intro impossible
      cases impossible
    · obtain ⟨inoEq, rfl⟩ := grown_flat (dataMount_flat memory) (show 1 < 64 by decide) grown
      obtain rfl : ino = 1 := inoEq
      cases populated with
      | noMemory | stopped =>
        intro impossible
        cases impossible
      | lost returned reading =>
        obtain ⟨_, _, below, _⟩ := makeEntries_spec.returns _ _ returned
        exact absurd rfl below
      | finished returned reading =>
        obtain ⟨inode, target, entries⟩ := makeEntries_spec.returns _ _ returned
        cases target
        have inodes := (entriesMade_quietly rfl rfl entries).2
        rw [inodes] at reading
        cases reading
        rw [continues_ok, ensures_update]
        exact fun _ => ⟨_, entries, rfl⟩

/-- The mount `ramfs_data_new` makes has no entries to resolve. -/
theorem dataMount_numbered (memory : PageMemory) : Numbered (dataMount memory) where
  flat := dataMount_flat memory
  self := by
    intro idata inode reading
    obtain rfl : idata = 0 := by
      have present := Store.lt_count_of_read reading
      simpa [dataMount, blank, Store.empty, Store.count, Store.add] using present
    cases reading
    rfl
  entries := fun dir table reading => by cases reading
  data := by
    intro idata inode dir reading hasData
    obtain rfl : idata = 0 := by
      have present := Store.lt_count_of_read reading
      simpa [dataMount, blank, Store.empty, Store.count, Store.add] using present
    cases reading
    cases hasData
  root := Nat.one_pos

theorem rootMaking_quietly (memory : PageMemory) :
    Quietly (dataMount memory) (rootMaking memory) := by
  have stored := newLeaf_flat (dataMount_flat memory) (show 1 < 64 by decide) (fun _ => true) 3
  exact (Relation.ReflTransGen.single
    (Quiet.inodeNew (newInode_freshNode 1 rootMode) stored)).trans (withDirectory_quietly _)

theorem rootMaking_target (memory : PageMemory) :
    (rootMaking memory).inodes.read 1 = some (newInode 1 rootMode) :=
  rfl

theorem mounted_quietly {middle : Mount}
    (entries : EntriesMade machine [] 1 0 1 (rootMaking memory) middle) :
    Quietly (dataMount memory) (attached middle 1 0) ∧ (attached middle 1 0).inodes.count = 2 := by
  obtain ⟨quiet, inodes⟩ := entriesMade_quietly (rootMaking_target memory) rfl entries
  have present := (count_le_of_quietly quiet).2
  refine ⟨((rootMaking_quietly memory).trans quiet).trans (attached_quietly 1 present), ?_⟩
  simp only [attached, inodes]
  rfl

theorem readSuperblock_numbered
    (mounted : Returns (readSuperblock machine) (blank memory) (.ok ⟨⟩) fs) : Numbered fs := by
  obtain ⟨middle, entries, rfl⟩ := readSuperblock_spec.returns _ _ mounted.run rfl
  obtain ⟨quiet, count⟩ := mounted_quietly entries
  have numbered :=
    (dataMount_numbered memory).eventually (Quietly.eventually quiet) (count ▸ by decide)
  exact ⟨⟨numbered.flat.inhabited, numbered.flat.fits, numbered.flat.tree⟩, numbered.self,
    numbered.entries, numbered.data, count ▸ Nat.one_lt_two⟩

theorem SetBack.eventually {ino : Nat} (setBack : SetBack ino fs changed) :
    Eventually fs changed := by
  rcases setBack with rfl | ⟨_, _, _, _, _, rfl⟩
  · exact .refl
  · exact freed_eventually _ _ _

theorem OpenFailed.eventually (failed : OpenFailed machine path flags fs changed) :
    Eventually fs changed := by
  rcases failed with rfl | ⟨_, _, _, made⟩
  · exact .refl
  · exact vfsMknod_eventually.returns _ _ made

theorem callOf_eventually {call : Call} :
    Ensures (callOf machine devices call) world fun _ changed =>
      Eventually world.fs changed.fs := by
  cases call with
  | mkdir path mode => exact ensures_onMount.mpr vfsMkdir_eventually
  | mknod path mode dev => exact ensures_onMount.mpr vfsMknod_eventually
  | hardlink path newpath => exact ensures_onMount.mpr vfsHardlink_eventually
  | unlink path => exact ensures_onMount.mpr vfsUnlink_eventually
  | rename oldpath newpath =>
    refine ensures_onMount.mpr (vfsHardlink_eventually.bind (fun _ _ linked => linked) ?_)
    exact fun _ _ linked => vfsUnlink_eventually.mono fun _ _ removed => linked.trans removed
  | openFile pid path flags =>
    refine ensures_dropValue (sysOpen_spec.cases (fun _ _ failed => failed.1.eventually) ?_)
    rintro _ _ ⟨_, _, _, _, located, opened⟩
    exact located.openFailed.eventually.trans opened.setBack.eventually
  | close pid fd =>
    refine sysClose_spec.mono ?_
    rintro outcome changed ⟨_, unchanged | ⟨_, _, _, _, setBack⟩⟩
    · rw [unchanged]
    · exact setBack.eventually
  | read pid fd answer buf count =>
    refine ensures_dropValue (sysRead_spec.mono ?_)
    rintro outcome changed ⟨_, unchanged⟩
    rw [unchanged]
  | write pid fd answer buf =>
    refine ensures_dropValue (sysWrite_spec.mono ?_)
    rintro outcome changed ⟨_, rewritten⟩
    exact Quietly.eventually rewritten.1

/-- The mount is numbered as long as its table has not grown. -/
def NumberedWhileFlat (world : World) : Prop := world.fs.inodes.count ≤ 64 → Numbered world.fs

variable {allowed : World → Call → Prop}

theorem reached_numberedWhileFlat (reached : (kernel machine devices).Reached allowed world) :
    NumberedWhileFlat world := by
  refine System.Reached.invariant ?_ ?_ reached
  · rintro world ⟨⟨memory, mounted⟩, _⟩ _
    exact readSuperblock_numbered mounted
  · rintro source call target earlier _ ⟨outcome, returned⟩ fits
    have steps := callOf_eventually.returns _ _ returned
    have smaller := Nat.le_trans (count_le_of_eventually steps) fits
    exact (earlier smaller).eventually steps fits

/-! ## Runs that can be computed -/

/--
A list of calls in a row, whatever each of them returns, while the inode
table has room.
-/
def runCalls (machine : Machine) (devices : Devices) : List Call → World → Option World
  | [], world => some world
  | call :: rest, world =>
    if world.fs.inodes.count < 64 then
      match callOf machine devices call world with
      | some (_, next) => runCalls machine devices rest next
      | none => none
    else
      none

/-- A world with a newly mounted file system. -/
def mountedWorld
    (machine : Machine) (memory : PageMemory) (processes : List Process) : Option World :=
  match readSuperblock machine (blank memory) with
  | some (.ok _, fs) => some ⟨fs, processes⟩
  | _ => none

theorem reached_of_runCalls {calls : List Call} {target : World}
    (reached : (kernel machine devices).Reached allowed world)
    (permitted : ∀ call ∈ calls, ∀ world, world.fs.inodes.count < 64 → allowed world call)
    (run : runCalls machine devices calls world = some target) :
    (kernel machine devices).Reached allowed target := by
  induction calls generalizing world with
  | nil =>
    cases run
    exact reached
  | cons call rest ih =>
    rw [runCalls] at run
    split at run
    · rename_i room
      split at run
      · rename_i outcome next returned
        have later :=
          reached.step (permitted call mem_cons_self world room) ⟨outcome, returned⟩
        exact ih later (fun other member =>
            permitted other (mem_cons_of_mem call member)) run
      · cases run
    · cases run

theorem start_of_mountedWorld {processes : List Process} (closed : NoneOpen processes)
    (mounted : mountedWorld machine memory processes = some world) :
    (kernel machine devices).start world := by
  unfold mountedWorld at mounted
  split at mounted
  · rename_i fs returned
    cases mounted
    exact ⟨⟨memory, ⟨returned⟩⟩, closed⟩
  · cases mounted

/-- A machine without devices. -/
def noDevices : Devices where
  chr := fun _ => none
  blk := fun _ => false

/-- A process that has opened nothing. -/
def idleProcess : Process where
  umask := 0o022
  fds := fun _ => { sb := false, ino := 0, flags := 0, pos := 0, viaOpen := false }

theorem noneOpen_idleProcess : NoneOpen [idleProcess] := by
  intro process member fd
  rw [mem_singleton.mp member]
  rfl

/-- A run of a few calls on a generous machine, with one process. -/
def sampleRun (calls : List Call) : Option World :=
  match mountedWorld generous zeroMemory [idleProcess] with
  | some world => runCalls generous noDevices calls world
  | none => none

theorem reached_of_sampleRun {calls : List Call}
    (permitted : ∀ call ∈ calls, ∀ world, world.fs.inodes.count < 64 → allowed world call)
    (run : sampleRun calls = some world) : (kernel generous noDevices).Reached allowed world := by
  unfold sampleRun at run
  split at run
  · rename_i start mounted
    exact reached_of_runCalls (.start (start_of_mountedWorld noneOpen_idleProcess mounted))
      permitted run
  · cases run

/-- A run of a few permitted calls reaches a state of which a computed fact holds. -/
theorem exists_sampleRun (calls : List Call) {fact : World → Prop} [DecidablePred fact]
    (permitted : ∀ call ∈ calls, ∀ world, world.fs.inodes.count < 64 → allowed world call)
    (computed : ((sampleRun calls).any fun world => fact world) = true) :
    ∃ world, (kernel generous noDevices).Reached allowed world ∧ fact world := by
  obtain ⟨world, run, holds⟩ := exists_of_any computed
  exact ⟨world, reached_of_sampleRun permitted run, holds⟩

/-- The path of a name of one character in the root directory. -/
def inRoot (name : CChar) : Path where
  chars := [⟨fsSep, by decide⟩, name]
  bounded := by simp [sizeMax]

/-- The path `/a`. -/
def pathA : Path := inRoot ⟨97, by decide⟩

/-- The path `/b`. -/
def pathB : Path := inRoot ⟨98, by decide⟩

end Cosec.Fs.CallRuns
