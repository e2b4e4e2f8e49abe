import Cosec.Fs.InodeUpdates

/-!
# Positions of open files

`sys_lseek` stores the position it computes, takes the result from there, and
only then moves the stored position back into the file.  For `SEEK_END` it
subtracts the offset.  `SeeksTo` is what a caller expects of one call;
`SeekSafe` says for which positions, sizes and offsets the call meets it.
-/

namespace Cosec.Fs.Seeking

open Fs.CallRuns Fs.FileCalls Fs.InodeUpdates Fs.Ramfs Fs.Vfs Lib.Commands Lib.Commands.Command
open Lib.Transition Libc.ErrorNumbers

/-! ## What a caller expects -/

/-- The position an offset counts from. -/
def seekBase (whence pos size : Int) : Option Int :=
  if whence = seekSet then some 0
  else if whence = seekCur then some pos
  else if whence = seekEnd then some size
  else none

/-- The call returns a negative number. -/
def IsNegative : Except Errno Int → Prop
  | .ok value => value < 0
  | .error _ => True

/--
A result that is not negative is the new position and the sum of base and
offset; a sum that is no position gives a negative result and leaves the
position alone.
-/
structure SeeksTo
    (whence pos size offset : Int) (outcome : Except Errno Int) (changed : Int) : Prop where
  result :
    ∀ value, outcome = .ok value → 0 ≤ value →
      value = changed ∧ ∃ base, seekBase whence pos size = some base ∧ value = base + offset
  refused :
    ∀ base, seekBase whence pos size = some base →
      (base + offset < 0 ∨ 2147483647 < base + offset) → IsNegative outcome ∧ changed = pos

/-! ## The arithmetic of positions -/

/-- The positions and offsets for which a target is what a caller expects. -/
def SeekSafe (whence pos size offset : Int) : Prop :=
  if pos < 0 then True
  else if whence = seekSet then
    (0 ≤ offset ∧ offset ≤ size) ∨ (offset < 0 ∧ pos = 0)
  else if whence = seekCur then
    (0 ≤ pos + offset ∧ pos + offset ≤ size) ∨ (pos + offset < 0 ∧ pos = 0)
  else if whence = seekEnd then
    offset = 0 ∨ (size < offset ∧ (size + offset ≤ 2147483647 ∨ pos = 0)) ∨
      (2147483647 < size - offset ∧ (0 ≤ size + offset ∨ pos = 0))
  else
    True

theorem asOffT_cases {value : Int} (low : -2147483648 ≤ value) (high : value < 6442450944) :
    (value < 2147483648 ∧ asOffT value = value) ∨
      (2147483648 ≤ value ∧ asOffT value = value - 4294967296) := by
  unfold asOffT
  rw [Int.bmod_def]
  split_ifs <;> omega

variable {target : Int} {size : Int} {pos : Int}

theorem seeksTo_iff {whence offset base changed : Int}
    (isBase : seekBase whence pos size = some base) :
    SeeksTo whence pos size offset (.ok target) changed ↔
      (0 ≤ target → target = changed ∧ target = base + offset) ∧
        ((base + offset < 0 ∨ 2147483647 < base + offset) → target < 0 ∧ changed = pos) := by
  constructor
  · rintro ⟨result, refused⟩
    refine ⟨fun nonnegative => ?_, refused base isBase⟩
    obtain ⟨same, other, isOther, sum⟩ := result target rfl nonnegative
    rw [isBase, Option.some.injEq] at isOther
    exact ⟨same, isOther ▸ sum⟩
  · rintro ⟨result, refused⟩
    constructor
    · intro value returned nonnegative
      rw [Except.ok.injEq] at returned
      subst returned
      obtain ⟨same, sum⟩ := result nonnegative
      exact ⟨same, base, isBase, sum⟩
    · intro other isOther
      rw [isBase, Option.some.injEq] at isOther
      subst isOther
      exact refused

/-- The corrected position of a target. -/
theorem clampPos_cases (nonnegative : 0 ≤ size) (target : Int) :
    (size < target ∧ clampPos size target = size) ∨
      (0 ≤ target ∧ target ≤ size ∧ clampPos size target = target) ∨
      (target < 0 ∧ clampPos size target = 0) := by
  unfold clampPos
  dsimp only
  split_ifs <;> omega

section Targets

variable {pos size offset : Int} (posLow : 0 ≤ pos) (posHigh : pos < 2147483648)
  (sizeLow : 0 ≤ size) (sizeHigh : size < 2147483648) (low : -2147483648 ≤ offset)
  (high : offset < 2147483648)

include posLow posHigh sizeLow sizeHigh low high

/-- A target is what a caller expects exactly in the safe cases. -/
theorem seeksTo_target_iff {whence : Int} (found : seekTarget whence pos size offset = some target)
    : SeeksTo whence pos size offset (.ok target) (clampPos size target) ↔
      SeekSafe whence pos size offset := by
  by_cases isCur : whence = seekCur
  · subst isCur
    cases found
    rw [seeksTo_iff (show seekBase seekCur pos size = some pos from rfl),
      SeekSafe, if_neg (not_lt.mpr posLow), if_neg (by decide), if_pos rfl]
    have wrapped := asOffT_cases (show -2147483648 ≤ pos + offset by omega) (by omega)
    have clamp := clampPos_cases sizeLow (asOffT (pos + offset))
    omega
  · by_cases isSet : whence = seekSet
    · subst isSet
      cases found
      rw [seeksTo_iff (show seekBase seekSet pos size = some 0 from rfl),
        SeekSafe, if_neg (not_lt.mpr posLow), if_pos rfl]
      have clamp := clampPos_cases sizeLow target
      omega
    · by_cases isEnd : whence = seekEnd
      · subst isEnd
        cases found
        rw [seeksTo_iff (show seekBase seekEnd pos size = some size from rfl),
          SeekSafe, if_neg (not_lt.mpr posLow), if_neg (by decide), if_neg (by decide), if_pos rfl]
        have wrapped := asOffT_cases (show -2147483648 ≤ size - offset by omega) (by omega)
        have clamp := clampPos_cases sizeLow (asOffT (size - offset))
        omega
      · rw [seekTarget, if_neg isCur, if_neg isSet, if_neg isEnd] at found
        cases found

end Targets

/-- A descriptor of a process that is open on a regular file. -/
structure OpenFile
    (world : World) (pid : Nat) (fd : Int)
    (process : Process) (slot : Fin 20) (idata : Nat) (inode : Inode) :
    Prop where
  running : world.processes[pid]? = some process
  inRange : filedescrForPid fd = some slot
  isOpen : (process.fds slot).ino ≠ 0
  mounted : (process.fds slot).sb = true
  found : idataByInode world.fs (process.fds slot).ino = some (some (idata, inode))
  regular : fileType inode.mode = sIfreg

variable {devices : Devices} {world : World} {pid : Nat} {fd : Int} {process : Process}
  {slot : Fin 20} {idata : Nat} {inode : Inode} {offset : Int32} {whence : Int}

theorem unseekable_regular (regular : fileType inode.mode = sIfreg) :
    unseekable devices inode = none := by
  have notPipe : ¬ (fileType inode.mode = sIfifo ∨ fileType inode.mode = sIfsock) := by
    rw [regular]
    decide
  have notDir : ¬ IsDir inode.mode := by
    unfold IsDir
    rw [regular]
    decide
  have notDevice : ¬ fileType inode.mode = sIfchr := by
    rw [regular]
    decide
  unfold unseekable
  rw [if_neg notPipe, if_neg notDir, if_neg notDevice]

/-- A negative position is refused. -/
theorem sysLseek_negative (file : OpenFile world pid fd process slot idata inode)
    (negative : (process.fds slot).pos < 0) :
    Returns (sysLseek devices pid fd offset whence) world (.error .espipe) world :=
  .bind (returns_slotOr file.inRange)
    (.bind (returns_currentProc file.running)
      (.bind (.failIf file.isOpen) (.bind_error (.failIf_error negative))))

theorem sysLseek_regular {outcome : Except Errno Int} {changed : World}
    (file : OpenFile world pid fd process slot idata inode)
    (nonnegative : ¬ (process.fds slot).pos < 0)
    (moved :
      Returns (moveSlot pid slot whence (process.fds slot).pos inode.file.size offset.toInt)
        world outcome changed) :
    Returns (sysLseek devices pid fd offset whence) world outcome changed := by
  refine .bind (returns_slotOr file.inRange)
    (.bind (returns_currentProc file.running)
      (.bind (.failIf file.isOpen) (.bind (.failIf nonnegative) ?_)))
  rw [if_neg (by simp [file.mounted])]
  refine .bind (returns_onMount (returns_inodeGet file.found)) ?_
  rw [unseekable_regular file.regular]
  exact moved

theorem moveSlot_of_none (unknown : seekTarget whence pos size target = none) :
    Returns (moveSlot pid slot whence pos size target) world (.error .einval) world := by
  unfold moveSlot
  rw [unknown]
  exact .fail

theorem moveSlot_of_some {offset : Int} (found : seekTarget whence pos size offset = some target) :
    Returns (moveSlot pid slot whence pos size offset) world (.ok target)
      (slotEdited world pid slot fun filedes =>
        { filedes with pos := clampPos size target }) := by
  unfold moveSlot
  rw [found]
  exact .bind .update .pure

/-! ## Every call on a regular file -/

/-- The call returns what its caller expects. -/
def SeekMeets (devices : Devices) (world : World) (pid : Nat) (fd : Int)
    (slot : Fin 20) (pos size : Int) (offset : Int32) (whence : Int) : Prop :=
  ∃ outcome changed after,
    Returns (sysLseek devices pid fd offset whence) world outcome changed ∧
      changed.processes[pid]? = some after ∧
      SeeksTo whence pos size offset.toInt outcome (after.fds slot).pos

theorem seekMeets_iff {outcome : Except Errno Int} {changed : World} {after : Process}
    (returned : Returns (sysLseek devices pid fd offset whence) world outcome changed)
    (running : changed.processes[pid]? = some after) :
    SeekMeets devices world pid fd slot pos size offset whence ↔
      SeeksTo whence pos size offset.toInt outcome (after.fds slot).pos := by
  constructor
  · rintro ⟨other, otherChanged, otherAfter, otherReturned, otherRunning, seeks⟩
    have same := returned.run.symm.trans otherReturned.run
    obtain ⟨rfl, rfl⟩ := same
    rw [running, Option.some.injEq] at otherRunning
    rw [otherRunning]
    exact seeks
  · intro seeks
    exact ⟨outcome, changed, after, returned, running, seeks⟩

/-- A refusal with the position left alone is what a caller may expect. -/
theorem seeksTo_error {offset : Int} {error : Errno} :
    SeeksTo whence pos size offset (.error error) pos where
  result := by
    intro value returned
    cases returned
  refused := fun _ _ _ => ⟨trivial, rfl⟩

/-- Without a target there is nothing to be wrong about. -/
theorem seekSafe_of_none {offset : Int} (unknown : seekTarget whence pos size offset = none) :
    SeekSafe whence pos size offset := by
  unfold seekTarget at unknown
  unfold SeekSafe
  split_ifs at unknown ⊢

/--
For every descriptor that is open on a regular file, every offset and every
`whence`, the call returns what its caller expects exactly in the cases
`SeekSafe` lists.
-/
theorem lseek_meets_iff
    (devices : Devices) (world : World) (pid : Nat) (fd : Int) (process : Process) (slot : Fin 20)
    (idata : Nat) (inode : Inode) (file : OpenFile world pid fd process slot idata inode)
    (posFits : (process.fds slot).pos < 2147483648) (sizeLow : 0 ≤ inode.file.size)
    (sizeFits : inode.file.size < 2147483648) (offset : Int32) (whence : Int) :
    SeekMeets devices world pid fd slot (process.fds slot).pos inode.file.size offset whence ↔
      SeekSafe whence (process.fds slot).pos inode.file.size offset.toInt := by
  by_cases negative : (process.fds slot).pos < 0
  · rw [seekMeets_iff (sysLseek_negative file negative) file.running, SeekSafe, if_pos negative]
    exact iff_of_true seeksTo_error trivial
  · cases found : seekTarget whence (process.fds slot).pos inode.file.size offset.toInt with
    | none =>
      rw [seekMeets_iff (sysLseek_regular file negative (moveSlot_of_none found)) file.running]
      exact iff_of_true seeksTo_error (seekSafe_of_none found)
    | some target =>
      obtain ⟨edited, running, isEdited⟩ := slotEdited_slot file.running slot fun filedes =>
          { filedes with pos := clampPos inode.file.size target }
      have stored : (edited.fds slot).pos = clampPos inode.file.size target := by rw [isEdited]
      have low : -2147483648 ≤ offset.toInt := by
        have bound := offset.le_toInt
        omega
      have high : offset.toInt < 2147483648 := by
        have bound := offset.toInt_lt
        omega
      rw [seekMeets_iff (sysLseek_regular file negative (moveSlot_of_some found)) running, stored]
      exact seeksTo_target_iff (not_lt.mp negative) posFits sizeLow sizeFits low high found

/-- The first process, with the inode one of its slots leads to. -/
def firstFile (slot : Fin 20) (world : World) : Option (Process × Nat × Inode) :=
  world.processes[0]?.bind fun process =>
    (idataByInode world.fs (process.fds slot).ino).bind fun found =>
      found.map fun file => (process, file)

/-- A run that creates the file `/a` and keeps it open. -/
def openedA : List Call := [.openFile 0 pathA (oCreat ||| oRdwr)]

/-- Descriptor zero is open on an empty regular file after that run. -/
theorem openedA_first :
    ∃ world process idata inode,
      sampleRun openedA = some world ∧ OpenFile world 0 0 process (Fin.ofNat 20 0) idata inode ∧
        (process.fds (Fin.ofNat 20 0)).pos = 0 ∧ inode.file.size = 0 := by
  obtain ⟨world, run, found⟩ : ∃ world,
      sampleRun openedA = some world ∧
        ((firstFile (Fin.ofNat 20 0) world).any fun first =>
          let filedes := first.1.fds (Fin.ofNat 20 0)
          filedes.ino ≠ 0 ∧ filedes.sb = true ∧ filedes.pos = 0 ∧
            fileType first.2.2.mode = sIfreg ∧ first.2.2.file.size = 0) = true :=
    exists_of_any (by decide +kernel)
  obtain ⟨⟨process, idata, inode⟩, first, isOpen, mounted, pos, regular, size⟩ :=
    exists_of_any found
  obtain ⟨other, running, inProcess⟩ := Option.bind_eq_some_iff.mp first
  obtain ⟨lookup, found, inLookup⟩ := Option.bind_eq_some_iff.mp inProcess
  obtain ⟨file, rfl, isFile⟩ := Option.map_eq_some_iff.mp inLookup
  cases isFile
  refine ⟨world, process, idata, inode, run, ?_, pos, size⟩
  exact
    { running := running
      inRange := rfl
      isOpen := isOpen
      mounted := mounted
      found := found
      regular := regular }

theorem lseek_meets_iff_sample :
    ∃ world,
      sampleRun openedA = some world ∧
        SeekMeets noDevices world 0 0 (Fin.ofNat 20 0) 0 0 0 seekSet := by
  obtain ⟨world, process, idata, inode, run, file, pos, size⟩ := openedA_first
  have meets :=
    lseek_meets_iff noDevices world 0 0 process (Fin.ofNat 20 0) idata
      inode file (by omega) (by omega) (by omega) 0 seekSet
  rw [pos, size] at meets
  exact ⟨world, run, meets.mpr (by unfold SeekSafe; decide)⟩

/--
On the empty file, seeking to five from its start returns five and leaves the
position at zero.
-/
theorem lseek_not_as_expected :
    ¬ ∀ (devices : Devices) (world : World) (pid : Nat) (fd : Int)
        (process : Process) (slot : Fin 20) (idata : Nat) (inode : Inode),
      OpenFile world pid fd process slot idata inode →
        ∀ (offset : Int32) (whence : Int),
          SeekMeets devices world pid fd slot (process.fds slot).pos
            inode.file.size offset whence := by
  intro always
  obtain ⟨world, process, idata, inode, run, file, pos, size⟩ := openedA_first
  have meets := always noDevices world 0 0 process (Fin.ofNat 20 0) idata inode file 5 seekSet
  have notNegative : ¬ (process.fds (Fin.ofNat 20 0)).pos < 0 := by omega
  have target :
      seekTarget seekSet (process.fds (Fin.ofNat 20 0)).pos
        inode.file.size (5 : Int32).toInt = some 5 :=
    rfl
  obtain ⟨edited, running, isEdited⟩ := slotEdited_slot file.running (Fin.ofNat 20 0) fun filedes =>
      { filedes with pos := clampPos inode.file.size 5 }
  rw [seekMeets_iff (sysLseek_regular file notNegative (moveSlot_of_some target))
    running, isEdited, size] at meets
  have same : (5 : Int) = clampPos 0 5 := (meets.result 5 rfl (by decide)).1
  exact absurd same (by decide)

end Cosec.Fs.Seeking
