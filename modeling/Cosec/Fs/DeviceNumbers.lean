import Cosec.Fs.InodeUpdates
import Cosec.Fs.LinkedLookups
import Cosec.Lib.BitFields

/-!
# Device numbers

A device number packs a major and a minor number into sixty-four bits.  The
packing is a bijection.  `vfs_mknod` hands the number on as a pointer, which
has thirty-two bits, so only the numbers below `2 ^ 32` come back from
`vfs_stat`.
-/

namespace Cosec.Fs.DeviceNumbers

open Fs.CallRuns Fs.FileCalls Fs.InodeNumbers Fs.InodeUpdates Fs.LinkedLookups Fs.MountSteps
open Fs.PathLookup Fs.Ramfs Fs.Vfs Fs.VfsSteps Lib.BitFields Lib.Commands Lib.Transition
open Libc.ErrorNumbers Libc.Strings

/-! ## Numbers as sums of fields -/

theorem and_low8 (value : Nat) : value &&& 255 = value % 256 :=
  Nat.and_two_pow_sub_one_eq_mod value 8

theorem and_low12 (value : Nat) : value &&& 4095 = value % 4096 :=
  Nat.and_two_pow_sub_one_eq_mod value 12

theorem and_high8 {value : Nat} (fits : value < 4294967296) :
    value &&& 4294967040 = 256 * (value / 256) :=
  and_mask_high (show 8 ≤ 32 by decide) fits

theorem and_high12 {value : Nat} (fits : value < 4294967296) :
    value &&& 4294963200 = 4096 * (value / 4096) :=
  and_mask_high (show 12 ≤ 32 by decide) fits

theorem toNat_gnuDevMajor (dev : UInt64) :
    (gnuDevMajor dev).toNat = dev.toNat / 256 % 4096 + 4096 * (dev.toNat / 17592186044416) := by
  have bound := dev.toNat_lt
  have low : dev.toNat / 256 % 4096 < 2 ^ 12 := by omega
  have lowFits : dev.toNat / 256 % 4096 < 4294967296 := by omega
  have highFits : dev.toNat / 4294967296 < 4294967296 := by omega
  have joined := or_field low (dev.toNat / 4294967296 / 4096)
  unfold gnuDevMajor
  simp only [UInt32.toNat_or, UInt32.toNat_and, UInt64.toNat_toUInt32,
    UInt64.toNat_and, UInt64.toNat_shiftRight, UInt64.toNat_ofNat,
    UInt32.toNat_ofNat, Nat.shiftRight_eq_div_pow, Nat.reduceMod,
    Nat.reducePow, and_low12] at joined ⊢
  rw [Nat.mod_eq_of_lt lowFits, Nat.mod_eq_of_lt highFits,
    and_high12 highFits, joined, Nat.div_div_eq_div_mul]

theorem toNat_gnuDevMinor (dev : UInt64) :
    (gnuDevMinor dev).toNat = dev.toNat % 256 + 256 * (dev.toNat / 1048576 % 16777216) := by
  have low : dev.toNat % 256 < 2 ^ 8 := by omega
  have lowFits : dev.toNat % 256 < 4294967296 := by omega
  have joined := or_field low (dev.toNat / 4096 % 4294967296 / 256)
  have shifted : dev.toNat / 4096 % (256 * 16777216) / 256 = dev.toNat / 1048576 % 16777216 := by
    rw [Nat.mod_mul_right_div_self, Nat.div_div_eq_div_mul]
  unfold gnuDevMinor
  simp only [UInt32.toNat_or, UInt32.toNat_and, UInt64.toNat_toUInt32,
    UInt64.toNat_and, UInt64.toNat_shiftRight, UInt64.toNat_ofNat,
    UInt32.toNat_ofNat, Nat.shiftRight_eq_div_pow, Nat.reduceMod,
    Nat.reducePow, Nat.reduceMul, and_low8] at joined shifted ⊢
  rw [Nat.mod_eq_of_lt lowFits, and_high8 (Nat.mod_lt _ (by decide)), joined, shifted]

theorem toNat_gnuDevMakedev (major minor : UInt32) :
    (gnuDevMakedev major minor).toNat =
      minor.toNat % 256 + 256 * (major.toNat % 4096) + 1048576 * (minor.toNat / 256) +
        17592186044416 * (major.toNat / 4096) := by
  have majorBound := major.toNat_lt
  have minorBound := minor.toNat_lt
  have first := or_field (show minor.toNat % 256 < 2 ^ 8 by omega) (major.toNat % 4096)
  have second := or_field (show minor.toNat % 256 + 256 * (major.toNat % 4096) < 2 ^ 20 by
        omega)
      (minor.toNat / 256)
  have third :=
    or_field
      (show
        minor.toNat % 256 + 256 * (major.toNat % 4096) + 1048576 * (minor.toNat / 256) < 2 ^ 44 by
        omega)
      (major.toNat / 4096)
  have middle : major.toNat % 4096 * 256 % 4294967296 = 256 * (major.toNat % 4096) := by omega
  have minorHigh :
      256 * (minor.toNat / 256) * 4096 % 18446744073709551616 = 1048576 * (minor.toNat / 256) := by
    rw [Nat.mul_right_comm]
    exact Nat.mod_eq_of_lt (by omega)
  have majorHigh :
      4096 * (major.toNat / 4096) * 4294967296 % 18446744073709551616 =
        17592186044416 * (major.toNat / 4096) := by
    rw [Nat.mul_right_comm]
    exact Nat.mod_eq_of_lt (by omega)
  unfold gnuDevMakedev
  simp only [UInt64.toNat_or, UInt32.toNat_or, UInt32.toNat_and,
    UInt32.toNat_toUInt64, UInt64.toNat_shiftLeft,
    UInt32.toNat_shiftLeft, UInt64.toNat_ofNat, UInt32.toNat_ofNat,
    Nat.shiftLeft_eq, Nat.reduceMod, Nat.reducePow, and_low8, and_low12,
    and_high8 minorBound, and_high12 majorBound] at first second third ⊢
  rw [middle, minorHigh, majorHigh, first, second, third]

section Packing

variable (major minor : UInt32)

theorem gnuDevMajor_gnuDevMakedev : gnuDevMajor (gnuDevMakedev major minor) = major := by
  have minorBound := minor.toNat_lt
  apply UInt32.toNat_inj.mp
  rw [toNat_gnuDevMajor, toNat_gnuDevMakedev]
  omega

theorem gnuDevMinor_gnuDevMakedev : gnuDevMinor (gnuDevMakedev major minor) = minor := by
  have minorBound := minor.toNat_lt
  apply UInt32.toNat_inj.mp
  rw [toNat_gnuDevMinor, toNat_gnuDevMakedev]
  omega

end Packing

theorem gnuDevMakedev_parts (dev : UInt64) :
    gnuDevMakedev (gnuDevMajor dev) (gnuDevMinor dev) = dev := by
  apply UInt64.toNat_inj.mp
  rw [toNat_gnuDevMakedev, toNat_gnuDevMajor, toNat_gnuDevMinor]
  omega

variable {machine : Machine} {fs changed : Mount} {sbDev : UInt64} {path : CString}
  {ino idata : Nat} {inode : Inode}

/-- `vfs_stat` of a path reports a device number. -/
def Reports (sbDev : UInt64) (fs : Mount) (path : CString) (dev : UInt64) : Prop :=
  ∃ stat, Returns (vfsStat sbDev path) fs (.ok stat) fs ∧ stat.rdev = dev

/-- The device number of an inode, zero when it is no device. -/
def rdevOf (inode : Inode) : UInt64 := if IsDevice inode.mode then inodeDevno inode else 0

theorem reports_iff
    (looked : Looked fs path ino) (found : idataByInode fs ino = some (some (idata, inode)))
    (dev : UInt64) : Reports sbDev fs path dev ↔ rdevOf inode = dev := by
  obtain ⟨fspath, mount, looked⟩ := looked
  have returned :
      Returns (vfsStat sbDev path) fs
        (.ok
          { dev := sbDev
            ino := ino
            mode := inode.mode
            nlink := inode.nlinks
            rdev := rdevOf inode
            size := inode.file.size }) fs :=
    .bind (.consult (by rw [mount]))
      (.bind (.consult looked) (.bind (returns_inodeGet found) .pure))
  constructor
  · rintro ⟨stat, other, rfl⟩
    have same := returned.run.symm.trans other.run
    rw [Option.some.injEq, Prod.mk.injEq, Except.ok.injEq] at same
    rw [← same.1]
  · intro isDev
    exact ⟨_, returned, isDev⟩

theorem not_reports {error : Errno} (fails : LookFails fs path error) (dev : UInt64) :
    ¬ Reports sbDev fs path dev := by
  rintro ⟨stat, returned, _⟩
  have failed : Returns (vfsStat sbDev path) fs (.error error) fs := by
    rcases fails with mount | ⟨fspath, mount, looked⟩
    · exact .bind_error (.consult (by rw [mount]))
    · exact .bind (.consult (by rw [mount])) (.bind_error (.consult looked))
  cases failed.run.symm.trans returned.run

/-! ## Devices that were made -/

/-- A new device has the lower half of the number it was made with. -/
theorem rdevOf_madeNode {mode : UInt32} (isDevice : IsDevice mode) (dev : UInt64) :
    rdevOf (addLink (madeNode ino (nodeMode mode) (mknodInfo mode dev))) =
      dev.toUInt32.toUInt64 := by
  have typed : ¬ fileType mode = 0 := by
    rcases isDevice with isChar | isBlock
    · rw [isChar]
      decide
    · rw [isBlock]
      decide
  have sameMode : nodeMode mode = mode := if_neg typed
  have info : mknodInfo mode dev = dev.toUInt32 := by
    unfold mknodInfo
    rw [sameMode, if_pos isDevice]
  have node : madeNode ino mode dev.toUInt32 = setDevice dev.toUInt32 (newInode ino mode) :=
    if_pos isDevice
  have isDeviceNode : IsDevice (addLink (setDevice dev.toUInt32 (newInode ino mode))).mode :=
    isDevice
  rw [sameMode, info, node, rdevOf, if_pos isDeviceNode]
  exact gnuDevMakedev_parts _

section Made

variable {mode major minor : UInt32} {fspath : CString} {dirino dir : Nat} {path : Path}
variable
  (made :
    NodeMade fs changed fspath
      (madeNode fs.inodes.count (nodeMode mode) (mknodInfo mode (gnuDevMakedev major minor)))
      dirino dir)
variable (mount : mountnodeByPath path.chars = .ok fspath)

include made mount

/-- A device under a path that led nowhere is what `vfs_stat` looks at. -/
theorem reports_new_iff (isDevice : IsDevice mode) (missing : LookFails fs path.chars .enoent) :
    Reports sbDev changed path.chars (gnuDevMakedev major minor) ↔
      major.toNat < 4096 ∧ minor.toNat < 1048576 := by
  rcases made.looked mount with ⟨found, before, _⟩ | ⟨_, after⟩
  · exact absurd missing (not_lookFails before _)
  · rw [reports_iff after made.found, rdevOf_madeNode isDevice, ← UInt64.toNat_inj,
      UInt32.toNat_toUInt64, UInt64.toNat_toUInt32, toNat_gnuDevMakedev]
    omega

/-- Under a path that led somewhere `vfs_stat` looks at the old inode. -/
theorem reports_old_iff
    (numbered : Numbered fs) (looked : Looked fs path.chars ino) (dev : UInt64) :
    Reports sbDev changed path.chars dev ↔ Reports sbDev fs path.chars dev := by
  rcases made.looked mount with ⟨found, before, after⟩ | ⟨missing, _⟩
  · have isFound := before
    obtain ⟨_, _, lookup⟩ := isFound
    have present := numbered.lt_of_lookupInode lookup
    obtain ⟨inode, _, resolves⟩ := numbered.found_of_lt present
    have resolvesLater := (made.others found present).trans resolves
    rw [reports_iff after resolvesLater, reports_iff before resolves]
  · exact absurd missing (not_lookFails looked _)

end Made

/--
For every pair the packed number gives it back.  After a device was made,
`vfs_stat` of its path reports the number exactly when it did so before, or
when the path led nowhere and the number is below `2 ^ 32`.
-/
theorem device_numbers_kept_iff (major minor : UInt32) :
    (gnuDevMajor (gnuDevMakedev major minor) = major ∧
      gnuDevMinor (gnuDevMakedev major minor) = minor) ∧
      ∀ (machine : Machine) (devices : Devices) (world : World),
        (kernel machine devices).Reached unrestricted world → world.fs.inodes.count < 64 →
        ∀ (path : Path) (mode : UInt32) (changed : Mount), IsDevice mode →
          Returns (vfsMknod machine path.chars mode (gnuDevMakedev major minor))
            world.fs (.ok ⟨⟩) changed →
          ∀ sbDev,
            Reports sbDev changed path.chars (gnuDevMakedev major minor) ↔
              Reports sbDev world.fs path.chars (gnuDevMakedev major minor) ∨
                (LookFails world.fs path.chars .enoent ∧
                  major.toNat < 4096 ∧ minor.toNat < 1048576) := by
  refine ⟨⟨gnuDevMajor_gnuDevMakedev major minor, gnuDevMinor_gnuDevMakedev major minor⟩, ?_⟩
  intro machine devices world reached room path mode changed isDevice returned sbDev
  have numbered : Numbered world.fs := reached_numberedWhileFlat reached (le_of_lt room)
  obtain ⟨fspath, dirino, dir, mount, made⟩ := nodeMade_of_vfsMknod numbered room path returned
  rcases made.looked mount with ⟨found, looked, _⟩ | ⟨missing, _⟩
  · rw [reports_old_iff made mount numbered looked]
    exact (or_iff_left fun missing => not_lookFails looked _ missing.1).symm
  · rw [reports_new_iff made mount isDevice missing]
    constructor
    · intro small
      exact Or.inr ⟨missing, small⟩
    · rintro (reported | ⟨_, small⟩)
      · exact absurd reported (not_reports missing _)
      · exact small

/--
Right after the mount: what making `/a` returns, what a lookup of `/a` returned
before, and the number of inodes before.
-/
def makingA (major minor : UInt32) :
    Option (Except Errno PUnit × Option (Except Errno Nat) × Nat) :=
  (sampleRun []).bind fun world =>
    (vfsMknod generous pathA.chars sIfchr (gnuDevMakedev major minor) world.fs).map fun made =>
        (made.1, lookupInode pathA.chars.tail sizeMax world.fs, world.fs.inodes.count)

theorem exists_of_makingA
    {major minor : UInt32} (facts : makingA major minor = some (.ok ⟨⟩, some (.error .enoent), 2)) :
    ∃ world changed,
      (kernel generous noDevices).Reached unrestricted world ∧ world.fs.inodes.count < 64 ∧
        Returns (vfsMknod generous pathA.chars sIfchr (gnuDevMakedev major minor))
          world.fs (.ok ⟨⟩) changed ∧ LookFails world.fs pathA.chars .enoent := by
  obtain ⟨world, run, returned⟩ := Option.bind_eq_some_iff.mp facts
  obtain ⟨⟨outcome, changed⟩, made, values⟩ := Option.map_eq_some_iff.mp returned
  simp only [Prod.mk.injEq] at values
  obtain ⟨rfl, missing, count⟩ := values
  exact ⟨world, changed, reached_of_sampleRun (fun _ _ _ _ => trivial) run,
    by omega, ⟨made⟩, Or.inr ⟨pathA.chars.tail, rfl, missing⟩⟩

/-- A number with major 1 and minor 3 is kept. -/
theorem device_numbers_kept_iff_sample :
    ∃ world changed,
      (kernel generous noDevices).Reached unrestricted world ∧
        Returns (vfsMknod generous pathA.chars sIfchr (gnuDevMakedev 1 3))
          world.fs (.ok ⟨⟩) changed ∧ Reports 0 changed pathA.chars (gnuDevMakedev 1 3) := by
  have facts : makingA 1 3 = some (.ok ⟨⟩, some (.error .enoent), 2) := by decide +kernel
  obtain ⟨world, changed, reached, room, returned, missing⟩ := exists_of_makingA facts
  exact ⟨world, changed, reached, returned,
    ((device_numbers_kept_iff 1 3).2 generous noDevices world reached room
      pathA sIfchr changed (Or.inl rfl) returned 0).mpr (Or.inr ⟨missing, by decide, by decide⟩)⟩

/-- The major number 4096 is lost. -/
theorem device_number_truncated :
    ¬ ∀ (major minor : UInt32),
      (gnuDevMajor (gnuDevMakedev major minor) = major ∧
        gnuDevMinor (gnuDevMakedev major minor) = minor) ∧
        ∀ (machine : Machine) (devices : Devices) (world : World),
          (kernel machine devices).Reached unrestricted world →
          ∀ (path : Path) (mode : UInt32) (changed : Mount), IsDevice mode →
            Returns (vfsMknod machine path.chars mode (gnuDevMakedev major minor))
              world.fs (.ok ⟨⟩) changed →
            ∀ sbDev, Reports sbDev changed path.chars (gnuDevMakedev major minor) := by
  intro always
  have facts : makingA 4096 0 = some (.ok ⟨⟩, some (.error .enoent), 2) := by decide +kernel
  obtain ⟨world, changed, reached, room, returned, missing⟩ := exists_of_makingA facts
  have numbered : Numbered world.fs := reached_numberedWhileFlat reached (le_of_lt room)
  obtain ⟨fspath, dirino, dir, mount, made⟩ := nodeMade_of_vfsMknod numbered room pathA returned
  have reported :=
    (always 4096 0).2 generous noDevices world reached pathA sIfchr changed (Or.inl rfl) returned 0
  rw [reports_new_iff made mount (Or.inl rfl) missing] at reported
  exact absurd reported.1 (by decide)

end Cosec.Fs.DeviceNumbers
