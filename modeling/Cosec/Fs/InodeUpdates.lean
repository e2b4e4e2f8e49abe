import Cosec.Fs.FailedCalls

/-!
# Updates of inodes

`vfs_inode_set` reads the inode, compares the caller's buffer with what it
has read, and hands its own copy to `ramfs_inode_set`.  An update that is not
refused therefore writes back what was there, and the caller's buffer is read
back only when it says nothing new.
-/

namespace Cosec.Fs.InodeUpdates

open Fs.FailedCalls Fs.InodeNumbers Fs.MountSteps Fs.Ramfs Fs.Vfs Lib.Commands Lib.Commands.Command
open Lib.ObjectStore Libc.ErrorNumbers

variable {fs changed : Mount} {ino idata : Nat} {stored inobuf : Inode}

/-! ## The law -/

/-- An inode object has the contents it had, and was not freed. -/
def SameInode (fs changed : Mount) (object : Nat) : Prop :=
  changed.inodes.read object = fs.inodes.read object ∧
    changed.inodes.frees object = fs.inodes.frees object

/-- What an update should leave behind. -/
def Updated (fs : Mount) (ino idata : Nat) (inobuf : Inode) (changed : Mount) :
    Except Errno PUnit → Prop
  | .ok _ =>
    Returns (vfsInodeGet ino) changed (.ok inobuf) changed ∧
      ∀ object, object ≠ idata → SameInode fs changed object
  | .error _ => ∀ object, SameInode fs changed object

/-- The update of an inode, whose object is `idata`, and its outcome. -/
def RoundTrip (fs : Mount) (ino idata : Nat) (inobuf : Inode) : Prop :=
  ∃ outcome changed,
    Returns (vfsInodeSet ino inobuf) fs outcome changed ∧
      Updated fs ino idata inobuf changed outcome

/-- The buffer asks for another type, number or directory. -/
def Refused (stored inobuf : Inode) : Prop :=
  fileType stored.mode ≠ fileType inobuf.mode ∨ stored.ino ≠ inobuf.ino ∨ stored.data ≠ inobuf.data

section Found

variable (found : idataByInode fs ino = some (some (idata, stored)))

include found

theorem returns_inodeGet : Returns (inodeGet ino) fs (.ok stored) fs :=
  .bind (returns_idataOr found) .pure

theorem vfsInodeSet_refused (refused : Refused stored inobuf) :
    Returns (vfsInodeSet ino inobuf) fs (.error .einval) fs := by
  refine .bind (returns_inodeGet found) ?_
  by_cases sameType : fileType stored.mode = fileType inobuf.mode
  · refine .bind (.failIf (not_not.mpr sameType)) ?_
    by_cases sameNumber : stored.ino = inobuf.ino
    · refine .bind (.failIf (not_not.mpr sameNumber)) ?_
      rcases refused with otherType | otherNumber | otherData
      · exact absurd sameType otherType
      · exact absurd sameNumber otherNumber
      · exact .bind_error (.failIf_error otherData)
    · exact .bind_error (.failIf_error sameNumber)
  · exact .bind_error (.failIf_error sameType)

/-- An update that is not refused stores the inode that was there. -/
theorem vfsInodeSet_accepted {outcome : Except Errno PUnit} (accepted : ¬ Refused stored inobuf)
    (returned : Returns (inodeSet ino stored) fs outcome changed) :
    Returns (vfsInodeSet ino inobuf) fs outcome changed := by
  unfold Refused at accepted
  push Not at accepted
  obtain ⟨sameType, sameNumber, sameData⟩ := accepted
  refine .bind (returns_inodeGet found) ?_
  refine .bind (.failIf (not_not.mpr sameType)) ?_
  refine .bind (.failIf (not_not.mpr sameNumber)) ?_
  exact .bind (.failIf (not_not.mpr sameData)) returned

/-- Writing back what is stored changes nothing, unless it is unused. -/
theorem inodeSet_stored (used : ¬ (stored.nlinks = 0 ∧ stored.nfds = 0)) :
    Returns (inodeSet ino stored) fs (.ok ⟨⟩) fs := by
  have same := Store.change_of_read (read_of_idataByInode found)
  refine .bind (returns_idataOr found) ?_
  refine .bind .update ?_
  rw [if_neg used]
  rw [same]
  exact .pure

theorem inodeSet_unused (unused : stored.nlinks = 0 ∧ stored.nfds = 0) :
    Returns (inodeSet ino stored) fs (.ok ⟨⟩) (freed fs idata stored) := by
  have reading := read_of_idataByInode found
  have same := Store.change_of_read reading
  refine .bind (returns_idataOr found) ?_
  refine .bind .update ?_
  rw [if_pos unused]
  rw [same]
  exact .bind (returns_idataOr found) (returns_inodeFree reading)

/-! ## When the law holds -/

theorem roundTrip_of_refused (refused : Refused stored inobuf) : RoundTrip fs ino idata inobuf :=
  ⟨_, fs, vfsInodeSet_refused found refused, fun _ => ⟨rfl, rfl⟩⟩

theorem roundTrip_of_stored (held : 0 < stored.nlinks ∨ 0 < stored.nfds) :
    RoundTrip fs ino idata stored := by
  have used : ¬ (stored.nlinks = 0 ∧ stored.nfds = 0) := by
    rintro ⟨noLinks, noFds⟩
    omega
  have accepted : ¬ Refused stored stored := by simp [Refused]
  exact ⟨_, fs, vfsInodeSet_accepted found accepted (inodeSet_stored found used),
    returns_inodeGet found, fun _ _ => ⟨rfl, rfl⟩⟩

/-- A buffer that is accepted and says something new is lost. -/
theorem not_roundTrip_of_accepted (accepted : ¬ Refused stored inobuf) (different : stored ≠ inobuf)
    : ¬ RoundTrip fs ino idata inobuf := by
  rintro ⟨outcome, changed, returned, updated⟩
  obtain ⟨actual, set, kept⟩ : ∃ changed,
      Returns (vfsInodeSet ino inobuf) fs (.ok ⟨⟩) changed ∧
        Returns (vfsInodeGet ino) changed (.ok stored) changed := by
    by_cases unused : stored.nlinks = 0 ∧ stored.nfds = 0
    · have refound : idataByInode (freed fs idata stored) ino = some (some (idata, stored)) := by
        simpa only [idataByInode, freed, Store.read_free] using found
      exact ⟨freed fs idata stored,
        vfsInodeSet_accepted found accepted (inodeSet_unused found unused),
        returns_inodeGet refound⟩
    · exact ⟨fs, vfsInodeSet_accepted found accepted (inodeSet_stored found unused),
        returns_inodeGet found⟩
  obtain ⟨rfl, rfl⟩ : Except.ok ⟨⟩ = outcome ∧ actual = changed := by
    simpa using set.run.symm.trans returned.run
  have read := kept.run.symm.trans updated.1.run
  simp only [Option.some.injEq, Prod.mk.injEq, Except.ok.injEq, and_true] at read
  exact different read

end Found

/--
An update is read back exactly when it is refused or the buffer is the inode
that is stored already.
-/
theorem inode_update_roundTrip_iff (found : idataByInode fs ino = some (some (idata, stored)))
    (held : 0 < inobuf.nlinks ∨ 0 < inobuf.nfds) :
    RoundTrip fs ino idata inobuf ↔ Refused stored inobuf ∨ stored = inobuf := by
  constructor
  · intro roundTrip
    by_contra neither
    push Not at neither
    exact not_roundTrip_of_accepted found neither.1 neither.2 roundTrip
  · rintro (refused | rfl)
    · exact roundTrip_of_refused found refused
    · exact roundTrip_of_stored found held

/-- A regular file with one link. -/
def linkedFile : Inode := addLink (newInode 1 (sIfreg ||| 0o644))

/-- A mount with one regular file. -/
def fileMount : Mount := withInode (dataMount zeroMemory) linkedFile 3

theorem fileMount_found : idataByInode fileMount 1 = some (some (1, linkedFile)) := by
  rfl

theorem inode_update_roundTrip_sample : RoundTrip fileMount 1 1 linkedFile :=
  (inode_update_roundTrip_iff fileMount_found (Or.inl (by decide))).mpr (Or.inr rfl)

/-- The permission bits of a file cannot be changed. -/
theorem inode_update_lost :
    ¬ ∀ (fs : Mount) (ino idata : Nat) (stored inobuf : Inode),
        idataByInode fs ino = some (some (idata, stored)) → fs.inodes.Live idata →
        inobuf.ino = ino → 0 < inobuf.nlinks ∨ 0 < inobuf.nfds → RoundTrip fs ino idata inobuf := by
  intro always
  have roundTrip :=
    always fileMount 1 1 linkedFile { linkedFile with mode := sIfreg ||| 0o600 } fileMount_found
      (by decide) rfl (Or.inl (by decide))
  refine not_roundTrip_of_accepted fileMount_found ?_ ?_ roundTrip
  · simp [Refused]
    decide
  · intro same
    exact absurd (congrArg Inode.mode same) (by decide)

end Cosec.Fs.InodeUpdates
