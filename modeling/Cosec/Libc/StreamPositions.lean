import Cosec.Lib.Transition
import Cosec.Libc.BufferedStreams

/-!
# Positions of a stream

A stream on a regular file has three positions: the offset of its descriptor,
its own `file_pos`, and the place in its buffer up to which the program has
read.  Reading keeps them in step.  `fwrite` does not: it takes a successful
write for an error and leaves `file_pos` where it was.  Nor does `fseek`
beyond the file, where `sys_lseek` moves the descriptor to its end and
reports where it would have been.
-/

namespace Cosec.Libc.StreamPositions

open Fs.FileBlocks Fs.FileCalls Lib.Transition Lib.Word32 Libc.BufferedStreams Libc.Strings List

/-! ## Runs of one stream -/

/-- The calls a program makes on the stream. -/
inductive Call where
  | fread (size nmemb : Nat)
  | fgetc
  | fgets (size : Int)
  | fwrite (bytes : List UInt8)
  | fseek (offset : Int) (whence : Whence)

/--
A run keeps the position behind the last byte that the program read or
wrote, or that it moved to, and for every write the place where the bytes
went and what `ftell` had said.
-/
structure Run where
  state : State
  position : Int
  writes : List (Int × Int)

/-- Where a program that seeks wants to go. -/
def Run.wanted (run : Run) (offset : Int) : Whence → Int
  | .seekSet => offset
  | .seekCur => run.position + offset
  | .seekEnd => run.state.descriptor.inode.size + offset
  | .unknown => run.position

/-- A run after some bytes were read. -/
def Run.afterRead (run : Run) (result : List UInt8 × State) : Run :=
  { run with
    state := result.2
    position := run.position + result.1.length }

/-- A run after `fwrite`; the descriptor tells what was stored. -/
def Run.afterWrite (run : Run) (later : State) : Run :=
  let place := run.state.descriptor.pos
  if place < later.descriptor.pos then
    { state := later
      position := later.descriptor.pos
      writes := (place, ftell run.state) :: run.writes }
  else { run with state := later }

/-- A run after `fseek`. -/
def Run.afterSeek (run : Run) (offset : Int) (whence : Whence) (result : Int × State) : Run :=
  { run with
    state := result.2
    position := if result.1 = 0 then run.wanted offset whence else run.position }

/-- A run after a call that returns. -/
def Run.perform (source : Nat → Nat) (run : Run) : Call → Option Run
  | .fread size nmemb => (fread size nmemb run.state).map run.afterRead
  | .fgetc => (fgetc run.state).map run.afterRead
  | .fgets size => (fgets size run.state).map run.afterRead
  | .fwrite bytes => (fwrite source bytes run.state).map run.afterWrite
  | .fseek offset whence => some (run.afterSeek offset whence (fseek offset whence run.state))

/-- Runs from `fopen` of a regular file on. -/
def streams (source : Nat → Nat) : System Run Call where
  start run :=
    ∃ descriptor buf,
      0 ≤ descriptor.pos ∧ 0 ≤ descriptor.inode.size ∧
        run.state = fopenOn descriptor descriptor.flags buf ∧
        run.position = ftell run.state ∧ run.writes = []
  step source' call target := source'.perform source call = some target

/--
The kernel's offset is ahead of `file_pos` by what is in the buffer, `ftell`
tells the position of the program, writes go where it said, and reads into a
buffer return.
-/
structure Coherent (run : Run) : Prop where
  kernel :
    run.state.descriptor.pos =
      run.state.stream.filePos + (run.state.stream.bufend - run.state.stream.bufpos)
  told : ftell run.state = run.position
  placed : ∀ write ∈ run.writes, write.1 = write.2
  returns :
    run.state.stream.buf ≠ none →
      ∀ nbytes upto, ∃ result, freadUpto nbytes upto run.state = some result

/-- The block at the descriptor is there, or none is needed. -/
def BlockPresent (descriptor : Descriptor) : Prop :=
  descriptor.pos.toNat % 4096 = 0 ∨
    descriptor.pos.toNat / 4096 < 12 ∧
      descriptor.inode.directblock (descriptor.pos.toNat / 4096) ≠ 0

/--
Calls that write nothing and seek to nowhere outside the file.  Seeking from
the end is counted backwards, so it must be to the end itself.
-/
def Tame (run : Run) : Call → Prop
  | .fwrite bytes =>
    run.state.stream.flags &&& oRdonly ≠ 0 ∨ bytes = [] ∧ BlockPresent run.state.descriptor
  | .fseek offset whence =>
    match whence with
    | .seekSet => 0 ≤ offset ∧ offset ≤ run.state.descriptor.inode.size
    | .seekCur =>
      offset = 0 ∨
        0 ≤ offset + ftell run.state ∧ offset + ftell run.state ≤ run.state.descriptor.inode.size
    | .seekEnd => offset = 0
    | .unknown => True
  | _ => True

/-! ## Reading -/

/-- The invariant of the three positions. -/
structure InStep (state : State) : Prop where
  flags : state.descriptor.flags = state.stream.flags
  ordered : state.stream.bufpos ≤ state.stream.bufend
  kernel : state.descriptor.pos = state.stream.filePos + (state.stream.bufend - state.stream.bufpos)
  pos : 0 ≤ state.descriptor.pos
  size : 0 ≤ state.descriptor.inode.size
  ungetc : state.stream.ungetc = 0
  unbuffered : state.stream.buf = none → state.stream.bufpos = 0 ∧ state.stream.bufend = 0

variable {descriptor : Descriptor} {stream : Stream} {state : State} {nbytes : Nat}
  {upto : Option UInt8} {buf : Nat → UInt8} {count : Nat}

theorem strnchr_lt {char : UInt8} {start offset : Nat}
    (found : strnchr buf char start count = some offset) : offset < count := by
  induction count generalizing start offset with
  | zero => cases found
  | succ count ih =>
    rw [strnchr] at found
    split at found
    · cases found
    · split at found
      · cases found
        exact Nat.succ_pos count
      · obtain ⟨earlier, later, rfl⟩ := Option.map_eq_some_iff.mp found
        exact Nat.succ_lt_succ (ih later)

theorem stop_lt {start offset : Nat} (found : stream.stop upto start count = some offset) :
    offset < count := by
  obtain ⟨char, _, inBuffer⟩ := Option.bind_eq_some_iff.mp found
  obtain ⟨bytes, _, place⟩ := Option.bind_eq_some_iff.mp inBuffer
  exact strnchr_lt place

theorem length_copied (count : Nat) : (stream.copied count).length = count := by
  unfold Stream.copied
  rw [length_map, length_range]

variable {later : Descriptor}

/-- What a read does to the descriptor. -/
theorem sysRead_spec {buf stored : Option (Nat → UInt8)} {ret : Int} (placed : 0 ≤ descriptor.pos)
    (returned : descriptor.sysRead buf count = some (ret, stored, later)) :
    ret < 0 ∧ later = descriptor ∨
      0 ≤ ret ∧ later.pos = descriptor.pos + ret ∧
        later.inode = descriptor.inode ∧ later.flags = descriptor.flags ∧ stored ≠ none := by
  unfold Descriptor.sysRead at returned
  split at returned
  · cases returned
    exact Or.inl ⟨by decide, rfl⟩
  · split at returned
    · cases returned
      exact Or.inl ⟨by decide, rfl⟩
    · split at returned
      · cases returned
      · rename_i nread filled _
        cases returned
        right
        refine ⟨Int.natCast_nonneg nread, if_pos placed, rfl, rfl, ?_⟩
        exact Option.some_ne_none filled

/-- A read leaves the positions in step, and moves `file_pos` by its bytes. -/
structure ReadsInStep (before : State) (result : List UInt8 × State) : Prop where
  inStep : InStep result.2
  told : ftell result.2 = ftell before + result.1.length

theorem nextCount_le (wanted : Nat) (upto : Option UInt8) :
    stream.nextCount wanted upto ≤ stream.bufend := by
  unfold Stream.nextCount
  split
  · rename_i offset found
    exact stop_lt found
  · exact Nat.min_le_left _ _

/-- Without a delimiter the loop takes what it wants, or all there is. -/
theorem nextCount_of_no_stop
    (wanted : Nat) (absent : ¬(stream.stop upto 0 stream.bufend).isSome = true) :
    stream.nextCount wanted upto = min stream.bufend wanted := by
  rw [Option.not_isSome_iff_eq_none] at absent
  unfold Stream.nextCount
  rw [absent]

variable {taken : List UInt8}

theorem inStep_filled {sysread : Int} {buf : Option (Nat → UInt8)} {filled : Stream}
    (inStep : InStep (freadExit (taken, state)).2)
    (empty : state.stream.bufpos = state.stream.bufend) (positive : 0 < sysread)
    (moved : later.pos = state.descriptor.pos + sysread)
    (inode : later.inode = state.descriptor.inode) (flags : later.flags = state.descriptor.flags)
    (buffered : buf ≠ none)
    (filledEq :
      filled =
        { state.stream with
          buf := buf
          bufpos := 0
          bufend := sysread.toNat })
    (fits : count ≤ filled.bufend) :
    InStep (freadExit (taken ++ filled.copied count, ⟨later, filled.take count⟩)).2 := by
  have kernel :
      state.descriptor.pos =
        state.stream.filePos + taken.length + (state.stream.bufend - state.stream.bufpos) :=
    inStep.kernel
  have pos : 0 ≤ state.descriptor.pos := inStep.pos
  have length : (filled.copied count).length = count := length_copied count
  subst filledEq
  have bound : count ≤ sysread.toNat := fits
  constructor
  · exact flags.trans inStep.flags
  · show 0 + count ≤ sysread.toNat
    omega
  · show
      later.pos =
        state.stream.filePos + ((taken ++ Stream.copied _ count).length : Nat) +
          ((sysread.toNat : Int) - ((0 + count : Nat) : Int))
    rw [length_append, length]
    omega
  · show 0 ≤ later.pos
    omega
  · show 0 ≤ later.inode.size
    rw [inode]
    exact inStep.size
  · exact inStep.ungetc
  · exact fun none => absurd none buffered

variable {result : List UInt8 × State} {memory : PageMemory} {file : RegFile}

variable {pos : Nat}

theorem headCount_le : headCount file pos 4096 ≤ 4096 := by
  have bound : min (pageBytes - pos % pageBytes) 4096 ≤ 4096 := Nat.min_le_right _ _
  unfold headCount
  dsimp only
  split
  · rename_i short
    rw [asInt32_of_lt (by omega)] at short
    omega
  · exact bound

theorem readHead_le : (readHead memory file pos buf 4096).1 ≤ 4096 := by
  unfold readHead
  dsimp only
  split
  · exact Nat.zero_le _
  · exact headCount_le

theorem readInode_returns : (readInode memory file pos buf 4096).isSome = true := by
  unfold readInode
  split
  · rfl
  · have small : (readHead memory file pos buf 4096).1 ≤ 4096 := readHead_le
    generalize readHead memory file pos buf 4096 = head at small ⊢
    obtain ⟨nread, blkindex, filled⟩ := head
    have ends : (readPages memory file pos 4096 3 nread blkindex filled).isSome = true := by
      rw [readPages]
      split
      · rename_i whole
        rw [wrap32_of_lt (by unfold pageBytes; omega)] at whole
        have first : nread = 0 := by
          unfold pageBytes at whole
          omega
        rw [first, readPages, if_neg]
        · rfl
        · intro again
          exact absurd again.1 (by decide)
      · rfl
    obtain ⟨pages, paged⟩ := Option.isSome_iff_exists.mp ends
    have fuel : 4096 / pageBytes + 2 = 3 := by decide
    simp only [fuel, paged]
    rfl

/-- A read of a buffer's size comes to an end. -/
theorem sysRead_returns (descriptor : Descriptor) (stream : Stream) :
    ∃ answer, descriptor.sysRead stream.buf stream.bufsz = some answer := by
  unfold Descriptor.sysRead Stream.bufsz
  split
  · exact ⟨_, rfl⟩
  · cases stream.buf with
    | none => exact ⟨_, rfl⟩
    | some bytes =>
      have ends :
          (readInode descriptor.memory descriptor.inode
            descriptor.pos.toNat bytes 4096).isSome = true :=
        readInode_returns
      obtain ⟨read, answered⟩ := Option.isSome_iff_exists.mp ends
      simp only [Option.isSome_some, if_true, answered]
      exact ⟨_, rfl⟩

/--
Every turn of the loop reads something or is the last, and the positions once
`file_pos` has been moved are in step.
-/
theorem fillLoop_inStep {fuel : Nat} (inStep : InStep (freadExit (taken, state)).2)
    (drained : taken.length < nbytes → state.stream.bufpos = state.stream.bufend)
    (bounded : taken.length ≤ nbytes) (enough : nbytes < taken.length + fuel) :
    ∃ result,
      fillLoop nbytes upto fuel taken state = some result ∧
        InStep (freadExit result).2 ∧ result.2.stream.filePos = state.stream.filePos := by
  induction fuel generalizing taken state with
  | zero => omega
  | succ fuel ih =>
    rw [fillLoop]
    split
    · rename_i wanting
      have empty := drained wanting
      obtain ⟨⟨sysread, buf, later⟩, answered⟩ := sysRead_returns state.descriptor state.stream
      have spec := sysRead_spec inStep.pos answered
      rw [answered]
      dsimp only
      split
      · rename_i stopped
        refine ⟨_, rfl, ?_, rfl⟩
        rcases spec with ⟨_, same⟩ | ⟨started, moved, inode, flags, _⟩
        · subst same
          exact inStep
        · have moved : later.pos = state.descriptor.pos + sysread := moved
          have same : later.pos = state.descriptor.pos := by omega
          exact ⟨flags.trans inStep.flags, inStep.ordered, same.trans inStep.kernel,
            same.symm ▸ inStep.pos, inode.symm ▸ inStep.size, inStep.ungetc, inStep.unbuffered⟩
      · rename_i positive
        obtain ⟨_, moved, inode, flags, buffered⟩ :=
          spec.resolve_left fun failed => positive (Int.le_of_lt failed.1)
        have advanced :=
          inStep_filled inStep empty (Int.not_le.mp positive) moved inode flags buffered rfl
            (nextCount_le (nbytes - taken.length) upto)
        split
        · exact ⟨_, rfl, advanced, rfl⟩
        · rename_i absent
          have count := nextCount_of_no_stop (nbytes - taken.length) absent
          refine ih advanced ?_ ?_ ?_
          · intro short
            rw [length_append, length_copied, count] at short
            show 0 + Stream.nextCount _ _ _ = sysread.toNat
            rw [count]
            dsimp only at short ⊢
            omega
          · rw [length_append, length_copied, count]
            omega
          · rw [length_append, length_copied, count]
            dsimp only
            omega
    · exact ⟨_, rfl, inStep, rfl⟩

theorem firstCount_le : stream.firstCount nbytes upto ≤ stream.pending := by
  unfold Stream.firstCount
  split
  · rename_i offset found
    have inside := stop_lt found
    omega
  · exact Nat.min_le_left _ _

variable {whence : Whence} {offset : Int} {run : Run} {source : Nat → Nat}

theorem writeInode_nil (source : Nat → Nat) (present : BlockPresent descriptor) :
    ∃ inode memory,
      writeInode source descriptor.memory descriptor.inode descriptor.pos.toNat [] =
          some (.ok (), 0, inode, memory) ∧ descriptor.inode.size ≤ inode.size := by
  obtain ⟨head, started, fresh, same⟩ :
      ∃ head,
        writeHead source descriptor.memory descriptor.inode descriptor.pos.toNat [] = (true, head) ∧
          head.nwrite = 0 ∧ head.file = descriptor.inode := by
    unfold writeHead
    by_cases aligned : descriptor.pos.toNat % pageBytes = 0
    · rw [if_pos aligned]
      exact ⟨_, rfl, rfl, rfl⟩
    · rw [if_neg aligned]
      rcases present with edge | ⟨direct, present⟩
      · exact absurd edge aligned
      · unfold writeBlock blockByIndexOrNew
        have inside : descriptor.pos.toNat / pageBytes < nDirectBlocks := direct
        have there : ¬descriptor.inode.directblock (descriptor.pos.toNat / pageBytes) = 0 := present
        simp only [if_pos inside, if_neg there, take_nil]
        exact ⟨_, rfl, rfl, rfl⟩
  have pages : writePages source [] (([] : List UInt8).length / pageBytes + 2) head = _ :=
    if_neg (by rw [fresh]; decide)
  have tail : writeTail source [] head = (true, head) := by
    rfl
  unfold writeInode
  simp only [started, pages, tail]
  unfold writeExit
  rw [fresh, same]
  refine ⟨_, _, rfl, ?_⟩
  split
  · rename_i grows
    exact Int.le_of_lt grows
  · exact Int.le_refl _

theorem sysLseek_inside (pos : 0 ≤ descriptor.pos) (known : whence ≠ .unknown)
    (lower : 0 ≤ descriptor.sought offset whence)
    (upper : descriptor.sought offset whence ≤ descriptor.inode.size) :
    descriptor.sysLseek offset whence =
      (descriptor.sought offset whence,
        { descriptor with pos := descriptor.sought offset whence }) := by
  have inside :
      clampPos descriptor.inode.size (descriptor.sought offset whence) =
        descriptor.sought offset whence := by
    rw [clampPos, if_neg (Int.not_lt.mpr upper), if_neg (Int.not_lt.mpr lower)]
  unfold Descriptor.sysLseek
  rw [if_neg (Int.not_lt.mpr pos), if_neg known]
  dsimp only
  rw [inside]

/-! ## Calls that keep a stream in step -/

section InStep

variable (inStep : InStep state)

include inStep

/-- The bytes that are in the buffer already are read in step. -/
theorem inStep_firstCount :
    InStep
      (freadExit
        (state.stream.copied (state.stream.firstCount nbytes upto),
          { state with stream := state.stream.take (state.stream.firstCount nbytes upto) })).2 := by
  have fits : state.stream.firstCount nbytes upto ≤ state.stream.pending := firstCount_le
  have ordered := inStep.ordered
  have kernel := inStep.kernel
  unfold Stream.pending at fits
  refine ⟨inStep.flags, ?_, ?_, inStep.pos, inStep.size, inStep.ungetc, ?_⟩
  · show state.stream.bufpos + state.stream.firstCount nbytes upto ≤ state.stream.bufend
    omega
  · show
      state.descriptor.pos =
        state.stream.filePos + ((Stream.copied _ _).length : Nat) +
          ((state.stream.bufend : Int) -
            ((state.stream.bufpos + state.stream.firstCount nbytes upto : Nat) : Int))
    rw [length_copied]
    omega
  · intro unbuffered
    obtain ⟨bufpos, bufend⟩ := inStep.unbuffered unbuffered
    refine ⟨?_, bufend⟩
    show state.stream.bufpos + state.stream.firstCount nbytes upto = 0
    omega

theorem freadBody_reads :
    ∃ result, freadBody nbytes upto state = some result ∧ ReadsInStep state result := by
  have begun := @inStep_firstCount state nbytes upto inStep
  unfold freadBody
  dsimp only
  split
  · exact ⟨_, rfl, begun, rfl⟩
  · rename_i absent
    rw [Option.not_isSome_iff_eq_none] at absent
    have count : state.stream.firstCount nbytes upto = min state.stream.pending nbytes := by
      unfold Stream.firstCount
      rw [absent]
    have length := @length_copied state.stream (state.stream.firstCount nbytes upto)
    have ordered := inStep.ordered
    unfold Stream.pending at count
    obtain ⟨read, looped, ended, filePos⟩ := @fillLoop_inStep _ nbytes upto _ (nbytes + 1) begun
      (fun short => show state.stream.bufpos + _ = state.stream.bufend by omega)
      (by omega) (by omega)
    rw [looped]
    refine ⟨_, rfl, ended, ?_⟩
    show read.2.stream.filePos + (read.1.length : Int) = _
    rw [filePos]
    rfl

theorem freadUpto_reads :
    ∃ result, freadUpto nbytes upto state = some result ∧ ReadsInStep state result := by
  unfold freadUpto
  split
  · exact ⟨_, rfl, inStep, by simp⟩
  · rw [if_neg (not_not_intro inStep.ungetc)]
    exact freadBody_reads inStep

theorem freadUpto_readsInStep (returned : freadUpto nbytes upto state = some result) :
    ReadsInStep state result := by
  obtain ⟨_, answered, reads⟩ := @freadUpto_reads _ nbytes upto inStep
  rw [returned] at answered
  cases answered
  exact reads

theorem freadNobuf_readsInStep (returned : freadNobuf nbytes state = some result) :
    ReadsInStep state result := by
  have kernel := inStep.kernel
  unfold freadNobuf at returned
  split at returned
  · cases returned
    exact ⟨inStep, by simp⟩
  · dsimp only at returned
    split at returned
    · cases returned
    · rename_i ret buf later answered
      have spec := sysRead_spec inStep.pos answered
      split at returned
      · rename_i failed
        cases returned
        rcases spec with ⟨_, same⟩ | ⟨started, _⟩
        · subst same
          refine ⟨⟨inStep.flags, inStep.ordered, kernel, inStep.pos,
            inStep.size, rfl, inStep.unbuffered⟩, ?_⟩
          show state.stream.filePos = state.stream.filePos + ((0 : Nat) : Int)
          omega
        · omega
      · rename_i succeeded
        cases returned
        rcases spec with ⟨negative, _⟩ | ⟨_, moved, inode, flags, _⟩
        · omega
        · have pos := inStep.pos
          refine ⟨⟨flags.trans inStep.flags, inStep.ordered, ?_, ?_, ?_, rfl,
            inStep.unbuffered⟩, ?_⟩
          · show
              later.pos = state.stream.filePos + ret + (state.stream.bufend - state.stream.bufpos)
            omega
          · show 0 ≤ later.pos
            omega
          · show 0 ≤ later.inode.size
            rw [inode]
            exact inStep.size
          · show state.stream.filePos + ret = state.stream.filePos + ((List.map _ _).length : Nat)
            rw [length_map, length_range]
            omega

theorem fgetc_readsInStep (returned : fgetc state = some result) : ReadsInStep state result := by
  unfold fgetc at returned
  split at returned
  · cases returned
    exact ⟨inStep, by simp⟩
  · rw [if_neg (not_not_intro inStep.ungetc)] at returned
    split at returned
    · exact freadUpto_readsInStep inStep returned
    · exact freadNobuf_readsInStep inStep returned

theorem fgets_readsInStep {size : Int} (returned : fgets size state = some result) :
    ReadsInStep state result := by
  unfold fgets at returned
  split at returned
  · cases returned
    exact ⟨inStep, by simp⟩
  · exact freadUpto_readsInStep inStep returned

/-- A write that is refused, or has no bytes, changes no position. -/
theorem fwrite_tame {bytes : List UInt8} {later : State}
    (tame : state.stream.flags &&& oRdonly ≠ 0 ∨ bytes = [] ∧ BlockPresent state.descriptor)
    (returned : fwrite source bytes state = some later) :
    InStep later ∧ later.stream = state.stream ∧ later.descriptor.pos = state.descriptor.pos := by
  unfold fwrite at returned
  split at returned
  · cases returned
    exact ⟨inStep, rfl, rfl⟩
  · rename_i writable
    rcases tame with refused | ⟨nothing, present⟩
    · exact absurd refused writable
    · subst nothing
      obtain ⟨inode, memory, written, grows⟩ := writeInode_nil source present
      have answered :
          state.descriptor.sysWrite source [] =
            some
              (0,
                Descriptor.moved
                  { state.descriptor with
                    inode := inode
                    memory := memory }
                  0) := by
        have allowed : ¬state.descriptor.flags &&& oRdonly ≠ 0 := inStep.flags ▸ writable
        unfold Descriptor.sysWrite
        rw [if_neg allowed, written]
        rfl
      have stays :
          (Descriptor.moved { state.descriptor with inode := inode, memory := memory } 0).pos =
            state.descriptor.pos := by
        unfold Descriptor.moved advancePos
        rw [if_pos inStep.pos]
        exact Int.add_zero _
      rw [answered] at returned
      cases returned
      refine ⟨⟨inStep.flags, inStep.ordered, ?_, ?_, ?_, inStep.ungetc,
        inStep.unbuffered⟩, rfl, stays⟩
      · exact stays.trans inStep.kernel
      · exact stays ▸ inStep.pos
      · exact Int.le_trans inStep.size grows

theorem fstreamClearbuf_spec :
    (fstreamClearbuf state.stream).bufpos = 0 ∧ (fstreamClearbuf state.stream).bufend = 0 ∧
      (fstreamClearbuf state.stream).ungetc = 0 ∧
      (fstreamClearbuf state.stream).flags = state.stream.flags := by
  unfold fstreamClearbuf
  split
  · exact ⟨rfl, rfl, rfl, rfl⟩
  · rename_i unbuffered
    rw [Option.not_isSome_iff_eq_none] at unbuffered
    obtain ⟨bufpos, bufend⟩ := inStep.unbuffered unbuffered
    exact ⟨bufpos, bufend, inStep.ungetc, rfl⟩

end InStep

/-! ## Every run -/

/-- The positions are in step, `ftell` is right, and so were the writes. -/
structure Settled (run : Run) : Prop where
  inStep : InStep run.state
  told : ftell run.state = run.position
  placed : ∀ write ∈ run.writes, write.1 = write.2

section

variable (settled : Settled run)

include settled

theorem Settled.coherent : Coherent run where
  kernel := settled.inStep.kernel
  told := settled.told
  placed := settled.placed
  returns _ _ _ := (freadUpto_reads settled.inStep).imp fun _ => And.left

theorem Settled.afterRead (reads : ReadsInStep run.state result) :
    Settled (run.afterRead result) where
  inStep := reads.inStep
  told := by
    show ftell result.2 = run.position + (result.1.length : Int)
    rw [reads.told, settled.told]
  placed := settled.placed

/-- A seek to a place in the file that the program wants to go to. -/
theorem Settled.afterSeekTo {passed : Int} {origin : Whence} (known : origin ≠ .unknown)
    (wanted : run.wanted offset whence = run.state.descriptor.sought passed origin)
    (lower : 0 ≤ run.state.descriptor.sought passed origin)
    (upper : run.state.descriptor.sought passed origin ≤ run.state.descriptor.inode.size) :
    Settled (run.afterSeek offset whence (fseekTo passed origin run.state)) := by
  have inStep := settled.inStep
  obtain ⟨bufpos, bufend, ungetc, flags⟩ := fstreamClearbuf_spec inStep
  have sought := sysLseek_inside inStep.pos known lower upper
  unfold fseekTo
  simp only [sought]
  rw [if_neg (Int.not_lt.mpr lower)]
  refine ⟨⟨inStep.flags.trans flags.symm, ?_, ?_, lower, inStep.size,
    ungetc, fun _ => ⟨bufpos, bufend⟩⟩, wanted.symm, settled.placed⟩
  · show (fstreamClearbuf run.state.stream).bufpos ≤ (fstreamClearbuf run.state.stream).bufend
    rw [bufpos, bufend]
  · show
      run.state.descriptor.sought passed origin =
        run.state.descriptor.sought passed origin +
          (((fstreamClearbuf run.state.stream).bufend : Int) -
            ((fstreamClearbuf run.state.stream).bufpos : Int))
    omega

theorem Settled.afterSeek (tame : Tame run (.fseek offset whence)) :
    Settled (run.afterSeek offset whence (fseek offset whence run.state)) := by
  have told : run.state.stream.filePos = run.position := settled.told
  cases whence with
  | seekSet => exact settled.afterSeekTo (by decide) rfl tame.1 tame.2
  | seekCur =>
    unfold fseek
    dsimp only
    split
    · rename_i still
      refine ⟨settled.inStep, ?_, settled.placed⟩
      show run.state.stream.filePos = run.position + offset
      omega
    · rename_i moves
      have inside := tame.resolve_left moves
      refine settled.afterSeekTo (by decide) ?_ inside.1 inside.2
      show run.position + offset = offset + run.state.stream.filePos
      omega
  | seekEnd =>
    have here : offset = 0 := tame
    subst here
    have size := settled.inStep.size
    refine settled.afterSeekTo (by decide) ?_ ?_ ?_
    · show run.state.descriptor.inode.size + 0 = run.state.descriptor.inode.size - 0
      omega
    · show 0 ≤ run.state.descriptor.inode.size - 0
      omega
    · show run.state.descriptor.inode.size - 0 ≤ run.state.descriptor.inode.size
      omega
  | unknown => exact ⟨settled.inStep, settled.told, settled.placed⟩

theorem Settled.perform {call : Call} {later : Run} (tame : Tame run call)
    (returned : run.perform source call = some later) : Settled later := by
  cases call with
  | fread size nmemb =>
    obtain ⟨result, read, rfl⟩ := Option.map_eq_some_iff.mp returned
    refine settled.afterRead ?_
    unfold fread at read
    split at read
    · cases read
      exact ⟨settled.inStep, by simp⟩
    · split at read
      · exact freadUpto_readsInStep settled.inStep read
      · exact freadNobuf_readsInStep settled.inStep read
  | fgetc =>
    obtain ⟨result, read, rfl⟩ := Option.map_eq_some_iff.mp returned
    exact settled.afterRead (fgetc_readsInStep settled.inStep read)
  | fgets size =>
    obtain ⟨result, read, rfl⟩ := Option.map_eq_some_iff.mp returned
    exact settled.afterRead (fgets_readsInStep settled.inStep read)
  | fwrite bytes =>
    obtain ⟨later, wrote, rfl⟩ := Option.map_eq_some_iff.mp returned
    obtain ⟨inStep, stream, pos⟩ := fwrite_tame settled.inStep tame wrote
    unfold Run.afterWrite
    rw [if_neg (by omega)]
    refine ⟨inStep, ?_, settled.placed⟩
    show later.stream.filePos = run.position
    rw [stream]
    exact settled.told
  | fseek offset whence =>
    cases returned
    exact settled.afterSeek tame

end

/-- `fopen` starts with all positions at one place. -/
theorem inStep_fopenOn
    (buf : Option (Nat → UInt8)) (pos : 0 ≤ descriptor.pos) (size : 0 ≤ descriptor.inode.size) :
    InStep (fopenOn descriptor descriptor.flags buf) := by
  have known : Whence.seekEnd ≠ .unknown := by decide
  have place : descriptor.sought 0 .seekEnd = descriptor.inode.size := Int.sub_zero _
  have atEnd :
      descriptor.sysLseek 0 .seekEnd =
        (descriptor.inode.size, { descriptor with pos := descriptor.inode.size }) := by
    rw [sysLseek_inside pos known (place ▸ size) (place ▸ Int.le_refl _), place]
  unfold fopenOn
  rw [atEnd]
  dsimp only
  rw [if_neg (Int.not_lt.mpr size)]
  split
  · refine ⟨rfl, le_refl 0, ?_, size, size, rfl, fun _ => ⟨rfl, rfl⟩⟩
    show descriptor.inode.size = descriptor.inode.size + (0 - 0)
    omega
  · have back :
        (Descriptor.sysLseek { descriptor with pos := descriptor.inode.size } 0 .seekSet).2 =
          { descriptor with pos := 0 } := by
      refine congrArg Prod.snd (sysLseek_inside ?_ ?_ ?_ ?_)
      · exact size
      · decide
      · exact Int.le_refl 0
      · exact size
    rw [back]
    exact ⟨rfl, le_refl 0, rfl, Int.le_refl 0, size, rfl, fun _ => ⟨rfl, rfl⟩⟩

theorem settled_start (initial : (streams source).start run) : Settled run := by
  obtain ⟨descriptor, buf, pos, size, opened, position, none⟩ := initial
  have inStep : InStep run.state := by
    rw [opened]
    exact inStep_fopenOn buf pos size
  refine ⟨inStep, position.symm, ?_⟩
  rw [none]
  exact fun _ member => absurd member (not_mem_nil)

/-- A file of three bytes in a page at 4096, and a descriptor at its start. -/
def threeBytes : Descriptor where
  memory := { bytes := fun addr => UInt8.ofNat addr, granted := 1 }
  inode :=
    { emptyFile with
      size := 3
      blockCount := 1
      directblock := fun index => if index = 0 then 4096 else 0 }
  flags := oRdwr
  pos := 0

/-- The stream that `fopen` makes of it. -/
def openedStream : Run where
  state := fopenOn threeBytes oRdwr (some fun _ => 0)
  position := 0
  writes := []

theorem openedStream_start (source : Nat → Nat) : (streams source).start openedStream :=
  ⟨threeBytes, some fun _ => 0, by decide, by decide, rfl, rfl, rfl⟩

/-- The positions of a run: the kernel's, the stream's, and the buffer's. -/
def positions (run : Run) : Int × Int × Nat × Nat :=
  (run.state.descriptor.pos, run.state.stream.filePos,
    run.state.stream.bufpos, run.state.stream.bufend)

end Cosec.Libc.StreamPositions
