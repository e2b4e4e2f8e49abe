import Cosec.Fs.FileCalls

/-!
# Streams of the standard library

The streams of `stdio.c` on a regular file, with the system calls they make
on its descriptor.  A stream has a buffer that it reads ahead into, unless
there was no memory for one; it writes directly.

A descriptor here is one slot of the tables of `FileCalls`, open on a regular
file.  The checks of the tables and of other file types are left to that
module, and reads that return any pieces of a file to `StreamReads`.
-/

namespace Cosec.Libc.BufferedStreams

open Fs.FileBlocks Fs.FileCalls Lib.Word32 Libc.Strings

/-! ## The descriptor of a regular file -/

/-- A descriptor, and the inode and the memory of its file. -/
structure Descriptor where
  memory : PageMemory
  inode : RegFile
  flags : UInt32
  pos : Int

inductive Whence where
  | seekSet
  | seekCur
  | seekEnd
  | unknown
deriving DecidableEq

/-- `EIO`, `EBADF`, `EINVAL` and `ESPIPE`. -/
def eio : Int := 5
def ebadf : Int := 9
def einval : Int := 22
def espipe : Int := 29

/-- The descriptor after a transfer. -/
def Descriptor.moved (descriptor : Descriptor) (count : Nat) : Descriptor :=
  { descriptor with pos := advancePos count descriptor.pos }

/--
`sys_read`: the result and the buffer, which may be null.  `none` stands for
a call that does not return.
-/
def Descriptor.sysRead (descriptor : Descriptor) (buf : Option (Nat → UInt8)) (count : Nat) :
    Option (Int × Option (Nat → UInt8) × Descriptor) :=
  if descriptor.flags &&& oWronly ≠ 0 then some (-ebadf, buf, descriptor)
  else
    match buf with
    | none => some (-einval, none, descriptor)
    | some bytes =>
      match readInode descriptor.memory descriptor.inode descriptor.pos.toNat bytes count with
      | none => none
      | some (nread, stored) => some (nread, some stored, descriptor.moved nread)

/-- `sys_write`. -/
def Descriptor.sysWrite (source : Nat → Nat) (descriptor : Descriptor) (bytes : List UInt8) :
    Option (Int × Descriptor) :=
  if descriptor.flags &&& oRdonly ≠ 0 then some (-ebadf, descriptor)
  else
    match writeInode source descriptor.memory descriptor.inode descriptor.pos.toNat bytes with
    | none => none
    | some (.error _, _, inode, memory) =>
      some (-eio, { descriptor with inode := inode, memory := memory })
    | some (.ok (), nwritten, inode, memory) =>
      let written := { descriptor with inode := inode, memory := memory }
      some (nwritten, written.moved nwritten)

/-- The position that `sys_lseek` returns. -/
def Descriptor.sought (descriptor : Descriptor) (offset : Int) : Whence → Int
  | .seekSet => offset
  | .seekCur => descriptor.pos + offset
  | .seekEnd => descriptor.inode.size - offset
  | .unknown => -einval

/-- `sys_lseek`, which keeps the descriptor inside the file. -/
def Descriptor.sysLseek (descriptor : Descriptor) (offset : Int) (whence : Whence) :
    Int × Descriptor :=
  if descriptor.pos < 0 then (-espipe, descriptor)
  else if whence = .unknown then (-einval, descriptor)
  else
    let target := descriptor.sought offset whence
    (target, { descriptor with pos := clampPos descriptor.inode.size target })

/-! ## Streams -/

/--
`FILE`.  Without a buffer `file_buf` is null, `file_bufsz` is zero and
`file_bufmode` is `_IONBF`.
-/
structure Stream where
  flags : UInt32
  filePos : Int
  ungetc : UInt8
  buf : Option (Nat → UInt8)
  bufpos : Nat
  bufend : Nat

structure State where
  descriptor : Descriptor
  stream : Stream

/-- `file_bufsz`. -/
def Stream.bufsz (stream : Stream) : Nat := if stream.buf.isSome then 4096 else 0

/-- Bytes of the buffer that were not read yet. -/
def Stream.pending (stream : Stream) : Nat := stream.bufend - stream.bufpos

/-- The end of `fopen_on`, from the opened descriptor on. -/
def fopenOn (descriptor : Descriptor) (flags : UInt32) (buf : Option (Nat → UInt8)) : State :=
  let (filesize, atEnd) := descriptor.sysLseek 0 .seekEnd
  let (filePos, placed) :=
    if filesize < 0 then ((-1 : Int), atEnd)
    else if flags &&& oAppend ≠ 0 then (filesize, atEnd)
    else (0, (atEnd.sysLseek 0 .seekSet).2)
  { descriptor := placed
    stream :=
      { flags := flags
        filePos := filePos
        ungetc := 0
        buf := buf
        bufpos := 0
        bufend := 0 } }

/-- The place of a delimiter among bytes of the buffer. -/
def Stream.stop (stream : Stream) (upto : Option UInt8) (start count : Nat) : Option Nat :=
  upto.bind fun char => stream.buf.bind fun bytes => strnchr bytes char start count

/-- Bytes from the buffer to the program. -/
def Stream.copied (stream : Stream) (count : Nat) : List UInt8 :=
  (List.range count).map fun offset => (stream.buf.getD fun _ => 0) (stream.bufpos + offset)

def Stream.take (stream : Stream) (count : Nat) : Stream :=
  { stream with bufpos := stream.bufpos + count }

/--
What the loop of `fread_upto` takes out of a full buffer.  A delimiter in it
counts more than the number of bytes asked for.
-/
def Stream.nextCount (stream : Stream) (wanted : Nat) (upto : Option UInt8) : Nat :=
  match stream.stop upto 0 stream.bufend with
  | some offset => offset + 1
  | none => min stream.bufend wanted

/-- The loop of `fread_upto`, which fills the buffer until enough was read. -/
def fillLoop (nbytes : Nat) (upto : Option UInt8) :
    Nat → List UInt8 → State → Option (List UInt8 × State)
  | 0, _, _ => none
  | fuel + 1, taken, state =>
    if taken.length < nbytes then
      match state.descriptor.sysRead state.stream.buf state.stream.bufsz with
      | none => none
      | some (sysread, buf, descriptor) =>
        if sysread ≤ 0 then
          some (taken, { state with descriptor := descriptor })
        else
          let filled : Stream :=
            { state.stream with
              buf := buf
              bufpos := 0
              bufend := sysread.toNat }
          let toRead := filled.nextCount (nbytes - taken.length) upto
          let more := taken ++ filled.copied toRead
          let later : State := ⟨descriptor, filled.take toRead⟩
          if (filled.stop upto 0 filled.bufend).isSome then
            some (more, later)
          else fillLoop nbytes upto fuel more later
    else some (taken, state)

/-- The bytes of `fread_upto` that are in the buffer already. -/
def Stream.firstCount (stream : Stream) (nbytes : Nat) (upto : Option UInt8) : Nat :=
  match stream.stop upto stream.bufpos stream.pending with
  | some offset => min (offset + 1) nbytes
  | none => min stream.pending nbytes

/-- `fun_exit` of `fread_upto`. -/
def freadExit (result : List UInt8 × State) : List UInt8 × State :=
  let (taken, state) := result
  (taken,
    { state with
      stream :=
        { state.stream with
          filePos := state.stream.filePos + taken.length } })

/-- The body of `fread_upto` behind the character that was put back. -/
def freadBody (nbytes : Nat) (upto : Option UInt8) (state : State) : Option (List UInt8 × State) :=
  let stream := state.stream
  let toRead := stream.firstCount nbytes upto
  let taken := stream.copied toRead
  let later := { state with stream := stream.take toRead }
  if (stream.stop upto stream.bufpos stream.pending).isSome then
    some (freadExit (taken, later))
  else
    (fillLoop nbytes upto (nbytes + 1) taken later).map freadExit

/-- `fread_upto`: what it counts as read, and the state. -/
def freadUpto (nbytes : Nat) (upto : Option UInt8) (state : State) : Option (List UInt8 × State) :=
  if nbytes < 1 then some ([], state)
  else if state.stream.ungetc ≠ 0 then
    freadBody (nbytes - 1) upto { state with stream := { state.stream with ungetc := 0 } }
  else freadBody nbytes upto state

/-- `fread_nobuf`; the program's buffer is not null. -/
def freadNobuf (nbytes : Nat) (state : State) : Option (List UInt8 × State) :=
  if nbytes < 1 then some ([], state)
  else
    let count := if state.stream.ungetc ≠ 0 then nbytes - 1 else nbytes
    match state.descriptor.sysRead (some fun _ => 0) count with
    | none => none
    | some (ret, buf, descriptor) =>
      let cleared := { state.stream with ungetc := 0 }
      if ret < 0 then
        some ([], { descriptor := descriptor, stream := cleared })
      else
        some
          ((List.range ret.toNat).map (buf.getD fun _ => 0),
            { descriptor := descriptor
              stream := { cleared with filePos := cleared.filePos + ret } })

/-- `fread`, by the mode of the buffer that `fopen` chose. -/
def fread (size nmemb : Nat) (state : State) : Option (List UInt8 × State) :=
  if state.stream.flags &&& oWronly ≠ 0 then some ([], state)
  else if state.stream.buf.isSome then
    freadUpto (wrap32 (size * nmemb)) none state
  else freadNobuf (wrap32 (size * nmemb)) state

/--
`fgetc`: the byte it took off the file, if any, and the state.  A character
that was put back is returned without one.
-/
def fgetc (state : State) : Option (List UInt8 × State) :=
  if state.stream.flags &&& oWronly ≠ 0 then some ([], state)
  else if state.stream.ungetc ≠ 0 then
    some ([], { state with stream := { state.stream with ungetc := 0 } })
  else if state.stream.buf.isSome then freadUpto 1 none state
  else freadNobuf 1 state

/-- `fgets`, for a size that is an `int`. -/
def fgets (size : Int) (state : State) : Option (List UInt8 × State) :=
  if state.stream.flags &&& oWronly ≠ 0 then some ([], state)
  else freadUpto ((size - 1) % 4294967296).toNat (some 0x0a) state

/-- `fwrite`, whose test for an error is the wrong way round. -/
def fwrite (source : Nat → Nat) (bytes : List UInt8) (state : State) : Option State :=
  if state.stream.flags &&& oRdonly ≠ 0 then some state
  else
    match state.descriptor.sysWrite source bytes with
    | none => none
    | some (ret, descriptor) =>
      if 0 ≤ ret then some { state with descriptor := descriptor }
      else
        some
          { descriptor := descriptor
            stream :=
              { state.stream with
                filePos := state.stream.filePos + ret } }

/-- `fstream_clearbuf`. -/
def fstreamClearbuf (stream : Stream) : Stream := if stream.buf.isSome then
    { stream with ungetc := 0, bufpos := 0, bufend := 0 }
  else stream

/-- The end of `fseek`, with the offset and the origin it passes on. -/
def fseekTo (offset : Int) (whence : Whence) (state : State) : Int × State :=
  let cleared := fstreamClearbuf state.stream
  let (ret, descriptor) := state.descriptor.sysLseek offset whence
  if ret < 0 then (-1, ⟨descriptor, cleared⟩)
  else (0, ⟨descriptor, { cleared with filePos := ret }⟩)

/-- `fseek`: the result and the state. -/
def fseek (offset : Int) (whence : Whence) (state : State) : Int × State := match whence with
  | .seekCur =>
    if offset = 0 then (0, state)
    else fseekTo (offset + state.stream.filePos) .seekSet state
  | .seekSet => fseekTo offset .seekSet state
  | .seekEnd => fseekTo offset .seekEnd state
  | .unknown => (-1, state)

/-- `ftell`. -/
def ftell (state : State) : Int := state.stream.filePos

end Cosec.Libc.BufferedStreams
