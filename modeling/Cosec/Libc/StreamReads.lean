import Mathlib.Algebra.Ring.Nat
import Cosec.Lib.Word32

/-!
# Reading a stream

`fread_upto` serves a request from the buffer and then refills it, as often
as it has to, with whatever `sys_read` returns.  What the descriptor has not
delivered yet is the list of the pieces it will be delivered in.

This is the loop of `BufferedStreams` without delimiters and without a file
system below it: the pieces may come from any descriptor, and be of any size.
-/

namespace Cosec.Libc.StreamReads

open Lib.Word32 List

/-- What one call of `sys_read` returns in front of the end of a file. -/
abbrev Piece := { bytes : List UInt8 // bytes ≠ [] }

/-- A stream: `window` is the buffer from `file_bufpos` to `file_bufend`. -/
structure Stream where
  pieces : List Piece
  window : List UInt8
  filePos : Nat
  ungetc : UInt8

/-- The bytes that are left of a file. -/
def Stream.left (stream : Stream) : List UInt8 :=
  stream.window ++ (stream.pieces.map Subtype.val).flatten

/-- The loop of `fread_upto` without a delimiter, behind the bytes already taken. -/
def fillLoop (nbytes : Nat) :
    List UInt8 → List UInt8 → List Piece → List UInt8 × List UInt8 × List Piece
  | taken, window, [] => (taken, window, [])
  | taken, window, buf :: pieces =>
    if taken.length < nbytes then
      let toRead :=
        if wrap32 (taken.length + buf.val.length) > nbytes then nbytes - taken.length
        else buf.val.length
      fillLoop nbytes (taken ++ buf.val.take toRead) (buf.val.drop toRead) pieces
    else (taken, window, buf :: pieces)

/-- `fread_fbf`: the bytes that it stores, what it returns, and the stream. -/
def freadFbf (nbytes : Nat) (stream : Stream) : List UInt8 × Nat × Stream :=
  if nbytes < 1 then ([], 0, stream)
  else
    let (pushed, nbytes) := if stream.ungetc ≠ 0 then ([stream.ungetc], nbytes - 1) else ([], nbytes)
    let toRead := min stream.window.length nbytes
    let (taken, window, pieces) :=
      fillLoop nbytes (stream.window.take toRead) (stream.window.drop toRead) stream.pieces
    (pushed ++ taken, taken.length, ⟨pieces, window, stream.filePos + taken.length, 0⟩)

/-- Requests one after the other. -/
def freads : List Nat → Stream → List (List UInt8 × Nat) × Stream
  | [], stream => ([], stream)
  | n :: requests, stream =>
    let (bytes, count, later) := freadFbf n stream
    let (rest, last) := freads requests later
    ((bytes, count) :: rest, last)

/-- What plain reading gives. -/
def plainReads : List Nat → List UInt8 → List (List UInt8 × Nat)
  | [], _ => []
  | n :: requests, left =>
    (left.take n, min n left.length) :: plainReads requests (left.drop n)

/-- A file by the pieces it is read in; sizes of files are not negative as an `off_t`. -/
structure Pieces where
  pieces : List Piece
  bounded : (pieces.map Subtype.val).flatten.length < 2147483648

/-- A stream that was opened on a file. -/
def opened (file : Pieces) : Stream := ⟨file.pieces, [], 0, 0⟩

/-- A request is served from the front of the bytes first. -/
theorem take_drop_front {front rest : List UInt8} {count wanted : Nat} (inFront : count ≤ front.length)
    (enough : count ≤ wanted) :
    (front ++ rest).take wanted =
        front.take count ++ (front.drop count ++ rest).take (wanted - count) ∧
      (front ++ rest).drop wanted = (front.drop count ++ rest).drop (wanted - count) := by
  obtain ⟨more, rfl⟩ := Nat.exists_eq_add_of_le enough
  rw [take_add, ← drop_drop, take_append_of_le_length inFront,
    drop_append_of_le_length inFront, Nat.add_sub_cancel_left]
  exact ⟨rfl, rfl⟩

theorem fillLoop_eq {nbytes : Nat} {taken window : List UInt8} {pieces : List Piece}
    (used : taken.length < nbytes → window = [])
    (bounded : taken.length + (pieces.map Subtype.val).flatten.length < 2147483648) :
    let left := window ++ (pieces.map Subtype.val).flatten
    let result := fillLoop nbytes taken window pieces
    result.1 = taken ++ left.take (nbytes - taken.length) ∧
      result.2.1 ++ (result.2.2.map Subtype.val).flatten = left.drop (nbytes - taken.length) := by
  induction pieces generalizing taken window with
  | nil =>
    rcases Nat.lt_or_ge taken.length nbytes with more | enough
    · simp [fillLoop, used more]
    · simp [fillLoop, Nat.sub_eq_zero_of_le enough]
  | cons buf pieces ih =>
    rw [fillLoop]
    split
    · rename_i more
      rw [map_cons, flatten_cons, length_append] at bounded
      have toRead :
          (if wrap32 (taken.length + buf.val.length) > nbytes then nbytes - taken.length
            else buf.val.length) = min (nbytes - taken.length) buf.val.length := by
        rw [wrap32_of_lt (by omega)]
        split <;> omega
      simp only [toRead, used more, nil_append, map_cons, flatten_cons]
      generalize wanted : min (nbytes - taken.length) buf.val.length = count
      have taking : (taken ++ buf.val.take count).length = taken.length + count := by
        rw [length_append, length_take]
        omega
      obtain ⟨front, rest⟩ := @take_drop_front buf.val (pieces.map Subtype.val).flatten count
        (nbytes - taken.length) (by omega) (by omega)
      have later := @ih (taken ++ buf.val.take count) (buf.val.drop count) ?_ ?_
      · rw [taking, ← Nat.sub_sub] at later
        rw [front, rest, ← append_assoc]
        exact later
      · rw [taking]
        intro unread
        exact drop_eq_nil_of_le (by omega)
      · rw [taking]
        omega
    · rename_i enough
      simp [Nat.sub_eq_zero_of_le (Nat.not_lt.mp enough)]

/-- A request is served with the bytes that are left, whatever pieces they come in. -/
theorem freadFbf_eq {stream : Stream} (plain : stream.ungetc = 0)
    (bounded : stream.left.length < 2147483648) (nbytes : Nat) :
    ∃ later,
      freadFbf nbytes stream = (stream.left.take nbytes, min nbytes stream.left.length, later) ∧
        later.left = stream.left.drop nbytes ∧ later.ungetc = 0 ∧
        later.filePos = stream.filePos + min nbytes stream.left.length := by
  unfold freadFbf
  split
  · rename_i nothing
    obtain rfl : nbytes = 0 := by omega
    simp [plain]
  · simp only [plain, ne_eq, not_true_eq_false, if_false, nil_append]
    generalize wanted : min stream.window.length nbytes = count
    have length : (stream.window.take count).length = count := by
      rw [length_take]
      omega
    unfold Stream.left at bounded
    rw [length_append] at bounded
    obtain ⟨front, rest⟩ := @take_drop_front stream.window (stream.pieces.map Subtype.val).flatten
      count nbytes (by omega) (by omega)
    have loop := @fillLoop_eq nbytes (stream.window.take count) (stream.window.drop count)
      stream.pieces ?_ ?_
    · rw [length] at loop
      obtain ⟨all, unread⟩ := loop
      rw [← front] at all
      rw [← rest] at unread
      have counted := (congrArg List.length all).trans length_take
      exact ⟨⟨_, _, _, 0⟩, Prod.ext all (Prod.ext counted rfl), unread, rfl,
        congrArg (stream.filePos + ·) counted⟩
    · rw [length]
      intro unread
      exact drop_eq_nil_of_le (by omega)
    · rw [length]
      omega

/-- Buffered reads return what plain reads of the file do, and count it. -/
theorem reads_transparent (file : Pieces) (requests : List Nat) :
    let reads := freads requests (opened file)
    reads.1 = plainReads requests (opened file).left ∧
      (reads.1.map Prod.fst).flatten <+: (opened file).left ∧
      reads.2.filePos = (reads.1.map Prod.snd).sum := by
  have run : ∀ stream : Stream, stream.ungetc = 0 → stream.left.length < 2147483648 →
      let reads := freads requests stream
      reads.1 = plainReads requests stream.left ∧ (reads.1.map Prod.fst).flatten <+: stream.left ∧
        reads.2.filePos = stream.filePos + (reads.1.map Prod.snd).sum := by
    induction requests with
    | nil =>
      intro stream _ _
      simp [freads, plainReads]
    | cons n requests ih =>
      intro stream plain bounded
      obtain ⟨later, served, left, unpushed, moved⟩ := freadFbf_eq plain bounded n
      obtain ⟨reads, isPrefix, position⟩ := ih later unpushed (by rw [left, length_drop]; omega)
      rw [freads, served, plainReads]
      rw [left] at reads isPrefix
      refine ⟨by rw [← reads], ?_, ?_⟩
      · rw [map_cons, flatten_cons]
        obtain ⟨rest, whole⟩ := isPrefix
        exact ⟨rest, by rw [append_assoc, whole, take_append_drop]⟩
      · rw [position, moved, map_cons, sum_cons, Nat.add_assoc]
  simpa [opened] using run (opened file) rfl (by simpa [opened, Stream.left] using file.bounded)

end Cosec.Libc.StreamReads
