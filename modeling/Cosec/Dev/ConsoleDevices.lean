import Mathlib.Logic.Function.Basic
import Cosec.Lib.Word32
import Cosec.Libc.ErrorNumbers

/-!
# The devices of consoles

A `vcs` device holds the characters of a console and a `vcsa` device its
characters and attributes.  `vcsa_read` and `vcsa_write` take video memory
for every console but the first, whether it is shown or not, and the length
of a transfer is added to its position in thirty-two bits.
-/

namespace Cosec.Dev.ConsoleDevices

open Function Lib.Word32 Libc.ErrorNumbers List

/-- A byte of `vcsa_buf` or of video memory. -/
inductive Place where
  | buffer (offset : Nat)
  | video (offset : Nat)
deriving DecidableEq

/-- What `vcsa_read` and `vcsa_write` work out before they copy. -/
structure Transfer where
  video : Bool
  vcsaMode : Bool
  vpos : Nat
  count : Nat
deriving DecidableEq

/-- Where `vbuf` points after some bytes. -/
def Transfer.place (transfer : Transfer) (done : Nat) : Place :=
  let offset := transfer.vpos + if transfer.vcsaMode then done else 2 * done
  if transfer.video then .video offset else .buffer offset

/-- The common part of `vcsa_read` and `vcsa_write`. -/
def vcsaTransfer (devNo buflen pos : Nat) : Except Errno Transfer :=
  let vcsIndex := if devNo ≥ 0x80 then devNo - 0x80 else devNo
  let vcsaMode := decide (devNo ≥ 0x80)
  let vpos := if vcsaMode then pos else wrap32 (2 * pos)
  let count :=
    if vcsaMode then if wrap32 (vpos + buflen) > 4000 then sub32 4000 vpos else buflen
    else if wrap32 (pos + buflen) > 2000 then sub32 2000 pos else buflen
  if vcsIndex ≥ 8 then .error .enodev
  else if vpos > 4000 then .error .enxio
  else .ok ⟨decide (0 < vcsIndex), vcsaMode, vpos, count⟩

/-- `vcsa_read`: the bytes of the caller's buffer, as many as `*written`. -/
def vcsaRead (memory : Place → UInt8) (devNo buflen pos : Nat) : Except Errno (List UInt8) :=
  (vcsaTransfer devNo buflen pos).map fun transfer =>
    (List.range transfer.count).map fun done => memory (transfer.place done)

/-- `vcsa_write`: memory behind it, and `*written`. -/
def vcsaWrite (memory : Place → UInt8) (devNo : Nat) (buf : Nat → UInt8) (buflen pos : Nat) :
    Except Errno ((Place → UInt8) × Nat) :=
  (vcsaTransfer devNo buflen pos).map fun transfer =>
    ((List.range transfer.count).foldl
        (fun memory done => update memory (transfer.place done) (buf done)) memory, transfer.count)

/-! ## What the devices are for -/

section Device

variable (active console : Fin 8) (vcsaMode : Bool) (pos buflen : Nat)

/-- The number of a device. -/
def deviceNumber : Nat := if vcsaMode then 0x80 + console.val else console.val

/-- How many bytes a device has. -/
def deviceSize : Nat := if vcsaMode then 4000 else 2000

/-- The bytes of a console: its buffer, and video memory where it is shown. -/
def OwnPlace : Place → Prop
  | .buffer offset => 4000 * console.val ≤ offset ∧ offset < 4000 * console.val + 4000
  | .video offset => console = active ∧ offset < 4000

/--
A transfer keeps to its console and to the device, one from beyond the end
is refused, and what was written is read back.
-/
structure DeviceRight : Prop where
  beyond :
    deviceSize vcsaMode < pos →
      vcsaTransfer (deviceNumber console vcsaMode) buflen pos = .error .enxio
  within :
    pos ≤ deviceSize vcsaMode →
      ∃ transfer,
        vcsaTransfer (deviceNumber console vcsaMode) buflen pos = .ok transfer ∧
          transfer.count = min buflen (deviceSize vcsaMode - pos) ∧
          ∀ done < transfer.count, OwnPlace active console (transfer.place done)
  readBack :
    ∀ memory buf after written,
      vcsaWrite memory (deviceNumber console vcsaMode) buf buflen pos = .ok (after, written) →
      vcsaRead after (deviceNumber console vcsaMode) buflen pos = .ok ((List.range written).map buf)

variable {active console vcsaMode pos buflen}

/-- Stores to different places are all there afterwards. -/
theorem foldl_update_place
    (transfer : Transfer) (memory : Place → UInt8) (buf : Nat → UInt8) {count done : Nat}
    (stored : done < count) :
    (List.range count).foldl
        (fun memory done => update memory (transfer.place done) (buf done)) memory
        (transfer.place done) = buf done := by
  induction count with
  | zero => exact absurd stored (Nat.not_lt_zero done)
  | succ count ih =>
    rw [range_succ, foldl_append, foldl_cons, foldl_nil]
    by_cases last : done = count
    · rw [last, update_self]
    · have apart : transfer.place done ≠ transfer.place count := by
        intro same
        obtain ⟨video, vcsaMode, vpos, _⟩ := transfer
        cases video <;> cases vcsaMode <;> simp [Transfer.place] at same <;> omega
      rw [update_of_ne apart]
      exact ih (by omega)

theorem read_after_write
    {devNo : Nat} {memory after : Place → UInt8} {buf : Nat → UInt8} {written : Nat}
    (wrote : vcsaWrite memory devNo buf buflen pos = .ok (after, written)) :
    vcsaRead after devNo buflen pos = .ok ((List.range written).map buf) := by
  unfold vcsaWrite at wrote
  unfold vcsaRead
  cases found : vcsaTransfer devNo buflen pos with
  | error error =>
    rw [found] at wrote
    cases wrote
  | ok transfer =>
    rw [found] at wrote
    cases wrote
    refine congrArg Except.ok (map_congr_left ?_)
    intro done member
    exact foldl_update_place transfer memory buf (mem_range.mp member)

theorem vcsaTransfer_device (offset : pos < 2147483648) :
    vcsaTransfer (deviceNumber console vcsaMode) buflen pos =
      if deviceSize vcsaMode < pos then .error .enxio
      else .ok ⟨decide (0 < console.val), vcsaMode, if vcsaMode then pos else 2 * pos,
        if wrap32 (pos + buflen) > deviceSize vcsaMode then deviceSize vcsaMode - pos
        else buflen⟩ := by
  unfold vcsaTransfer deviceNumber deviceSize
  have doubled : wrap32 (2 * pos) = 2 * pos := wrap32_of_lt (by omega)
  have small : ¬(0x80 ≤ console.val) := by omega
  have valid : ¬(8 ≤ console.val) := by omega
  cases vcsaMode
  · by_cases beyond : 2000 < pos
    · simp [doubled, small, valid, beyond, show 4000 < 2 * pos by omega]
    · simp [doubled, small, valid, beyond, sub32_of_le (show pos ≤ 2000 by omega),
        show ¬(4000 < 2 * pos) by omega]
  · by_cases beyond : 4000 < pos
    · simp [valid, beyond]
    · simp [valid, beyond, sub32_of_le (show pos ≤ 4000 by omega)]

/--
A device does what it is for exactly if the transfer begins beyond its end,
or its position and length do not wrap, and it has no bytes to transfer or
is that of the first or of the active console.
-/
theorem console_device_iff (offset : pos < 2147483648) (length : buflen < 4294967296) :
    DeviceRight active console vcsaMode pos buflen ↔
      deviceSize vcsaMode < pos ∨
        pos + buflen < 4294967296 ∧
          (console = 0 ∨ console = active ∨ buflen = 0 ∨ pos = deviceSize vcsaMode) := by
  have size : deviceSize vcsaMode ≤ 4000 := by
    unfold deviceSize
    split <;> omega
  constructor
  · intro right
    by_cases beyond : deviceSize vcsaMode < pos
    · exact Or.inl beyond
    right
    obtain ⟨transfer, found, count, own⟩ := right.within (Nat.le_of_not_lt beyond)
    rw [vcsaTransfer_device offset, if_neg beyond] at found
    cases found
    constructor
    · by_contra wraps
      have wrapped : wrap32 (pos + buflen) = pos + buflen - 4294967296 := by
        unfold wrap32
        omega
      have counted :
          (if wrap32 (pos + buflen) > deviceSize vcsaMode then deviceSize vcsaMode - pos
            else buflen) = min buflen (deviceSize vcsaMode - pos) :=
        count
      rw [wrapped, if_neg (by omega)] at counted
      omega
    · by_contra elsewhere
      simp only [not_or] at elsewhere
      obtain ⟨other, hidden, some, inside⟩ := elsewhere
      have first := own 0 (by omega)
      have shown : 0 < console.val := Fin.pos_iff_ne_zero.mpr other
      simp only [Transfer.place, shown, decide_true, if_true] at first
      exact hidden first.1
  · intro holds
    refine ⟨?_, ?_, fun _ _ _ _ => read_after_write⟩
    · intro beyond
      rw [vcsaTransfer_device offset, if_pos beyond]
    · intro within
      obtain beyond | ⟨small, own⟩ := holds
      · exact absurd within (Nat.not_le.mpr beyond)
      have count :
          (if wrap32 (pos + buflen) > deviceSize vcsaMode then deviceSize vcsaMode - pos
            else buflen) = min buflen (deviceSize vcsaMode - pos) := by
        rw [wrap32_of_lt small]
        split <;> omega
      refine ⟨_, (vcsaTransfer_device offset).trans (if_neg (Nat.not_lt.mpr within)), count, ?_⟩
      intro done inside
      have bounded : done < min buflen (deviceSize vcsaMode - pos) := count ▸ inside
      have reach :
          (if vcsaMode then pos else 2 * pos) + (if vcsaMode then done else 2 * done) < 4000 := by
        unfold deviceSize at bounded
        cases vcsaMode <;> simp at bounded ⊢ <;> omega
      unfold Transfer.place
      by_cases zero : console = 0
      · subst zero
        exact ⟨Nat.zero_le _, reach⟩
      · have shown : 0 < console.val := Fin.pos_iff_ne_zero.mpr zero
        simp only [shown, decide_true, if_true]
        refine ⟨?_, reach⟩
        obtain first | here | empty | last := own
        · exact absurd first zero
        · exact here
        · omega
        · omega

/-- The last character of the active console. -/
theorem console_device_iff_last : 1999 + 1 < 4294967296 ∧ DeviceRight 3 3 false 1999 1 :=
  ⟨by decide, (console_device_iff (by decide) (by decide)).mpr (by decide)⟩

/-- The first byte of a console that is not shown is read off the screen. -/
theorem hidden_console_shown : ¬DeviceRight 0 1 true 0 1 := by
  intro right
  obtain ⟨transfer, found, _, own⟩ := right.within (by decide)
  cases (show vcsaTransfer 0x81 1 0 = .ok ⟨true, true, 0, 1⟩ from rfl).symm.trans found
  exact absurd (own 0 (by decide)).1 (by decide)

end Device

end Cosec.Dev.ConsoleDevices
