import Mathlib.Data.List.TakeWhile
import Mathlib.Data.UInt

/-!
# Devices on a PCI bus

`pci_bus_setup` reads the configuration of each slot of a bus and calls the
init routine of the driver that the id of the device has in a table.  The
address that it writes to the bridge holds four of the five bits of a slot, so
the slots from 16 on are read as those below, and the loop ends where the id
of the first device comes again.

With two devices of one kind the loop ends too early.  Which calls are missing
is a matter of the slots alone: those of the devices in `hidden` slots.  All
others are made once, in the order of the slots and with the configuration of
their own slot.

The other functions of a device, the init routines themselves and the lines
that are logged are not in this module.
-/

namespace Cosec.Dev.PciBus

open List

/-! ## The code -/

/-- The words of the configuration spaces of function 0, by slot and number. -/
abbrev Slots := Nat → Nat → UInt32

/-- The words of a `pci_config_t`. -/
abbrev PciConfig := List UInt32

/-- The slot and the word that the bridge takes from an address. -/
def decoded (address : UInt32) : Nat × Nat :=
  (((address >>> 11) &&& 31).toNat, ((address >>> 2) &&& 63).toNat)

/-- The address that is written to the address port. -/
def configAddress (bus slot func offset : UInt32) : UInt32 :=
  (bus &&& 0x3F) <<< 16 ||| (slot &&& 0xF) <<< 11 ||| (func &&& 0x3) <<< 8 |||
    offset &&& 0xFC ||| 0x80000000

def pciConfigReadDword
    (slots : Slots)
    (bus slot func offset : UInt32) :
    UInt32 :=
  Function.uncurry slots (decoded (configAddress bus slot func offset))

def pciReadConfig (slots : Slots) (bus slot : Nat) : PciConfig :=
  (List.range 16).map fun i =>
    pciConfigReadDword slots (UInt32.ofNat bus) (UInt32.ofNat slot) 0
      (UInt32.ofNat (4 * i))

/-- The init routines of the drivers. -/
inductive PciInit where
  | netVirtioInit
deriving DecidableEq

/-- The table of the drivers, by `pci_id`. -/
def pciDriver : List (UInt32 × PciInit) := [(0x10001af4, .netVirtioInit)]

def lookupPciDriver (id : UInt32) : Option PciInit :=
  (pciDriver.find? (·.1 == id)).map Prod.snd

/-- The calls of init routines, for the slots that are left. -/
def setupSlots (slots : Slots) (bus : Nat) :
    List Nat → UInt32 → List (PciInit × PciConfig)
  | [], _ => []
  | slot :: rest, loopId =>
    let conf := pciReadConfig slots bus slot
    let id := conf.headD 0
    -- the upper half of the id is `conf.pci.device`
    if id >>> 16 = 0xffff then setupSlots slots bus rest loopId
    else if loopId ≠ 0 ∧ loopId = id then []
    else
      ((lookupPciDriver id).map fun init => (init, conf)).toList ++
        setupSlots slots bus rest (if loopId = 0 then id else loopId)

def pciBusSetup (slots : Slots) (bus : Nat) : List (PciInit × PciConfig) :=
  setupSlots slots bus (List.range 32) 0

/-! ## The devices -/

/-- The calls that a slot should get. -/
def slotCalls (slots : Slots) (slot : Nat) : List (PciInit × PciConfig) :=
  ((lookupPciDriver (slots slot 0)).map fun init =>
    (init, (List.range 16).map (slots slot))).toList

/-- An id that the loop passes over, or does not keep. -/
def absent (id : UInt32) : Bool := id >>> 16 = 0xffff ∨ id = 0

/--
The slots from the one on where the id of the first device comes again, and
those from 16 on.
-/
def hidden (slots : Slots) : List Nat :=
  match (List.range 16).dropWhile fun slot => absent (slots slot 0) with
  | [] => List.range' 16 16
  | first :: rest =>
    rest.dropWhile (fun slot => slots slot 0 ≠ slots first 0) ++
      List.range' 16 16

/-! ## The loop -/

variable {slots : Slots} {bus : Nat}

/-- The fifth bit of a slot is lost. -/
theorem decoded_configAddress :
    ∀ bus < 3, ∀ slot < 32, ∀ i < 16,
      decoded
          (configAddress (UInt32.ofNat bus) (UInt32.ofNat slot) 0
            (UInt32.ofNat (4 * i))) =
        (slot % 16, i) := by
  decide +kernel

theorem pciReadConfig_eq
    {slot : Nat}
    (isBus : bus < 3)
    (inside : slot < 32) :
    pciReadConfig slots bus slot = (List.range 16).map (slots (slot % 16)) := by
  apply map_congr_left
  intro i member
  have fields :=
    decoded_configAddress bus isBus slot inside i (mem_range.mp member)
  rw [pciConfigReadDword, fields, Function.uncurry_apply_pair]

/-- No driver is for an id that the loop passes over. -/
theorem slotCalls_absent
    {slot : Nat}
    (isAbsent : absent (slots slot 0) = true) :
    slotCalls slots slot = [] := by
  have other : (0x10001af4 : UInt32) ≠ slots slot 0 := by
    intro same
    rw [← same] at isAbsent
    cases isAbsent
  simp [slotCalls, lookupPciDriver, pciDriver, other]

section Loop

variable (isBus : bus < 3)

include isBus

/-- The slots from 16 on are read as those below. -/
theorem setupSlots_mod
    {list : List Nat}
    (inside : ∀ slot ∈ list, slot < 32)
    (loopId : UInt32) :
    setupSlots slots bus list loopId =
      setupSlots slots bus (list.map (· % 16)) loopId := by
  induction list generalizing loopId with
  | nil => rfl
  | cons slot list ih =>
    obtain ⟨slotInside, inside⟩ := forall_mem_cons.mp inside
    have same :
        pciReadConfig slots bus (slot % 16) = pciReadConfig slots bus slot := by
      rw [pciReadConfig_eq isBus slotInside,
        pciReadConfig_eq isBus (by omega), Nat.mod_mod]
    simp only [map_cons, setupSlots, same, ih inside]

/-- One turn of the loop. -/
theorem setupSlots_cons
    {slot : Nat}
    (inside : slot < 16)
    (rest : List Nat)
    (loopId : UInt32) :
    setupSlots slots bus (slot :: rest) loopId =
      if slots slot 0 >>> 16 = 0xffff then setupSlots slots bus rest loopId
      else if loopId ≠ 0 ∧ loopId = slots slot 0 then []
      else
        slotCalls slots slot ++
          setupSlots slots bus rest
            (if loopId = 0 then slots slot 0 else loopId) := by
  rw [setupSlots, pciReadConfig_eq isBus (by omega), Nat.mod_eq_of_lt inside]
  rfl

/-- Slots without a device are passed over. -/
theorem setupSlots_absent
    {front : List Nat}
    (empty : ∀ slot ∈ front, slot < 16 ∧ absent (slots slot 0) = true)
    (rest : List Nat)
    (loopId : UInt32) :
    setupSlots slots bus (front ++ rest) loopId =
      setupSlots slots bus rest loopId := by
  induction front with
  | nil => rfl
  | cons slot front ih =>
    obtain ⟨⟨inside, slotEmpty⟩, empty⟩ := forall_mem_cons.mp empty
    rw [cons_append, setupSlots_cons isBus inside, slotCalls_absent slotEmpty]
    rcases of_decide_eq_true slotEmpty with noDevice | zero
    · rw [if_pos noDevice, ih empty]
    · -- an id of zero is not kept, and no id that was kept is zero
      have kept : (if loopId = 0 then 0 else loopId) = loopId := by grind
      rw [zero, if_neg (by decide), if_neg (fun both => both.1 both.2), kept,
        ih empty]
      rfl

/-- Once an id is kept, the loop goes on until it comes again. -/
theorem setupSlots_kept
    {loopId : UInt32}
    (kept : absent loopId = false)
    {list ending : List Nat}
    (inside : ∀ slot ∈ list, slot < 16)
    (stops : setupSlots slots bus ending loopId = []) :
    setupSlots slots bus (list ++ ending) loopId =
      (list.takeWhile fun slot => slots slot 0 ≠ loopId).flatMap
        (slotCalls slots) := by
  obtain ⟨present, nonzero⟩ := not_or.mp (of_decide_eq_false kept)
  induction list with
  | nil => exact stops
  | cons slot list ih =>
    obtain ⟨slotInside, inside⟩ := forall_mem_cons.mp inside
    rw [cons_append, setupSlots_cons isBus slotInside, if_neg nonzero,
      ih inside]
    by_cases again : slots slot 0 = loopId
    · rw [takeWhile_cons_of_neg (by simpa using again), again, if_neg present,
        if_pos ⟨nonzero, rfl⟩]
      rfl
    · have differs : ¬ (loopId ≠ 0 ∧ loopId = slots slot 0) :=
        fun same => again same.2.symm
      rw [takeWhile_cons_of_pos (by simpa using again), flatMap_cons,
        if_neg differs]
      split
      · rename_i noDevice
        rw [slotCalls_absent (by simp [absent, noDevice]), nil_append]
      · rfl

/-- The calls that are missing are those of the hidden slots. -/
theorem pciBusSetup_hidden :
    (List.range 32).flatMap (slotCalls slots) =
      pciBusSetup slots bus ++ (hidden slots).flatMap (slotCalls slots) := by
  have halves : List.range 32 = List.range 16 ++ List.range' 16 16 := by decide
  have twice :
      (List.range 32).map (· % 16) = List.range 16 ++ List.range 16 := by
    decide
  have inside : ∀ slot ∈ List.range 16, slot < 16 := fun slot => mem_range.mp
  rw [pciBusSetup, setupSlots_mod isBus (fun slot => mem_range.mp), twice,
    halves, flatMap_append, hidden]
  have whole := @List.takeWhile_append_dropWhile _
    (fun slot => absent (slots slot 0)) (List.range 16)
  generalize isFront :
    (List.range 16).takeWhile (fun slot => absent (slots slot 0)) = front
      at whole
  have empty : ∀ slot ∈ front, slot < 16 ∧ absent (slots slot 0) = true := by
    intro slot member
    refine ⟨inside slot (whole ▸ mem_append_left _ member), ?_⟩
    exact @mem_takeWhile_imp _ (fun slot => absent (slots slot 0)) _ _
      (isFront ▸ member)
  have noCalls : front.flatMap (slotCalls slots) = [] :=
    flatMap_eq_nil_iff.mpr fun slot member =>
      slotCalls_absent (empty slot member).2
  cases isRest :
      (List.range 16).dropWhile (fun slot => absent (slots slot 0)) with
  | nil =>
    rw [isRest, append_nil] at whole
    rw [← whole, noCalls, setupSlots_absent isBus empty, ← append_nil front,
      setupSlots_absent isBus empty]
    rfl
  | cons first rest =>
    rw [isRest] at whole
    have firstInside : first < 16 := inside first (by simp [← whole])
    have restInside : ∀ slot ∈ rest, slot < 16 :=
      fun slot member => inside slot (by simp [← whole, member])
    have present : absent (slots first 0) = false := by
      have head := head?_dropWhile_not (fun slot => absent (slots slot 0))
        (List.range 16)
      rw [isRest] at head
      exact head
    obtain ⟨device, nonzero⟩ := not_or.mp (of_decide_eq_false present)
    -- the slots from 16 on repeat the first device, so the loop ends there
    have stops :
        setupSlots slots bus (front ++ first :: rest) (slots first 0) = [] := by
      rw [setupSlots_absent isBus empty, setupSlots_cons isBus firstInside,
        if_neg device, if_pos ⟨nonzero, rfl⟩]
    rw [← whole, append_assoc, setupSlots_absent isBus empty, cons_append,
      setupSlots_cons isBus firstInside, if_neg device, if_neg (by simp),
      if_pos rfl, setupSlots_kept isBus present restInside stops,
      flatMap_append, noCalls]
    have halves := @List.takeWhile_append_dropWhile _
      (fun slot => slots slot 0 ≠ slots first 0) rest
    conv_lhs => rw [← halves]
    simp only [flatMap_cons, flatMap_append, nil_append, append_assoc]

end Loop

/-! ## What is set up -/

/--
Each device of the table gets its one call exactly when none is in a hidden
slot.
-/
theorem devices_set_up_iff
    (slots : Slots)
    (bus : Fin 3) :
    (pciBusSetup slots bus).Perm
        ((List.range 32).flatMap (slotCalls slots)) ↔
      ∀ slot ∈ hidden slots, lookupPciDriver (slots slot 0) = none := by
  have noCall :
      (∀ slot ∈ hidden slots, lookupPciDriver (slots slot 0) = none) ↔
        (hidden slots).flatMap (slotCalls slots) = [] := by
    simp [slotCalls]
  rw [noCall, pciBusSetup_hidden bus.isLt]
  constructor
  · intro permuted
    have same := permuted.length_eq
    rw [length_append] at same
    exact eq_nil_of_length_eq_zero (by omega)
  · intro none
    rw [none, append_nil]

/-- Network cards in the slots 3 and 5, and no other device. -/
def twoCards : Slots := fun slot _ =>
  if slot = 3 ∨ slot = 5 then 0x10001af4 else 0xffffffff

/-- Of two network cards only the first is set up. -/
theorem second_card_missed :
    ¬ (pciBusSetup twoCards 0).Perm
      ((List.range 32).flatMap (slotCalls twoCards)) := by
  intro permuted
  have same := permuted.length_eq
  revert same
  decide +kernel

end Cosec.Dev.PciBus
