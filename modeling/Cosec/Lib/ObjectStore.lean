import Mathlib.Algebra.Order.BigOperators.Group.List
import Mathlib.Algebra.Order.Ring.Nat

/-!
# Stores of heap objects

Objects are numbered in the order in which they are allocated.  A store
remembers how often each object was freed, so that a use after a free and a
second free can be stated; a read finds the last value of a freed object.

`Store.total` adds up a weight over the objects that were never freed.
-/

namespace Cosec.Lib.ObjectStore

open List

universe u

/-- An object and the number of times it was freed. -/
structure Cell (Value : Type u) where
  value : Value
  frees : Nat

/-- The objects allocated so far. -/
structure Store (Value : Type u) where
  cells : List (Cell Value)

variable {Value : Type u}

namespace Store

def empty : Store Value := ⟨[]⟩

/-- The number of the next object. -/
def count (store : Store Value) : Nat := store.cells.length

def read (store : Store Value) (id : Nat) : Option Value := store.cells[id]?.map Cell.value

/-- How often an object was freed. -/
def frees (store : Store Value) (id : Nat) : Nat := (store.cells[id]?.map Cell.frees).getD 0

def add (store : Store Value) (value : Value) : Store Value := ⟨store.cells ++ [⟨value, 0⟩]⟩

def change (store : Store Value) (id : Nat) (edit : Value → Value) : Store Value :=
  ⟨store.cells.modify id fun cell => { cell with value := edit cell.value }⟩

def free (store : Store Value) (id : Nat) : Store Value := ⟨store.cells.modify id fun cell =>
    { cell with frees := cell.frees + 1 }⟩

/-- An object that was allocated and never freed. -/
def Live (store : Store Value) (id : Nat) : Prop := id < store.count ∧ store.frees id = 0

instance (store : Store Value) (id : Nat) : Decidable (store.Live id) :=
  inferInstanceAs (Decidable (id < store.count ∧ store.frees id = 0))

variable {store : Store Value} {id other : Nat} {value : Value} {edit : Value → Value}

/-! ## Reads and counts after each operation -/

@[simp]
theorem count_add : (store.add value).count = store.count + 1 := by simp [add, count]

@[simp]
theorem count_change : (store.change id edit).count = store.count := by simp [change, count]

@[simp]
theorem count_free : (store.free id).count = store.count := by simp [free, count]

theorem read_eq_none_iff : store.read id = none ↔ store.count ≤ id := by simp [read, count]

theorem lt_count_of_read (present : store.read id = some value) : id < store.count := by
  by_contra beyond
  rw [read_eq_none_iff.mpr (not_lt.mp beyond)] at present
  cases present

theorem exists_read (present : id < store.count) : ∃ value, store.read id = some value := by
  cases reading : store.read id with
  | none =>
    rw [read_eq_none_iff] at reading
    omega
  | some value => exact ⟨value, rfl⟩

theorem read_add :
    (store.add value).read id = if id = store.count then some value else store.read id := by
  unfold read add count
  rcases lt_trichotomy id store.cells.length with
    before | here | behind
  · rw [if_neg (by omega), getElem?_append_left before]
  · rw [if_pos here, here, getElem?_concat_length]
    rfl
  · rw [if_neg (by omega), getElem?_eq_none (by simp; omega), getElem?_eq_none (by omega)]

/-- An object that was there before stays as it was. -/
theorem read_add_of_read (present : store.read id = some value)
    {added : Value} : (store.add added).read id = some value := by
  have earlier := lt_count_of_read present
  rw [read_add, if_neg (by omega), present]

@[simp]
theorem read_add_count : (store.add value).read store.count = some value := by
  rw [read_add, if_pos rfl]

theorem read_change :
    (store.change id edit).read other = if other = id then (store.read other).map edit
      else store.read other := by
  unfold read change
  rw [getElem?_modify]
  by_cases same : other = id
  · subst same
    cases store.cells[other]? with
    | none => simp
    | some cell => simp
  · have different : ¬ id = other := fun equal => same equal.symm
    cases store.cells[other]? with
    | none => simp
    | some cell => simp [same, different]

@[simp]
theorem change_add_count : (store.add value).change store.count edit = store.add (edit value) := by
  unfold change add count
  congr 1
  rw [modify_eq_take_cons_drop (by simp)]
  simp

/-- Two edits of one object. -/
theorem change_change {later : Value → Value} :
    (store.change id edit).change id later = store.change id (fun value => later (edit value)) := by
  unfold change
  congr 1
  apply ext_getElem?
  intro index
  simp only [getElem?_modify]
  cases store.cells[index]? with
  | none => rfl
  | some cell =>
    split <;> rfl

/-- Writing back what was read. -/
theorem change_of_read (reading : store.read id = some value) :
    store.change id (fun _ => value) = store := by
  unfold change
  have same : store.cells.modify id (fun cell => { cell with value := value }) = store.cells := by
    apply ext_getElem?
    intro index
    rw [getElem?_modify]
    unfold read at reading
    cases found : store.cells[index]? with
    | none => rfl
    | some cell =>
      simp only [Option.map_eq_map, Option.map_some, Option.some.injEq]
      split
      · rename_i here
        rw [here, found] at reading
        simp only [Option.map_some, Option.some.injEq] at reading
        rw [← reading]
      · rfl
  rw [same]

@[simp]
theorem read_free : (store.free id).read other = store.read other := by
  unfold read free
  rw [getElem?_modify]
  cases store.cells[other]? with
  | none => rfl
  | some cell =>
    split <;> rfl

@[simp]
theorem frees_add : (store.add value).frees id = store.frees id := by
  unfold frees add
  rcases lt_trichotomy id store.cells.length with
    before | here | behind
  · rw [getElem?_append_left before]
  · subst here
    rw [getElem?_concat_length, getElem?_eq_none le_rfl]
    rfl
  · rw [getElem?_eq_none (by simp; omega), getElem?_eq_none (by omega)]

@[simp]
theorem frees_change : (store.change id edit).frees other = store.frees other := by
  unfold frees change
  rw [getElem?_modify]
  cases store.cells[other]? with
  | none => rfl
  | some cell =>
    split <;> rfl

theorem frees_free_of_ne (different : other ≠ id) :
    (store.free id).frees other = store.frees other := by
  unfold frees free
  rw [getElem?_modify]
  cases store.cells[other]? with
  | none => rfl
  | some cell =>
    simp only [Option.map_eq_map, Option.map_some, Option.getD_some]
    rw [if_neg (fun equal => different equal.symm)]

theorem live_add_iff : (store.add value).Live id ↔ store.Live id ∨ id = store.count := by
  unfold Live
  rw [count_add, frees_add]
  constructor
  · rintro ⟨present, unfreed⟩
    rcases lt_or_ge id store.count with earlier | newest
    · exact Or.inl ⟨earlier, unfreed⟩
    · exact Or.inr (by omega)
  · rintro (⟨earlier, unfreed⟩ | rfl)
    · exact ⟨by omega, unfreed⟩
    · exact ⟨by omega, by simp [frees, count]⟩

@[simp]
theorem live_change_iff : (store.change id edit).Live other ↔ store.Live other := by
  unfold Live
  rw [count_change, frees_change]

theorem live_free_iff : (store.free id).Live other ↔ store.Live other ∧ other ≠ id := by
  unfold Live
  rw [count_free]
  constructor
  · rintro ⟨present, unfreed⟩
    have different : other ≠ id := by
      rintro rfl
      rw [frees, free, getElem?_modify, getElem?_eq_getElem present] at unfreed
      simp at unfreed
    rw [frees_free_of_ne different] at unfreed
    exact ⟨⟨present, unfreed⟩, different⟩
  · rintro ⟨⟨present, unfreed⟩, different⟩
    rw [frees_free_of_ne different]
    exact ⟨present, unfreed⟩

/-! ## Totals -/

/-- What an object that was never freed weighs. -/
def weigh (weight : Value → Nat) (cell : Cell Value) : Nat :=
  if cell.frees = 0 then weight cell.value else 0

/-- The sum of a weight over the objects that were never freed. -/
def total (store : Store Value) (weight : Value → Nat) : Nat := (store.cells.map (weigh weight)).sum

variable {weight : Value → Nat}

theorem sum_modify {Item : Type u} (measure : Item → Nat) (edit : Item → Item) :
    ∀ {items : List Item} {index : Nat} {item : Item}, items[index]? = some item →
      ((items.modify index edit).map measure).sum + measure item =
        (items.map measure).sum + measure (edit item)
  | [], _, _, found => by simp at found
  | first :: rest, 0, item, found => by
      simp only [getElem?_cons_zero, Option.some.injEq] at found
      subst found
      simp only [modify_zero_cons, map_cons, sum_cons]
      omega
  | first :: rest, index + 1, item, found => by
      simp only [getElem?_cons_succ] at found
      have later := sum_modify measure edit found
      simp only [modify_succ_cons, map_cons, sum_cons]
      omega

@[simp]
theorem total_add : (store.add value).total weight = store.total weight + weight value := by
  simp [total, add, weigh]

theorem cell_of_live (live : store.Live id) (reading : store.read id = some value) :
    store.cells[id]? = some ⟨value, 0⟩ := by
  obtain ⟨_, unfreed⟩ := live
  unfold read at reading
  unfold frees at unfreed
  cases found : store.cells[id]? with
  | none =>
    rw [found] at reading
    cases reading
  | some cell =>
    rw [found] at reading unfreed
    obtain ⟨content, frees⟩ := cell
    simp only [Option.map_some, Option.some.injEq, Option.getD_some] at reading unfreed
    rw [reading, unfreed]

/-- Editing an object changes the total by what the object weighs. -/
theorem total_change (weight : Value → Nat) (edit : Value → Value) (live : store.Live id)
    (reading : store.read id = some value) : (store.change id edit).total weight + weight value =
      store.total weight + weight (edit value) := by
  have moved :=
    sum_modify (weigh weight) (fun cell => { cell with value := edit cell.value })
      (cell_of_live live reading)
  simpa [total, change, weigh] using moved

/-- Freeing an object for the first time takes its weight away. -/
theorem total_free
    (weight : Value → Nat) (live : store.Live id) (reading : store.read id = some value) :
    (store.free id).total weight + weight value = store.total weight := by
  have moved :=
    sum_modify (weigh weight) (fun cell => { cell with frees := cell.frees + 1 })
      (cell_of_live live reading)
  simpa [total, free, weigh] using moved

theorem le_total
    (weight : Value → Nat) (live : store.Live id) (reading : store.read id = some value) :
    weight value ≤ store.total weight := by
  have member : weight value ∈ store.cells.map (weigh weight) := by
    refine mem_map.mpr ⟨⟨value, 0⟩, ?_, by simp [weigh]⟩
    exact mem_of_getElem? (cell_of_live live reading)
  exact single_le_sum (fun _ _ => Nat.zero_le _) _ member

theorem total_eq_zero
    (weightless : ∀ id value, store.Live id → store.read id = some value → weight value = 0) :
    store.total weight = 0 := by
  refine sum_eq_zero ?_
  intro amount member
  obtain ⟨cell, inside, rfl⟩ := mem_map.mp member
  obtain ⟨id, found⟩ := mem_iff_getElem?.mp inside
  unfold weigh
  split
  · rename_i unfreed
    refine weightless id cell.value ⟨?_, ?_⟩ ?_
    · exact (List.getElem?_eq_some_iff.mp found).1
    · simp [frees, found, unfreed]
    · simp [read, found]
  · rfl

end Store

end Cosec.Lib.ObjectStore
