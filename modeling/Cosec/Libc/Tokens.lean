import Cosec.Lib.Components
import Cosec.Libc.Strings

/-!
# Tokens of a string

`strtok_r` cuts a string in place: it puts a zero behind each token and keeps
the place behind that zero for the next call.  What it returns, call by call,
are the components of the string between delimiters, and null afterwards.

The place that is kept has three meanings: the string goes on there, the last
token was found, or no call was made yet.  `Leaves` says of each what tokens
are still to come; one call takes it over the tokens to their tail, and all
calls follow by induction on their number.

`strtok`, which keeps the place in a variable of the library, and calls that
change the delimiters on the way are not in this module.
-/

namespace Cosec.Libc.Tokens

open Lib.Components Libc.Strings List

/-! ## The function -/

/-- The characters of a string, without its zero. -/
def chars (s : CString) : List UInt8 := s.map Subtype.val

/-- Whether `strchr` finds a character. -/
def strchr (s : CString) (c : UInt8) : Bool :=
  (strnchr (fun place => (chars s).getD place 0) c 0 2147483647).isSome

/-- Memory from the string on, and `*saveptr`. -/
structure Tokenizer where
  memory : List UInt8
  saveptr : Option Nat

/-- How far a loop over characters goes. -/
def passed (test : UInt8 → Bool) (bytes : List UInt8) : Nat :=
  (bytes.takeWhile test).length

/-- The token, or `none` for null, and what is left behind. -/
def strtokR
    (delim : CString)
    (state : Tokenizer)
    (str : Option Nat) :
    Option Nat × Tokenizer :=
  match str.or state.saveptr with
  | none => (none, state)
  | some str =>
    let start :=
      str + passed (fun c => c != 0 && strchr delim c) (state.memory.drop str)
    if (state.memory.drop start).headD 0 = 0 then (none, state)
    else
      let stop :=
        start +
          passed (fun c => c != 0 && !strchr delim c) (state.memory.drop start)
      if (state.memory.drop stop).headD 0 = 0 then
        (some start, { state with saveptr := none })
      else (some start, ⟨state.memory.set stop 0, some (stop + 1)⟩)

/-- The first call passes the string, the others pass null. -/
def calls (delim : CString) (memory : List UInt8) : Nat → Option Nat × Tokenizer
  | 0 => strtokR delim ⟨memory, none⟩ (some 0)
  | earlier + 1 => strtokR delim (calls delim memory earlier).2 none

/-- The delimiters. -/
def isDelim (delim : CString) (c : UInt8) : Bool := c ∈ chars delim

/-! ## One call -/

variable {delim : CString} {text behind : List UInt8}

theorem zero_not_mem_chars (s : CString) : 0 ∉ chars s := by
  intro member
  obtain ⟨char, -, zero⟩ := mem_map.mp member
  exact char.property zero

theorem isSome_strnchr_iff
    {bytes : List UInt8}
    (nonzero : 0 ∉ bytes)
    (c : UInt8)
    {start count : Nat}
    (fits : bytes.length ≤ start + count) :
    (strnchr (fun place => bytes.getD place 0) c start count).isSome = true ↔
      c ∈ bytes.drop start := by
  induction count generalizing start with
  | zero =>
    have ends : bytes.length ≤ start := fits
    simp [strnchr, drop_eq_nil_of_le ends]
  | succ count ih =>
    have next := @ih (start + 1) (by omega)
    rw [strnchr]
    by_cases inside : start < bytes.length
    · have byteNonzero : bytes[start] ≠ 0 := fun zero =>
        nonzero (zero ▸ getElem_mem inside)
      rw [getD_eq_getElem?_getD, getElem?_eq_getElem inside,
        Option.getD_some, if_neg byteNonzero,
        drop_eq_getElem_cons inside, mem_cons, ← next, @eq_comm _ c]
      split
      · rename_i same
        simp [same]
      · rename_i differs
        simp [differs]
    · have ends : bytes.length ≤ start := Nat.le_of_not_lt inside
      simp [drop_eq_nil_of_le ends, ends]

/-- `strchr` finds every delimiter if there are not too many of them. -/
theorem strchr_eq (short : delim.length ≤ 2147483647) :
    strchr delim = isDelim delim := by
  funext c
  have fits : (chars delim).length ≤ 0 + 2147483647 := by
    rw [chars, length_map, Nat.zero_add]
    exact short
  have found := isSome_strnchr_iff (zero_not_mem_chars delim) c fits
  rw [drop_zero] at found
  exact Bool.eq_iff_iff.mpr (found.trans decide_eq_true_iff.symm)

theorem passed_append
    {test : UInt8 → Bool}
    {front rest : List UInt8}
    (all : ∀ c ∈ front, test c = true)
    (ends : ∀ c tail, rest = c :: tail → test c = false) :
    passed test (front ++ rest) = front.length := by
  have stops : rest.takeWhile test = [] := by
    cases rest with
    | nil => rfl
    | cons c tail => exact takeWhile_cons_of_neg (by simp [ends c tail rfl])
  rw [passed, takeWhile_append_of_pos all, stops, append_nil]

/-- A loop over a part of the string ends where the part does. -/
theorem passed_part
    {test : UInt8 → Bool}
    {part rest : List UInt8}
    (nonzero : 0 ∉ part)
    (all : ∀ c ∈ part, test c = true)
    (ends : ∀ c tail, rest = c :: tail → test c = false) :
    passed (fun c => c != 0 && test c) (part ++ (rest ++ 0 :: behind)) =
      part.length := by
  apply passed_append
  · intro c member
    have other : c ≠ 0 := fun zero => nonzero (zero ▸ member)
    simp [other, all c member]
  · intro c tail isRest
    cases rest with
    | nil =>
      cases isRest
      rfl
    | cons first rest =>
      cases isRest
      rw [ends c rest rfl, Bool.and_false]

/-- A call finds the next component and cuts behind it, or finds none. -/
theorem strtokR_cases
    {state : Tokenizer}
    {str : Option Nat}
    {place : Nat}
    (nonzero : 0 ∉ text)
    (here : str.or state.saveptr = some place)
    (memory : state.memory.drop place = text ++ 0 :: behind) :
    (components (strchr delim) text = [] ∧
        strtokR delim state str = (none, state)) ∨
      ∃ seps token rest,
        text = seps ++ (token ++ rest) ∧
          Seps (strchr delim) seps ∧
          token ≠ [] ∧
          Run (strchr delim) token ∧
          (∀ sep tail, rest = sep :: tail → strchr delim sep = true) ∧
          strtokR delim state str =
            (some (place + seps.length),
              if rest = [] then { state with saveptr := none }
              else
                ⟨state.memory.set (place + seps.length + token.length) 0,
                  some (place + seps.length + token.length + 1)⟩) := by
  obtain ⟨seps, others, rfl, areSeps, stops⟩ := exists_span (strchr delim) text
  simp only [mem_append, not_or] at nonzero
  rw [append_assoc] at memory
  have skipped := @passed_part behind _ _ _ nonzero.1 areSeps stops
  have start :
      state.memory.drop (place + seps.length) = others ++ 0 :: behind := by
    rw [← drop_drop, memory, drop_left]
  unfold strtokR
  rw [here]
  simp only [memory, skipped, start]
  cases others with
  | nil =>
    rw [append_nil]
    exact Or.inl ⟨components_seps areSeps, rfl⟩
  | cons first others =>
    obtain ⟨token, rest, same, hasRun, isRun, cut⟩ :=
      @exists_component _ (strchr delim) _ (cons_ne_nil first others)
        (stops first others rfl)
    have firstNonzero : (first :: others ++ 0 :: behind).headD 0 ≠ 0 := by
      rintro rfl
      exact nonzero.2 mem_cons_self
    rw [if_neg firstNonzero]
    rw [same] at nonzero start ⊢
    simp only [mem_append, not_or] at nonzero
    rw [append_assoc] at start ⊢
    have consumed := @passed_part behind (fun c => !strchr delim c) token rest
      nonzero.2.1 (by simpa [Run] using isRun)
      (fun c tail isRest => by simp [cut c tail isRest])
    have stop :
        state.memory.drop (place + seps.length + token.length) =
          rest ++ 0 :: behind := by
      rw [← drop_drop, start, drop_left]
    refine Or.inr ⟨seps, token, rest, rfl, areSeps, hasRun, isRun, cut, ?_⟩
    rw [consumed, stop]
    cases rest with
    | nil => rfl
    | cons sep rest =>
      have sepNonzero : (sep :: rest ++ 0 :: behind).headD 0 ≠ 0 := by
        rintro rfl
        exact nonzero.2.2 mem_cons_self
      rw [if_neg sepNonzero, if_neg (cons_ne_nil sep rest)]

/-! ## Every call -/

/--
The tokens still to come start at a place from where on the string is
untouched.
-/
structure Ahead
    (delim : CString)
    (text behind : List UInt8)
    (tokens : List (List UInt8))
    (memory : List UInt8)
    (place : Nat) : Prop where
  untouched : memory.drop place = text.drop place ++ 0 :: behind
  components : components (strchr delim) (text.drop place) = tokens

/-- The memory differs from the one given only at delimiters of the string. -/
def WritesDelimiters
    (sep : UInt8 → Bool)
    (text behind memory : List UInt8) : Prop :=
  ∀ index : Nat, memory[index]? ≠ (text ++ 0 :: behind)[index]? →
    ∃ c, text[index]? = some c ∧ sep c = true

/--
What a call returns: where the first of the tokens to come begins in the
string, which is a string of its own now, or null.
-/
structure Delivers
    (sep : UInt8 → Bool)
    (text : List UInt8)
    (tokens : List (List UInt8))
    (result : Option Nat × Tokenizer) : Prop where
  token : ∀ {token}, tokens.head? = some token →
    ∃ place tail,
      result.1 = some place ∧
        result.2.memory.drop place = token ++ 0 :: tail ∧
        components sep (text.drop place) = tokens
  null : tokens = [] → result.1 = none

/-- What a call leaves behind for the next one. -/
structure Leaves
    (delim : CString)
    (text behind : List UInt8)
    (tokens : List (List UInt8))
    (state : Tokenizer) : Prop where
  finished : state.saveptr = none → tokens = []
  ahead : ∀ {place}, state.saveptr = some place →
    Ahead delim text behind tokens state.memory place
  writes : WritesDelimiters (strchr delim) text behind state.memory

variable {tokens : List (List UInt8)} {state : Tokenizer} {str : Option Nat}
  {place : Nat}

theorem Delivers.nothing
    {sep : UInt8 → Bool}
    {result : Option Nat × Tokenizer}
    (isNone : result.1 = none) :
    Delivers sep text [] result where
  token isToken := absurd isToken.symm (Option.some_ne_none _)
  null _ := isNone

theorem WritesDelimiters.cut
    {sep : UInt8 → Bool}
    {memory : List UInt8}
    (writes : WritesDelimiters sep text behind memory)
    {stop : Nat}
    {c : UInt8}
    (inText : text[stop]? = some c)
    (isSep : sep c = true) :
    WritesDelimiters sep text behind (memory.set stop 0) := by
  intro index differs
  by_cases isStop : stop = index
  · exact ⟨c, isStop ▸ inText, isSep⟩
  · rw [getElem?_set_ne isStop] at differs
    exact writes index differs

/--
A call that starts where the tokens are ahead delivers the first and leaves
the others.
-/
theorem strtokR_ahead
    (nonzero : 0 ∉ text)
    (here : str.or state.saveptr = some place)
    (ahead : Ahead delim text behind tokens state.memory place)
    (writes : WritesDelimiters (strchr delim) text behind state.memory)
    (kept : state.saveptr = none ∨ state.saveptr = some place) :
    Delivers (strchr delim) text tokens (strtokR delim state str) ∧
      Leaves delim text behind tokens.tail (strtokR delim state str).2 := by
  have clean : 0 ∉ text.drop place :=
    fun member => nonzero (mem_of_mem_drop member)
  rcases strtokR_cases clean here ahead.untouched with
    ⟨isEmpty, result⟩ |
      ⟨seps, token, rest, cut, areSeps, hasRun, isRun, stops, result⟩
  · obtain rfl : tokens = [] := ahead.components.symm.trans isEmpty
    rw [result]
    refine ⟨Delivers.nothing rfl, fun _ => rfl, ?_, writes⟩
    intro other isOther
    rcases kept with isNone | isPlace
    · rw [isNone] at isOther
      cases isOther
    · rw [isPlace] at isOther
      cases isOther
      exact ahead
  · have found := ahead.untouched
    have parts := ahead.components
    rw [cut] at found parts
    rw [components_seps_append areSeps] at parts
    have inText : text.drop (place + seps.length) = token ++ rest := by
      rw [← drop_drop, cut, drop_left]
    have atToken :
        state.memory.drop (place + seps.length) =
          token ++ (rest ++ 0 :: behind) := by
      rw [← drop_drop, found, append_assoc, drop_left, append_assoc]
    have placed : components (strchr delim) (text.drop (place + seps.length)) =
        tokens := by
      rw [inText, parts]
    rw [components_first hasRun isRun stops] at parts
    subst parts
    have some_ :
        token :: components (strchr delim) rest = [] →
          some (place + seps.length) = none :=
      fun empty => absurd empty (cons_ne_nil _ _)
    rw [result]
    cases rest with
    | nil =>
      refine ⟨⟨?_, some_⟩, fun _ => components_nil,
        fun isPlace => absurd isPlace.symm (Option.some_ne_none _),
        writes⟩
      rintro _ ⟨⟩
      exact ⟨_, behind, rfl, atToken, placed⟩
    | cons sep rest =>
      have isSep := stops sep rest rfl
      have inRest :
          text.drop (place + seps.length + token.length) = sep :: rest := by
        rw [← drop_drop, inText, drop_left]
      have next :
          text.drop (place + seps.length + token.length + 1) = rest := by
        rw [← drop_drop, inRest]
        rfl
      rw [if_neg (cons_ne_nil sep rest)]
      refine ⟨⟨?_, some_⟩, fun isNone => absurd isNone (Option.some_ne_none _),
        ?_, ?_⟩
      · rintro _ ⟨⟩
        refine ⟨_, rest ++ 0 :: behind, rfl, ?_, placed⟩
        dsimp only
        rw [drop_set, if_neg (by omega), atToken, Nat.add_sub_cancel_left,
          set_append_right _ _ (Nat.le_refl _), Nat.sub_self]
        rfl
      · rintro _ ⟨⟩
        constructor
        · dsimp only
          rw [drop_set_of_lt (Nat.lt_add_one _), next, ← drop_drop,
            ← drop_drop, atToken, drop_left]
          rfl
        · rw [next, tail_cons, components_cons_sep isSep]
      · apply writes.cut _ isSep
        rw [← head?_drop, inRest]
        rfl

/-- A call with null goes on where the last one stopped. -/
theorem Leaves.next
    (nonzero : 0 ∉ text)
    (leaves : Leaves delim text behind tokens state) :
    Delivers (strchr delim) text tokens (strtokR delim state none) ∧
      Leaves delim text behind tokens.tail (strtokR delim state none).2 := by
  cases saved : state.saveptr with
  | none =>
    obtain rfl := leaves.finished saved
    have unchanged : strtokR delim state none = (none, state) := by
      unfold strtokR
      rw [saved]
      rfl
    rw [unchanged]
    exact ⟨Delivers.nothing rfl, leaves⟩
  | some place =>
    exact strtokR_ahead nonzero (by rw [saved]; rfl) (leaves.ahead saved)
      leaves.writes (Or.inr saved)

/-- Every call delivers the token of its number. -/
theorem calls_spec
    (delim : CString)
    (nonzero : 0 ∉ text)
    (behind : List UInt8)
    (number : Nat) :
    Delivers (strchr delim) text
        ((components (strchr delim) text).drop number)
        (calls delim (text ++ 0 :: behind) number) ∧
      Leaves delim text behind
        ((components (strchr delim) text).drop number).tail
        (calls delim (text ++ 0 :: behind) number).2 := by
  induction number with
  | zero =>
    refine strtokR_ahead nonzero rfl ⟨rfl, rfl⟩ ?_ (Or.inl rfl)
    intro index differs
    exact absurd rfl differs
  | succ number ih =>
    rw [← tail_drop]
    exact ih.2.next nonzero

/--
`strtok_r` returns the maximal runs of non-delimiters in order, each with its
zero, and then null, and it writes only to delimiters of the string.
-/
theorem strtok_r_tokenises
    (delim s : CString)
    (short : delim.length ≤ 2147483647)
    (behind : List UInt8)
    (number : Nat) :
    let tokens := components (isDelim delim) (chars s)
    let result := calls delim (chars s ++ 0 :: behind) number
    (∀ token, tokens[number]? = some token →
        ∃ place tail,
          result.1 = some place ∧
            result.2.memory.drop place = token ++ 0 :: tail ∧
            components (isDelim delim) ((chars s).drop place) =
              tokens.drop number) ∧
      (tokens.length ≤ number → result.1 = none) ∧
      WritesDelimiters (isDelim delim) (chars s) behind result.2.memory := by
  obtain ⟨delivers, leaves⟩ :=
    calls_spec delim (zero_not_mem_chars s) behind number
  have writes := leaves.writes
  rw [strchr_eq short] at delivers writes
  refine ⟨?_, ?_, writes⟩
  · intro token isToken
    exact delivers.token (by rw [head?_drop, isToken])
  · intro behindLast
    exact delivers.null (drop_eq_nil_of_le behindLast)

/-- The second and the third call for `Hello, world!` with `, ` as delimiters. -/
theorem strtok_r_tokenises_greeting :
    let delim := ofBytes [44, 32]
    let s := ofBytes [72, 101, 108, 108, 111, 44, 32, 119, 111, 114, 108, 100, 33]
    (∃ place tail,
        (calls delim (chars s ++ [0]) 1).1 = some place ∧
          (calls delim (chars s ++ [0]) 1).2.memory.drop place =
            [119, 111, 114, 108, 100, 33] ++ 0 :: tail) ∧
      (calls delim (chars s ++ [0]) 2).1 = none := by
  intro delim s
  have short : delim.length ≤ 2147483647 := by decide
  obtain ⟨second, -, -⟩ := strtok_r_tokenises delim s short [] 1
  obtain ⟨-, third, -⟩ := strtok_r_tokenises delim s short [] 2
  obtain ⟨place, tail, isPlace, isToken, -⟩ :=
    second [119, 111, 114, 108, 100, 33] (by decide)
  exact ⟨⟨place, tail, isPlace, isToken⟩, third (by decide)⟩

end Cosec.Libc.Tokens
