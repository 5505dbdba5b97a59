import Mathlib.Data.List.Basic

/-!
# JSON text

Values of JSON, the text that an encoder writes for a value (no blanks, and in strings what HTML
and JavaScript would stumble over is escaped), and a parser for all of JSON, blanks and the other
escapes included. What is written reads back as the value it was written for (`read_write`).

A number is kept as its text, a `Numeral`: what it stands for is up to the reader, who may have
less exact numbers than the writer. A string is a sequence of Unicode characters, so an escaped
half of a surrogate pair without the other half is no string here.
-/

namespace Json

/-! ## Numbers -/

/-- How much of a number has been read. -/
inductive Part where
  | start
  | minus
  | zero
  | int
  | point
  | frac
  | e
  | sign
  | exp
deriving DecidableEq

namespace Part

/-- The first digit of the whole part: nothing follows a leading zero. -/
def first (c : Char) : Option Part :=
  if c = '0' then some .zero else if c.isDigit then some .int else none

/-- The whole part is complete. -/
def afterInt (c : Char) : Option Part :=
  if c = '.' then some .point else if c = 'e' ∨ c = 'E' then some .e else none

/-- Where a numeral goes on with a character. -/
def next : Part → Char → Option Part
  | .start, c => if c = '-' then some .minus else first c
  | .minus, c => first c
  | .zero, c => afterInt c
  | .int, c => if c.isDigit then some .int else afterInt c
  | .point, c => if c.isDigit then some .frac else none
  | .frac, c => if c.isDigit then some .frac else if c = 'e' ∨ c = 'E' then some .e else none
  | .e, c => if c = '+' ∨ c = '-' then some .sign else if c.isDigit then some .exp else none
  | .sign, c => if c.isDigit then some .exp else none
  | .exp, c => if c.isDigit then some .exp else none

/-- The number may end here. -/
def done : Part → Bool
  | .zero => true
  | .int => true
  | .frac => true
  | .exp => true
  | _ => false

end Part

/-- A text that the grammar of numerals accepts. -/
def isNumeral (l : List Char) : Bool :=
  match l.foldlM Part.next .start with
  | none => false
  | some p => p.done

/-- The text of a number. -/
structure Numeral where
  text : List Char
  valid : isNumeral text = true

/-- A character that a number can have. -/
def isNumberChar (c : Char) : Bool :=
  c.isDigit || c = '-' || c = '+' || c = '.' || c = 'e' || c = 'E'

theorem Part.isNumberChar_of_next {p q : Part} {c : Char} (h : p.next c = some q) :
    isNumberChar c = true := by
  by_contra hc
  simp only [isNumberChar, Bool.or_eq_true, decide_eq_true_eq, not_or] at hc
  obtain ⟨⟨⟨⟨⟨hdigit, hminus⟩, hplus⟩, hpoint⟩, he⟩, hE⟩ := hc
  have hzero : c ≠ '0' := fun h0 => hdigit (h0 ▸ rfl)
  cases p <;> simp [next, first, afterInt, hdigit, hminus, hplus, hpoint, he, hE, hzero] at h

/-- A numeral ends where a character comes that cannot be of one. -/
theorem Numeral.isNumberChar_of_mem (n : Numeral) {c : Char} (hc : c ∈ n.text) :
    isNumberChar c = true := by
  -- the automaton reads a character a round, from any part of a numeral
  have hgen : ∀ (l : List Char) (p q : Part), l.foldlM Part.next p = some q →
      ∀ c ∈ l, isNumberChar c = true := by
    intro l
    induction l with
    | nil => exact fun _ _ _ c hc => absurd hc List.not_mem_nil
    | cons d rest ih =>
      intro p q h c hc
      rw [List.foldlM_cons] at h
      obtain ⟨p', hp', hrest⟩ := Option.bind_eq_some_iff.1 h
      rcases List.mem_cons.1 hc with rfl | hmem
      · exact Part.isNumberChar_of_next hp'
      · exact ih p' q hrest c hmem
  have hvalid := n.valid
  unfold isNumeral at hvalid
  split at hvalid
  · cases hvalid
  · next p hp => exact hgen n.text .start p hp c hc

theorem Numeral.text_ne_nil (n : Numeral) : n.text ≠ [] := by
  intro hnil
  have hvalid := n.valid
  rw [hnil] at hvalid
  cases hvalid

/-! ### Whole numbers -/

/-- The digits of an integer, after its sign. -/
def intText (n : Int) : List Char :=
  if n < 0 then '-' :: Nat.toDigits 10 n.natAbs else Nat.toDigits 10 n.natAbs

theorem isDigit_digitChar {d : Nat} (h : d < 10) : d.digitChar.isDigit = true := by
  have hall : ∀ d < 10, d.digitChar.isDigit = true := by decide
  exact hall d h

/-- The digits of a number are a numeral up to there: a single zero, or digits that start with
another one. -/
theorem foldlM_toDigits {p : Part} (hp : p = .start ∨ p = .minus) (n : Nat) :
    (Nat.toDigits 10 n).foldlM Part.next p = some (if n = 0 then .zero else .int) := by
  induction n using Nat.strongRecOn with
  | ind n ih =>
    -- the last digit comes after the digits of what is left
    rcases Nat.lt_or_ge n 10 with hlt | hge
    · have hall : ∀ d < 10, ([d.digitChar] : List Char).foldlM Part.next p
          = some (if d = 0 then .zero else .int) := by
        rcases hp with rfl | rfl <;> decide
      rw [Nat.toDigits_of_lt_base hlt]
      exact hall n hlt
    · have hdiv : n / 10 ≠ 0 := by omega
      rw [Nat.toDigits_of_base_le (by decide) hge, List.foldlM_append,
        ih (n / 10) (Nat.div_lt_self (by omega) (by decide)), if_neg hdiv, if_neg (by omega)]
      show Part.next .int (n % 10).digitChar >>= pure = _
      rw [Part.next, if_pos (isDigit_digitChar (Nat.mod_lt n (by decide)))]
      rfl

theorem foldlM_intText (n : Int) :
    (intText n).foldlM Part.next .start = some (if n.natAbs = 0 then .zero else .int) := by
  unfold intText
  split
  · exact foldlM_toDigits (Or.inr rfl) n.natAbs
  · exact foldlM_toDigits (Or.inl rfl) n.natAbs

/-- **An integer is written as a numeral.** -/
theorem isNumeral_intText (n : Int) : isNumeral (intText n) = true := by
  rw [isNumeral, foldlM_intText]
  show (if n.natAbs = 0 then Part.zero else Part.int).done = true
  split <;> rfl

/-- The numeral of an integer. -/
def Numeral.ofInt (n : Int) : Numeral := ⟨intText n, isNumeral_intText n⟩

/-! ## Values -/

/-- A value of JSON. The fields of an object are kept as they are written. -/
inductive Value where
  | null
  | bool (b : Bool)
  | num (n : Numeral)
  | str (s : String)
  | arr (items : List Value)
  | obj (fields : List (String × Value))

/-! ### Writing -/

/-- The digits of an escape. -/
def hexDigits : List Char := "0123456789abcdef".toList

/-- `\u` and four digits. -/
def unicodeEscape (c : Char) : List Char :=
  '\\' :: 'u' :: [c.toNat / 4096 % 16, c.toNat / 256 % 16, c.toNat / 16 % 16, c.toNat % 16].map
    fun d => hexDigits.getD d '0'

/-- What HTML or JavaScript could stumble over. -/
def delicate (c : Char) : Bool :=
  c = '<' || c = '>' || c = '&' || c = Char.ofNat 0x2028 || c = Char.ofNat 0x2029

/-- How a character stands in a string. -/
def escape (c : Char) : List Char :=
  if c = '"' ∨ c = '\\' then ['\\', c]
  else if c = Char.ofNat 8 then ['\\', 'b']
  else if c = Char.ofNat 12 then ['\\', 'f']
  else if c = '\n' then ['\\', 'n']
  else if c = '\r' then ['\\', 'r']
  else if c = '\t' then ['\\', 't']
  else if c.toNat < 32 ∨ delicate c then unicodeEscape c
  else [c]

/-- A string in its quotes. -/
def quote (s : String) : List Char := '"' :: (s.toList.flatMap escape ++ ['"'])

mutual

/-- The text of a value, with no blanks in it. -/
def write : Value → List Char
  | .null => ['n', 'u', 'l', 'l']
  | .bool true => ['t', 'r', 'u', 'e']
  | .bool false => ['f', 'a', 'l', 's', 'e']
  | .num n => n.text
  | .str s => quote s
  | .arr [] => ['[', ']']
  | .arr (v :: rest) => '[' :: (write v ++ writeItems rest)
  | .obj [] => ['{', '}']
  | .obj ((k, v) :: rest) => '{' :: (quote k ++ ':' :: (write v ++ writeFields rest))

/-- What follows the first item. -/
def writeItems : List Value → List Char
  | [] => [']']
  | v :: rest => ',' :: (write v ++ writeItems rest)

/-- What follows the first field. -/
def writeFields : List (String × Value) → List Char
  | [] => ['}']
  | (k, v) :: rest => ',' :: (quote k ++ ':' :: (write v ++ writeFields rest))

end

/-! ### Reading -/

/-- A character that may stand between values. -/
def isBlank (c : Char) : Bool := c = ' ' || c = '\t' || c = '\n' || c = '\r'

/-- What is left when the blanks are gone. -/
def skipBlank (l : List Char) : List Char := l.dropWhile isBlank

/-- The text has to go on with `word`. -/
def expect : List Char → List Char → Option (List Char)
  | [], l => some l
  | _ :: _, [] => none
  | w :: word, c :: l => if c = w then expect word l else none

/-- The number of a hexadecimal digit, in either case. -/
def hexValue (c : Char) : Option Nat :=
  if '0' ≤ c ∧ c ≤ '9' then some (c.toNat - '0'.toNat)
  else if 'a' ≤ c ∧ c ≤ 'f' then some (c.toNat - 'a'.toNat + 10)
  else if 'A' ≤ c ∧ c ≤ 'F' then some (c.toNat - 'A'.toNat + 10)
  else none

/-- The code unit of four digits. -/
def readUnit : List Char → Option (Nat × List Char)
  | a :: b :: c :: d :: rest => do
    let a ← hexValue a
    let b ← hexValue b
    let c ← hexValue c
    let d ← hexValue d
    some (((a * 16 + b) * 16 + c) * 16 + d, rest)
  | _ => none

/-- The other half of the character that begins with `high`. -/
def readLow (high : Nat) (l : List Char) : Option (Char × List Char) := do
  let rest ← expect ['\\', 'u'] l
  let (low, rest) ← readUnit rest
  if 0xDC00 ≤ low ∧ low ≤ 0xDFFF then
    some (Char.ofNat (0x10000 + (high - 0xD800) * 0x400 + (low - 0xDC00)), rest)
  else none

/-- The character of an escape, after its backslash. -/
def readEscape : List Char → Option (Char × List Char)
  | [] => none
  | c :: rest =>
    if c = '"' ∨ c = '\\' ∨ c = '/' then some (c, rest)
    else if c = 'b' then some (Char.ofNat 8, rest)
    else if c = 'f' then some (Char.ofNat 12, rest)
    else if c = 'n' then some ('\n', rest)
    else if c = 'r' then some ('\r', rest)
    else if c = 't' then some ('\t', rest)
    else if c = 'u' then do
      let (unit, rest) ← readUnit rest
      if unit < 0xD800 ∨ 0xDFFF < unit then some (Char.ofNat unit, rest)
      else if unit < 0xDC00 then readLow unit rest
      else none
    else none

/-- The characters of a string up to its closing quote. -/
def readChars : Nat → List Char → Option (List Char × List Char)
  | 0, _ => none
  | _ + 1, [] => none
  | n + 1, c :: rest =>
    if c = '"' then some ([], rest)
    else if c = '\\' then do
      let (d, rest) ← readEscape rest
      let (s, rest) ← readChars n rest
      some (d :: s, rest)
    else if c.toNat < 32 then none
    else do
      let (s, rest) ← readChars n rest
      some (c :: s, rest)

/-- The rest of a string, after its opening quote. -/
def readString (l : List Char) : Option (String × List Char) := do
  let (s, rest) ← readChars l.length l
  some (String.ofList s, rest)

/-- As many characters as a numeral can have, if they are one. -/
def readNumeral (l : List Char) : Option (Value × List Char) :=
  let text := l.takeWhile isNumberChar
  if h : isNumeral text = true then some (.num ⟨text, h⟩, l.dropWhile isNumberChar) else none

/-- The key of a field and its colon. -/
def readKey (l : List Char) : Option (String × List Char) := do
  let rest ← expect ['"'] (skipBlank l)
  let (k, rest) ← readString rest
  let rest ← expect [':'] (skipBlank rest)
  some (k, rest)

mutual

/-- One value; the number bounds how deep and how far the text is read. -/
def readValue : Nat → List Char → Option (Value × List Char)
  | 0, _ => none
  | n + 1, l =>
    match skipBlank l with
    | [] => none
    | c :: rest =>
      if c = 'n' then (expect ['u', 'l', 'l'] rest).map fun rest => (.null, rest)
      else if c = 't' then (expect ['r', 'u', 'e'] rest).map fun rest => (.bool true, rest)
      else if c = 'f' then (expect ['a', 'l', 's', 'e'] rest).map fun rest => (.bool false, rest)
      else if c = '"' then (readString rest).map fun (s, rest) => (.str s, rest)
      else if c = '[' then
        if (skipBlank rest).head? = some ']' then some (.arr [], (skipBlank rest).tail)
        else do
          let (v, rest) ← readValue n rest
          let (items, rest) ← readItems n rest
          some (.arr (v :: items), rest)
      else if c = '{' then
        if (skipBlank rest).head? = some '}' then some (.obj [], (skipBlank rest).tail)
        else do
          let (k, rest) ← readKey rest
          let (v, rest) ← readValue n rest
          let (fields, rest) ← readFields n rest
          some (.obj ((k, v) :: fields), rest)
      else readNumeral (c :: rest)

/-- What follows an item of an array. -/
def readItems : Nat → List Char → Option (List Value × List Char)
  | 0, _ => none
  | n + 1, l =>
    match skipBlank l with
    | [] => none
    | c :: rest =>
      if c = ']' then some ([], rest)
      else if c = ',' then do
        let (v, rest) ← readValue n rest
        let (items, rest) ← readItems n rest
        some (v :: items, rest)
      else none

/-- What follows a field of an object. -/
def readFields : Nat → List Char → Option (List (String × Value) × List Char)
  | 0, _ => none
  | n + 1, l =>
    match skipBlank l with
    | [] => none
    | c :: rest =>
      if c = '}' then some ([], rest)
      else if c = ',' then do
        let (k, rest) ← readKey rest
        let (v, rest) ← readValue n rest
        let (fields, rest) ← readFields n rest
        some ((k, v) :: fields, rest)
      else none

end

/-- A text that is one value. -/
def read (l : List Char) : Option Value := do
  let (v, rest) ← readValue (l.length + 1) l
  if skipBlank rest = [] then some v else none

/-! ### Strings read back -/

theorem hexValue_hexDigits {d : Nat} (h : d < 16) : hexValue (hexDigits.getD d '0') = some d := by
  have hall : ∀ d < 16, hexValue (hexDigits.getD d '0') = some d := by decide
  exact hall d h

/-- Four digits that were written are read. -/
theorem readUnit_unicodeEscape {c : Char} (h : c.toNat < 65536) (rest : List Char) :
    ∃ digits, unicodeEscape c = '\\' :: 'u' :: digits ∧
      readUnit (digits ++ rest) = some (c.toNat, rest) := by
  refine ⟨_, rfl, ?_⟩
  simp only [List.map_cons, List.map_nil, List.cons_append, List.nil_append, readUnit]
  rw [hexValue_hexDigits (Nat.mod_lt _ (by decide)), hexValue_hexDigits (Nat.mod_lt _ (by decide)),
    hexValue_hexDigits (Nat.mod_lt _ (by decide)), hexValue_hexDigits (Nat.mod_lt _ (by decide))]
  show some (_, rest) = _
  congr 2
  omega

/-- A delicate character is one code unit of its own. -/
theorem toNat_of_delicate {c : Char} (h : c.toNat < 32 ∨ delicate c = true) :
    c.toNat < 0xD800 := by
  rcases h with h | h
  · omega
  · simp only [delicate, Bool.or_eq_true, decide_eq_true_eq] at h
    rcases h with (((rfl | rfl) | rfl) | rfl) | rfl <;> decide

/-- Either a character stands for itself, or a backslash and what stands for it. -/
theorem escape_cases (c : Char) (rest : List Char) :
    (escape c = [c] ∧ c ≠ '"' ∧ c ≠ '\\' ∧ ¬ c.toNat < 32) ∨
      ∃ e, escape c = '\\' :: e ∧ readEscape (e ++ rest) = some (c, rest) := by
  unfold escape
  split
  · next h =>
    right
    refine ⟨[c], rfl, ?_⟩
    rcases h with rfl | rfl <;> rfl
  next hquote =>
  split
  · next h => subst h; exact Or.inr ⟨['b'], rfl, rfl⟩
  split
  · next h => subst h; exact Or.inr ⟨['f'], rfl, rfl⟩
  split
  · next h => subst h; exact Or.inr ⟨['n'], rfl, rfl⟩
  split
  · next h => subst h; exact Or.inr ⟨['r'], rfl, rfl⟩
  split
  · next h => subst h; exact Or.inr ⟨['t'], rfl, rfl⟩
  split
  · next h =>
    right
    -- what is written with digits is below the surrogates, so one escape is enough
    have hlt := toNat_of_delicate h
    obtain ⟨digits, hdigits, hunit⟩ := readUnit_unicodeEscape (by omega : c.toNat < 65536) rest
    refine ⟨'u' :: digits, hdigits, ?_⟩
    show (readUnit (digits ++ rest) >>= fun u => if u.1 < 0xD800 ∨ 0xDFFF < u.1 then
      some (Char.ofNat u.1, u.2) else if u.1 < 0xDC00 then readLow u.1 u.2 else none) = _
    rw [hunit]
    show (if c.toNat < 0xD800 ∨ 0xDFFF < c.toNat then some (Char.ofNat c.toNat, rest) else _) = _
    rw [if_pos (Or.inl hlt), Char.ofNat_toNat]
  · next h => exact Or.inl ⟨rfl, fun hc => hquote (Or.inl hc), fun hc => hquote (Or.inr hc),
      fun hc => h (Or.inl hc)⟩

/-- A character is read from what it is written as, whatever comes after it. -/
theorem readChars_escape (n : Nat) (c : Char) (rest : List Char) :
    readChars (n + 1) (escape c ++ rest) = (readChars n rest).map fun p => (c :: p.1, p.2) := by
  rcases escape_cases c rest with ⟨hself, hquote, hslash, hcontrol⟩ | ⟨e, hescape, hread⟩
  · rw [hself]
    show readChars (n + 1) (c :: rest) = _
    rw [readChars, if_neg hquote, if_neg hslash, if_neg hcontrol]
    cases readChars n rest <;> rfl
  · rw [hescape]
    show readChars (n + 1) ('\\' :: (e ++ rest)) = _
    rw [readChars, if_neg (by decide), if_pos rfl, hread]
    simp only [Option.bind_eq_bind, Option.bind_some]
    cases readChars n rest <;> rfl

/-- A string is read up to its closing quote. -/
theorem readChars_flatMap (s : List Char) (rest : List Char) {n : Nat} (h : s.length < n) :
    readChars n (s.flatMap escape ++ '"' :: rest) = some (s, rest) := by
  induction s generalizing n with
  | nil =>
    obtain ⟨n, rfl⟩ := Nat.exists_eq_succ_of_ne_zero (Nat.ne_of_gt h)
    rfl
  | cons c s ih =>
    rw [List.length_cons] at h
    obtain ⟨n, rfl⟩ := Nat.exists_eq_succ_of_ne_zero (show n ≠ 0 by omega)
    rw [List.flatMap_cons, List.append_assoc, Nat.succ_eq_add_one, readChars_escape,
      ih (by omega)]
    rfl

theorem escape_ne_nil (c : Char) : escape c ≠ [] := by
  rcases escape_cases c [] with ⟨h, -⟩ | ⟨e, h, -⟩ <;> rw [h] <;> exact List.cons_ne_nil _ _

theorem length_le_flatMap_escape (s : List Char) : s.length ≤ (s.flatMap escape).length := by
  induction s with
  | nil => exact Nat.le_refl 0
  | cons c s ih =>
    have hpos := List.length_pos_iff.2 (escape_ne_nil c)
    rw [List.flatMap_cons, List.length_append, List.length_cons]
    omega

/-- **A string that is written is read.** -/
theorem readString_quote (s : String) (rest : List Char) :
    readString (s.toList.flatMap escape ++ '"' :: rest) = some (s, rest) := by
  have hlen := length_le_flatMap_escape s.toList
  have hchars := readChars_flatMap s.toList rest
    (n := (s.toList.flatMap escape ++ '"' :: rest).length) (by
      rw [List.length_append, List.length_cons]
      omega)
  rw [readString, hchars]
  exact congrArg (fun t => some (t, rest)) String.ofList_toList

/-! ### Values read back -/

/-- What follows a value is no more of a number. -/
def Stops (rest : List Char) : Prop := ∀ c ∈ rest.head?, isNumberChar c = false

theorem stops_cons {c : Char} {rest : List Char} (h : isNumberChar c = false) :
    Stops (c :: rest) := by
  intro d hd
  obtain rfl : c = d := Option.mem_some_iff.1 hd
  exact h

theorem skipBlank_cons {c : Char} (h : isBlank c = false) (rest : List Char) :
    skipBlank (c :: rest) = c :: rest := List.dropWhile_cons_of_neg (by rw [h]; decide)

/-- **A numeral that is written is read**, when something else comes after it. -/
theorem readNumeral_text (n : Numeral) {rest : List Char} (h : Stops rest) :
    readNumeral (n.text ++ rest) = some (.num n, rest) := by
  have hall : ∀ c ∈ n.text, isNumberChar c = true := fun c hc => n.isNumberChar_of_mem hc
  -- the text goes on with what is not of a numeral, so the longest stretch is the numeral
  have hrest : rest.takeWhile isNumberChar = [] ∧ rest.dropWhile isNumberChar = rest := by
    cases rest with
    | nil => exact ⟨rfl, rfl⟩
    | cons c rest =>
      have hc : isNumberChar c = false := h c rfl
      constructor
      · exact List.takeWhile_cons_of_neg (by rw [hc]; decide)
      · exact List.dropWhile_cons_of_neg (by rw [hc]; decide)
  have htake : (n.text ++ rest).takeWhile isNumberChar = n.text := by
    rw [List.takeWhile_append_of_pos hall, hrest.1, List.append_nil]
  have hdrop : (n.text ++ rest).dropWhile isNumberChar = rest := by
    rw [List.dropWhile_append_of_pos hall, hrest.2]
  simp only [readNumeral, htake, hdrop]
  rw [dif_pos n.valid]

/-- The first character of a value says what kind of value it is; none is blank, and none closes
an array or an object. -/
theorem write_head (v : Value) : ∃ c rest, write v = c :: rest ∧ isBlank c = false ∧ c ≠ ']' ∧
    c ≠ '}' := by
  cases v with
  | null => exact ⟨_, _, rfl, rfl, by decide, by decide⟩
  | bool b => cases b <;> exact ⟨_, _, rfl, rfl, by decide, by decide⟩
  | num n =>
    obtain ⟨c, rest, hn⟩ := List.exists_cons_of_ne_nil n.text_ne_nil
    have hc : isNumberChar c = true :=
      n.isNumberChar_of_mem (hn ▸ List.mem_cons_self)
    -- a numeral starts with one of its own characters
    refine ⟨c, rest, hn, ?_, ?_, ?_⟩
    · rw [isBlank]
      by_contra hblank
      simp only [Bool.not_eq_false, Bool.or_eq_true, decide_eq_true_eq] at hblank
      rcases hblank with ((rfl | rfl) | rfl) | rfl <;> exact absurd hc (by decide)
    · rintro rfl
      exact absurd hc (by decide)
    · rintro rfl
      exact absurd hc (by decide)
  | str s => exact ⟨_, _, rfl, rfl, by decide, by decide⟩
  | arr items => cases items <;> exact ⟨_, _, rfl, rfl, by decide, by decide⟩
  | obj fields => cases fields <;> exact ⟨_, _, rfl, rfl, by decide, by decide⟩

/-- A key is read with its colon. -/
theorem readKey_quote (k : String) (rest : List Char) :
    readKey (quote k ++ ':' :: rest) = some (k, rest) := by
  have hquote : quote k ++ ':' :: rest
      = '"' :: (k.toList.flatMap escape ++ '"' :: ':' :: rest) := by
    simp [quote]
  rw [hquote, readKey, skipBlank_cons rfl]
  show ((readString (k.toList.flatMap escape ++ '"' :: ':' :: rest)).bind fun p =>
    (expect [':'] (skipBlank p.2)).bind fun rest => some (p.1, rest)) = _
  rw [readString_quote]
  rfl

theorem stops_writeItems (items : List Value) (rest : List Char) :
    Stops (writeItems items ++ rest) := by
  cases items <;> exact stops_cons rfl

theorem stops_writeFields (fields : List (String × Value)) (rest : List Char) :
    Stops (writeFields fields ++ rest) := by
  cases fields with
  | nil => exact stops_cons rfl
  | cons field rest' => exact stops_cons rfl

mutual

/-- **A value reads back**, whatever follows it, with enough fuel for its text. -/
theorem readValue_write : ∀ (v : Value) (n : Nat) (rest : List Char), (write v).length ≤ n →
    Stops rest → readValue n (write v ++ rest) = some (v, rest)
  | v, 0, rest, hn, _ => by
    obtain ⟨c, l, hv, -⟩ := write_head v
    rw [hv] at hn
    exact absurd hn (Nat.not_succ_le_zero _)
  | .null, _ + 1, _, _, _ => rfl
  | .bool true, _ + 1, _, _, _ => rfl
  | .bool false, _ + 1, _, _, _ => rfl
  | .num m, n + 1, rest, _, hrest => by
    obtain ⟨c, l, hm, hblank, -⟩ := write_head (.num m)
    rw [show write (.num m) = m.text from rfl] at hm ⊢
    have hc : isNumberChar c = true := m.isNumberChar_of_mem (hm ▸ List.mem_cons_self)
    have hkind : c ≠ 'n' ∧ c ≠ 't' ∧ c ≠ 'f' ∧ c ≠ '"' ∧ c ≠ '[' ∧ c ≠ '{' := by
      refine ⟨?_, ?_, ?_, ?_, ?_, ?_⟩ <;> rintro rfl <;> exact absurd hc (by decide)
    obtain ⟨h1, h2, h3, h4, h5, h6⟩ := hkind
    have hread := readNumeral_text m hrest
    rw [hm, List.cons_append] at hread ⊢
    rw [readValue, skipBlank_cons hblank]
    simp only [h1, h2, h3, h4, h5, h6, if_false, hread]
  | .str s, n + 1, rest, _, _ => by
    have hquote : quote s ++ rest = '"' :: (s.toList.flatMap escape ++ '"' :: rest) := by
      simp [quote]
    rw [show write (.str s) = quote s from rfl, hquote]
    show (readString (s.toList.flatMap escape ++ '"' :: rest)).map _ = _
    rw [readString_quote]
    rfl
  | .arr [], _ + 1, _, _, _ => rfl
  | .arr (v :: items), n + 1, rest, hn, hrest => by
    have hlen : (write (.arr (v :: items))).length = (write v).length +
        (writeItems items).length + 1 := by
      simp [write]
    obtain ⟨c, l, hv, hblank, hclose, -⟩ := write_head v
    -- the first value does not start with the bracket that would close an empty array
    have hopen : (skipBlank (write v ++ (writeItems items ++ rest))).head? ≠ some ']' := by
      rw [hv, List.cons_append, skipBlank_cons hblank]
      exact fun h => hclose (Option.some.inj h)
    have hhead := readValue_write v n (writeItems items ++ rest) (by omega)
      (stops_writeItems items rest)
    have htail := readItems_write items n rest (by omega)
    have htext : write (.arr (v :: items)) ++ rest
        = '[' :: (write v ++ (writeItems items ++ rest)) := by
      simp [write]
    rw [htext, readValue, skipBlank_cons rfl]
    simp only [Char.reduceEq, if_false, if_true, hopen, hhead, htail, Option.bind_eq_bind,
      Option.bind_some]
  | .obj [], _ + 1, _, _, _ => rfl
  | .obj ((k, v) :: fields), n + 1, rest, hn, hrest => by
    have hlen : (write (.obj ((k, v) :: fields))).length = (quote k).length + 1 +
        (write v).length + (writeFields fields).length + 1 := by
      simp [write]
      omega
    -- the first key starts with a quote
    have hopen : (skipBlank (quote k ++ ':' :: (write v ++ (writeFields fields ++ rest)))).head?
        ≠ some '}' := by
      rw [show quote k ++ ':' :: (write v ++ (writeFields fields ++ rest)) = '"' ::
        ((k.toList.flatMap escape ++ ['"']) ++ ':' :: (write v ++ (writeFields fields ++ rest)))
          from rfl, skipBlank_cons rfl]
      exact fun h => absurd (Option.some.inj h) (by decide)
    have hkey := readKey_quote k (write v ++ (writeFields fields ++ rest))
    have hhead := readValue_write v n (writeFields fields ++ rest) (by omega)
      (stops_writeFields fields rest)
    have htail := readFields_write fields n rest (by omega)
    have htext : write (.obj ((k, v) :: fields)) ++ rest
        = '{' :: (quote k ++ ':' :: (write v ++ (writeFields fields ++ rest))) := by
      simp [write]
    rw [htext, readValue, skipBlank_cons rfl]
    simp only [Char.reduceEq, if_false, if_true, hopen, hkey, hhead, htail, Option.bind_eq_bind,
      Option.bind_some]

/-- The values of an array are read, with the fuel that their text gives. -/
theorem readItems_write : ∀ (items : List Value) (n : Nat) (rest : List Char),
    (writeItems items).length ≤ n → readItems n (writeItems items ++ rest) = some (items, rest)
  | [], 0, _, hn => absurd hn (Nat.not_succ_le_zero _)
  | [], _ + 1, _, _ => rfl
  | _ :: _, 0, _, hn => absurd hn (Nat.not_succ_le_zero _)
  | v :: items, n + 1, rest, hn => by
    have hlen : (writeItems (v :: items)).length = (write v).length +
        (writeItems items).length + 1 := by
      simp [writeItems]
    have hhead := readValue_write v n (writeItems items ++ rest) (by omega)
      (stops_writeItems items rest)
    have htail := readItems_write items n rest (by omega)
    have htext : writeItems (v :: items) ++ rest
        = ',' :: (write v ++ (writeItems items ++ rest)) := by
      simp [writeItems]
    rw [htext, readItems, skipBlank_cons rfl]
    simp only [Char.reduceEq, if_false, if_true, hhead, htail, Option.bind_eq_bind,
      Option.bind_some]

/-- The fields of an object are read, with the fuel that their text gives. -/
theorem readFields_write : ∀ (fields : List (String × Value)) (n : Nat) (rest : List Char),
    (writeFields fields).length ≤ n →
      readFields n (writeFields fields ++ rest) = some (fields, rest)
  | [], 0, _, hn => absurd hn (Nat.not_succ_le_zero _)
  | [], _ + 1, _, _ => rfl
  | _ :: _, 0, _, hn => absurd hn (Nat.not_succ_le_zero _)
  | (k, v) :: fields, n + 1, rest, hn => by
    have hlen : (writeFields ((k, v) :: fields)).length = (quote k).length + 1 +
        (write v).length + (writeFields fields).length + 1 := by
      simp [writeFields]
      omega
    have hkey := readKey_quote k (write v ++ (writeFields fields ++ rest))
    have hhead := readValue_write v n (writeFields fields ++ rest) (by omega)
      (stops_writeFields fields rest)
    have htail := readFields_write fields n rest (by omega)
    have htext : writeFields ((k, v) :: fields) ++ rest
        = ',' :: (quote k ++ ':' :: (write v ++ (writeFields fields ++ rest))) := by
      simp [writeFields]
    rw [htext, readFields, skipBlank_cons rfl]
    simp only [Char.reduceEq, if_false, if_true, hkey, hhead, htail, Option.bind_eq_bind,
      Option.bind_some]

end

/-- **What is written reads back.** -/
theorem read_write (v : Value) : read (write v) = some v := by
  have h := readValue_write v ((write v).length + 1) [] (Nat.le_succ _) (fun _ hc => nomatch hc)
  rw [List.append_nil] at h
  rw [read, h]
  rfl

end Json
