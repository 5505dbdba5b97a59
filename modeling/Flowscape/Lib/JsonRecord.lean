import Flowscape.Lib.Json
import Flowscape.Lib.Rounding
import Flowscape.Lib.Sorting
import Mathlib.Data.List.TakeWhile
import Mathlib.Data.Rat.Cast.Order
import Mathlib.Tactic.Ring

/-!
# Records and numbers in JSON

A record is written as an object that may leave out some of its fields, and read property by
property. A number is a text until a reader takes it for a number: `Numbers` says what a writer with
binary64 and a reader with binary64 owe to each other, and `Numbers.exact` is a pair that is exact.
-/

namespace Json

/-! ## Records -/

/-- An object with the fields that are there. -/
def record (fields : List (String × Option Value)) : Value :=
  .obj (fields.filterMap fun f => f.2.map fun v => (f.1, v))

namespace Value

/-- The property of an object: the last field of the name. -/
def field (k : String) : Value → Option Value
  | .obj fields => (fields.reverse.find? fun f => f.1 = k).map Prod.snd
  | _ => none

/-- The string that a value is, if it is one. -/
def toStr? : Value → Option String
  | .str s => some s
  | _ => none

/-- The items that a value has, if it is an array. -/
def toItems? : Value → Option (List Value)
  | .arr items => some items
  | _ => none

/-- The fields that a value has, if it is an object. -/
def toFields? : Value → Option (List (String × Value))
  | .obj fields => some fields
  | _ => none

variable {α : Type*}

/-- A property that has to be there. -/
def get (k : String) (read : Value → Option α) (v : Value) : Option α := (v.field k).bind read

/-- A property that may be absent. -/
def getD (k : String) (read : Value → Option α) (absent : α) (v : Value) : Option α :=
  match v.field k with
  | none => some absent
  | some w => read w

/-- All items of an array. -/
def listOf (read : Value → Option α) (v : Value) : Option (List α) :=
  v.toItems?.bind (List.mapM read)

/-- All fields of an object. -/
def fieldsOf (read : Value → Option α) (v : Value) : Option (List (String × α)) :=
  v.toFields?.bind (List.mapM fun f => (read f.2).map fun a => (f.1, a))

end Value

/-! ## The order of properties

An object in JavaScript does not list its properties as they came. -/

/-- The array index that a name is: a number below `2 ^ 32 - 1`, in the form in which it is
written. -/
def arrayIndex (k : String) : Option Nat :=
  let n := Nat.ofDigitChars 10 k.toList 0
  if toString n = k ∧ n < 2 ^ 32 - 1 then some n else none

/-- The properties of an object in the order in which JavaScript lists them: array indices first,
by their number, and the others as they came. -/
def propertyOrder {α : Type*} (l : List (String × α)) : List (String × α) :=
  Sorting.sort (Sorting.byKey fun e => (arrayIndex e.1).getD 0)
      (l.filter fun e => (arrayIndex e.1).isSome) ++
    l.filter fun e => (arrayIndex e.1).isNone

theorem perm_propertyOrder {α : Type*} (l : List (String × α)) : (propertyOrder l).Perm l := by
  have hsplit := List.filter_append_perm (fun e : String × α => (arrayIndex e.1).isSome) l
  have hrest : (l.filter fun e => (arrayIndex e.1).isNone)
      = l.filter fun e => !(arrayIndex e.1).isSome :=
    List.filter_congr fun e _ => by cases arrayIndex e.1 <;> rfl
  rw [propertyOrder, hrest]
  exact ((Sorting.perm_sort _ _).append_right _).trans hsplit

example : propertyOrder [("app", 1), ("10", 2), ("9", 3), ("09", 4)]
    = [("9", 3), ("10", 2), ("app", 1), ("09", 4)] := by decide +kernel

/-! ## Reading a record back -/

/-- **A field of a record is found under its name**, when no two have the same. -/
theorem field_record {fields : List (String × Option Value)} (hnd : (fields.map Prod.fst).Nodup)
    (k : String) :
    (record fields).field k = (fields.find? fun f => f.1 = k).bind Prod.snd := by
  show ((fields.filterMap fun f => f.2.map fun v => (f.1, v)).reverse.find?
    fun f => f.1 = k).map Prod.snd = _
  induction fields with
  | nil => rfl
  | cons f rest ih =>
    obtain ⟨k', v⟩ := f
    rw [List.map_cons, List.nodup_cons] at hnd
    replace ih := ih hnd.2
    have hhead : (((k', v) :: rest).filterMap fun f => f.2.map fun v => (f.1, v))
        = (v.map fun v => (k', v)).toList
          ++ rest.filterMap fun f => f.2.map fun v => (f.1, v) := by
      cases v <;> rfl
    rw [hhead, List.reverse_append, List.find?_append, List.find?_cons]
    -- the search is from the end, and finds this field since no later one has its name
    by_cases hk : k' = k
    · have hrest : rest.find? (fun f => f.1 = k) = none := by
        rw [List.find?_eq_none]
        intro f hf
        simp only [decide_eq_true_eq]
        intro hf'
        exact hnd.1 (List.mem_map.2 ⟨f, hf, hf'.trans hk.symm⟩)
      rw [hrest] at ih
      rw [Option.map_or, ih]
      cases v <;> simp [hk]
    · rw [Option.map_or, ih]
      cases v <;> simp [hk]

/-- What is read back one by one is read back as a list. -/
theorem mapM_map_eq_some {α β : Type*} {f : α → β} {read : β → Option α} {norm : α → α}
    {l : List α} (h : ∀ a ∈ l, read (f a) = some (norm a)) :
    (l.map f).mapM read = some (l.map norm) := by
  induction l with
  | nil => rfl
  | cons a rest ih =>
    rw [List.map_cons, List.mapM_cons, h a List.mem_cons_self,
      ih fun b hb => h b (List.mem_cons_of_mem a hb)]
    rfl

/-! ## What a number stands for -/

/-- A finite number of the binary64 format. -/
def Double (q : ℚ) : Prop := Rounding.binary64.Has q ∧ |q| < 2 ^ 1024

/-- How a writer prints its floating point numbers, and what a reader takes a number for. A number
of the format is printed such that it reads back as itself, and the reader has all whole numbers
up to the size of its mantissa. -/
structure Numbers where
  format : ℚ → Numeral
  value : Numeral → ℚ
  value_format : ∀ q, Double q → value (format q) = q
  value_ofInt : ∀ n : Int, n.natAbs ≤ 2 ^ 53 → value (Numeral.ofInt n) = n

namespace Numbers

variable (N : Numbers)

/-- The number that a value is, if it is one. -/
def number (v : Value) : Option ℚ :=
  match v with
  | .num n => some (N.value n)
  | _ => none

/-- A number that is whole. -/
def int (v : Value) : Option Int :=
  (N.number v).bind fun q => if q.den = 1 then some q.num else none

/-- A number that is whole and not negative. -/
def nat (v : Value) : Option Nat :=
  (N.int v).bind fun n => if 0 ≤ n then some n.toNat else none

variable {N}

theorem number_format {q : ℚ} (h : Double q) : N.number (.num (N.format q)) = some q :=
  congrArg some (N.value_format q h)

theorem int_ofInt {n : Int} (h : n.natAbs ≤ 2 ^ 53) :
    N.int (.num (Numeral.ofInt n)) = some n := by
  show (if (N.value (Numeral.ofInt n)).den = 1 then some (N.value (Numeral.ofInt n)).num
    else none) = _
  rw [N.value_ofInt n h]
  simp

theorem nat_ofInt {n : Nat} (h : n ≤ 2 ^ 53) :
    N.nat (.num (Numeral.ofInt n)) = some n := by
  rw [nat, int_ofInt (by simpa using h)]
  simp

end Numbers

/-! ### An exact reader -/

/-- Digits with a sign in front of them, or without one. -/
def signed : List Char → Int
  | '-' :: rest => -Nat.ofDigitChars 10 rest 0
  | '+' :: rest => Nat.ofDigitChars 10 rest 0
  | l => Nat.ofDigitChars 10 l 0

/-- Where the exponent of a numeral starts. -/
def isExponentMark (c : Char) : Bool := c = 'e' || c = 'E'

/-- The number that the text stands for. -/
def Numeral.exact (n : Numeral) : ℚ :=
  let mantissa := n.text.takeWhile fun c => !isExponentMark c
  let exponent := (n.text.dropWhile fun c => !isExponentMark c).tail
  let whole := mantissa.takeWhile (· ≠ '.')
  let frac := (mantissa.dropWhile (· ≠ '.')).tail
  signed (whole ++ frac) * (10 : ℚ) ^ (signed exponent - frac.length)

theorem mem_intText {n : Int} {c : Char} (h : c ∈ intText n) : c = '-' ∨ c.isDigit = true := by
  have hdigits : ∀ c ∈ Nat.toDigits 10 n.natAbs, c.isDigit = true :=
    fun c hc => Nat.isDigit_of_mem_toDigits (by decide) (by decide) hc
  unfold intText at h
  split at h
  · exact (List.mem_cons.1 h).imp id (hdigits c)
  · exact Or.inr (hdigits c h)

/-- What an integer is written as stands for it. -/
theorem signed_intText (n : Int) : signed (intText n) = n := by
  unfold intText
  split
  · next hneg =>
    show -(Nat.ofDigitChars 10 (Nat.toDigits 10 n.natAbs) 0 : Int) = n
    rw [Nat.ofDigitChars_ten_toDigits]
    omega
  · next hpos =>
    -- a number that is not negative starts with a digit, not with a sign
    have hread : signed (Nat.toDigits 10 n.natAbs)
        = Nat.ofDigitChars 10 (Nat.toDigits 10 n.natAbs) 0 := by
      have hdigits : ∀ c ∈ Nat.toDigits 10 n.natAbs, c.isDigit = true :=
        fun c hc => Nat.isDigit_of_mem_toDigits (by decide) (by decide) hc
      unfold signed
      split
      · next hl => exact absurd (hdigits '-' (hl ▸ List.mem_cons_self)) (by decide)
      · next hl => exact absurd (hdigits '+' (hl ▸ List.mem_cons_self)) (by decide)
      · rfl
    rw [hread, Nat.ofDigitChars_ten_toDigits]
    omega

/-- Whole digits, and an exponent or none. -/
theorem exact_of_text {n : Numeral} {m k : Int} {tail : List Char} (h : n.text = intText m ++ tail)
    (htail : tail = [] ∧ k = 0 ∨ tail = 'e' :: intText k) : n.exact = m * (10 : ℚ) ^ k := by
  -- the integer has neither a point nor the mark of an exponent, so each part ends where it should
  have hmark : ∀ c ∈ intText m, (!isExponentMark c) = true := by
    intro c hc
    rcases mem_intText hc with rfl | hdigit
    · rfl
    · by_contra he
      simp only [isExponentMark, Bool.not_eq_true', Bool.not_eq_false, Bool.or_eq_true,
        decide_eq_true_eq] at he
      rcases he with rfl | rfl <;> exact absurd hdigit (by decide)
  have hpoint : ∀ c ∈ intText m, decide (c ≠ '.') = true := by
    intro c hc
    rw [decide_eq_true_eq]
    rintro rfl
    rcases mem_intText hc with hminus | hdigit
    · exact absurd hminus (by decide)
    · exact absurd hdigit (by decide)
  have hrest : tail.takeWhile (fun c => !isExponentMark c) = [] ∧
      signed (tail.dropWhile fun c => !isExponentMark c).tail = k := by
    rcases htail with ⟨rfl, rfl⟩ | rfl
    · exact ⟨rfl, rfl⟩
    · exact ⟨rfl, signed_intText k⟩
  have hmantissa : (n.text.takeWhile fun c => !isExponentMark c) = intText m := by
    rw [h, List.takeWhile_append_of_pos hmark, hrest.1, List.append_nil]
  have hexponent : signed (n.text.dropWhile fun c => !isExponentMark c).tail = k := by
    rw [h, List.dropWhile_append_of_pos hmark, hrest.2]
  have hwhole : (intText m).takeWhile (· ≠ '.') = intText m := List.takeWhile_eq_self_iff.2 hpoint
  have hfrac : ((intText m).dropWhile (· ≠ '.')).tail = [] := by
    rw [List.dropWhile_eq_nil_iff.2 hpoint]
    rfl
  simp only [Numeral.exact, hmantissa, hexponent, hwhole, hfrac, List.append_nil, signed_intText,
    List.length_nil, Int.ofNat_zero, sub_zero]

theorem exact_ofInt (n : Int) : (Numeral.ofInt n).exact = n := by
  rw [exact_of_text (m := n) (k := 0) (List.append_nil _).symm (Or.inl ⟨rfl, rfl⟩), zpow_zero,
    mul_one]

/-- An integer, `e` and another integer are a numeral. -/
theorem isNumeral_exponent (m k : Int) : isNumeral (intText m ++ 'e' :: intText k) = true := by
  have hmark : ∀ p : Part, p = .zero ∨ p = .int → p.next 'e' = some .e := by
    rintro p (rfl | rfl) <;> rfl
  -- once the mark is read, digits are all that can come, after a sign at most
  have hdigits : ∀ (l : List Char) (p : Part), p = .e ∨ p = .sign ∨ p = .exp → l ≠ [] →
      (∀ c ∈ l, c.isDigit = true) → l.foldlM Part.next p = some .exp := by
    intro l
    induction l with
    | nil => exact fun _ _ hne => absurd rfl hne
    | cons c rest ih =>
      intro p hp _ hall
      have hc := hall c List.mem_cons_self
      have hsign : ¬ (c = '+' ∨ c = '-') := by
        rintro (rfl | rfl) <;> exact absurd hc (by decide)
      have hnext : p.next c = some .exp := by
        rcases hp with rfl | rfl | rfl <;> simp [Part.next, hc, hsign]
      rw [List.foldlM_cons, hnext]
      cases rest with
      | nil => rfl
      | cons d rest =>
        exact ih .exp (Or.inr (Or.inr rfl)) (List.cons_ne_nil _ _)
          fun c hc => hall c (List.mem_cons_of_mem _ hc)
  have hexponent : (intText k).foldlM Part.next .e = some .exp := by
    have hall : ∀ c ∈ Nat.toDigits 10 k.natAbs, c.isDigit = true :=
      fun c hc => Nat.isDigit_of_mem_toDigits (by decide) (by decide) hc
    unfold intText
    split
    · exact hdigits _ .sign (Or.inr (Or.inl rfl)) Nat.toDigits_ne_nil hall
    · exact hdigits _ .e (Or.inl rfl) Nat.toDigits_ne_nil hall
  have hkind : (if m.natAbs = 0 then Part.zero else Part.int) = .zero ∨
      (if m.natAbs = 0 then Part.zero else Part.int) = .int := by
    split
    · exact Or.inl rfl
    · exact Or.inr rfl
  rw [isNumeral, List.foldlM_append, foldlM_intText]
  simp only [Option.bind_eq_bind, Option.bind_some, List.foldlM_cons, hmark _ hkind, hexponent]
  rfl

/-- A binary fraction, by powers of ten. -/
def printExact (q : ℚ) : Numeral :=
  if q.den = 1 then Numeral.ofInt q.num
  else ⟨_, isNumeral_exponent (q.num * 5 ^ q.den.log2) (-q.den.log2)⟩

/-- **What a double is printed as stands for it.** -/
theorem exact_printExact {q : ℚ} (h : Double q) : (printExact q).exact = q := by
  obtain ⟨k, hk⟩ := h.1.exists_den
  unfold printExact
  split
  · next hden =>
    rw [exact_ofInt]
    exact (Rat.den_eq_one_iff q).1 hden
  · have hlog : q.den.log2 = k := by rw [hk, Nat.log2_two_pow]
    rw [exact_of_text (m := q.num * 5 ^ q.den.log2) (k := -q.den.log2) rfl (Or.inr rfl), hlog]
    -- the denominator is a power of two, so fives make it one of ten
    have hten : (10 : ℚ) ^ (-(k : Int)) = (2 ^ k)⁻¹ * (5 ^ k)⁻¹ := by
      rw [zpow_neg, zpow_natCast, show (10 : ℚ) = 2 * 5 by norm_num, mul_pow, mul_inv]
    have hfive : (5 : ℚ) ^ k ≠ 0 := pow_ne_zero k (by norm_num)
    calc ((q.num * 5 ^ k : Int) : ℚ) * (10 : ℚ) ^ (-(k : Int))
        = q.num * (2 ^ k : ℚ)⁻¹ * (5 ^ k * (5 ^ k)⁻¹) := by
          rw [hten]
          push_cast
          ring
      _ = q.num / q.den := by
          rw [mul_inv_cancel₀ hfive, mul_one, hk, div_eq_mul_inv]
          push_cast
          rfl
      _ = q := Rat.num_div_den q

/-- A writer and a reader that lose nothing. -/
def Numbers.exact : Numbers where
  format := printExact
  value := Numeral.exact
  value_format _ h := exact_printExact h
  value_ofInt n _ := exact_ofInt n

end Json
