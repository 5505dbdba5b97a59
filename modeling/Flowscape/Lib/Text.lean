import Mathlib.Data.List.Infix
import Mathlib.Algebra.BigOperators.Group.List.Basic
import Mathlib.Algebra.Order.BigOperators.Group.List
import Mathlib.Algebra.Order.Group.Nat
import Mathlib.Algebra.GroupWithZero.Nat

/-!
# Searching and cutting strings

The functions of Go's `strings` package that the graph code calls, on strings as sequences of
characters. Every separator searched for is ASCII, so cutting by characters and cutting by
bytes give the same pieces.
-/

namespace Text

/-- Split at the first `c`: what stands before it and what stands after it. -/
def cutAt (c : Char) : List Char → Option (List Char × List Char)
  | [] => none
  | x :: rest => if x = c then some ([], rest) else (cutAt c rest).map fun p => (x :: p.1, p.2)

/-- Split at the last `c`. -/
def cutAtLast (c : Char) (s : List Char) : Option (List Char × List Char) :=
  (cutAt c s.reverse).map fun p => (p.2.reverse, p.1.reverse)

/-- What follows the first occurrence of `sep`. -/
def afterFirst (sep : List Char) : List Char → Option (List Char)
  | [] => if sep = [] then some [] else none
  | x :: rest =>
    if sep.isPrefixOf (x :: rest) then some ((x :: rest).drop sep.length)
    else afterFirst sep rest

/-- `strings.HasPrefix` -/
def hasPrefix (s p : String) : Bool := p.toList.isPrefixOf s.toList

/-- `strings.TrimPrefix` -/
def trimPrefix (s p : String) : String :=
  if hasPrefix s p then String.ofList (s.toList.drop p.toList.length) else s

/-- `strings.TrimSuffix` -/
def trimSuffix (s p : String) : String :=
  if p.toList.isSuffixOf s.toList then
    String.ofList (s.toList.take (s.toList.length - p.toList.length))
  else s

/-- `strings.SplitN` with a one-character separator: at most `n` parts, the last one whole. -/
def splitN (c : Char) : Nat → List Char → List (List Char)
  | 0, _ => []
  | 1, s => [s]
  | n + 2, s =>
    match cutAt c s with
    | none => [s]
    | some (before, after) => before :: splitN c (n + 1) after

/-! ## Cutting at a character -/

theorem cutAt_eq_none_iff {c : Char} {s : List Char} : cutAt c s = none ↔ c ∉ s := by
  induction s with
  | nil => simp [cutAt]
  | cons x rest ih =>
    by_cases h : x = c
    · simp [cutAt, h]
    · simp [cutAt, h, ih, Ne.symm h]

/-- A cut puts the string back together around the separator, and the piece before it is
free of the separator. -/
theorem cutAt_eq_some_iff {c : Char} {s before after : List Char} :
    cutAt c s = some (before, after) ↔ s = before ++ c :: after ∧ c ∉ before := by
  induction s generalizing before with
  | nil => simp [cutAt]
  | cons x rest ih =>
    -- at the character itself the part before is empty; before it, the part goes on
    by_cases h : x = c
    · subst h
      cases before with
      | nil => simp [cutAt, eq_comm]
      | cons y b => simp [cutAt]; intro hx; simp [hx]
    · cases before with
      | nil => simp [cutAt, h]
      | cons y b =>
        simp only [cutAt, h, if_false, Option.map_eq_some_iff, Prod.mk.injEq, List.cons.injEq,
          Prod.exists, List.cons_append, List.mem_cons, not_or]
        constructor
        · rintro ⟨b', a', hcut, ⟨rfl, rfl⟩, rfl⟩
          obtain ⟨rfl, hb⟩ := ih.1 hcut
          exact ⟨⟨rfl, rfl⟩, Ne.symm h, hb⟩
        · rintro ⟨⟨rfl, rfl⟩, -, hb⟩
          exact ⟨b, after, ih.2 ⟨rfl, hb⟩, ⟨rfl, rfl⟩, rfl⟩

/-- Two strings without `c` in front of a `c` are read off the joined string. -/
theorem append_cons_inj {c : Char} {a a' b b' : List Char} (ha : c ∉ a) (ha' : c ∉ a')
    (h : a ++ c :: b = a' ++ c :: b') : a = a' ∧ b = b' := by
  have h₁ : cutAt c (a ++ c :: b) = some (a, b) := cutAt_eq_some_iff.2 ⟨rfl, ha⟩
  have h₂ : cutAt c (a ++ c :: b) = some (a', b') := cutAt_eq_some_iff.2 ⟨h, ha'⟩
  rw [h₁] at h₂
  simpa using h₂

/-! ## Joining with a separator -/

/-- The parts with `c` between them. -/
def join (c : Char) : List (List Char) → List Char
  | [] => []
  | [p] => p
  | p :: q :: rest => p ++ c :: join c (q :: rest)

/-- A joined text has the character once between two parts, besides what the parts have. -/
theorem count_join (c : Char) (parts : List (List Char)) :
    (join c parts).count c = (parts.map (List.count c)).sum + (parts.length - 1) := by
  fun_induction join c parts with
  | case1 => rfl
  | case2 p => simp
  | case3 p q rest ih =>
    rw [List.count_append, List.count_cons_self, ih]
    simp only [List.map_cons, List.sum_cons, List.length_cons]
    omega

/-- Texts joined from parts without the character have the same parts when they are the same. -/
theorem join_inj_of_free {c : Char} {a b : List (List Char)} (hlen : a.length = b.length)
    (ha : ∀ p ∈ a, c ∉ p) (hb : ∀ p ∈ b, c ∉ p) (h : join c a = join c b) : a = b := by
  induction a generalizing b with
  | nil => exact (List.length_eq_zero_iff.1 hlen.symm).symm
  | cons p rest ih =>
    cases b with
    | nil => cases hlen
    | cons p' rest' =>
      have hlen' : rest.length = rest'.length := Nat.succ.inj hlen
      cases rest with
      | nil =>
        obtain rfl : rest' = [] := List.length_eq_zero_iff.1 hlen'.symm
        exact congrArg (fun p => [p]) h
      | cons q more =>
        cases rest' with
        | nil => cases hlen'
        | cons q' more' =>
          -- neither first part has the character, so both end at its first occurrence
          obtain ⟨rfl, hrest⟩ := append_cons_inj (ha p List.mem_cons_self)
            (hb p' List.mem_cons_self) h
          rw [ih hlen' (fun r hr => ha r (List.mem_cons_of_mem _ hr))
            (fun r hr => hb r (List.mem_cons_of_mem _ hr)) hrest]

/-- Parts without the separator are read off the joined string, whatever the other parts
were: these cannot contain a separator either, or there would be too many. -/
theorem join_inj {c : Char} {a b : List (List Char)} (hlen : a.length = b.length)
    (hb : ∀ p ∈ b, c ∉ p) (h : join c a = join c b) : a = b := by
  -- the parts of `b` are free of the character, so it is in the text between parts only
  have hzero : (b.map (List.count c)).sum = 0 := by
    apply List.sum_eq_zero
    intro n hn
    obtain ⟨p, hp, rfl⟩ := List.mem_map.1 hn
    exact List.count_eq_zero.2 (hb p hp)
  have hcount := congrArg (List.count c) h
  rw [count_join, count_join, hlen, hzero] at hcount
  refine join_inj_of_free hlen (fun p hp => ?_) hb h
  -- the text of `a` has no more of them, so its parts are free of it too
  have hle := List.le_sum_of_mem (List.mem_map.2 ⟨p, hp, rfl⟩ : p.count c ∈ a.map (List.count c))
  exact List.count_eq_zero.1 (by omega)

/-! ## Searching a string that goes on -/

/-- What comes after a separator was there before. -/
theorem mem_of_afterFirst {sep u rest : List Char} (h : afterFirst sep u = some rest)
    {c : Char} (hc : c ∈ rest) : c ∈ u := by
  induction u with
  | nil =>
    unfold afterFirst at h
    split at h
    · rw [← Option.some.inj h] at hc
      exact hc
    · cases h
  -- the separator starts here, or further on
  | cons x u ih =>
    unfold afterFirst at h
    split at h
    · rw [← Option.some.inj h] at hc
      exact List.mem_of_mem_drop hc
    · exact List.mem_cons_of_mem x (ih h)

/-- A text with the separator is as long as it at least. -/
theorem length_le_of_afterFirst {sep s rest : List Char} (h : afterFirst sep s = some rest) :
    sep.length ≤ s.length := by
  induction s with
  | nil =>
    unfold afterFirst at h
    split at h
    · next hsep => rw [hsep]
    · cases h
  | cons x s ih =>
    unfold afterFirst at h
    split at h
    · next hp => exact (List.isPrefixOf_iff_prefix.1 hp).length_le
    · exact (ih h).trans (Nat.le_succ _)

/-- What follows the first occurrence is found whatever stands behind it. -/
theorem afterFirst_append {sep s rest : List Char} (h : afterFirst sep s = some rest)
    (more : List Char) : afterFirst sep (s ++ more) = some (rest ++ more) := by
  induction s with
  | nil =>
    unfold afterFirst at h
    split at h
    · next hsep =>
      obtain rfl := Option.some.inj h
      subst hsep
      cases more <;> rfl
    · cases h
  | cons x s ih =>
    unfold afterFirst at h
    rw [List.cons_append, afterFirst]
    by_cases hp : sep.isPrefixOf (x :: s) = true
    · rw [if_pos hp] at h
      obtain rfl := Option.some.inj h
      have hpre : sep <+: x :: s := List.isPrefixOf_iff_prefix.1 hp
      have hlong : sep.isPrefixOf (x :: (s ++ more)) = true :=
        List.isPrefixOf_iff_prefix.2 (hpre.trans (List.prefix_append (x :: s) more))
      rw [if_pos hlong, ← List.cons_append, List.drop_append_of_le_length hpre.length_le]
    · rw [if_neg hp] at h
      -- `sep` fits into `s`, so an occurrence at `x` would not reach beyond `s`
      have hfits : sep.length ≤ (x :: s).length := (length_le_of_afterFirst h).trans (Nat.le_succ _)
      have hshort : ¬ sep.isPrefixOf (x :: (s ++ more)) = true := fun hlong =>
        hp (List.isPrefixOf_iff_prefix.2 (List.prefix_of_prefix_length_le
          (List.isPrefixOf_iff_prefix.1 hlong) (List.prefix_append (x :: s) more) hfits))
      rw [if_neg hshort]
      exact ih h

/-- No occurrence reaches over a character that `sep` does not have. -/
theorem afterFirst_append_cons {sep s : List Char} {c : Char} (hc : c ∉ sep) (hne : sep ≠ [])
    (h : afterFirst sep s = none) (more : List Char) :
    afterFirst sep (s ++ c :: more) = afterFirst sep more := by
  induction s with
  | nil =>
    have hp : ¬ sep.isPrefixOf (c :: more) = true := by
      intro hp
      obtain ⟨rest, hrest⟩ := List.isPrefixOf_iff_prefix.1 hp
      cases sep with
      | nil => exact hne rfl
      | cons y sep =>
        obtain ⟨rfl, -⟩ := List.cons.inj hrest
        exact hc List.mem_cons_self
    rw [List.nil_append, afterFirst, if_neg hp]
  | cons x s ih =>
    unfold afterFirst at h
    split at h
    · cases h
    · next hshort =>
      have hp : ¬ sep.isPrefixOf (x :: (s ++ c :: more)) = true := by
        intro hp
        have hlong : sep <+: (x :: s) ++ c :: more := List.isPrefixOf_iff_prefix.1 hp
        rcases List.prefix_or_prefix_of_prefix hlong (List.prefix_append (x :: s) (c :: more)) with
          hpre | hpre
        · exact hshort (List.isPrefixOf_iff_prefix.2 hpre)
        · -- `sep` goes on behind `s`, so it has the character
          obtain ⟨tail, rfl⟩ := hpre
          have htail : tail <+: c :: more := (List.prefix_append_right_inj (x :: s)).1 hlong
          cases tail with
          | nil => exact hshort (by simp)
          | cons y tail =>
            obtain ⟨rest, hrest⟩ := htail
            obtain ⟨rfl, -⟩ := List.cons.inj hrest
            exact hc (List.mem_append_right _ List.mem_cons_self)
      rw [List.cons_append, afterFirst, if_neg hp]
      exact ih h

theorem cutAt_append {c : Char} {s before after : List Char} (h : cutAt c s = some (before, after))
    (more : List Char) : cutAt c (s ++ more) = some (before, after ++ more) := by
  obtain ⟨rfl, hb⟩ := cutAt_eq_some_iff.1 h
  exact cutAt_eq_some_iff.2 ⟨by simp, hb⟩

/-- A text without the character is cut where the next one is. -/
theorem cutAt_append_of_not_mem {c : Char} {s : List Char} (h : c ∉ s) (more : List Char) :
    cutAt c (s ++ more) = (cutAt c more).map fun p => (s ++ p.1, p.2) := by
  induction s with
  | nil => cases hcut : cutAt c more <;> simp [hcut]
  | cons x s ih =>
    rw [List.mem_cons, not_or] at h
    rw [List.cons_append, cutAt, if_neg (Ne.symm h.1), ih h.2, Option.map_map]
    rfl

/-- The parts of a split have no separator, up to the last one that is left whole. -/
theorem splitN_three {c : Char} (s : List Char) :
    (c ∉ s ∧ splitN c 3 s = [s]) ∨
    (∃ a b, s = a ++ c :: b ∧ c ∉ a ∧ c ∉ b ∧ splitN c 3 s = [a, b]) ∨
    (∃ a b rest, s = a ++ c :: (b ++ c :: rest) ∧ c ∉ a ∧ c ∉ b ∧ splitN c 3 s = [a, b, rest]) := by
  cases h : cutAt c s with
  | none =>
    exact Or.inl ⟨cutAt_eq_none_iff.1 h, by simp [splitN, h]⟩
  | some p =>
    obtain ⟨a, after⟩ := p
    obtain ⟨hs, ha⟩ := cutAt_eq_some_iff.1 h
    -- the second cut is in what the first one leaves
    cases h' : cutAt c after with
    | none =>
      exact Or.inr (Or.inl ⟨a, after, hs, ha, cutAt_eq_none_iff.1 h', by simp [splitN, h, h']⟩)
    | some q =>
      obtain ⟨b, rest⟩ := q
      obtain ⟨rfl, hb⟩ := cutAt_eq_some_iff.1 h'
      exact Or.inr (Or.inr ⟨a, b, rest, hs, ha, hb, by simp [splitN, h, h']⟩)

/-! ## Numbers -/

theorem eq_of_toString_eq {n m : Nat} (h : toString n = toString m) : n = m := by
  have hdigits : Nat.toDigits 10 n = Nat.toDigits 10 m := by
    rw [← Nat.toList_repr, ← Nat.toList_repr]
    exact congrArg String.toList h
  rw [← Nat.ofDigitChars_ten_toDigits (n := n), hdigits, Nat.ofDigitChars_ten_toDigits]

end Text
