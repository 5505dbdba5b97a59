import Mathlib.Data.List.Lex
import Mathlib.Data.List.Sort

/-!
# Sorting as JavaScript does

`Array.prototype.sort` is stable: with a comparator that is consistent, elements that it takes for
equal keep their order. Without a comparator it orders strings by their UTF-16 code units.

A comparator that tells all elements of a list apart sorts every permutation of the list in the
same way. One that does not sorts two elements that it takes for equal as they come.
-/

namespace Sorting

variable {α : Type*}

/-- `sort(cmp)`: an element stays in front of a later one unless that one compares less. -/
def sort (cmp : α → α → Int) (l : List α) : List α := l.insertionSort fun a b => ¬ cmp b a < 0

/-- What the language asks of a comparator. -/
structure Consistent (cmp : α → α → Int) : Prop where
  flip : ∀ a b, cmp a b < 0 ↔ 0 < cmp b a
  trans : ∀ a b c, cmp a b ≤ 0 → cmp b c ≤ 0 → cmp a c ≤ 0

/-! ## Sorted lists -/

theorem perm_sort (cmp : α → α → Int) (l : List α) : (sort cmp l).Perm l :=
  List.perm_insertionSort _ l

@[simp] theorem mem_sort {cmp : α → α → Int} {l : List α} {a : α} : a ∈ sort cmp l ↔ a ∈ l :=
  (perm_sort cmp l).mem_iff

@[simp] theorem length_sort (cmp : α → α → Int) (l : List α) : (sort cmp l).length = l.length :=
  (perm_sort cmp l).length_eq

theorem nodup_sort {cmp : α → α → Int} {l : List α} : (sort cmp l).Nodup ↔ l.Nodup :=
  (perm_sort cmp l).nodup_iff

theorem Consistent.not_lt {cmp : α → α → Int} (h : Consistent cmp) {a b : α} :
    ¬ cmp b a < 0 ↔ cmp a b ≤ 0 := by
  rw [h.flip b a]
  exact Int.not_lt

theorem Consistent.total {cmp : α → α → Int} (h : Consistent cmp) (a b : α) :
    cmp a b ≤ 0 ∨ cmp b a ≤ 0 := by
  rcases lt_or_ge (cmp b a) 0 with hlt | hge
  · exact Or.inr hlt.le
  · exact Or.inl (h.not_lt.1 (Int.not_lt.2 hge))

/-- **A consistent comparator sorts.** -/
theorem pairwise_sort {cmp : α → α → Int} (h : Consistent cmp) (l : List α) :
    (sort cmp l).Pairwise fun a b => cmp a b ≤ 0 := by
  have htotal : Std.Total fun a b => ¬ cmp b a < 0 :=
    ⟨fun a b => (h.total a b).imp h.not_lt.2 h.not_lt.2⟩
  have htrans : IsTrans α fun a b => ¬ cmp b a < 0 :=
    ⟨fun a b c hab hbc => h.not_lt.2 (h.trans a b c (h.not_lt.1 hab) (h.not_lt.1 hbc))⟩
  exact (List.pairwise_insertionSort (fun a b => ¬ cmp b a < 0) l).imp h.not_lt.1

/-- Two elements that are not after each other compare equal. -/
theorem Consistent.eq_zero {cmp : α → α → Int} (h : Consistent cmp) {a b : α} (hab : cmp a b ≤ 0)
    (hba : cmp b a ≤ 0) : cmp a b = 0 :=
  le_antisymm hab (Int.not_lt.1 fun hlt => absurd ((h.flip a b).1 hlt) (Int.not_lt.2 hba))

theorem Consistent.comap {β : Type*} {cmp : β → β → Int} (h : Consistent cmp) (f : α → β) :
    Consistent fun a b => cmp (f a) (f b) where
  flip a b := h.flip (f a) (f b)
  trans a b c := h.trans (f a) (f b) (f c)

/-- **The order of arrival does not matter** to a comparator that tells the elements apart. -/
theorem sort_eq_of_perm {cmp : α → α → Int} (h : Consistent cmp) {l l' : List α}
    (hapart : ∀ a ∈ l, ∀ b ∈ l, cmp a b = 0 → a = b) (hperm : l.Perm l') :
    sort cmp l = sort cmp l' := by
  refine List.Perm.eq_of_pairwise (fun a b ha hb hab hba => ?_) (pairwise_sort h l)
    (pairwise_sort h l') (((perm_sort cmp l).trans hperm).trans (perm_sort cmp l').symm)
  exact hapart a (mem_sort.1 ha) b (hperm.mem_iff.2 (mem_sort.1 hb)) (h.eq_zero hab hba)

/-- **Equal elements stay as they came**: of two in front of all others, the first one ends up
right before the second one, at a place that does not depend on which is which. -/
theorem sort_tie {cmp : α → α → Int} (h : Consistent cmp) {a b : α} (htie : cmp a b = 0)
    (l : List α) : ∃ before after, sort cmp (a :: b :: l) = before ++ a :: b :: after ∧
      sort cmp (b :: a :: l) = before ++ b :: a :: after := by
  have htie' : cmp b a = 0 :=
    le_antisymm (h.not_lt.1 (by omega)) (Int.not_lt.1 (h.not_lt.2 htie.le))
  -- neither of the two tells less from more otherwise than the other one
  have hsame : ∀ c, cmp a c ≤ 0 ↔ cmp b c ≤ 0 := fun c =>
    ⟨h.trans b a c htie'.le, h.trans a b c htie.le⟩
  have hinsert : ∀ s : List α, ∃ before after,
      (s.orderedInsert (fun a b => ¬ cmp b a < 0) b).orderedInsert (fun a b => ¬ cmp b a < 0) a
          = before ++ a :: b :: after ∧
        (s.orderedInsert (fun a b => ¬ cmp b a < 0) a).orderedInsert (fun a b => ¬ cmp b a < 0) b
          = before ++ b :: a :: after := by
    intro s
    induction s with
    | nil => exact ⟨[], [], by simp [htie'], by simp [htie]⟩
    | cons c s ih =>
      by_cases hc : cmp b c ≤ 0
      · have hb : ¬ cmp c b < 0 := h.not_lt.2 hc
        have ha : ¬ cmp c a < 0 := h.not_lt.2 ((hsame c).2 hc)
        refine ⟨[], c :: s, ?_, ?_⟩
        · rw [List.orderedInsert_cons_of_le _ _ hb, List.orderedInsert_cons_of_le _ _ (by omega)]
          rfl
        · rw [List.orderedInsert_cons_of_le _ _ ha, List.orderedInsert_cons_of_le _ _ (by omega)]
          rfl
      · have hb : ¬ ¬ cmp c b < 0 := mt h.not_lt.1 hc
        have ha : ¬ ¬ cmp c a < 0 := mt h.not_lt.1 (mt (hsame c).1 hc)
        obtain ⟨before, after, hab, hba⟩ := ih
        refine ⟨c :: before, after, ?_, ?_⟩
        · rw [List.orderedInsert_of_not_le _ _ hb, List.orderedInsert_of_not_le _ _ ha, hab]
          rfl
        · rw [List.orderedInsert_of_not_le _ _ ha, List.orderedInsert_of_not_le _ _ hb, hba]
          rfl
  exact hinsert (sort cmp l)

/-- A list without repetitions never asks to compare an element with itself. -/
theorem sort_congr {cmp cmp' : α → α → Int} {l : List α} (hnd : l.Nodup)
    (h : ∀ a ∈ l, ∀ b ∈ l, a ≠ b → (cmp a b < 0 ↔ cmp' a b < 0)) : sort cmp l = sort cmp' l := by
  induction l with
  | nil => rfl
  | cons a rest ih =>
    obtain ⟨hnot, hrest⟩ := List.nodup_cons.1 hnd
    have hih : sort cmp rest = sort cmp' rest := ih hrest fun b hb c hc =>
      h b (List.mem_cons_of_mem a hb) c (List.mem_cons_of_mem a hc)
    -- insertion asks the comparator about `a` and those after it only
    have hinsert : ∀ s : List α, (∀ b ∈ s, b ∈ rest) →
        s.orderedInsert (fun a b => ¬ cmp b a < 0) a
          = s.orderedInsert (fun a b => ¬ cmp' b a < 0) a := by
      intro s hs
      induction s with
      | nil => rfl
      | cons b s ihs =>
        have hb : b ∈ rest := hs b List.mem_cons_self
        have hiff := h b (List.mem_cons_of_mem a hb) a List.mem_cons_self
          (ne_of_mem_of_not_mem hb hnot)
        simp only [List.orderedInsert_cons, hiff, ihs fun c hc => hs c (List.mem_cons_of_mem b hc)]
    show (sort cmp rest).orderedInsert _ a = (sort cmp' rest).orderedInsert _ a
    rw [← hih]
    exact hinsert _ fun b hb => mem_sort.1 hb

/-! ## Comparing keys -/

section Keys

variable {κ : Type*} [LinearOrder κ] (key : α → κ)

/-- The comparator of a key. -/
def byKey (a b : α) : Int := if key a < key b then -1 else if key b < key a then 1 else 0

variable {key} {a b : α}

theorem byKey_lt_zero : byKey key a b < 0 ↔ key a < key b := by
  unfold byKey
  split
  · simp [*]
  · split <;> simp [*]

theorem byKey_le_zero : byKey key a b ≤ 0 ↔ key a ≤ key b := by
  unfold byKey
  split
  · next h => simp [h.le]
  · split
    · next h => simp [h]
    · next h => simp [not_lt.1 h]

theorem byKey_eq_zero : byKey key a b = 0 ↔ key a = key b := by
  constructor
  · intro h
    unfold byKey at h
    split at h
    · cases h
    · split at h
      · cases h
      · next hab hba => exact le_antisymm (not_lt.1 hba) (not_lt.1 hab)
  · intro h
    simp [byKey, h]

theorem consistent_byKey : Consistent (byKey key) where
  flip a b := by
    rw [byKey_lt_zero, ← not_le, ← not_le, byKey_le_zero]
  trans a b c hab hbc :=
    byKey_le_zero.2 ((byKey_le_zero.1 hab).trans (byKey_le_zero.1 hbc))

variable (hkey : Function.Injective key)
include hkey

/-- What has distinct keys is sorted whatever its order was. -/
theorem sort_byKey_eq_of_perm {l l' : List α} (h : l.Perm l') :
    sort (byKey key) l = sort (byKey key) l' :=
  sort_eq_of_perm consistent_byKey (fun _ _ _ _ heq => hkey (byKey_eq_zero.1 heq)) h

/-- Without repetitions the order is strict. -/
theorem pairwise_sort_byKey {l : List α} (hnd : l.Nodup) :
    (sort (byKey key) l).Pairwise fun a b => key a < key b := by
  have hle : (sort (byKey key) l).Pairwise fun a b => byKey key a b ≤ 0 :=
    pairwise_sort consistent_byKey l
  have hne : (sort (byKey key) l).Pairwise (· ≠ ·) := nodup_sort.2 hnd
  refine (hle.and hne).imp fun {a b} h => ?_
  exact lt_of_le_of_ne (byKey_le_zero.1 h.1) fun heq => h.2 (hkey heq)

/-- One more element goes somewhere in between. -/
theorem exists_sort_byKey_append (l : List α) (a : α) : ∃ before after,
    sort (byKey key) l = before ++ after ∧
      sort (byKey key) (l ++ [a]) = before ++ a :: after := by
  have hcons : sort (byKey key) (l ++ [a]) = sort (byKey key) (a :: l) :=
    sort_byKey_eq_of_perm hkey (List.perm_append_singleton a l)
  have hinsert := List.orderedInsert_eq_take_drop
    (fun a b => ¬ byKey key b a < 0) a (sort (byKey key) l)
  exact ⟨_, _, (List.takeWhile_append_dropWhile).symm, hcons.trans hinsert⟩

/-- Some elements less. -/
theorem sort_byKey_filter (p : α → Bool) (l : List α) :
    sort (byKey key) (l.filter p) = (sort (byKey key) l).filter p := by
  refine List.Perm.eq_of_pairwise (fun a b _ _ hab hba => ?_)
    (pairwise_sort consistent_byKey _) ((pairwise_sort consistent_byKey l).filter p)
    ((perm_sort _ _).trans ((perm_sort _ l).filter p).symm)
  exact hkey (byKey_eq_zero.1 (consistent_byKey.eq_zero hab hba))

end Keys

end Sorting

/-! ## Strings -/

namespace CodeUnits

/-- The UTF-16 code units of a character. -/
def ofChar (c : Char) : List Nat :=
  if c.toNat < 0x10000 then [c.toNat]
  else [0xD800 + (c.toNat - 0x10000) / 0x400, 0xDC00 + (c.toNat - 0x10000) % 0x400]

/-- The UTF-16 code units of a string. -/
def units (s : String) : List Nat := s.toList.flatMap ofChar

/-- How `<` and `>` compare strings. -/
def cmp : String → String → Int := Sorting.byKey units

/-- `sort()` -/
def sort (l : List String) : List String := Sorting.sort cmp l

/-- A character is told from any other by its first units, whatever follows. -/
theorem ofChar_append_inj {c d : Char} {l l' : List Nat} (h : ofChar c ++ l = ofChar d ++ l') :
    c = d ∧ l = l' := by
  -- no character is a surrogate, so the first unit tells whether there is a second one
  have hvalid : ∀ c : Char, c.toNat < 0xD800 ∨ 0xDFFF < c.toNat ∧ c.toNat < 0x110000 :=
    fun c => c.valid
  have hc := hvalid c
  have hd := hvalid d
  unfold ofChar at h
  split at h <;> split at h <;>
    simp only [List.cons_append, List.nil_append, List.cons.injEq] at h
  · exact ⟨Char.toNat_inj.1 h.1, h.2⟩
  · omega
  · omega
  · refine ⟨Char.toNat_inj.1 ?_, h.2.2⟩
    omega

/-- **The code units tell strings apart.** -/
theorem units_injective {a b : String} (h : units a = units b) : a = b := by
  have hlist : ∀ l l' : List Char, l.flatMap ofChar = l'.flatMap ofChar → l = l' := by
    -- every character has a unit, so the two lists end together
    have hne : ∀ (c : Char) (l : List Nat), ofChar c ++ l ≠ [] := by
      intro c l
      unfold ofChar
      split <;> simp
    intro l
    induction l with
    | nil =>
      intro l' h
      cases l' with
      | nil => rfl
      | cons d l' => exact absurd h.symm (hne d _)
    | cons c l ih =>
      intro l' h
      cases l' with
      | nil => exact absurd h (hne c _)
      | cons d l' =>
        obtain ⟨rfl, hrest⟩ := ofChar_append_inj h
        rw [ih l' hrest]
  exact String.toList_inj.1 (hlist _ _ h)

theorem consistent : Sorting.Consistent cmp := Sorting.consistent_byKey

/-- Strings are sorted whatever their order was. -/
theorem sort_eq_of_perm {l l' : List String} (h : l.Perm l') : sort l = sort l' :=
  Sorting.sort_byKey_eq_of_perm (fun _ _ => units_injective) h

/-- Without repetitions the order is strict. -/
theorem pairwise_sort {l : List String} (hnd : l.Nodup) :
    (sort l).Pairwise fun a b => units a < units b :=
  Sorting.pairwise_sort_byKey (fun _ _ => units_injective) hnd

end CodeUnits
