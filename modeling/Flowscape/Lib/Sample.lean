import Mathlib.Data.List.Perm.Subperm

/-!
# Sampling that prefers the rare

Things come in one by one, some of them rare. A bounded backlog takes them in: the last ones in
of a full backlog are lost, unless they are rare, which puts them in the place of another. Of
the backlog a sample within a budget is drawn, rare ones first.

Which place a rare one takes and how the rest is shuffled are given from outside, so that what
is proved holds for every outcome of a random choice.
-/

namespace Sample

variable {α : Type*}

/-- Take in `x`; in a full backlog a rare `x` takes place `i`. -/
def keep (capacity : Nat) (rare : α → Bool) (backlog : List α) (x : α) (i : Nat) : List α :=
  if backlog.length < capacity then backlog ++ [x]
  else if rare x then backlog.set i x
  else backlog

/-- Some order of the elements of every list. -/
structure Shuffle (α : Type*) where
  order : List α → List α
  perm : ∀ l, (order l).Perm l

/-- The round of `part` for one element. -/
def partStep (budget : Nat) (rare : α → Bool) (acc : List α × List α) (x : α) :
    List α × List α :=
  if rare x ∧ acc.1.length < budget then (acc.1 ++ [x], acc.2) else (acc.1, acc.2 ++ [x])

/-- The rare ones within the budget, and the rest. -/
def part (budget : Nat) (rare : α → Bool) (l : List α) : List α × List α :=
  l.foldl (partStep budget rare) ([], [])

/-- What is over the budget is cut off the shuffled rest. -/
def sample (budget : Nat) (rare : α → Bool) (shuffle : Shuffle α) (l : List α) : List α :=
  if budget < l.length then
    let kept := (part budget rare l).1
    let rest := shuffle.order (part budget rare l).2
    let room := budget - kept.length
    if 0 < room ∧ room < rest.length then kept ++ rest.take room
    else if room = 0 then kept
    else kept ++ rest
  else l

/-! ## The backlog -/

/-- What is kept stays within the capacity. -/
theorem length_keep_le {capacity : Nat} {rare : α → Bool} {l : List α}
    (h : l.length ≤ capacity) (x : α) (i : Nat) :
    (keep capacity rare l x i).length ≤ capacity := by
  unfold keep
  split
  · rw [List.length_append, List.length_singleton]
    omega
  · split
    · rw [List.length_set]
      exact h
    · exact h

/-- Taking in a common one leaves the rare ones alone. -/
theorem countP_keep_of_common {capacity : Nat} {rare : α → Bool} {x : α} (hx : rare x = false)
    (l : List α) (i : Nat) : (keep capacity rare l x i).countP rare = l.countP rare := by
  unfold keep
  split
  · rw [List.countP_append, List.countP_singleton, hx]
    rfl
  · rw [hx]
    rfl

/-- A rare one that is taken in costs at most one other. -/
theorem countP_keep_of_rare {capacity : Nat} {rare : α → Bool} {x : α} (hx : rare x = true)
    {l : List α} {i : Nat} (hi : i < capacity) :
    l.countP rare ≤ (keep capacity rare l x i).countP rare ∧
      0 < (keep capacity rare l x i).countP rare := by
  unfold keep
  split
  · rw [List.countP_append, List.countP_singleton, hx]
    simp
  -- at the bound the new one replaces the one at `i`, which was rare at most
  · next hfull =>
    have hlt : i < l.length := by omega
    rw [List.countP_set hlt, if_pos hx]
    split <;> omega

/-! ## The sample -/

/-- The sample is part of the list, fills the budget, and has as many rare ones as fit. -/
structure PrefersRare (budget : Nat) (rare : α → Bool) (l s : List α) : Prop where
  subperm : s.Subperm l
  length : s.length = min l.length budget
  rares : budget < l.length → s.countP rare = min budget (l.countP rare)

/-- What the loop does to the two lists it fills: nothing is lost, and the first takes rare ones up
to the budget. -/
theorem foldl_partStep (budget : Nat) (rare : α → Bool) (l : List α) (acc : List α × List α)
    (hlen : acc.1.length ≤ budget) (hrare : ∀ x ∈ acc.1, rare x) :
    ((l.foldl (partStep budget rare) acc).1 ++ (l.foldl (partStep budget rare) acc).2).Perm
        (acc.1 ++ acc.2 ++ l) ∧
      (l.foldl (partStep budget rare) acc).1.length
        = min budget (acc.1.length + l.countP rare) ∧
      ∀ x ∈ (l.foldl (partStep budget rare) acc).1, rare x := by
  induction l generalizing acc with
  | nil =>
    refine ⟨by simp, ?_, hrare⟩
    simp only [List.foldl_nil, List.countP_nil]
    omega
  | cons x rest ih =>
    rw [List.foldl_cons]
    by_cases hx : rare x ∧ acc.1.length < budget
    · have hstep : partStep budget rare acc x = (acc.1 ++ [x], acc.2) := if_pos hx
      rw [hstep]
      obtain ⟨hperm, hlength, hall⟩ := ih (acc.1 ++ [x], acc.2)
        (by simp only [List.length_append, List.length_singleton]; omega)
        (by simpa [or_imp, forall_and] using ⟨hrare, hx.1⟩)
      refine ⟨hperm.trans ?_, ?_, hall⟩
      · -- the element moves over what the second list has so far
        simp only [List.append_assoc, List.singleton_append]
        exact List.Perm.append_left _ List.perm_middle.symm
      · rw [hlength, List.countP_cons, if_pos hx.1, List.length_append, List.length_singleton]
        omega
    · have hstep : partStep budget rare acc x = (acc.1, acc.2 ++ [x]) := if_neg hx
      rw [hstep]
      obtain ⟨hperm, hlength, hall⟩ := ih (acc.1, acc.2 ++ [x]) hlen hrare
      refine ⟨hperm.trans (by simp), ?_, hall⟩
      rw [hlength, List.countP_cons]
      dsimp only
      by_cases hr : rare x = true
      · -- the budget is used up
        have hfull : budget ≤ acc.1.length := Nat.not_lt.1 fun hlt => hx ⟨hr, hlt⟩
        rw [if_pos hr]
        omega
      · rw [if_neg hr]
        omega

/-- **The rare ones go first, up to the budget, and nothing is lost.** -/
theorem part_spec (budget : Nat) (rare : α → Bool) (l : List α) :
    ((part budget rare l).1 ++ (part budget rare l).2).Perm l ∧
      (part budget rare l).1.length = min budget (l.countP rare) ∧
      ∀ x ∈ (part budget rare l).1, rare x := by
  have h := foldl_partStep budget rare l ([], []) (Nat.zero_le _) (fun _ hx => nomatch hx)
  simpa [part] using h

/-- What is shuffled has the rare ones that are over the budget. -/
theorem countP_part (budget : Nat) (rare : α → Bool) (l : List α) :
    (part budget rare l).1.countP rare = min budget (l.countP rare) ∧
      min budget (l.countP rare) + (part budget rare l).2.countP rare = l.countP rare := by
  obtain ⟨hperm, hlength, hall⟩ := part_spec budget rare l
  have hkept : (part budget rare l).1.countP rare = min budget (l.countP rare) := by
    rw [List.countP_eq_length.2 hall, hlength]
  refine ⟨hkept, ?_⟩
  rw [← hkept, ← List.countP_append, hperm.countP_eq]

/-- **A sample prefers the rare ones**, however the rest is shuffled. -/
theorem prefersRare_sample (budget : Nat) (rare : α → Bool) (shuffle : Shuffle α) (l : List α) :
    PrefersRare budget rare l (sample budget rare shuffle l) := by
  obtain ⟨hperm, hlength, -⟩ := part_spec budget rare l
  obtain ⟨hkept, hrest⟩ := countP_part budget rare l
  have hshuffle := shuffle.perm (part budget rare l).2
  have hall : ((part budget rare l).1 ++ shuffle.order (part budget rare l).2).Perm l :=
    (hshuffle.append_left _).trans hperm
  unfold sample
  by_cases hover : budget < l.length
  · rw [if_pos hover]
    dsimp only
    have hsum : (part budget rare l).1.length
        + (shuffle.order (part budget rare l).2).length = l.length := by
      rw [← List.length_append, hall.length_eq]
    by_cases hfull : budget ≤ l.countP rare
    · -- the rare ones alone use up the budget
      have hroom : budget - (part budget rare l).1.length = 0 := by omega
      rw [hroom, if_neg fun h => absurd h.1 (Nat.lt_irrefl 0), if_pos rfl]
      refine ⟨?_, by omega, fun _ => hkept⟩
      exact (List.sublist_append_left _ _).subperm.trans hall.subperm
    · -- all the rare ones are kept, and what is left of the budget is drawn from the common ones
      have hroom : 0 < budget - (part budget rare l).1.length ∧
          budget - (part budget rare l).1.length
            < (shuffle.order (part budget rare l).2).length := by omega
      have hnone : (shuffle.order (part budget rare l).2).countP rare = 0 := by
        rw [hshuffle.countP_eq]
        omega
      rw [if_pos hroom]
      refine ⟨?_, ?_, fun _ => ?_⟩
      · exact ((List.take_sublist _ _).append_left _).subperm.trans hall.subperm
      · rw [List.length_append, List.length_take]
        omega
      · have htake := (List.take_sublist (budget - (part budget rare l).1.length)
          (shuffle.order (part budget rare l).2)).countP_le (p := rare)
        rw [List.countP_append, hkept]
        omega
  · rw [if_neg hover]
    exact ⟨List.Subperm.refl l, by omega, fun h => absurd h hover⟩

/-- With a budget at all, a rare one of the list is in the sample. -/
theorem PrefersRare.exists_rare {budget : Nat} {rare : α → Bool} {l s : List α}
    (h : PrefersRare budget rare l s) (hbudget : 1 ≤ budget) (hrare : 0 < l.countP rare) :
    ∃ x ∈ s, rare x = true := by
  apply List.countP_pos_iff.1
  by_cases hover : budget < l.length
  · rw [h.rares hover]
    omega
  · -- nothing is cut off
    have hperm : s.Perm l := h.subperm.perm_of_length_le (by rw [h.length]; omega)
    rw [hperm.countP_eq]
    exact hrare

end Sample
