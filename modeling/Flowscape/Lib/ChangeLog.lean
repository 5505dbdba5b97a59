import Mathlib.Data.Set.Basic
import Mathlib.Data.Set.Insert
import Mathlib.Order.BooleanAlgebra.Set
import Mathlib.Tactic.Tauto

/-!
# Change logs

A set of ids that somebody else keeps a copy of. Next to the ids, the log has the ids that
were added and the ids that were removed since the copy was last brought up to date, by

  `copy \ removed ∪ added`.

An id that comes takes back its removal; an id that goes takes back its addition instead of
being removed. That is one bit short: an id of the copy that was removed, came back and goes
again takes back its addition, and nothing is left of its removal. `inStep_eraseAll_iff` says
that this is the only way to lose track.
-/

/-- A set, and what was added to it and removed from it since somebody looked. -/
structure ChangeLog (κ : Type*) where
  ids : Set κ
  added : Set κ
  removed : Set κ

namespace ChangeLog

variable {κ : Type*}

/-- The ids come; those that are there already stay. -/
def insertAll (l : ChangeLog κ) (s : Set κ) : ChangeLog κ where
  ids := l.ids ∪ s
  added := l.added ∪ (s \ l.ids)
  removed := l.removed \ (s \ l.ids)

/-- The ids go, those that are there. -/
def eraseAll (l : ChangeLog κ) (s : Set κ) : ChangeLog κ where
  ids := l.ids \ s
  added := l.added \ (s ∩ l.ids)
  removed := l.removed ∪ ((s ∩ l.ids) \ l.added)

/-- Everything goes, and the additions are forgotten. -/
def clear (l : ChangeLog κ) : ChangeLog κ where
  ids := ∅
  added := ∅
  removed := l.removed ∪ l.ids

/-- What is both added and removed is neither. -/
def cancel (l : ChangeLog κ) : ChangeLog κ where
  ids := l.ids
  added := l.added \ l.removed
  removed := l.removed \ l.added

/-- The changes are handed out. -/
def consumed (l : ChangeLog κ) : ChangeLog κ where
  ids := l.ids
  added := ∅
  removed := ∅

/-- The copy after the changes. -/
def apply (l : ChangeLog κ) (copy : Set κ) : Set κ := copy \ l.removed ∪ l.added

/-- The changes make the copy the set. -/
def InStep (l : ChangeLog κ) (copy : Set κ) : Prop := l.apply copy = l.ids

/-- What was added is there, and is not removed. -/
structure Sound (l : ChangeLog κ) : Prop where
  added : ∀ ⦃k⦄, k ∈ l.added → k ∈ l.ids
  removed : ∀ ⦃k⦄, k ∈ l.added → k ∉ l.removed

theorem inStep_iff {l : ChangeLog κ} {copy : Set κ} :
    l.InStep copy ↔ ∀ k, (k ∈ copy ∧ k ∉ l.removed) ∨ k ∈ l.added ↔ k ∈ l.ids := Set.ext_iff

/-! ## Coming -/

/-- Adding keeps the log sound. -/
theorem Sound.insertAll {l : ChangeLog κ} (h : l.Sound) (s : Set κ) : (l.insertAll s).Sound where
  added k hk := by
    rcases hk with hk | hk
    · exact Or.inl (h.added hk)
    · exact Or.inr hk.1
  removed k hk hr := by
    rcases hk with hk | hk
    · exact h.removed hk hr.1
    · exact hr.2 hk

theorem InStep.insertAll {l : ChangeLog κ} {copy : Set κ} (h : l.InStep copy) (s : Set κ) :
    (l.insertAll s).InStep copy := by
  rw [inStep_iff] at h ⊢
  intro k
  have hk := h k
  simp only [ChangeLog.insertAll, Set.mem_union, Set.mem_sdiff]
  tauto

/-! ## Going -/

theorem Sound.eraseAll {l : ChangeLog κ} (h : l.Sound) (s : Set κ) : (l.eraseAll s).Sound where
  added k hk := ⟨h.added hk.1, fun hks => hk.2 ⟨hks, h.added hk.1⟩⟩
  removed k hk hr := by
    rcases hr with hr | hr
    · exact h.removed hk.1 hr
    · exact hr.2 hk.1

/-- **The only way to lose track**: an id of the copy goes that counts as added. -/
theorem inStep_eraseAll_iff {l : ChangeLog κ} {copy : Set κ} (hs : l.Sound) (h : l.InStep copy)
    (s : Set κ) : (l.eraseAll s).InStep copy ↔ ∀ k ∈ s, k ∈ copy → k ∉ l.added := by
  rw [inStep_iff] at h
  rw [inStep_iff]
  apply forall_congr'
  intro k
  have hk := h k
  have hadded := @hs.added k
  have hremoved := @hs.removed k
  simp only [ChangeLog.eraseAll, Set.mem_union, Set.mem_sdiff, Set.mem_inter_iff]
  grind

/-! ## Starting over -/

/-- After everything went and some of it came back, the additions cancel nothing: those that
came back took back their removal already. -/
theorem Sound.restart {l : ChangeLog κ} (s : Set κ) : (l.clear.insertAll s).cancel.Sound where
  added _ hk := hk.1.elim (fun h => nomatch h) fun h => Or.inr h.1
  removed _ hk hr := hk.2 hr.1

/-- A copy that was in step is so after a restart, since what has gone and come back is in neither
list. -/
theorem InStep.restart {l : ChangeLog κ} {copy : Set κ} (h : l.InStep copy) (s : Set κ) :
    (l.clear.insertAll s).cancel.InStep copy := by
  rw [inStep_iff] at h ⊢
  intro k
  have hk := h k
  simp only [clear, cancel, ChangeLog.insertAll, Set.mem_union, Set.mem_sdiff,
    Set.mem_empty_iff_false]
  tauto

/-! ## Handing out -/

theorem Sound.consumed (l : ChangeLog κ) : l.consumed.Sound where
  added _ hk := nomatch hk
  removed _ hk := nomatch hk

theorem inStep_consumed (l : ChangeLog κ) : l.consumed.InStep l.ids := by
  rw [inStep_iff]
  intro k
  simp [consumed]

/-- **A copy that applies the log is in step.** -/
theorem InStep.consumed {l : ChangeLog κ} {copy : Set κ} (h : l.InStep copy) :
    l.consumed.InStep (l.apply copy) := by
  rw [h]
  exact inStep_consumed l

/-! ## Loops -/

section Loops

variable {σ β : Type*} {log : σ → ChangeLog κ} {f : σ → β → σ} {key : β → κ}

theorem insertAll_empty (l : ChangeLog κ) : l.insertAll ∅ = l := by
  simp [insertAll]

/-- Adding twice is adding once. -/
theorem insertAll_union (l : ChangeLog κ) (s t : Set κ) :
    (l.insertAll s).insertAll t = l.insertAll (s ∪ t) := by
  simp only [insertAll, mk.injEq]
  refine ⟨Set.union_assoc _ _ _, ?_, ?_⟩
  -- one after the other, or both at once
  · ext k
    simp only [Set.mem_union, Set.mem_sdiff]
    tauto
  · ext k
    simp only [Set.mem_union, Set.mem_sdiff]
    tauto

theorem eraseAll_empty (l : ChangeLog κ) : l.eraseAll ∅ = l := by
  simp [eraseAll]

/-- Removing twice is removing once. -/
theorem eraseAll_union (l : ChangeLog κ) (s t : Set κ) :
    (l.eraseAll s).eraseAll t = l.eraseAll (s ∪ t) := by
  simp only [eraseAll, mk.injEq]
  refine ⟨?_, ?_, ?_⟩
  · ext k
    simp only [Set.mem_union, Set.mem_sdiff]
    tauto
  · ext k
    simp only [Set.mem_union, Set.mem_sdiff, Set.mem_inter_iff]
    tauto
  · ext k
    simp only [Set.mem_union, Set.mem_sdiff, Set.mem_inter_iff]
    tauto

theorem insertAll_of_mem {l : ChangeLog κ} {k : κ} (h : k ∈ l.ids) : l.insertAll {k} = l := by
  have hnone : {k} \ l.ids = ∅ := Set.sdiff_eq_empty.2 (Set.singleton_subset_iff.2 h)
  rw [insertAll, hnone, Set.union_empty, Set.sdiff_empty,
    Set.union_eq_self_of_subset_right (Set.singleton_subset_iff.2 h)]

theorem insertAll_of_not_mem {l : ChangeLog κ} {k : κ} (h : k ∉ l.ids) :
    l.insertAll {k} = ⟨insert k l.ids, insert k l.added, l.removed \ {k}⟩ := by
  have hall : {k} \ l.ids = {k} := sdiff_eq_left.2 (Set.disjoint_singleton_left.2 h)
  rw [insertAll, hall, Set.union_singleton, Set.union_singleton]

theorem eraseAll_of_not_mem {l : ChangeLog κ} {k : κ} (h : k ∉ l.ids) : l.eraseAll {k} = l := by
  have hnone : {k} ∩ l.ids = ∅ := Set.singleton_inter_eq_empty.2 h
  rw [eraseAll, hnone, Set.sdiff_empty, Set.empty_sdiff, Set.union_empty,
    Set.sdiff_singleton_eq_self h]

theorem eraseAll_of_mem {l : ChangeLog κ} {k : κ} (h : k ∈ l.ids) :
    l.eraseAll {k} = ⟨l.ids \ {k}, l.added \ {k}, l.removed ∪ {k} \ l.added⟩ := by
  have hall : {k} ∩ l.ids = {k} := Set.inter_eq_left.2 (Set.singleton_subset_iff.2 h)
  rw [eraseAll, hall]

/-- The keys of a list. -/
def keysOf (key : β → κ) (l : List β) : Set κ := {k | ∃ b ∈ l, key b = k}

/-- The keys of a list. -/
theorem keysOf_cons (b : β) (l : List β) : keysOf key (b :: l) = {key b} ∪ keysOf key l := by
  ext k
  simp [keysOf, eq_comm]

theorem foldl_insertAll (h : ∀ s b, log (f s b) = (log s).insertAll {key b}) (l : List β)
    (s : σ) : log (l.foldl f s) = (log s).insertAll (keysOf key l) := by
  induction l generalizing s with
  | nil => simp [keysOf, insertAll_empty]
  | cons b rest ih => rw [List.foldl_cons, ih, h, insertAll_union, keysOf_cons]

/-- A loop that removes one element a round removes the elements of the list. -/
theorem foldl_eraseAll {f : σ → κ → σ} (h : ∀ s k, log (f s k) = (log s).eraseAll {k})
    (l : List κ) (s : σ) : log (l.foldl f s) = (log s).eraseAll {k | k ∈ l} := by
  induction l generalizing s with
  | nil => simp [eraseAll_empty]
  | cons k rest ih =>
    have hcons : {k' | k' ∈ k :: rest} = {k} ∪ {k' | k' ∈ rest} := by
      ext k'
      simp
    rw [List.foldl_cons, ih, h, eraseAll_union, hcons]

end Loops

end ChangeLog
