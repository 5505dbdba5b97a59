import Mathlib.Data.List.Sort
import Mathlib.Data.List.Nodup
import Mathlib.Algebra.BigOperators.Group.List.Basic

/-!
# Insertion-ordered finite maps

A finite map kept as the list of its entries, in the order in which the keys were first set:
setting a known key overwrites its value in place, setting a new key appends it. That is the
contract of a JavaScript `Map` (and, with `Unit` values, of a `Set`).

A map whose iteration order is left open, such as Go's, is the same structure read through
`range`: a loop visits the entries in the order a *rank* of the keys gives, and
`exists_rank` says that every rearrangement of the entries is visited by some rank, so a
theorem for all ranks is a theorem for all iteration orders.

Every operation has one `get?` lemma; nothing outside this module needs to look at `entries`
except through `mem_entries` and `mem_range`.
-/

/-- A finite map that remembers the order in which its keys were first set. -/
@[ext]
structure OrdMap (κ : Type*) (α : Type*) where
  entries : List (κ × α)
  nodup : (entries.map Prod.fst).Nodup

namespace OrdMap

variable {κ α β : Type*} [DecidableEq κ]

/-! ## Entry lists -/

/-- The value of the first entry for `k`. -/
def lookup (k : κ) : List (κ × α) → Option α
  | [] => none
  | (k', v) :: rest => if k' = k then some v else lookup k rest

/-- Overwrite the entry for `k` in place, or append one. -/
def setEntry (k : κ) (v : α) : List (κ × α) → List (κ × α)
  | [] => [(k, v)]
  | (k', v') :: rest => if k' = k then (k, v) :: rest else (k', v') :: setEntry k v rest

/-- Nothing is found under a key that no entry has. -/
theorem lookup_eq_none_iff {k : κ} {l : List (κ × α)} :
    lookup k l = none ↔ k ∉ l.map Prod.fst := by
  induction l with
  | nil => simp [lookup]
  | cons e rest ih =>
    obtain ⟨k', v⟩ := e
    by_cases h : k' = k
    · simp [lookup, h]
    · simp [lookup, h, ih, Ne.symm h]

/-- When no key is there twice, what is found is what is listed. -/
theorem lookup_eq_some_iff {k : κ} {v : α} {l : List (κ × α)}
    (hnd : (l.map Prod.fst).Nodup) : lookup k l = some v ↔ (k, v) ∈ l := by
  induction l with
  | nil => simp [lookup]
  | cons e rest ih =>
    obtain ⟨k', v'⟩ := e
    rw [List.map_cons, List.nodup_cons] at hnd
    by_cases h : k' = k
    · subst h
      -- the first entry has the key, so no later one does
      have hout : (k', v) ∉ rest := fun hm => hnd.1 (List.mem_map.2 ⟨_, hm, rfl⟩)
      simp [lookup, hout, eq_comm]
    · simp [lookup, h, ih hnd.2, Ne.symm h]

/-- What was set is found, and other keys are as before. -/
theorem lookup_setEntry {k k' : κ} {v : α} {l : List (κ × α)} :
    lookup k' (setEntry k v l) = if k' = k then some v else lookup k' l := by
  induction l with
  | nil => simp [setEntry, lookup, eq_comm]
  | cons e rest ih =>
    obtain ⟨k₀, v₀⟩ := e
    by_cases h : k₀ = k
    · subst h
      by_cases hk : k₀ = k'
      · simp [setEntry, lookup, hk]
      · simp [setEntry, lookup, hk, Ne.symm hk]
    · by_cases hk : k₀ = k'
      · subst hk; simp [setEntry, lookup, h]
      · simp [setEntry, lookup, h, hk, ih]

theorem mem_keys_setEntry {k k' : κ} {v : α} {l : List (κ × α)} :
    k' ∈ (setEntry k v l).map Prod.fst ↔ k' = k ∨ k' ∈ l.map Prod.fst := by
  rw [← not_iff_not, ← lookup_eq_none_iff, lookup_setEntry]
  by_cases h : k' = k <;> simp [h, lookup_eq_none_iff]

theorem nodup_setEntry {k : κ} {v : α} {l : List (κ × α)} (hnd : (l.map Prod.fst).Nodup) :
    ((setEntry k v l).map Prod.fst).Nodup := by
  induction l with
  | nil => simp [setEntry]
  | cons e rest ih =>
    obtain ⟨k', v'⟩ := e
    rw [List.map_cons, List.nodup_cons] at hnd
    by_cases h : k' = k
    · subst h
      simpa [setEntry] using hnd
    · rw [setEntry, if_neg h, List.map_cons, List.nodup_cons, mem_keys_setEntry]
      exact ⟨by simp [h, hnd.1], ih hnd.2⟩

omit [DecidableEq κ] in
theorem nodup_filter {p : κ × α → Bool} {l : List (κ × α)} (hnd : (l.map Prod.fst).Nodup) :
    ((l.filter p).map Prod.fst).Nodup :=
  (List.filter_sublist.map Prod.fst).nodup hnd

/-! ## Operations -/

/-- The map without entries. -/
def empty : OrdMap κ α := ⟨[], by simp⟩

instance : EmptyCollection (OrdMap κ α) := ⟨empty⟩

instance : Inhabited (OrdMap κ α) := ⟨∅⟩

/-- The value at `k`, if any. -/
def get? (m : OrdMap κ α) (k : κ) : Option α := lookup k m.entries

instance : Membership κ (OrdMap κ α) := ⟨fun m k => (m.get? k).isSome⟩

instance (m : OrdMap κ α) (k : κ) : Decidable (k ∈ m) :=
  inferInstanceAs (Decidable ((m.get? k).isSome = true))

/-- Overwrite in place, or append. -/
def set (m : OrdMap κ α) (k : κ) (v : α) : OrdMap κ α :=
  ⟨setEntry k v m.entries, nodup_setEntry m.nodup⟩

/-- Remove the entry for `k`, if any. -/
def erase (m : OrdMap κ α) (k : κ) : OrdMap κ α :=
  ⟨m.entries.filter (fun e => e.1 ≠ k), nodup_filter m.nodup⟩

/-- Change the value at `k` in place; nothing happens when `k` is absent. -/
def modify (m : OrdMap κ α) (k : κ) (f : α → α) : OrdMap κ α :=
  match m.get? k with
  | none => m
  | some v => m.set k (f v)

/-- The keys, oldest first. -/
def keys (m : OrdMap κ α) : List κ := m.entries.map Prod.fst

/-- The number of entries. -/
def size (m : OrdMap κ α) : Nat := m.entries.length

/-! ## What each operation does to a lookup -/

theorem mem_iff_isSome {m : OrdMap κ α} {k : κ} : k ∈ m ↔ (m.get? k).isSome = true := Iff.rfl

theorem mem_iff {m : OrdMap κ α} {k : κ} : k ∈ m ↔ ∃ v, m.get? k = some v :=
  Option.isSome_iff_exists

theorem not_mem_iff {m : OrdMap κ α} {k : κ} : k ∉ m ↔ m.get? k = none := by
  rw [mem_iff_isSome, Bool.not_eq_true, Option.isSome_eq_false_iff, Option.isNone_iff_eq_none]

theorem mem_of_get? {m : OrdMap κ α} {k : κ} {v : α} (h : m.get? k = some v) : k ∈ m :=
  mem_iff.2 ⟨v, h⟩

theorem mem_congr {β : Type*} {m : OrdMap κ α} {m' : OrdMap κ β} {k : κ}
    (h : (m'.get? k).isSome = (m.get? k).isSome) : k ∈ m' ↔ k ∈ m := by
  rw [mem_iff_isSome, mem_iff_isSome, h]

@[simp] theorem get?_empty (k : κ) : (∅ : OrdMap κ α).get? k = none := rfl

@[simp] theorem not_mem_empty (k : κ) : k ∉ (∅ : OrdMap κ α) := by simp [not_mem_iff]

/-- What is found after a `set`. -/
theorem get?_set (m : OrdMap κ α) (k k' : κ) (v : α) :
    (m.set k v).get? k' = if k' = k then some v else m.get? k' := lookup_setEntry

@[simp] theorem get?_set_self (m : OrdMap κ α) (k : κ) (v : α) :
    (m.set k v).get? k = some v := by simp [get?_set]

theorem get?_set_ne (m : OrdMap κ α) {k k' : κ} (v : α) (h : k' ≠ k) :
    (m.set k v).get? k' = m.get? k' := by simp [get?_set, h]

/-- What is found after a `delete`. -/
theorem get?_erase (m : OrdMap κ α) (k k' : κ) :
    (m.erase k).get? k' = if k' = k then none else m.get? k' := by
  have hnd : ((m.entries.filter (fun e => e.1 ≠ k)).map Prod.fst).Nodup := nodup_filter m.nodup
  apply Option.ext
  intro v
  by_cases h : k' = k
  · rw [if_pos h, get?, erase, lookup_eq_some_iff hnd]
    simp [h]
  · rw [if_neg h, get?, erase, lookup_eq_some_iff hnd, get?, lookup_eq_some_iff m.nodup]
    simp [h]

@[simp] theorem get?_erase_self (m : OrdMap κ α) (k : κ) : (m.erase k).get? k = none := by
  simp [get?_erase]

theorem get?_erase_ne (m : OrdMap κ α) {k k' : κ} (h : k' ≠ k) :
    (m.erase k).get? k' = m.get? k' := by simp [get?_erase, h]

theorem get?_set_eq_some {m : OrdMap κ α} {k k' : κ} {v w : α} :
    (m.set k v).get? k' = some w ↔ (k' = k ∧ w = v) ∨ (k' ≠ k ∧ m.get? k' = some w) := by
  rw [get?_set]
  split
  · next h => simp [h, eq_comm]
  · next h => simp [h]

theorem get?_erase_eq_some {m : OrdMap κ α} {k k' : κ} {v : α} :
    (m.erase k).get? k' = some v ↔ k' ≠ k ∧ m.get? k' = some v := by
  rw [get?_erase]
  split
  · next h => simp [h]
  · next h => simp [h]

/-- What is taken out in two rounds is out at the end. -/
theorem get?_eq_none_trans {p q : Prop} {m m' : OrdMap κ α} {k : κ}
    (hout : q → m'.get? k = none) (hkept : ¬ q → m'.get? k = m.get? k)
    (hbefore : p → m.get? k = none) (h : p ∨ q) : m'.get? k = none := by
  by_cases hq : q
  · exact hout hq
  · rw [hkept hq]
    exact hbefore (h.resolve_right hq)

theorem get?_modify (m : OrdMap κ α) (k k' : κ) (f : α → α) :
    (m.modify k f).get? k' = if k' = k then (m.get? k').map f else m.get? k' := by
  unfold modify
  cases h : m.get? k with
  | none => by_cases hk : k' = k <;> simp [hk, h]
  | some v => by_cases hk : k' = k <;> simp [get?_set, hk, h]

theorem get?_modify_self_eq_some {m : OrdMap κ α} {k : κ} {f : α → α} {v : α} :
    (m.modify k f).get? k = some v ↔ ∃ w, m.get? k = some w ∧ f w = v := by
  rw [get?_modify, if_pos rfl, Option.map_eq_some_iff]

@[simp] theorem mem_set {m : OrdMap κ α} {k k' : κ} {v : α} :
    k' ∈ m.set k v ↔ k' = k ∨ k' ∈ m := by
  by_cases h : k' = k <;> simp [mem_iff_isSome, get?_set, h]

@[simp] theorem mem_erase {m : OrdMap κ α} {k k' : κ} :
    k' ∈ m.erase k ↔ k' ≠ k ∧ k' ∈ m := by
  by_cases h : k' = k <;> simp [mem_iff_isSome, get?_erase, h]

@[simp] theorem mem_modify {m : OrdMap κ α} {k k' : κ} {f : α → α} :
    k' ∈ m.modify k f ↔ k' ∈ m := by
  by_cases h : k' = k <;> simp [mem_iff_isSome, get?_modify, h]

/-! ## Entries -/

omit [DecidableEq κ] in
/-- Some entry of a list, under a given key, has a property. -/
theorem exists_mem_cons_iff {k k' : κ} {v : α} {rest : List (κ × α)} {P : α → Prop} :
    (∃ w, (k', w) ∈ (k, v) :: rest ∧ P w) ↔ (k' = k ∧ P v) ∨ ∃ w, (k', w) ∈ rest ∧ P w := by
  constructor
  · rintro ⟨w, h, hw⟩
    rcases List.mem_cons.1 h with heq | h
    · obtain ⟨rfl, rfl⟩ := Prod.mk.inj heq
      exact Or.inl ⟨rfl, hw⟩
    · exact Or.inr ⟨w, h, hw⟩
  · rintro (⟨rfl, hv⟩ | ⟨w, h, hw⟩)
    · exact ⟨v, List.mem_cons_self, hv⟩
    · exact ⟨w, List.mem_cons_of_mem _ h, hw⟩

/-- **The entries are the keys with what is found under them.** -/
theorem mem_entries {m : OrdMap κ α} {k : κ} {v : α} :
    (k, v) ∈ m.entries ↔ m.get? k = some v := (lookup_eq_some_iff m.nodup).symm

omit [DecidableEq κ] in
theorem nodup_keys (m : OrdMap κ α) : m.keys.Nodup := m.nodup

/-- A key is listed when it is there. -/
@[simp] theorem mem_keys {m : OrdMap κ α} {k : κ} : k ∈ m.keys ↔ k ∈ m := by
  rw [keys, ← not_iff_not, ← lookup_eq_none_iff, not_mem_iff]; rfl

/-- A map is its keys in their order, and what is under them. -/
theorem entries_eq_filterMap (m : OrdMap κ α) :
    m.entries = m.keys.filterMap fun k => (m.get? k).map fun v => (k, v) := by
  have hget : ∀ e ∈ m.entries, (m.get? e.1).map (fun v => (e.1, v)) = some e := by
    intro e he
    rw [mem_entries.1 he]
    rfl
  rw [keys, List.filterMap_map]
  exact ((List.filterMap_congr hget).trans List.filterMap_some).symm

theorem eq_of_keys {m m' : OrdMap κ α} (hkeys : m.keys = m'.keys)
    (hget : ∀ k, m.get? k = m'.get? k) : m = m' := by
  apply OrdMap.ext
  rw [entries_eq_filterMap, entries_eq_filterMap, hkeys]
  simp only [hget]

theorem erase_of_not_mem {m : OrdMap κ α} {k : κ} (h : k ∉ m) : m.erase k = m := by
  refine OrdMap.ext (List.filter_eq_self.2 fun e he => ?_)
  have hne : e.1 ≠ k := fun heq => h (heq ▸ mem_keys.1 (List.mem_map.2 ⟨e, he, rfl⟩))
  simpa using hne

omit [DecidableEq κ] in
theorem nodup_entries (m : OrdMap κ α) : m.entries.Nodup := List.Nodup.of_map _ m.nodup

/-- Maps that look up the same have the same entries up to order. -/
theorem entries_perm {m m' : OrdMap κ α} (h : ∀ k, m.get? k = m'.get? k) :
    m.entries.Perm m'.entries := by
  apply (List.perm_ext_iff_of_nodup m.nodup_entries m'.nodup_entries).2
  rintro ⟨k, v⟩
  rw [mem_entries, mem_entries, h]

/-- The entries are the one under a key and those of the map without it. -/
theorem entries_erase_perm {m : OrdMap κ α} {k : κ} {v : α} (h : m.get? k = some v) :
    m.entries.Perm ((k, v) :: (m.erase k).entries) := by
  refine (List.perm_ext_iff_of_nodup m.nodup_entries ?_).2 ?_
  · rw [List.nodup_cons, mem_entries]
    exact ⟨by simp, (m.erase k).nodup_entries⟩
  · rintro ⟨k', v'⟩
    rw [List.mem_cons, mem_entries, mem_entries, get?_erase]
    by_cases hk : k' = k
    · subst hk
      simp [h, eq_comm]
    · simp [hk]

/-- Setting a key changes its own entry only. -/
theorem entries_set_perm (m : OrdMap κ α) (k : κ) (v : α) :
    (m.set k v).entries.Perm ((k, v) :: (m.erase k).entries) := by
  refine (entries_erase_perm (get?_set_self m k v)).trans (List.Perm.cons _ (entries_perm ?_))
  intro k'
  rw [get?_erase, get?_erase]
  by_cases hk : k' = k
  · simp [hk]
  · simp [hk, get?_set_ne]

omit [DecidableEq κ] in
theorem size_eq_zero_iff {m : OrdMap κ α} : m.size = 0 ↔ m = ∅ := by
  constructor
  · intro h
    exact OrdMap.ext (List.length_eq_zero_iff.1 h)
  · rintro rfl
    rfl

theorem set_ne_empty {m : OrdMap κ α} {k : κ} {v : α} : m.set k v ≠ ∅ := by
  intro h
  have hmem : k ∈ m.set k v := mem_set.2 (Or.inl rfl)
  rw [h] at hmem
  exact not_mem_empty k hmem

theorem exists_mem_of_ne_empty {m : OrdMap κ α} (h : m ≠ ∅) : ∃ k, k ∈ m := by
  cases hent : m.entries with
  | nil => exact absurd (OrdMap.ext hent) h
  | cons e rest =>
    refine ⟨e.1, mem_keys.1 (List.mem_map.2 ⟨e, ?_, rfl⟩)⟩
    rw [hent]
    exact List.mem_cons_self

/-! ## Filling a map -/

/-- The values, oldest key first. -/
def values (m : OrdMap κ α) : List α := m.entries.map Prod.snd

/-- Set the entries of a list, one after the other. -/
def setAll (m : OrdMap κ α) (l : List (κ × α)) : OrdMap κ α :=
  l.foldl (fun m e => m.set e.1 e.2) m

/-- Append to the list under a key, or begin one. -/
def push (m : OrdMap κ (List α)) (k : κ) (v : α) : OrdMap κ (List α) :=
  m.set k ((m.get? k).getD [] ++ [v])

/-- Append every item of a list to the list under its key. -/
def pushAll (m : OrdMap κ (List α)) (key : β → κ) (val : β → α) (l : List β) :
    OrdMap κ (List α) := l.foldl (fun m b => m.push (key b) (val b)) m

theorem mem_values_of_get? {m : OrdMap κ α} {k : κ} {v : α} (h : m.get? k = some v) :
    v ∈ m.values := List.mem_map.2 ⟨(k, v), mem_entries.2 h, rfl⟩

theorem mem_values {m : OrdMap κ α} {v : α} : v ∈ m.values ↔ ∃ k, m.get? k = some v := by
  constructor
  · intro h
    obtain ⟨⟨k, w⟩, he, rfl⟩ := List.mem_map.1 h
    exact ⟨k, mem_entries.1 he⟩
  · rintro ⟨k, h⟩
    exact mem_values_of_get? h

/-- Where every value knows its key, the keys of the values are the keys. -/
theorem map_values_eq_keys {m : OrdMap κ α} {key : α → κ}
    (h : ∀ k v, m.get? k = some v → key v = k) : m.values.map key = m.keys := by
  rw [values, keys, List.map_map]
  apply List.map_congr_left
  intro e he
  exact h e.1 e.2 (mem_entries.1 he)

/-- The values are the one under a key and those of the map without it. -/
theorem values_erase_perm {m : OrdMap κ α} {k : κ} {v : α} (h : m.get? k = some v) :
    m.values.Perm (v :: (m.erase k).values) := (entries_erase_perm h).map Prod.snd

theorem values_set_perm (m : OrdMap κ α) (k : κ) (v : α) :
    (m.set k v).values.Perm (v :: (m.erase k).values) := (entries_set_perm m k v).map Prod.snd

theorem values_set_perm_of_not_mem {m : OrdMap κ α} {k : κ} (h : k ∉ m) (v : α) :
    (m.set k v).values.Perm (v :: m.values) := by
  have hperm := values_set_perm m k v
  rwa [erase_of_not_mem h] at hperm

/-- A new key goes to the end. -/
theorem setEntry_of_not_mem {k : κ} {v : α} {l : List (κ × α)} (h : k ∉ l.map Prod.fst) :
    setEntry k v l = l ++ [(k, v)] := by
  induction l with
  | nil => rfl
  | cons e rest ih =>
    rw [List.map_cons, List.mem_cons, not_or] at h
    rw [setEntry, if_neg (Ne.symm h.1), ih h.2]
    rfl

theorem entries_set_of_not_mem {m : OrdMap κ α} {k : κ} {v : α} (h : k ∉ m) :
    (m.set k v).entries = m.entries ++ [(k, v)] :=
  setEntry_of_not_mem fun hmem => h (mem_keys.1 hmem)

theorem keys_set_of_not_mem {m : OrdMap κ α} {k : κ} {v : α} (h : k ∉ m) :
    (m.set k v).keys = m.keys ++ [k] := by
  rw [keys, entries_set_of_not_mem h, List.map_append]
  rfl

theorem map_fst_setEntry {k : κ} {v : α} {l : List (κ × α)} (h : k ∈ l.map Prod.fst) :
    (setEntry k v l).map Prod.fst = l.map Prod.fst := by
  induction l with
  | nil => cases h
  | cons e rest ih =>
    by_cases hk : e.1 = k
    · simp [setEntry, hk]
    · have hrest : k ∈ rest.map Prod.fst := by simpa [Ne.symm hk] using h
      simp [setEntry, hk, ih hrest]

theorem keys_set_of_mem {m : OrdMap κ α} {k : κ} {v : α} (h : k ∈ m) :
    (m.set k v).keys = m.keys := map_fst_setEntry (mem_keys.2 h)

theorem keys_erase (m : OrdMap κ α) (k : κ) : (m.erase k).keys = m.keys.filter (· ≠ k) := by
  rw [keys, keys, List.filter_map]
  rfl

/-- Distinct keys that the map does not have are appended in their order. -/
theorem entries_setAll {m : OrdMap κ α} {l : List (κ × α)}
    (hnd : ((m.entries ++ l).map Prod.fst).Nodup) : (m.setAll l).entries = m.entries ++ l := by
  induction l generalizing m with
  | nil => rw [List.append_nil]; rfl
  | cons e rest ih =>
    -- the key of `e` is not in the map yet, so it goes to the end
    have hset : (m.set e.1 e.2).entries = m.entries ++ [e] := by
      apply entries_set_of_not_mem
      intro hmem
      rw [List.map_append, List.nodup_append] at hnd
      exact hnd.2.2 e.1 (mem_keys.2 hmem) e.1 List.mem_cons_self rfl
    have hrest := ih (m := m.set e.1 e.2) (by rwa [hset, List.append_assoc])
    rw [hset, List.append_assoc] at hrest
    exact hrest

theorem entries_setAll_empty {l : List (κ × α)} (hnd : (l.map Prod.fst).Nodup) :
    ((∅ : OrdMap κ α).setAll l).entries = l := entries_setAll hnd

/-- **Under a key is the list of what was pushed under it**, in order. -/
theorem get?_pushAll {m : OrdMap κ (List α)} {key : β → κ} {val : β → α} {l : List β} {k : κ} :
    ((m.pushAll key val l).get? k).getD []
      = (m.get? k).getD [] ++ (l.filter fun b => key b = k).map val := by
  induction l generalizing m with
  | nil => rw [List.filter_nil, List.map_nil, List.append_nil]; rfl
  | cons b rest ih =>
    -- one push lengthens the list of its own key alone
    have hpush : ((m.push (key b) (val b)).get? k).getD []
        = (m.get? k).getD [] ++ if key b = k then [val b] else [] := by
      rw [push, get?_set]
      by_cases hk : key b = k
      · rw [if_pos hk.symm, if_pos hk, hk]
        rfl
      · rw [if_neg (Ne.symm hk), if_neg hk, List.append_nil]
    have hrest := ih (m := m.push (key b) (val b))
    rw [hpush, List.append_assoc] at hrest
    apply hrest.trans
    by_cases hk : key b = k <;> simp [hk]

/-- The keys are those that something was pushed under. -/
theorem mem_pushAll {m : OrdMap κ (List α)} {key : β → κ} {val : β → α} {l : List β} {k : κ} :
    k ∈ m.pushAll key val l ↔ k ∈ m ∨ ∃ b ∈ l, key b = k := by
  induction l generalizing m with
  | nil => simp [pushAll]
  | cons b rest ih =>
    have hrest := ih (m := m.push (key b) (val b))
    rw [push, mem_set] at hrest
    apply hrest.trans
    simp only [List.mem_cons, exists_eq_or_imp, eq_comm (a := key b)]
    tauto

/-- A map whose keys are keys of another one is not larger. -/
theorem size_le_of_forall_mem {m : OrdMap κ α} {m' : OrdMap κ β} (h : ∀ k, k ∈ m → k ∈ m') :
    m.size ≤ m'.size := by
  have hsub : m.keys ⊆ m'.keys := fun k hk => mem_keys.2 (h k (mem_keys.1 hk))
  have hlen := (List.subperm_of_subset m.nodup_keys hsub).length_le
  rwa [keys, keys, List.length_map, List.length_map] at hlen

theorem size_congr {m : OrdMap κ α} {m' : OrdMap κ β} (h : ∀ k, k ∈ m ↔ k ∈ m') :
    m.size = m'.size :=
  Nat.le_antisymm (size_le_of_forall_mem fun k => (h k).1) (size_le_of_forall_mem fun k => (h k).2)

/-- A key more makes a map larger. -/
theorem size_lt_of_forall_mem {m : OrdMap κ α} {m' : OrdMap κ β} (h : ∀ k, k ∈ m → k ∈ m')
    {k : κ} (hk : k ∈ m') (hnew : k ∉ m) : m.size < m'.size := by
  obtain ⟨v, hv⟩ := mem_iff.1 hk
  have hsize : m'.size = (m'.erase k).size + 1 := (entries_erase_perm hv).length_eq
  have hsub : m.size ≤ (m'.erase k).size := size_le_of_forall_mem fun k' hk' =>
    mem_erase.2 ⟨fun heq => hnew (heq ▸ hk'), h k' hk'⟩
  omega

/-! ## Maps seen through a function of the values -/

section Map

variable (f : α → β)

/-- The same keys with the images of the values. -/
def map (m : OrdMap κ α) : OrdMap κ β where
  entries := m.entries.map fun e => (e.1, f e.2)
  nodup := by
    rw [List.map_map]
    exact m.nodup

theorem lookup_map (k : κ) (l : List (κ × α)) :
    lookup k (l.map fun e => (e.1, f e.2)) = (lookup k l).map f := by
  induction l with
  | nil => rfl
  | cons e rest ih =>
    by_cases h : e.1 = k <;> simp [lookup, h, ih]

theorem setEntry_map (k : κ) (v : α) (l : List (κ × α)) :
    setEntry k (f v) (l.map fun e => (e.1, f e.2))
      = (setEntry k v l).map fun e => (e.1, f e.2) := by
  induction l with
  | nil => rfl
  | cons e rest ih =>
    by_cases h : e.1 = k <;> simp [setEntry, h, ih]

@[simp] theorem get?_map (m : OrdMap κ α) (k : κ) : (m.map f).get? k = (m.get? k).map f :=
  lookup_map f k m.entries

@[simp] theorem mem_map {m : OrdMap κ α} {k : κ} : k ∈ m.map f ↔ k ∈ m := by
  rw [mem_iff_isSome, get?_map, Option.isSome_map]
  rfl

theorem map_set (m : OrdMap κ α) (k : κ) (v : α) : (m.set k v).map f = (m.map f).set k (f v) :=
  OrdMap.ext (setEntry_map f k v m.entries).symm

theorem map_erase (m : OrdMap κ α) (k : κ) : (m.erase k).map f = (m.map f).erase k := by
  apply OrdMap.ext
  show (m.entries.filter _).map _ = (m.entries.map _).filter _
  rw [List.filter_map]
  rfl

omit [DecidableEq κ] in
theorem values_map (m : OrdMap κ α) : (m.map f).values = m.values.map f := by
  simp only [values, map, List.map_map]
  rfl

omit [DecidableEq κ] in
@[simp] theorem keys_map (m : OrdMap κ α) : (m.map f).keys = m.keys := by
  simp only [keys, map, List.map_map]
  rfl

end Map

/-! ## Loops with an open iteration order -/

/-- The entries in the order in which a loop that ranks the keys by `ρ` visits them. -/
def range (m : OrdMap κ α) (ρ : κ → Nat) : List (κ × α) :=
  m.entries.insertionSort (fun a b => ρ a.1 ≤ ρ b.1)

omit [DecidableEq κ] in
theorem range_perm (m : OrdMap κ α) (ρ : κ → Nat) : (m.range ρ).Perm m.entries :=
  List.perm_insertionSort _ _

theorem mem_range {m : OrdMap κ α} {ρ : κ → Nat} {k : κ} {v : α} :
    (k, v) ∈ m.range ρ ↔ m.get? k = some v := by
  rw [(range_perm m ρ).mem_iff, mem_entries]

omit [DecidableEq κ] in
theorem nodup_range (m : OrdMap κ α) (ρ : κ → Nat) : ((m.range ρ).map Prod.fst).Nodup :=
  ((range_perm m ρ).map Prod.fst).nodup_iff.2 m.nodup

/-- No iteration order is left out: every rearrangement of the entries is the `range` of
some rank, namely the position of a key in it. -/
theorem exists_rank (m : OrdMap κ α) (l : List (κ × α)) (h : l.Perm m.entries) :
    ∃ ρ : κ → Nat, m.range ρ = l := by
  have hnd : (l.map Prod.fst).Nodup := (h.map Prod.fst).nodup_iff.2 m.nodup
  let ρ : κ → Nat := fun k => (l.map Prod.fst).idxOf k
  refine ⟨ρ, ?_⟩
  have hsorted : l.Pairwise (fun a b => ρ a.1 < ρ b.1) := by
    rw [List.pairwise_iff_getElem]
    intro i j hi hj hij
    have hidx : ∀ n (hn : n < l.length), ρ l[n].1 = n := by
      intro n hn
      have := hnd.idxOf_getElem n (by simpa using hn)
      simpa [ρ] using this
    rw [hidx i hi, hidx j hj]
    exact hij
  have hrange : (m.range ρ).Pairwise (fun a b => ρ a.1 ≤ ρ b.1) :=
    List.pairwise_insertionSort _ _
  refine List.Perm.eq_of_pairwise ?_ hrange (hsorted.imp le_of_lt)
    ((range_perm m ρ).trans h.symm)
  -- entries of equal rank are equal: the rank is injective on the keys of `l`
  intro a b ha hb hab hba
  have hal : a ∈ l := ((range_perm m ρ).trans h.symm).mem_iff.1 ha
  have hkey : a.1 = b.1 := by
    have heq : ρ a.1 = ρ b.1 := le_antisymm hab hba
    exact (List.idxOf_inj (List.mem_map.2 ⟨a, hal, rfl⟩)).1 heq
  exact List.inj_on_of_nodup_map hnd hal hb hkey

/-! ## Sums over the entries -/

/-- The sum of `f` over the entries. -/
def sumOver {M : Type*} [AddCommMonoid M] (m : OrdMap κ α) (f : α → M) : M :=
  (m.entries.map (fun e => f e.2)).sum

section Sums

variable {M : Type*} [AddCommMonoid M] (f : α → M)

/-- Erasing an entry takes its summand away. -/
theorem sumOver_erase {m : OrdMap κ α} {k : κ} {v : α} (h : m.get? k = some v) :
    m.sumOver f = f v + (m.erase k).sumOver f := by
  rw [sumOver, ((entries_erase_perm h).map _).sum_eq]
  simp [sumOver]

theorem sumOver_set (m : OrdMap κ α) (k : κ) (v : α) :
    (m.set k v).sumOver f = f v + (m.erase k).sumOver f := by
  rw [sumOver, ((entries_set_perm m k v).map _).sum_eq]
  simp [sumOver]

/-- Setting a new key adds its summand. -/
theorem sumOver_set_of_not_mem {m : OrdMap κ α} {k : κ} {v : α} (h : k ∉ m) :
    (m.set k v).sumOver f = f v + m.sumOver f := by
  rw [sumOver_set, erase_of_not_mem h]

/-- Overwriting a value with one of the same summand leaves the sum alone. -/
theorem sumOver_set_of_get? {m : OrdMap κ α} {k : κ} {v v' : α} (h : m.get? k = some v)
    (hf : f v' = f v) : (m.set k v').sumOver f = m.sumOver f := by
  rw [sumOver_set, sumOver_erase f h, hf]

end Sums

end OrdMap

/-! ## Sets -/

/-- An insertion-ordered set. -/
abbrev OrdSet (κ : Type*) := OrdMap κ Unit

namespace OrdSet

variable {κ : Type*} [DecidableEq κ]

/-- Add a member. -/
def add (s : OrdSet κ) (k : κ) : OrdSet κ := OrdMap.set s k ()

/-- Add every member of a list. -/
def addAll (s : OrdSet κ) (l : List κ) : OrdSet κ := l.foldl add s

@[simp] theorem mem_add {s : OrdSet κ} {k k' : κ} : k' ∈ s.add k ↔ k' = k ∨ k' ∈ s :=
  OrdMap.mem_set

@[simp] theorem mem_addAll {s : OrdSet κ} {l : List κ} {k : κ} :
    k ∈ s.addAll l ↔ k ∈ l ∨ k ∈ s := by
  induction l generalizing s with
  | nil => simp [addAll]
  | cons a rest ih =>
    have h := ih (s := s.add a)
    rw [addAll, List.foldl_cons]
    rw [addAll] at h
    rw [h, mem_add, List.mem_cons]
    tauto

end OrdSet
