import Flowscape.Graph.L7
import Mathlib.Algebra.BigOperators.Group.List.Lemmas
import Mathlib.Data.List.Dedup
import Mathlib.Data.List.Perm.Subperm

/-!
# Flowscape: what a full counter counts (`internal/graph/l7.go`)

A counter that holds eight keys counts whatever it does not have under `other`. That is a key like
any other: it can be one of the eight, and it is the ninth when it is not. The invariant is a
closed form for every count: the first eight keys of a sequence count for themselves, and all the
rest for `other`.
-/

namespace Flowscape

namespace TopCounter

/-- The counter after a sequence of `add` calls. -/
def addAll (keys : List String) : TopCounter := keys.foldl TopCounter.add ∅

/-- The first keys of a sequence, each once: as many as a counter holds under their own name. -/
def firstKeys (keys : List String) : List String := keys.eraseDups.take topN

/-- What a key counts for when `first` are the first keys. -/
def landing (first : List String) (key : String) : String := if key ∈ first then key else "other"

/-- How many keys of a sequence count for `key`. -/
def counted (keys : List String) (key : String) : Nat :=
  (keys.map (landing (firstKeys keys))).count key

/-! ## The first keys -/

theorem eraseDups_concat (keys : List String) (key : String) :
    (keys ++ [key]).eraseDups = keys.eraseDups ++ if key ∈ keys then [] else [key] := by
  rw [List.eraseDups_append]
  by_cases h : key ∈ keys <;> simp [List.removeAll, List.eraseDups_cons, h]

/-- Distinct keys are distinct. -/
theorem nodup_eraseDups (keys : List String) : keys.eraseDups.Nodup := by
  induction keys using List.reverseRecOn with
  | nil => exact List.nodup_nil
  | append_singleton keys key ih =>
    rw [eraseDups_concat]
    split
    · rwa [List.append_nil]
    · next h =>
      rw [← List.concat_eq_append]
      exact ih.concat fun hmem => h (List.mem_eraseDups.1 hmem)

theorem nodup_firstKeys (keys : List String) : (firstKeys keys).Nodup :=
  (nodup_eraseDups keys).sublist (List.take_sublist _ _)

theorem mem_of_mem_firstKeys {keys : List String} {key : String} (h : key ∈ firstKeys keys) :
    key ∈ keys :=
  List.mem_eraseDups.1 (List.mem_of_mem_take h)

/-- While there is room, every key is among the first. -/
theorem firstKeys_of_room {keys : List String} (h : (firstKeys keys).length < topN) :
    firstKeys keys = keys.eraseDups := by
  apply List.take_of_length_le
  rw [firstKeys, List.length_take] at h
  omega

theorem firstKeys_concat_of_mem {keys : List String} {key : String} (h : key ∈ firstKeys keys) :
    firstKeys (keys ++ [key]) = firstKeys keys := by
  rw [firstKeys, eraseDups_concat, if_pos (mem_of_mem_firstKeys h), List.append_nil, firstKeys]

/-- A new key is one of the first, -/
theorem firstKeys_concat_of_room {keys : List String} {key : String}
    (h : (firstKeys keys).length < topN) (hnew : key ∉ firstKeys keys) :
    firstKeys (keys ++ [key]) = firstKeys keys ++ [key] := by
  have hkeys := firstKeys_of_room h
  rw [hkeys] at h hnew
  rw [hkeys, firstKeys, eraseDups_concat, if_neg (fun hmem => hnew (List.mem_eraseDups.2 hmem))]
  apply List.take_of_length_le
  rw [List.length_append, List.length_singleton]
  omega

/-- unless there are eight of them. -/
theorem firstKeys_concat_of_full {keys : List String} (h : topN ≤ (firstKeys keys).length)
    (key : String) : firstKeys (keys ++ [key]) = firstKeys keys := by
  rw [firstKeys, List.length_take] at h
  rw [firstKeys, eraseDups_concat, List.take_append_of_le_length (by omega), firstKeys]

/-! ## What a key counts for -/

theorem landing_of_mem {first : List String} {key : String} (h : key ∈ first) :
    landing first key = key := if_pos h

theorem landing_of_not_mem {first : List String} {key : String} (h : key ∉ first) :
    landing first key = "other" := if_neg h

/-- What the keys so far count for does not change with the next one. -/
theorem map_landing_concat (keys : List String) (key : String) :
    keys.map (landing (firstKeys (keys ++ [key]))) = keys.map (landing (firstKeys keys)) := by
  by_cases hmem : key ∈ firstKeys keys
  · rw [firstKeys_concat_of_mem hmem]
  · by_cases hroom : (firstKeys keys).length < topN
    · -- they are all among the first already
      apply List.map_congr_left
      intro k hk
      have hfirst : k ∈ firstKeys keys := by
        rw [firstKeys_of_room hroom]
        exact List.mem_eraseDups.2 hk
      rw [firstKeys_concat_of_room hroom hmem, landing_of_mem hfirst,
        landing_of_mem (List.mem_append_left _ hfirst)]
    · rw [firstKeys_concat_of_full (Nat.le_of_not_lt hroom)]

theorem counted_concat (keys : List String) (key k : String) :
    counted (keys ++ [key]) k
      = counted keys k + if landing (firstKeys (keys ++ [key])) key = k then 1 else 0 := by
  rw [counted, List.map_append, map_landing_concat, List.count_append, counted, List.map_singleton,
    List.count_singleton]
  simp only [beq_iff_eq]

theorem counted_ne_zero {keys : List String} {key : String} :
    counted keys key ≠ 0 ↔ ∃ k ∈ keys, landing (firstKeys keys) k = key := by
  rw [counted, ← Nat.pos_iff_ne_zero, List.count_pos_iff, List.mem_map]

/-- A first key other than `other` counts for itself only. -/
theorem counted_of_mem {keys : List String} {key : String} (h : key ∈ firstKeys keys)
    (hother : key ≠ "other") : counted keys key = keys.count key := by
  rw [counted, List.count_eq_countP, List.count_eq_countP, List.countP_map]
  apply List.countP_congr
  intro k _
  simp only [Function.comp_apply, beq_iff_eq]
  constructor
  · intro hk
    by_cases hmem : k ∈ firstKeys keys
    · rwa [landing_of_mem hmem] at hk
    · rw [landing_of_not_mem hmem] at hk
      exact absurd hk.symm hother
  · rintro rfl
    exact landing_of_mem h

/-- All the rest count for `other`. -/
theorem counted_other (keys : List String) :
    counted keys "other" = keys.countP fun k => k = "other" ∨ k ∉ firstKeys keys := by
  rw [counted, List.count_eq_countP, List.countP_map]
  apply List.countP_congr
  intro k _
  simp only [Function.comp_apply, beq_iff_eq, decide_eq_true_eq]
  by_cases hmem : k ∈ firstKeys keys
  · rw [landing_of_mem hmem]
    simp [hmem]
  · rw [landing_of_not_mem hmem]
    simp [hmem]

/-! ## The counts -/

section

variable {keys : List String} {t : TopCounter}
  (ht : ∀ k, OrdMap.get? t k
    = if counted keys k = 0 then none else some (UInt32.ofNat (counted keys k)))
include ht

theorem mem_iff_counted (k : String) : k ∈ t ↔ ∃ k' ∈ keys, landing (firstKeys keys) k' = k := by
  rw [OrdMap.mem_iff_isSome, ht, ← counted_ne_zero]
  by_cases h : counted keys k = 0 <;> simp [h]

/-- The entries are what the keys count for. -/
theorem keys_perm : (OrdMap.keys t).Perm (keys.map (landing (firstKeys keys))).dedup := by
  apply (List.perm_ext_iff_of_nodup (OrdMap.nodup_keys t) (List.nodup_dedup _)).2
  intro k
  rw [OrdMap.mem_keys, mem_iff_counted ht, List.mem_dedup, List.mem_map]

/-- **Eight keys and `other`** are all that there is. -/
theorem size_le : OrdMap.size t ≤ 9 := by
  have hsub : OrdMap.keys t ⊆ "other" :: firstKeys keys := by
    intro k hk
    obtain ⟨k', -, rfl⟩ := (mem_iff_counted ht k).1 (OrdMap.mem_keys.1 hk)
    unfold landing
    split
    · next hmem => exact List.mem_cons_of_mem _ hmem
    · exact List.mem_cons_self
  have hlen := ((OrdMap.nodup_keys t).subperm hsub).length_le
  have hfirst : (firstKeys keys).length ≤ 8 := List.length_take_le _ _
  rw [OrdMap.keys, List.length_map, List.length_cons] at hlen
  unfold OrdMap.size
  omega

/-- A counter has the first keys, and only those while there is room. -/
theorem size_iff_full : topN ≤ OrdMap.size t ↔ topN ≤ (firstKeys keys).length := by
  have hsize : OrdMap.size t = (OrdMap.keys t).length := (List.length_map _).symm
  have hmem := mem_iff_counted ht
  rw [hsize]
  constructor
  · intro hfull
    by_contra hroom
    -- as long as there is room every key is one of the first, so `other` takes no place
    have hsub : OrdMap.keys t ⊆ firstKeys keys := by
      intro k hk
      obtain ⟨k', hk', rfl⟩ := (hmem k).1 (OrdMap.mem_keys.1 hk)
      have hfirst : k' ∈ firstKeys keys := by
        rw [firstKeys_of_room (Nat.lt_of_not_le hroom)]
        exact List.mem_eraseDups.2 hk'
      rwa [landing_of_mem hfirst]
    have := ((OrdMap.nodup_keys t).subperm hsub).length_le
    omega
  · intro hfull
    have hsub : firstKeys keys ⊆ OrdMap.keys t := fun k hk =>
      OrdMap.mem_keys.2 ((hmem k).2 ⟨k, mem_of_mem_firstKeys hk, landing_of_mem hk⟩)
    have := ((nodup_firstKeys keys).subperm hsub).length_le
    omega

/-- The key that `add` raises is the one that its key counts for. -/
theorem raised_eq_landing (key : String) :
    (if key ∉ t ∧ topN ≤ OrdMap.size t then "other" else key)
      = landing (firstKeys (keys ++ [key])) key := by
  simp only [size_iff_full ht]
  by_cases hmem : key ∈ firstKeys keys
  · have hin : key ∈ t :=
      (mem_iff_counted ht key).2 ⟨key, mem_of_mem_firstKeys hmem, landing_of_mem hmem⟩
    rw [if_neg (fun h => h.1 hin), firstKeys_concat_of_mem hmem, landing_of_mem hmem]
  · by_cases hfull : topN ≤ (firstKeys keys).length
    · rw [firstKeys_concat_of_full hfull, landing_of_not_mem hmem]
      split
      · rfl
      · next h =>
        -- an entry that is not a first key is `other`
        obtain ⟨k', -, hk'⟩ := (mem_iff_counted ht key).1 (not_not.1 fun hout => h ⟨hout, hfull⟩)
        by_cases hfirst : k' ∈ firstKeys keys
        · rw [landing_of_mem hfirst] at hk'
          exact absurd (hk' ▸ hfirst) hmem
        · rw [landing_of_not_mem hfirst] at hk'
          exact hk'.symm
    · rw [if_neg (fun h => hfull h.2), firstKeys_concat_of_room (Nat.lt_of_not_le hfull) hmem,
        landing_of_mem (List.mem_append_right _ (List.mem_singleton_self key))]

/-- The step of the invariant. -/
theorem get?_add (key k : String) : OrdMap.get? (t.add key) k
    = if counted (keys ++ [key]) k = 0 then none
      else some (UInt32.ofNat (counted (keys ++ [key]) k)) := by
  have hbefore : (OrdMap.get? t k).getD 0 = UInt32.ofNat (counted keys k) := by
    rw [ht]
    split
    · next h => rw [h]; rfl
    · rfl
  rw [TopCounter.add, raised_eq_landing ht, OrdMap.get?_set, counted_concat]
  by_cases hk : landing (firstKeys (keys ++ [key])) key = k
  · rw [if_pos hk.symm, if_pos hk, if_neg (Nat.succ_ne_zero _), hk, hbefore, UInt32.ofNat_add]
    rfl
  · rw [if_neg (Ne.symm hk), if_neg hk, Nat.add_zero]
    exact ht k

end

/-- **Every count in closed form**, as far as 32 bits go. -/
theorem get?_addAll (keys : List String) (k : String) : OrdMap.get? (addAll keys) k
    = if counted keys k = 0 then none else some (UInt32.ofNat (counted keys k)) := by
  induction keys using List.reverseRecOn generalizing k with
  | nil => rfl
  | append_singleton keys key ih =>
    rw [addAll, List.foldl_concat]
    exact get?_add ih key k

/-- No count is lost: they add up to the number of calls. -/
theorem sumOver_addAll {keys : List String} (h : ∀ k, counted keys k < 2 ^ 32) :
    OrdMap.sumOver (addAll keys) UInt32.toNat = keys.length := by
  have hentry : ∀ e ∈ (addAll keys).entries, e.2.toNat = counted keys e.1 := by
    rintro ⟨k, c⟩ he
    have hget := OrdMap.mem_entries.1 he
    rw [get?_addAll] at hget
    split at hget
    · cases hget
    · cases hget
      exact UInt32.toNat_ofNat_of_lt' (h k)
  -- the counters of the distinct places where keys land add up to the number of keys
  calc OrdMap.sumOver (addAll keys) UInt32.toNat
      = ((addAll keys).entries.map fun e => counted keys e.1).sum := by
        rw [OrdMap.sumOver, List.map_congr_left hentry]
    _ = ((OrdMap.keys (addAll keys)).map (counted keys)).sum := by
        rw [OrdMap.keys, List.map_map]
        rfl
    _ = (((keys.map (landing (firstKeys keys))).dedup).map (counted keys)).sum :=
        ((keys_perm (get?_addAll keys)).map _).sum_eq
    _ = (keys.map (landing (firstKeys keys))).length := List.sum_map_count_dedup_eq_length _
    _ = keys.length := List.length_map _

/-- **A counter holds nine keys at most, loses no count, and is exact** about the first eight keys:
only `other`, which may be one of them, counts anything else. -/
theorem addAll_exact (keys : List String) (h : ∀ k, counted keys k < 2 ^ 32) :
    OrdMap.size (addAll keys) ≤ 9 ∧
      OrdMap.sumOver (addAll keys) UInt32.toNat = keys.length ∧
      (∀ key ∈ firstKeys keys, key ≠ "other" →
        ∃ c, OrdMap.get? (addAll keys) key = some c ∧ c.toNat = keys.count key) ∧
      ((OrdMap.get? (addAll keys) "other").getD 0).toNat
        = keys.countP (fun k => k = "other" ∨ k ∉ firstKeys keys) := by
  refine ⟨size_le (get?_addAll keys), sumOver_addAll h, fun key hkey hother => ?_, ?_⟩
  -- a first key that is not called `other` is counted alone under its name
  · have hpos : counted keys key ≠ 0 :=
      counted_ne_zero.2 ⟨key, mem_of_mem_firstKeys hkey, landing_of_mem hkey⟩
    refine ⟨UInt32.ofNat (counted keys key), ?_, ?_⟩
    · rw [get?_addAll, if_neg hpos]
    · rw [UInt32.toNat_ofNat_of_lt' (h key), counted_of_mem hkey hother]
  · rw [← counted_other, get?_addAll]
    split
    · next hzero => rw [hzero]; rfl
    · exact UInt32.toNat_ofNat_of_lt' (h "other")

theorem counted_le_length (keys : List String) (key : String) : counted keys key ≤ keys.length := by
  unfold counted
  exact List.count_le_length.trans_eq (List.length_map _)

/-- `other` is among the first keys here, and the ninth key joins it. -/
def ninePaths : List String := ["other", "a", "b", "c", "d", "e", "f", "g", "h", "a"]

/-- Nine paths, so that one of them goes to `other`. -/
theorem addAll_exact_ninePaths : OrdMap.size (addAll ninePaths) ≤ 9 ∧
    OrdMap.sumOver (addAll ninePaths) UInt32.toNat = ninePaths.length ∧
    (∀ key ∈ firstKeys ninePaths, key ≠ "other" →
      ∃ c, OrdMap.get? (addAll ninePaths) key = some c ∧ c.toNat = ninePaths.count key) ∧
    ((OrdMap.get? (addAll ninePaths) "other").getD 0).toNat
      = ninePaths.countP (fun k => k = "other" ∨ k ∉ firstKeys ninePaths) := by
  apply addAll_exact ninePaths
  intro key
  exact (counted_le_length ninePaths key).trans_lt (by decide)

end TopCounter

end Flowscape
