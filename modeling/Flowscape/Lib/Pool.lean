import Flowscape.Lib.OrdMap

/-!
# Pools of numbers

A pool hands out the numbers below a bound and takes them back. Whoever keeps the free ones in a
list, and finds the taken ones in a map, wants the two together to be all the numbers, each once:
then no number is lost, and none is handed out twice. An array leads back from a number to whoever
has it, and has to go along with the map.
-/

namespace Pool

/-- Every number below `n` is either free or taken, and only once. -/
def Partition (n : Nat) (free taken : List Nat) : Prop := (free ++ taken).Perm (List.range n)

theorem partition_range (n : Nat) : Partition n (List.range n) [] := by
  rw [Partition, List.append_nil]

section

variable {n i : Nat} {free taken : List Nat}

theorem Partition.congr (h : Partition n free taken) {taken' : List Nat}
    (hperm : taken'.Perm taken) : Partition n free taken' :=
  (hperm.append_left free).trans h

/-- The number on top of the free ones is handed out. -/
theorem Partition.take (h : Partition n (i :: free) taken) : Partition n free (i :: taken) :=
  List.perm_middle.trans h

/-- A number is taken back. -/
theorem Partition.give (h : Partition n free (i :: taken)) : Partition n (i :: free) taken :=
  List.perm_middle.symm.trans h

theorem Partition.nodup (h : Partition n free taken) : (free ++ taken).Nodup :=
  h.nodup_iff.2 List.nodup_range

theorem Partition.length (h : Partition n free taken) : free.length + taken.length = n := by
  rw [← List.length_append, List.Perm.length_eq h, List.length_range]

/-- There is a free number as long as not all are taken. -/
theorem Partition.free_ne_nil (h : Partition n free taken) (hlt : taken.length < n) :
    free ≠ [] := by
  rintro rfl
  have hlen := h.length
  rw [List.length_nil, Nat.zero_add] at hlen
  exact absurd hlen hlt.ne

theorem Partition.lt_of_free (h : Partition n free taken) (hi : i ∈ free) : i < n :=
  List.mem_range.1 (h.mem_iff.1 (List.mem_append_left taken hi))

theorem Partition.lt_of_taken (h : Partition n free taken) (hi : i ∈ taken) : i < n :=
  List.mem_range.1 (h.mem_iff.1 (List.mem_append_right free hi))

/-- What is free is not taken. -/
theorem Partition.not_taken (h : Partition n free taken) (hi : i ∈ free) : i ∉ taken := by
  intro htaken
  exact (List.nodup_append.1 h.nodup).2.2 i hi i htaken rfl

end

/-! ## The way back -/

section

variable {κ α β : Type*} [DecidableEq κ] {back : β → Option κ} {m : OrdMap κ α}
  {num : α → β} {k : κ} {v : α}

/-- From a number, `back` leads to whoever has it, and to nobody from the others. -/
def LeadsBack (back : β → Option κ) (m : OrdMap κ α) (num : α → β) : Prop :=
  ∀ b k, back b = some k ↔ ∃ v, m.get? k = some v ∧ num v = b

theorem leadsBack_empty : LeadsBack (fun _ => none) (∅ : OrdMap κ α) num := by
  intro b k
  simp

/-- Nobody shares a number with another one. -/
theorem LeadsBack.eq (hm : LeadsBack back m num) {k' : κ} {v' : α} (h : m.get? k = some v)
    (h' : m.get? k' = some v') (hnum : num v = num v') : k = k' := by
  have hback : back (num v) = some k := (hm _ k).2 ⟨v, h, rfl⟩
  have hback' : back (num v) = some k' := (hm _ k').2 ⟨v', h', hnum.symm⟩
  exact Option.some.inj (hback.symm.trans hback')

/-- Nobody has two numbers. -/
theorem LeadsBack.num_eq (hm : LeadsBack back m num) {b b' : β} (h : back b = some k)
    (h' : back b' = some k) : b = b' := by
  obtain ⟨v, hget, rfl⟩ := (hm b k).1 h
  obtain ⟨v', hget', rfl⟩ := (hm b' k).1 h'
  cases hget.symm.trans hget'
  rfl

/-- Somebody changes, but keeps the number. -/
theorem LeadsBack.set_same (hm : LeadsBack back m num) (h : m.get? k = some v) {v' : α}
    (hnum : num v' = num v) : LeadsBack back (m.set k v') num := by
  intro b k'
  apply (hm b k').trans
  by_cases hk : k' = k
  · subst hk
    simp only [h, OrdMap.get?_set_self, Option.some.injEq, exists_eq_left', hnum]
  · simp only [OrdMap.get?_set_ne _ _ hk]

variable [DecidableEq β]

/-- Somebody new comes, with a number that nobody has. -/
theorem LeadsBack.set_new (hm : LeadsBack back m num) (hnew : k ∉ m)
    (hfree : ∀ k' v', m.get? k' = some v' → num v' ≠ num v) :
    LeadsBack (Function.update back (num v) (some k)) (m.set k v) num := by
  intro b k'
  -- from the new number the way leads to whoever came, and from the others as before
  by_cases hb : b = num v
  · subst hb
    rw [Function.update_self]
    constructor
    · intro heq
      obtain rfl : k = k' := Option.some.inj heq
      exact ⟨v, OrdMap.get?_set_self m k v, rfl⟩
    · rintro ⟨v', hget, hnum⟩
      rcases OrdMap.get?_set_eq_some.1 hget with ⟨rfl, -⟩ | ⟨-, hget⟩
      · rfl
      · exact absurd hnum (hfree k' v' hget)
  · rw [Function.update_of_ne hb, hm]
    constructor
    · rintro ⟨v', hget, hnum⟩
      have hne : k' ≠ k := fun h => hnew (h ▸ OrdMap.mem_of_get? hget)
      exact ⟨v', (OrdMap.get?_set_ne _ _ hne).trans hget, hnum⟩
    · rintro ⟨v', hget, hnum⟩
      rcases OrdMap.get?_set_eq_some.1 hget with ⟨-, rfl⟩ | ⟨-, hget⟩
      · exact absurd hnum.symm hb
      · exact ⟨v', hget, hnum⟩

/-- Somebody goes. -/
theorem LeadsBack.erase (hm : LeadsBack back m num) (h : m.get? k = some v) :
    LeadsBack (Function.update back (num v) none) (m.erase k) num := by
  intro b k'
  -- from the number that was given up the way leads to nobody, and from the others as before
  by_cases hb : b = num v
  · subst hb
    rw [Function.update_self]
    apply iff_of_false (by simp)
    rintro ⟨v', hget, hnum⟩
    obtain ⟨hne, hget⟩ := OrdMap.get?_erase_eq_some.1 hget
    exact hne (hm.eq hget h hnum)
  · rw [Function.update_of_ne hb, hm]
    constructor
    · rintro ⟨v', hget, hnum⟩
      refine ⟨v', OrdMap.get?_erase_eq_some.2 ⟨?_, hget⟩, hnum⟩
      rintro rfl
      cases h.symm.trans hget
      exact hb hnum.symm
    · rintro ⟨v', hget, hnum⟩
      exact ⟨v', (OrdMap.get?_erase_eq_some.1 hget).2, hnum⟩

end

end Pool
