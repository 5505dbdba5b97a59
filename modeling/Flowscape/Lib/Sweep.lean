import Mathlib.Data.List.Basic

/-!
# Sweeping a pool

A pool keeps its live items in the first cells of an array. One pass goes over them with an index:
an item that lives on is rewritten and the index moves on, an item that ends is overwritten with
the last one, which is looked at next.

Whatever the order comes to, every item is looked at once, and what is left are the items that
live on.
-/

namespace Sweep

variable {α : Type*}

/-- The last item takes the place of item `i`. -/
def kill (l : List α) (i : Nat) : List α :=
  match l.getLast? with
  | none => []
  | some last => (l.set i last).dropLast

/-- So many rounds of a pass from index `i` on. `f` is what an item becomes, if it lives on. -/
def rounds (f : α → Option α) : Nat → Nat → List α → List α
  | 0, _, l => l
  | n + 1, i, l =>
    match l[i]? with
    | none => l
    | some x =>
      match f x with
      | some y => rounds f n (i + 1) (l.set i y)
      | none => rounds f n i (kill l i)

/-- A whole pass. Every round either moves on or makes the pool smaller, so as many rounds as there
are items are enough. -/
def pass (f : α → Option α) (l : List α) : List α := rounds f l.length 0 l

theorem kill_append_singleton (done : List α) (x : α) :
    kill (done ++ [x]) done.length = done := by
  simp [kill]

theorem kill_append_cons (done rest : List α) (x last : α) :
    kill (done ++ x :: (rest ++ [last])) done.length = done ++ last :: rest := by
  have hlist : done ++ x :: (rest ++ [last]) = (done ++ x :: rest) ++ [last] := by simp
  have hset : ((done ++ x :: rest) ++ [last]).set done.length last
      = (done ++ last :: rest) ++ [last] := by simp
  rw [kill, hlist, List.getLast?_concat]
  simp only [hset, List.dropLast_concat]

/-- Where everyone is after a kill. -/
theorem getElem?_kill {l : List α} {i j : Nat} (hj : j < l.length - 1) :
    (kill l i)[j]? = if j = i then l.getLast? else l[j]? := by
  cases hlast : l.getLast? with
  | none =>
    obtain rfl := List.getLast?_eq_none_iff.1 hlast
    exact absurd hj (Nat.not_lt_zero j)
  | some last =>
    have hlt : j < l.length := Nat.lt_of_lt_of_le hj (Nat.sub_le _ _)
    simp only [kill, hlast, List.getElem?_dropLast, List.length_set, if_pos hj, List.getElem?_set]
    -- the last one sits where the killed one was, and the others stay
    by_cases hij : j = i
    · subst hij
      simp only [if_true, if_pos hlt]
    · simp only [if_neg hij, if_neg (Ne.symm hij)]

@[simp] theorem length_kill (l : List α) (i : Nat) : (kill l i).length = l.length - 1 := by
  unfold kill
  cases hlast : l.getLast? with
  | none =>
    obtain rfl := List.getLast?_eq_none_iff.1 hlast
    rfl
  | some last => simp

/-- What the item was that is overwritten does not matter. -/
theorem kill_set (l : List α) (i : Nat) (x : α) :
    kill (l.set i x) i = kill l i := by
  apply List.ext_getElem?'
  intro j hj
  have hlast : j < l.length - 1 := by simpa using hj
  have hlast' : j < (l.set i x).length - 1 := by rwa [List.length_set]
  rw [getElem?_kill hlast', getElem?_kill hlast]
  by_cases hij : j = i
  · subst hij
    -- it is not the last one, as one behind it is
    rw [if_pos rfl, if_pos rfl, List.getLast?_eq_getElem?, List.getLast?_eq_getElem?,
      List.length_set, List.getElem?_set_ne (Nat.ne_of_lt hlast)]
  · rw [if_neg hij, if_neg hij, List.getElem?_set_ne (Ne.symm hij)]

variable {f : α → Option α} {x : α} (n : Nat) (done rest : List α)

/-- A round in which the item lives on, -/
theorem rounds_of_some {y : α} (hx : f x = some y) :
    rounds f (n + 1) done.length (done ++ x :: rest)
      = rounds f n (done ++ [y]).length ((done ++ [y]) ++ rest) := by
  have hat : (done ++ x :: rest)[done.length]? = some x := by simp
  have hset : (done ++ x :: rest).set done.length y = (done ++ [y]) ++ rest := by simp
  simp only [rounds, hat, hx, hset, List.length_append, List.length_singleton]

/-- and one in which it ends. -/
theorem rounds_of_none (hx : f x = none) :
    rounds f (n + 1) done.length (done ++ x :: rest)
      = rounds f n done.length (kill (done ++ x :: rest) done.length) := by
  have hat : (done ++ x :: rest)[done.length]? = some x := by simp
  simp only [rounds, hat, hx]

/-- What is in front of the index stays, and what is behind it is looked at item by item. -/
theorem rounds_perm {n : Nat} {rest : List α} (hn : rest.length ≤ n) (done : List α) :
    (rounds f n done.length (done ++ rest)).Perm (done ++ rest.filterMap f) := by
  induction n generalizing rest done with
  | zero =>
    obtain rfl := List.length_eq_zero_iff.1 (Nat.le_zero.1 hn)
    exact List.Perm.refl _
  | succ n ih =>
    cases rest with
    | nil => simp [rounds]
    | cons x rest =>
      have hrest : rest.length ≤ n := Nat.le_of_succ_le_succ hn
      cases hx : f x with
      | some y =>
        rw [rounds_of_some n done rest hx, List.filterMap_cons_some hx]
        apply (ih hrest (done ++ [y])).trans
        rw [List.append_assoc]
        exact List.Perm.refl _
      | none =>
        rw [rounds_of_none n done rest hx, List.filterMap_cons_none hx]
        -- the last item, if there is another one, comes to stand at the index
        rcases List.eq_nil_or_concat rest with rfl | ⟨mid, last, rfl⟩
        · rw [kill_append_singleton]
          have hnil : ([] : List α).length ≤ n := Nat.zero_le n
          have hnext := ih hnil done
          rwa [List.append_nil] at hnext
        · rw [List.concat_eq_append] at hrest ⊢
          rw [kill_append_cons]
          have hmid : (last :: mid).length ≤ n := by simpa using hrest
          exact (ih hmid done).trans
            (((List.perm_append_singleton last mid).symm.filterMap f).append_left done)

/-- **Every item is looked at once**, and the ones that live on are left. -/
theorem pass_perm (f : α → Option α) (l : List α) : (pass f l).Perm (l.filterMap f) :=
  rounds_perm (Nat.le_refl l.length) []

/-- **A pass meets everyone once**: what is there after it is what someone became. -/
theorem mem_pass {l : List α} {y : α} :
    y ∈ pass f l ↔ ∃ x ∈ l, f x = some y := by
  rw [(pass_perm f l).mem_iff, List.mem_filterMap]

/-! ## Another pool -/

section

variable {β : Type*} (h : α → β)

theorem map_kill (l : List α) (i : Nat) : (kill l i).map h = kill (l.map h) i := by
  unfold kill
  rw [List.getLast?_map]
  cases l.getLast? with
  | none => rfl
  | some last => simp [List.map_dropLast]

/-- A pass over what the items are seen as, when that is enough to know what becomes of them. -/
theorem map_pass {f : α → Option α} {g : β → Option β} (hstep : ∀ x, (f x).map h = g (h x))
    (l : List α) : (pass f l).map h = pass g (l.map h) := by
  -- by induction on the rounds, for any index and any list
  have hrounds : ∀ n i l, (rounds f n i l).map h = rounds g n i (l.map h) := by
    intro n
    induction n with
    | zero => exact fun i l => rfl
    | succ n ih =>
      intro i l
      rw [rounds, rounds, List.getElem?_map]
      cases l[i]? with
      | none => rfl
      | some x =>
        have hx := hstep x
        simp only [Option.map_some]
        rw [← hx]
        cases f x with
        | some y =>
          simp only [Option.map_some]
          rw [ih, List.map_set]
        | none =>
          simp only [Option.map_none]
          rw [ih, map_kill]
  rw [pass, pass, hrounds, List.length_map]

end

end Sweep
