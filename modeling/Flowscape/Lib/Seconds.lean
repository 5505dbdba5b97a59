import Mathlib.Algebra.BigOperators.Group.List.Basic
import Mathlib.Algebra.Order.Monoid.Canonical.Defs
import Mathlib.Algebra.Order.BigOperators.Group.List
import Mathlib.Data.Int.ModEq
import Mathlib.Data.List.Nodup

/-!
# Counters for seconds that share places

A ring of `n` places keeps an amount for a second in the place of its remainder by `n`. Adding
to a second whose place belongs to another one takes the place over, and what was kept for the
other second is gone.

The ring is what it holds for each second, `held : Int → α`. Against it stands the sum of
everything that was ever added for a second (`total`):

* what is added for a second is kept as long as no other second takes its place over
  (`addAll_of_kept`), and forgotten when one does (`add_of_clash`);
* seconds less than `n` apart have different places (`not_clash_of_window`);
* overwriting is adding where nothing is held (`setAll_eq_addAll`);
* the sum over a window of seconds is the sum of what was added for them (`sum_map_total`).
-/

namespace SecondRing

/-- The second `u` is another one than `t`, with the same place. -/
def Clash (n t u : Int) : Prop := u ≠ t ∧ u % n = t % n

instance (n t u : Int) : Decidable (Clash n t u) := inferInstanceAs (Decidable (_ ∧ _))

theorem not_clash_of_window {n t u : Int} (h₁ : t - n < u) (h₂ : u < t + n) :
    ¬ Clash n t u := by
  rintro ⟨hne, hmod⟩
  have hdvd : n ∣ t - u := Int.modEq_iff_dvd.1 hmod
  have hzero : t - u = 0 := Int.eq_zero_of_dvd_of_natAbs_lt_natAbs hdvd (by omega)
  omega

section Amounts

variable {α : Type*} [AddCommMonoid α]

/-- Add `a` for the second `u`, which takes its place over. -/
def add (n : Int) (held : Int → α) (u : Int) (a : α) : Int → α := fun t =>
  if u = t then held t + a else if u % n = t % n then 0 else held t

/-- Put `a` for the second `u`, which takes its place over. -/
def set (n : Int) (held : Int → α) (u : Int) (a : α) : Int → α := fun t =>
  if u = t then a else if u % n = t % n then 0 else held t

/-- Add one after the other. -/
def addAll (n : Int) (held : Int → α) (l : List (Int × α)) : Int → α :=
  l.foldl (fun held p => add n held p.1 p.2) held

/-- Put one after the other. -/
def setAll (n : Int) (held : Int → α) (l : List (Int × α)) : Int → α :=
  l.foldl (fun held p => set n held p.1 p.2) held

/-- Everything that was added for the second `t`. -/
def total (l : List (Int × α)) (t : Int) : α := ((l.filter fun p => p.1 = t).map Prod.snd).sum

/-- After something was added for `t`, no other second takes its place over. -/
def Kept (n t : Int) (l : List (Int × α)) : Prop :=
  l.Pairwise fun p q => p.1 = t → ¬ Clash n t q.1

variable {n t u : Int} {held : Int → α} {a : α} {l : List (Int × α)}

/-! ## One addition -/

theorem add_self : add n held t a t = held t + a := if_pos rfl

theorem add_of_clash (h : Clash n t u) : add n held u a t = 0 := by
  rw [add, if_neg h.1, if_pos h.2]

theorem add_of_not_clash (hne : u ≠ t) (h : ¬ Clash n t u) : add n held u a t = held t := by
  rw [add, if_neg hne, if_neg fun hmod => h ⟨hne, hmod⟩]

/-- Where nothing is held, putting is adding. -/
theorem set_eq_add (h : held u = 0) : set n held u a = add n held u a := by
  funext t
  unfold set add
  by_cases heq : u = t
  · subst heq
    rw [if_pos rfl, if_pos rfl, h, zero_add]
  · rw [if_neg heq, if_neg heq]

/-! ## Sums -/

@[simp] theorem total_nil : total ([] : List (Int × α)) t = 0 := rfl

theorem total_cons_self : total ((t, a) :: l) t = a + total l t := by simp [total]

theorem total_cons_of_ne {p : Int × α} (h : p.1 ≠ t) : total (p :: l) t = total l t := by
  simp [total, h]

theorem total_append (l l' : List (Int × α)) : total (l ++ l') t = total l t + total l' t := by
  simp [total]

/-- Only what was added for `t` counts. -/
theorem total_eq_zero (h : ∀ p ∈ l, p.1 = t → p.2 = 0) : total l t = 0 := by
  induction l with
  | nil => rfl
  | cons p rest ih =>
    have hrest := ih fun q hq => h q (List.mem_cons_of_mem p hq)
    obtain ⟨u, a⟩ := p
    by_cases hu : u = t
    · subst hu
      rw [total_cons_self, hrest, add_zero]
      exact h _ List.mem_cons_self rfl
    · rw [total_cons_of_ne hu, hrest]

theorem total_perm {l' : List (Int × α)} (h : l.Perm l') : total l t = total l' t :=
  ((h.filter _).map _).sum_eq

/-- Leaving out what adds nothing for `t`. -/
theorem total_filter {q : Int × α → Bool} (h : ∀ p ∈ l, p.1 = t → q p = false → p.2 = 0) :
    total (l.filter q) t = total l t := by
  induction l with
  | nil => rfl
  | cons p rest ih =>
    have hrest := ih fun q hq => h q (List.mem_cons_of_mem p hq)
    obtain ⟨u, a⟩ := p
    cases hq : q (u, a) with
    | true =>
      rw [List.filter_cons_of_pos hq]
      by_cases hu : u = t
      · subst hu
        rw [total_cons_self, total_cons_self, hrest]
      · rw [total_cons_of_ne hu, total_cons_of_ne hu, hrest]
    | false =>
      rw [List.filter_cons_of_neg (by simp [hq]), hrest]
      by_cases hu : u = t
      · subst hu
        -- an add that is left out is of nothing, by assumption
        rw [total_cons_self, show a = 0 from h _ List.mem_cons_self rfl hq, zero_add]
      · rw [total_cons_of_ne hu]

/-! ## A sequence of additions -/

theorem addAll_cons (p : Int × α) (l : List (Int × α)) :
    addAll n held (p :: l) = addAll n (add n held p.1 p.2) l := rfl

theorem addAll_append (l l' : List (Int × α)) :
    addAll n held (l ++ l') = addAll n (addAll n held l) l' := List.foldl_append

/-- Without a clash everything is kept. -/
theorem addAll_of_no_clash (h : ∀ p ∈ l, ¬ Clash n t p.1) :
    addAll n held l t = held t + total l t := by
  induction l generalizing held with
  | nil => exact (add_zero _).symm
  | cons p rest ih =>
    rw [addAll_cons, ih fun q hq => h q (List.mem_cons_of_mem p hq)]
    by_cases hp : p.1 = t
    · obtain ⟨u, a⟩ := p
      obtain rfl : u = t := hp
      rw [add_self, total_cons_self, add_assoc]
    · rw [add_of_not_clash hp (h p List.mem_cons_self), total_cons_of_ne hp]

/-- What no later second takes over is kept, if nothing is held to begin with. -/
theorem addAll_of_kept (hzero : held t = 0) (h : Kept n t l) :
    addAll n held l t = total l t := by
  induction l generalizing held with
  | nil => exact hzero
  | cons p rest ih =>
    obtain ⟨hp, hrest⟩ := List.pairwise_cons.1 h
    by_cases heq : p.1 = t
    · obtain ⟨u, a⟩ := p
      obtain rfl : u = t := heq
      -- the first add to the second itself: from here on no other second of the slot is added to
      rw [addAll_cons, addAll_of_no_clash fun q hq => hp q hq rfl, add_self, total_cons_self,
        hzero, zero_add]
    · rw [addAll_cons, total_cons_of_ne heq]
      -- an add to another second leaves the slot empty for this one
      refine ih ?_ hrest
      by_cases hclash : Clash n t p.1
      · exact add_of_clash hclash
      · rw [add_of_not_clash heq hclash, hzero]

omit [AddCommMonoid α] in
/-- Additions in the order of time keep every second that is less than `n` older than the last
one. -/
theorem kept_of_sorted (hsorted : l.Pairwise fun p q => p.1 ≤ q.1)
    (hlast : ∀ p ∈ l, p.1 < t + n) : Kept n t l := by
  induction l with
  | nil => exact List.Pairwise.nil
  | cons p rest ih =>
    obtain ⟨hp, hrest⟩ := List.pairwise_cons.1 hsorted
    refine List.pairwise_cons.2 ⟨?_, ih hrest fun q hq => hlast q (List.mem_cons_of_mem p hq)⟩
    rintro q hq rfl ⟨hne, hmod⟩
    have hlt := hlast q (List.mem_cons_of_mem p hq)
    have hle := hp q hq
    exact not_clash_of_window (by omega) hlt ⟨hne, hmod⟩

/-- Putting amounts for increasing seconds into an empty ring is adding them. -/
theorem setAll_eq_addAll (hzero : ∀ p ∈ l, held p.1 = 0)
    (hl : l.Pairwise fun p q => p.1 ≠ q.1) : setAll n held l = addAll n held l := by
  induction l generalizing held with
  | nil => rfl
  | cons p rest ih =>
    obtain ⟨hp, hrest⟩ := List.pairwise_cons.1 hl
    -- setting a second that holds nothing is adding to it
    have hset : set n held p.1 p.2 = add n held p.1 p.2 :=
      set_eq_add (hzero p List.mem_cons_self)
    show setAll n (set n held p.1 p.2) rest = addAll n (add n held p.1 p.2) rest
    rw [hset]
    refine ih (fun q hq => ?_) hrest
    by_cases hclash : Clash n q.1 p.1
    · exact add_of_clash hclash
    · rw [add_of_not_clash (hp q hq) hclash, hzero q (List.mem_cons_of_mem p hq)]

/-! ## Windows -/

/-- The seconds in `(now - w, now]`, oldest first. -/
def window (w : Nat) (now : Int) : List Int := (List.range w).map fun k : Nat => now - w + 1 + k

theorem mem_window {w : Nat} {now t : Int} : t ∈ window w now ↔ now - w < t ∧ t ≤ now := by
  simp only [window, List.mem_map, List.mem_range]
  constructor
  · rintro ⟨k, hk, rfl⟩
    omega
  · intro h
    exact ⟨(t - (now - w + 1)).toNat, by omega, by omega⟩

theorem nodup_window (w : Nat) (now : Int) : (window w now).Nodup :=
  List.Nodup.map (fun i j h => by simpa using h) List.nodup_range

/-- Summed up over some seconds, the totals are the sum of all that was added for them. -/
theorem sum_map_total {ts : List Int} (hnd : ts.Nodup) (l : List (Int × α)) :
    (ts.map (total l)).sum = ((l.filter fun p => p.1 ∈ ts).map Prod.snd).sum := by
  induction l with
  | nil => exact List.sum_eq_zero (by simp)
  | cons p rest ih =>
    have hne : ∀ ts : List Int, p.1 ∉ ts → ts.map (total (p :: rest)) = ts.map (total rest) :=
      fun ts h => List.map_congr_left fun t ht => total_cons_of_ne fun heq => h (heq ▸ ht)
    by_cases hp : p.1 ∈ ts
    · -- the second of `p` is one of them, once
      have hperm : ts.Perm (p.1 :: ts.erase p.1) := List.perm_cons_erase hp
      have hout : p.1 ∉ ts.erase p.1 := hnd.not_mem_erase
      rw [List.filter_cons_of_pos (by simpa using hp), List.map_cons, List.sum_cons, ← ih,
        (hperm.map _).sum_eq, (hperm.map (total rest)).sum_eq, List.map_cons, List.sum_cons,
        List.map_cons, List.sum_cons, hne _ hout, total_cons_self, add_assoc]
    · rw [List.filter_cons_of_neg (by simpa using hp), ← ih, hne ts hp]

end Amounts

/-! ## Ordered amounts -/

section Ordered

variable {α : Type*} [AddCommMonoid α] [PartialOrder α] [CanonicallyOrderedAdd α]
  [IsOrderedAddMonoid α] {n t : Int} {held : Int → α}

/-- A ring never holds more than was added. -/
theorem addAll_le (l : List (Int × α)) : addAll n held l t ≤ held t + total l t := by
  induction l generalizing held with
  | nil => exact (add_zero (held t)).ge
  | cons p rest ih =>
    rw [addAll_cons]
    apply ih.trans
    by_cases heq : p.1 = t
    · obtain ⟨u, a⟩ := p
      obtain rfl : u = t := heq
      rw [add_self, total_cons_self, add_assoc]
    · rw [total_cons_of_ne heq]
      refine add_le_add_left ?_ _
      -- an add to another second takes the slot over or leaves it, and never adds to it
      by_cases hclash : Clash n t p.1
      · rw [add_of_clash hclash]
        exact zero_le
      · rw [add_of_not_clash heq hclash]

end Ordered

end SecondRing
