import Mathlib.Algebra.Order.Field.Basic
import Mathlib.Algebra.Order.Ring.Abs
import Mathlib.Algebra.Order.Interval.Set.Instances
import Mathlib.Order.Interval.Set.UnorderedInterval
import Mathlib.Tactic.Ring

/-!
# Moving part of the way

A value that moves by a share `a` of its distance to a target: an exponentially weighted average
of what it is given, or something drawn that glides to its place. With a share of at most one it
stays between where it was and the target, so whatever bounds hold of the start and of all the
targets hold all the way; the distance to a target that stays shrinks by the same factor each time.
-/

namespace Average

section

variable {K : Type*} [CommRing K]

/-- Move from `x` to `target` by a share of the distance. -/
def towards (a x target : K) : K := x + (target - x) * a

/-- What is left of the distance. -/
theorem towards_sub (a x target : K) : towards a x target - target = (x - target) * (1 - a) := by
  rw [towards]
  ring

/-- What is left of the distance after several moves to one target, each by its own share. -/
theorem foldl_towards_sub (shares : List K) (x target : K) :
    shares.foldl (fun x a => towards a x target) x - target
      = (x - target) * (shares.map (1 - ·)).prod := by
  induction shares generalizing x with
  | nil => simp
  -- each step leaves its part of the distance
  | cons a rest ih =>
    rw [List.foldl_cons, ih, towards_sub, List.map_cons, List.prod_cons, mul_assoc]

end

section

variable {K : Type*} [CommRing K] [LinearOrder K] [IsStrictOrderedRing K] {a lo hi x target : K}

/-- The bounds of the start and the target hold of where it moves. -/
theorem le_towards (h₀ : 0 ≤ a) (h₁ : a ≤ 1) (hx : lo ≤ x) (ht : lo ≤ target) :
    lo ≤ towards a x target := by
  have hsum : towards a x target = x * (1 - a) + target * a := by
    rw [towards]
    ring
  calc lo = lo * (1 - a) + lo * a := by ring
    _ ≤ x * (1 - a) + target * a :=
        add_le_add (mul_le_mul_of_nonneg_right hx (sub_nonneg.2 h₁))
          (mul_le_mul_of_nonneg_right ht h₀)
    _ = towards a x target := hsum.symm

/-- A step towards something below a bound stays below the bound. -/
theorem towards_le (h₀ : 0 ≤ a) (h₁ : a ≤ 1) (hx : x ≤ hi) (ht : target ≤ hi) :
    towards a x target ≤ hi := by
  have hneg : towards a (-x) (-target) = -towards a x target := by
    rw [towards, towards]
    ring
  have h := le_towards h₀ h₁ (neg_le_neg hx) (neg_le_neg ht)
  rw [hneg] at h
  exact neg_le_neg_iff.1 h

theorem towards_mem_Icc (h₀ : 0 ≤ a) (h₁ : a ≤ 1) (hx : x ∈ Set.Icc lo hi)
    (ht : target ∈ Set.Icc lo hi) : towards a x target ∈ Set.Icc lo hi :=
  ⟨le_towards h₀ h₁ hx.1 ht.1, towards_le h₀ h₁ hx.2 ht.2⟩

/-- It stays between where it was and the target, in whatever order they are. -/
theorem towards_mem_uIcc (h₀ : 0 ≤ a) (h₁ : a ≤ 1) {x₀ : K} (hx : x ∈ Set.uIcc x₀ target) :
    towards a x target ∈ Set.uIcc x₀ target :=
  towards_mem_Icc h₀ h₁ hx Set.right_mem_uIcc

end

end Average
