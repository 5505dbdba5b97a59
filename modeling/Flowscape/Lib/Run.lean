import Mathlib.Data.List.Basic

/-!
# Runs of a partial step function

A system is a step function `step : σ → ι → Option σ`: input `i` takes state `s` to a new
state, or has no step there (it is not enabled, or the code it models stops with an error).
`run` takes a list of inputs one after the other.

Four ways of speaking about all the states of a run:

* `invariant`: what every step keeps holds at the end of every run;
* `invariant_of_everyStep`: the same when a step keeps it only under a condition on the state
  before the step and the input, and every step of the run meets that condition;
* `always_iff_everyStep_of_invariant`: when the condition is also necessary, the property holds
  in every state of the run exactly when every step meets the condition;
* `last_iff_everyStep`: a property that no step can win back holds at the end exactly then.
-/

namespace Run

variable {σ ι : Type*} {step : σ → ι → Option σ}

/-- Take the inputs one after the other. -/
def run (step : σ → ι → Option σ) : σ → List ι → Option σ
  | s, [] => some s
  | s, i :: is => (step s i).bind fun s' => run step s' is

@[simp] theorem run_nil (s : σ) : run step s [] = some s := rfl

theorem run_cons (s : σ) (i : ι) (is : List ι) :
    run step s (i :: is) = (step s i).bind fun s' => run step s' is := rfl

theorem run_cons_eq_some {s t : σ} {i : ι} {is : List ι} :
    run step s (i :: is) = some t ↔ ∃ s', step s i = some s' ∧ run step s' is = some t := by
  rw [run_cons, Option.bind_eq_some_iff]

theorem run_append (s : σ) (is js : List ι) :
    run step s (is ++ js) = (run step s is).bind fun m => run step m js := by
  induction is generalizing s with
  | nil => rfl
  | cons i is ih =>
    rw [List.cons_append, run_cons, run_cons, Option.bind_assoc]
    exact congrArg _ (funext fun s' => ih s')

theorem run_append_eq_some {s t : σ} {is js : List ι} :
    run step s (is ++ js) = some t ↔ ∃ m, run step s is = some m ∧ run step m js = some t := by
  rw [run_append, Option.bind_eq_some_iff]

theorem run_concat_eq_some {s t : σ} {is : List ι} {i : ι} :
    run step s (is ++ [i]) = some t ↔ ∃ m, run step s is = some m ∧ step m i = some t := by
  simp only [run_append_eq_some, run_cons_eq_some, run_nil, Option.some.injEq, exists_eq_right]

/-! ## Reachability -/

/-- Some run leads from `s` to `t`. -/
def Reaches (step : σ → ι → Option σ) (s t : σ) : Prop := ∃ is, run step s is = some t

theorem Reaches.refl (s : σ) : Reaches step s s := ⟨[], rfl⟩

/-! ## Invariants -/

/-- What every step keeps holds at the end of every run. -/
theorem invariant {I : σ → Prop} (hstep : ∀ s i s', I s → step s i = some s' → I s')
    {s t : σ} {is : List ι} (h : run step s is = some t) (hs : I s) : I t := by
  induction is generalizing s with
  | nil =>
    obtain rfl : s = t := by simpa using h
    exact hs
  | cons i is ih =>
    obtain ⟨s', hi, hr⟩ := run_cons_eq_some.1 h
    exact ih hr (hstep s i s' hs hi)

theorem Reaches.invariant {I : σ → Prop} (hstep : ∀ s i s', I s → step s i = some s' → I s')
    {s t : σ} (h : Reaches step s t) (hs : I s) : I t := by
  obtain ⟨is, hr⟩ := h
  exact Run.invariant hstep hr hs

/-- A step that an invariant makes possible for every input that meets `D` makes every run on
such inputs possible. -/
theorem run_isSome {I : σ → Prop} {D : ι → Prop}
    (hstep : ∀ s i, I s → D i → ∃ s', step s i = some s' ∧ I s')
    {s : σ} {is : List ι} (hs : I s) (hD : ∀ i ∈ is, D i) :
    ∃ t, run step s is = some t ∧ I t := by
  induction is generalizing s with
  | nil => exact ⟨s, rfl, hs⟩
  | cons i is ih =>
    obtain ⟨s', hi, hs'⟩ := hstep s i hs (hD i List.mem_cons_self)
    obtain ⟨t, hr, ht⟩ := ih hs' fun j hj => hD j (List.mem_cons_of_mem i hj)
    exact ⟨t, run_cons_eq_some.2 ⟨s', hi, hr⟩, ht⟩

/-- Every input meets `C` in the state it is put in, whether it has a step there or not. -/
def EveryInput (step : σ → ι → Option σ) (C : σ → ι → Prop) : σ → List ι → Prop
  | _, [] => True
  | s, i :: is => C s i ∧ ∀ s', step s i = some s' → EveryInput step C s' is

/-- Where an invariant makes `C` the condition for having a step, a run comes to its end exactly
when every input meets `C`. -/
theorem run_isSome_iff {I : σ → Prop} {C : σ → ι → Prop}
    (hstep : ∀ s i s', I s → step s i = some s' → I s')
    (hiff : ∀ s i, I s → ((∃ s', step s i = some s') ↔ C s i))
    {s : σ} {is : List ι} (hs : I s) :
    (∃ t, run step s is = some t) ↔ EveryInput step C s is := by
  induction is generalizing s with
  | nil => exact iff_of_true ⟨s, rfl⟩ trivial
  | cons i is ih =>
    constructor
    · rintro ⟨t, hr⟩
      obtain ⟨s', hi, hr'⟩ := run_cons_eq_some.1 hr
      -- the state after an input is the one the run went to, as a step leads to one state at most
      refine ⟨(hiff s i hs).1 ⟨s', hi⟩, fun s'' hi' => ?_⟩
      obtain rfl : s' = s'' := Option.some.inj (hi.symm.trans hi')
      exact (ih (hstep s i s' hs hi)).1 ⟨t, hr'⟩
    · rintro ⟨hc, hrest⟩
      obtain ⟨s', hi⟩ := (hiff s i hs).2 hc
      obtain ⟨t, hr⟩ := (ih (hstep s i s' hs hi)).2 (hrest s' hi)
      exact ⟨t, run_cons_eq_some.2 ⟨s', hi, hr⟩⟩

/-! ## Conditions on the steps and properties of the states of a run -/

/-- Every step that the run takes meets `C` (a condition on the state before the step and
the input). -/
def EveryStep (step : σ → ι → Option σ) (C : σ → ι → Prop) : σ → List ι → Prop
  | _, [] => True
  | s, i :: is => ∀ s', step s i = some s' → C s i ∧ EveryStep step C s' is

/-- Every state of the run, the first and the last included, has `P`. -/
def Always (step : σ → ι → Option σ) (P : σ → Prop) : σ → List ι → Prop
  | s, [] => P s
  | s, i :: is => P s ∧ ∀ s', step s i = some s' → Always step P s' is

/-- On given inputs the condition can be checked by running. -/
instance decidableEveryStep {C : σ → ι → Prop} [∀ s i, Decidable (C s i)] :
    ∀ (s : σ) (is : List ι), Decidable (EveryStep step C s is)
  | _, [] => isTrue trivial
  | s, i :: is =>
    match h : step s i with
    | none => isTrue fun s' hs' => by rw [h] at hs'; cases hs'
    | some s' =>
      have : Decidable (EveryStep step C s' is) := decidableEveryStep s' is
      decidable_of_iff (C s i ∧ EveryStep step C s' is)
        ⟨fun hc t ht => by rw [h] at ht; cases ht; exact hc, fun hc => hc s' h⟩

theorem everyStep_of_forall {C : σ → ι → Prop} {s : σ} {is : List ι}
    (h : ∀ i ∈ is, ∀ s, C s i) : EveryStep step C s is := by
  induction is generalizing s with
  | nil => trivial
  | cons i is ih =>
    intro s' _
    exact ⟨h i List.mem_cons_self s, ih fun j hj => h j (List.mem_cons_of_mem i hj)⟩

/-- A run in two parts meets a condition when both parts do. -/
theorem everyStep_append {C : σ → ι → Prop} {s : σ} {is js : List ι} :
    EveryStep step C s (is ++ js) ↔
      EveryStep step C s is ∧ ∀ t, run step s is = some t → EveryStep step C t js := by
  induction is generalizing s with
  | nil => simp [EveryStep]
  | cons i is ih =>
    constructor
    · intro h
      -- what holds of every step of the whole holds of the first part, and of what follows it
      refine ⟨fun s' hi => ⟨(h s' hi).1, (ih.1 (h s' hi).2).1⟩, fun t hr => ?_⟩
      obtain ⟨s', hi, hr'⟩ := run_cons_eq_some.1 hr
      exact (ih.1 (h s' hi).2).2 t hr'
    · rintro ⟨h, hrest⟩ s' hi
      refine ⟨(h s' hi).1, ih.2 ⟨(h s' hi).2, fun t hr => ?_⟩⟩
      exact hrest t (run_cons_eq_some.2 ⟨s', hi, hr⟩)

/-- A condition on the inputs is one on the steps. -/
theorem EveryStep.and_forall {C : σ → ι → Prop} {D : ι → Prop} {s : σ} {is : List ι}
    (h : EveryStep step C s is) (hD : ∀ i ∈ is, D i) :
    EveryStep step (fun s i => C s i ∧ D i) s is := by
  induction is generalizing s with
  | nil => trivial
  | cons i is ih =>
    intro s' hi
    exact ⟨⟨(h s' hi).1, hD i List.mem_cons_self⟩,
      ih (h s' hi).2 fun j hj => hD j (List.mem_cons_of_mem i hj)⟩

/-- The last step meets the condition in the state that the others lead to. -/
theorem EveryStep.last {C : σ → ι → Prop} {s t t' : σ} {is : List ι} {i : ι}
    (h : EveryStep step C s (is ++ [i])) (hr : run step s is = some t)
    (hi : step t i = some t') : C t i := by
  induction is generalizing s with
  | nil =>
    obtain rfl : s = t := by simpa using hr
    exact (h t' hi).1
  | cons j js ih =>
    obtain ⟨s', hj, hr'⟩ := run_cons_eq_some.1 hr
    exact ih (h s' hj).2 hr'

/-- What a step keeps under `C` holds at the end of every run whose steps all meet `C`. -/
theorem invariant_of_everyStep {I : σ → Prop} {C : σ → ι → Prop}
    (hstep : ∀ s i s', I s → C s i → step s i = some s' → I s')
    {s t : σ} {is : List ι} (hC : EveryStep step C s is) (h : run step s is = some t)
    (hs : I s) : I t := by
  induction is generalizing s with
  | nil =>
    obtain rfl : s = t := by simpa using h
    exact hs
  | cons i is ih =>
    obtain ⟨s', hi, hr⟩ := run_cons_eq_some.1 h
    -- the condition on this step keeps the invariant, the one on the rest is for the induction
    obtain ⟨hc, hrest⟩ := hC s' hi
    exact ih hrest hr (hstep s i s' hs hc hi)

/-- Steps that an invariant makes possible under `D`, and that keep it under `C`. -/
theorem run_isSome_of_everyStep {I : σ → Prop} {C : σ → ι → Prop} {D : ι → Prop}
    (hsome : ∀ s i, I s → D i → ∃ s', step s i = some s')
    (hstep : ∀ s i s', I s → D i → C s i → step s i = some s' → I s')
    {s : σ} {is : List ι} (hs : I s) (hD : ∀ i ∈ is, D i) (hC : EveryStep step C s is) :
    ∃ t, run step s is = some t ∧ I t := by
  induction is generalizing s with
  | nil => exact ⟨s, rfl, hs⟩
  | cons i is ih =>
    have hi : D i := hD i List.mem_cons_self
    obtain ⟨s', hs'⟩ := hsome s i hs hi
    obtain ⟨hc, hrest⟩ := hC s' hs'
    obtain ⟨t, hr, ht⟩ := ih (hstep s i s' hs hi hc hs')
      (fun j hj => hD j (List.mem_cons_of_mem i hj)) hrest
    exact ⟨t, run_cons_eq_some.2 ⟨s', hs', hr⟩, ht⟩

theorem Always.head {P : σ → Prop} {s : σ} {is : List ι} (h : Always step P s is) : P s := by
  cases is with
  | nil => exact h
  | cons => exact h.1

/-- What has `P` in the states of an invariant has it in every state of a run whose steps keep
the invariant. -/
theorem always_of_everyStep {J P : σ → Prop} {C : σ → ι → Prop} (hP : ∀ s, J s → P s)
    (hstep : ∀ s i s', J s → C s i → step s i = some s' → J s')
    {s : σ} {is : List ι} (hs : J s) (h : EveryStep step C s is) : Always step P s is := by
  induction is generalizing s with
  | nil => exact hP s hs
  | cons i is ih =>
    refine ⟨hP s hs, fun s' hi => ?_⟩
    obtain ⟨hc, hrest⟩ := h s' hi
    exact ih (hstep s i s' hs hc hi) hrest

/-- **The exact condition.** `J` is an invariant of the steps that meet `C` and has the
property `P`; a step from a state with `J` leads to a state with `P` only if it meets `C`.
Then a run from a state with `J` has `P` in every state exactly when all its steps meet `C`. -/
theorem always_iff_everyStep_of_invariant {J P : σ → Prop} {C : σ → ι → Prop}
    (hP : ∀ s, J s → P s) (hstep : ∀ s i s', J s → C s i → step s i = some s' → J s')
    (hnec : ∀ s i s', J s → step s i = some s' → P s' → C s i)
    {s : σ} {is : List ι} (hs : J s) : Always step P s is ↔ EveryStep step C s is := by
  refine ⟨fun h => ?_, always_of_everyStep hP hstep hs⟩
  induction is generalizing s with
  | nil => trivial
  | cons i is ih =>
    intro s' hi
    have hc : C s i := hnec s i s' hs hi (h.2 s' hi).head
    exact ⟨hc, ih (hstep s i s' hs hc hi) (h.2 s' hi)⟩

/-- The same where every step keeps `J`, and leads from `P` to `P` exactly when it meets `C`. -/
theorem always_iff_everyStep {J P : σ → Prop} {C : σ → ι → Prop}
    (hJ : ∀ s i s', J s → step s i = some s' → J s')
    (hiff : ∀ s i s', J s → P s → step s i = some s' → (P s' ↔ C s i))
    {s : σ} {is : List ι} (hjs : J s) (hps : P s) :
    Always step P s is ↔ EveryStep step C s is := by
  refine always_iff_everyStep_of_invariant (J := fun s => J s ∧ P s) (fun s h => h.2) ?_ ?_
    ⟨hjs, hps⟩
  · intro s i s' h hc hi
    exact ⟨hJ s i s' h.1 hi, (hiff s i s' h.1 h.2 hi).2 hc⟩
  · intro s i s' h hi hp
    exact (hiff s i s' h.1 h.2 hi).1 hp

/-- A property of steps that follows from `C`, and `C` from it, in the states with `J`, where `J`
is an invariant of the steps that meet `C`. -/
theorem everyStep_iff_everyStep {J : σ → Prop} {C D : σ → ι → Prop}
    (hstep : ∀ s i s', J s → C s i → step s i = some s' → J s')
    (hiff : ∀ s i s', J s → step s i = some s' → (D s i ↔ C s i))
    {s : σ} {is : List ι} (hs : J s) : EveryStep step D s is ↔ EveryStep step C s is := by
  induction is generalizing s with
  | nil => exact Iff.rfl
  | cons i is ih =>
    constructor
    · intro h s' hi
      obtain ⟨hd, hrest⟩ := h s' hi
      -- the condition on this step has to be had first: the next state keeps `J` only with it
      have hc : C s i := (hiff s i s' hs hi).1 hd
      exact ⟨hc, (ih (hstep s i s' hs hc hi)).1 hrest⟩
    · intro h s' hi
      obtain ⟨hc, hrest⟩ := h s' hi
      exact ⟨(hiff s i s' hs hi).2 hc, (ih (hstep s i s' hs hc hi)).2 hrest⟩

/-- A property that a step from a state with it keeps exactly when the step meets `C`, and that
no step wins back: at the end of a run it says that every step has met `C`. -/
theorem last_iff_everyStep {J G : σ → Prop} {C : σ → ι → Prop}
    (hJ : ∀ s i s', J s → step s i = some s' → J s')
    (hiff : ∀ s i s', J s → G s → step s i = some s' → (G s' ↔ C s i))
    (hback : ∀ s i s', J s → step s i = some s' → G s' → G s)
    {s t : σ} {is : List ι} (hr : run step s is = some t) (hj : J s) (hg : G s) :
    G t ↔ EveryStep step C s is := by
  induction is generalizing s with
  | nil =>
    obtain rfl : s = t := by simpa using hr
    exact iff_of_true hg trivial
  | cons i is ih =>
    obtain ⟨s', hi, hr'⟩ := run_cons_eq_some.1 hr
    have hj' : J s' := hJ s i s' hj hi
    constructor
    · intro ht s'' hi''
      obtain rfl : s' = s'' := Option.some.inj (hi.symm.trans hi'')
      -- what was lost at `s'` would still be lost at the end
      have hg' : G s' := by
        by_contra hlost
        have hend : J t ∧ ¬ G t := invariant (I := fun s => J s ∧ ¬ G s)
          (fun s i s' h hi => ⟨hJ s i s' h.1 hi, fun hg => h.2 (hback s i s' h.1 hi hg)⟩)
          hr' ⟨hj', hlost⟩
        exact hend.2 ht
      exact ⟨(hiff s i s' hj hg hi).1 hg', (ih hr' hj' hg').1 ht⟩
    · intro h
      obtain ⟨hc, hrest⟩ := h s' hi
      exact (ih hr' hj' ((hiff s i s' hj hg hi).2 hc)).2 hrest

end Run
