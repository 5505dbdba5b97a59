import Flowscape.Lib.Loop
import Flowscape.Lib.Run
import Flowscape.Lib.Sorting
import Flowscape.Lib.OrdMap

/-!
# Flowscape: the chips of the controls (`web/src/filters.ts`)

The panel has a chip for every namespace and every machine in the graph. A click on it hides what
it stands for, and takes the class `on` off the chip. The chips come and go with the graph, while
the sets of what is hidden stay.

A chip that comes is made with the class `on`. It is wrong when its name is still hidden from the
last time it was there.

* A chip is its name and its class. Colours and titles are left out.
* The chips of the namespaces and the ones of the machines are kept up in the same way.
-/

namespace Flowscape

open CodeUnits

/-! ## Source definitions -/

/-- The chips of one kind. -/
structure Chips where
  /-- Whether a chip has the class `on`. -/
  on : OrdMap String Bool
  /-- The names of the chips, as they stand in their box. -/
  box : List String

namespace Chips

/-- No chips. -/
def empty : Chips := ⟨∅, []⟩

/-- `chip.remove()` and `chips.delete(name)` -/
def remove (c : Chips) (name : String) : Chips :=
  { on := c.on.erase name, box := c.box.filter (· ≠ name) }

/-- A new chip, in front of the one at its index in the order of the names. -/
def create (c : Chips) (name : String) : Chips :=
  let on := c.on.set name true
  let after := (CodeUnits.sort on.keys).idxOf name
  { on, box := c.box.take after ++ name :: c.box.drop after }

/-- A name that has no chip yet gets one. -/
def add (c : Chips) (name : String) : Chips := if name ∈ c.on then c else c.create name

/-- Keep one chip per name. -/
def sync (c : Chips) (names : List String) : Chips :=
  let want := (∅ : OrdSet String).addAll names
  (CodeUnits.sort want.keys).foldl add ((c.on.keys.filter (· ∉ want)).foldl remove c)

/-- `classList.toggle("on", !hidden.has(name))` -/
def toggle (hidden : OrdSet String) (c : Chips) (name : String) : Chips :=
  { c with on := c.on.set name (decide (name ∉ hidden)) }

end Chips

/-- The part of the panel that has chips which come and go. -/
structure FiltersPanel where
  /-- `filters.namespaces`: disabled namespaces -/
  namespaces : OrdSet String
  /-- `filters.machines`: hidden machines -/
  machines : OrdSet String
  chips : Chips
  machineChips : Chips
  /-- The machine chips with a red dot. -/
  down : OrdSet String

namespace FiltersPanel

/-- The constructor. -/
def new : FiltersPanel where
  namespaces := ∅
  machines := ∅
  chips := .empty
  machineChips := .empty
  down := ∅

/-- `syncNamespaces` -/
def syncNamespaces (f : FiltersPanel) (names : List String) : FiltersPanel :=
  { f with chips := f.chips.sync names }

/-- One chip per machine seen; unavailable ones carry a red dot. -/
def syncMachines (f : FiltersPanel) (names unavailable : List String) : FiltersPanel :=
  { f with
    machineChips := f.machineChips.sync names
    down := (∅ : OrdSet String).addAll (names.filter (· ∈ unavailable)) }

/-- Hide what is shown and show what is hidden. -/
def flip (hidden : OrdSet String) (name : String) : OrdSet String :=
  if name ∈ hidden then hidden.erase name else hidden.add name

/-- Solo a namespace, or show everything when it is the only one shown. -/
def solo (f : FiltersPanel) (ns : String) : OrdSet String :=
  if f.namespaces.size + 1 = f.chips.on.size ∧ ns ∉ f.namespaces then ∅
  else (∅ : OrdSet String).addAll (f.chips.on.keys.filter (· ≠ ns))

/-- A click on a namespace's chip, with or without a key held down. -/
def clickNamespace (f : FiltersPanel) (ns : String) (alt : Bool) : FiltersPanel :=
  let namespaces := if alt then f.solo ns else flip f.namespaces ns
  { f with namespaces, chips := f.chips.on.keys.foldl (Chips.toggle namespaces) f.chips }

/-- A click on a machine's chip. -/
def clickMachine (f : FiltersPanel) (name : String) : FiltersPanel :=
  let machines := flip f.machines name
  { f with machines, machineChips := f.machineChips.toggle machines name }

/-! ## Runs -/

/-- What happens to the panel: names come, and chips are clicked. -/
inductive Event where
  | syncNamespaces (names : List String)
  | syncMachines (names unavailable : List String)
  | clickNamespace (ns : String) (alt : Bool)
  | clickMachine (name : String)

/-- Only a chip that is there can be clicked. -/
def step (f : FiltersPanel) : Event → Option FiltersPanel
  | .syncNamespaces names => some (f.syncNamespaces names)
  | .syncMachines names unavailable => some (f.syncMachines names unavailable)
  | .clickNamespace ns alt => if ns ∈ f.chips.on then some (f.clickNamespace ns alt) else none
  | .clickMachine name => if name ∈ f.machineChips.on then some (f.clickMachine name) else none

end FiltersPanel

/-! ## What a call makes of the chips -/

namespace Chips

theorem on_remove (c : Chips) (name n : String) :
    (c.remove name).on.get? n = if n = name then none else c.on.get? n :=
  OrdMap.get?_erase c.on name n

theorem on_foldl_remove (l : List String) (c : Chips) (n : String) :
    (l.foldl remove c).on.get? n = if n ∈ l then none else c.on.get? n := by
  induction l generalizing c with
  | nil => rfl
  | cons name rest ih =>
    rw [List.foldl_cons, ih, on_remove]
    by_cases hr : n ∈ rest <;> by_cases hn : n = name <;> simp [hr, hn]

theorem on_add (c : Chips) (name n : String) :
    (c.add name).on.get? n = if n = name then some ((c.on.get? n).getD true) else c.on.get? n := by
  unfold add
  split
  -- a chip that is there already keeps its state; a new one is on
  · next h =>
    split
    · next hn =>
      obtain ⟨v, hv⟩ := OrdMap.mem_iff.1 h
      rw [hn, hv]
      rfl
    · rfl
  · next h =>
    refine (OrdMap.get?_set c.on name n true).trans ?_
    split
    · next hn => rw [hn, OrdMap.not_mem_iff.1 h]; rfl
    · rfl

theorem on_foldl_add (l : List String) (c : Chips) (n : String) :
    (l.foldl add c).on.get? n
      = if n ∈ l then some ((c.on.get? n).getD true) else c.on.get? n := by
  induction l generalizing c with
  | nil => rfl
  | cons name rest ih =>
    rw [List.foldl_cons, ih, on_add]
    by_cases hr : n ∈ rest <;> by_cases hn : n = name <;> simp [hr, hn]

/-- **The chips after a sync**: the ones that stay as they are, the new ones with the class. -/
theorem on_sync (c : Chips) (names : List String) (n : String) :
    (c.sync names).on.get? n
      = if n ∈ names then some ((c.on.get? n).getD true) else none := by
  -- the names are added in order, once each
  have hsort : n ∈ CodeUnits.sort ((∅ : OrdSet String).addAll names).keys ↔ n ∈ names := by
    rw [CodeUnits.sort, Sorting.mem_sort, OrdMap.mem_keys, OrdSet.mem_addAll]
    simp
  -- the chips of other names are removed first
  have hdrop : n ∈ c.on.keys.filter (· ∉ (∅ : OrdSet String).addAll names) ↔
      n ∈ c.on ∧ n ∉ names := by
    simp
  rw [sync, on_foldl_add, on_foldl_remove]
  simp only [hsort, hdrop]
  by_cases hn : n ∈ names
  · simp [hn]
  · by_cases hc : n ∈ c.on
    · simp [hn, hc]
    · simp [hn, hc, OrdMap.not_mem_iff.1 hc]

/-- What is on after the others are switched. -/
theorem on_foldl_toggle (hidden : OrdSet String) (l : List String) (c : Chips) (n : String) :
    (l.foldl (toggle hidden) c).on.get? n
      = if n ∈ l then some (decide (n ∉ hidden)) else c.on.get? n := by
  induction l generalizing c with
  | nil => rfl
  | cons name rest ih =>
    rw [List.foldl_cons, ih, toggle, OrdMap.get?_set]
    by_cases hr : n ∈ rest <;> by_cases hn : n = name <;> simp [hr, hn]

/-- Every chip shows whether its name is hidden. -/
def Agree (c : Chips) (hidden : OrdSet String) : Prop :=
  ∀ n on, c.on.get? n = some on → (on = true ↔ n ∉ hidden)

/-- A sync keeps the agreement when no name comes back that is hidden. -/
theorem agree_sync_iff {c : Chips} {hidden : OrdSet String} (h : c.Agree hidden)
    (names : List String) : (c.sync names).Agree hidden ↔
      ∀ n ∈ names, n ∉ c.on → n ∉ hidden := by
  constructor
  · intro hagree n hn hnew
    refine (hagree n true ?_).1 rfl
    -- a name without a chip gets one that is on, so it must not be hidden
    rw [on_sync, if_pos hn, OrdMap.not_mem_iff.1 hnew]
    rfl
  · intro hnew n on hget
    rw [on_sync] at hget
    split at hget
    · next hn =>
      cases hold : c.on.get? n with
      | none =>
        rw [hold] at hget
        cases hget
        exact iff_of_true rfl (hnew n hn (OrdMap.not_mem_iff.2 hold))
      | some v =>
        rw [hold] at hget
        cases hget
        exact h n v hold
    · cases hget

end Chips

/-! ## The order of the chips -/

namespace Chips

/-- The chips stand in the order of their names. -/
def Ordered (c : Chips) : Prop := c.box = CodeUnits.sort c.on.keys

theorem ordered_remove {c : Chips} (h : c.Ordered) (name : String) : (c.remove name).Ordered := by
  show c.box.filter (· ≠ name) = CodeUnits.sort (c.on.erase name).keys
  rw [h, OrdMap.keys_erase]
  exact (Sorting.sort_byKey_filter (fun _ _ => units_injective) _ _).symm

theorem ordered_add {c : Chips} (h : c.Ordered) (name : String) : (c.add name).Ordered := by
  unfold add
  split
  · exact h
  · next hnew =>
    obtain ⟨before, after, hold, hsort⟩ := Sorting.exists_sort_byKey_append
      (fun _ _ => units_injective) c.on.keys name
    rw [← OrdMap.keys_set_of_not_mem (v := true) hnew] at hsort
    replace hsort : CodeUnits.sort (c.on.set name true).keys = before ++ name :: after := hsort
    have hbox : c.box = before ++ after := h.trans hold
    -- the name is not in front of its place
    have hat : (before ++ name :: after).idxOf name = before.length := by
      have hnot : name ∉ before := fun hmem => hnew (OrdMap.mem_keys.1
        (Sorting.mem_sort.1 (hold.symm ▸ List.mem_append_left after hmem)))
      rw [List.idxOf_append_of_notMem hnot, List.idxOf_cons_self, Nat.add_zero]
    show c.box.take _ ++ name :: c.box.drop _ = CodeUnits.sort (c.on.set name true).keys
    rw [hsort, hat, hbox, List.take_left, List.drop_left]

theorem ordered_sync {c : Chips} (h : c.Ordered) (names : List String) :
    (c.sync names).Ordered := by
  have hremove : ∀ l : List String, (l.foldl remove c).Ordered := fun l =>
    Loop.foldl_keeps (J := Ordered) (fun _ name hc => ordered_remove hc name) h
  exact Loop.foldl_keeps (J := Ordered) (fun _ name hc => ordered_add hc name) (hremove _)

theorem ordered_toggle {c : Chips} (h : c.Ordered) (hidden : OrdSet String) {name : String}
    (hmem : name ∈ c.on) : (c.toggle hidden name).Ordered := by
  show c.box = CodeUnits.sort (c.on.set name _).keys
  rw [OrdMap.keys_set_of_mem hmem]
  exact h

theorem ordered_foldl_toggle (hidden : OrdSet String) {l : List String} {c : Chips}
    (h : c.Ordered) (hl : ∀ name ∈ l, name ∈ c.on) : (l.foldl (toggle hidden) c).Ordered := by
  induction l generalizing c with
  | nil => exact h
  | cons name rest ih =>
    apply ih (ordered_toggle h hidden (hl name List.mem_cons_self))
    intro n hn
    exact OrdMap.mem_set.2 (Or.inr (hl n (List.mem_cons_of_mem name hn)))

end Chips

/-! ## Runs of the panel -/

namespace FiltersPanel

/-- Every chip shows what its filter does. -/
def Agree (f : FiltersPanel) : Prop :=
  f.chips.Agree f.namespaces ∧ f.machineChips.Agree f.machines

/-- No name gets a new chip while it is hidden. -/
def NoneBack (f : FiltersPanel) : Event → Prop
  | .syncNamespaces names => ∀ n ∈ names, n ∉ f.chips.on → n ∉ f.namespaces
  | .syncMachines names _ => ∀ n ∈ names, n ∉ f.machineChips.on → n ∉ f.machines
  | .clickNamespace _ _ => True
  | .clickMachine _ => True

/-- A click on a namespace switches the set and the chip. -/
theorem agree_clickNamespace {f : FiltersPanel} (h : f.Agree) (ns : String) (alt : Bool) :
    (f.clickNamespace ns alt).Agree := by
  refine ⟨fun n on hget => ?_, h.2⟩
  replace hget := (Chips.on_foldl_toggle _ _ _ n).symm.trans hget
  split at hget
  · cases hget
    exact decide_eq_true_iff
  · next hn =>
    -- the loop goes over all the chips there are
    rw [OrdMap.mem_keys, OrdMap.not_mem_iff] at hn
    rw [hn] at hget
    cases hget

theorem mem_flip {hidden : OrdSet String} {name n : String} (hn : n ≠ name) :
    n ∈ flip hidden name ↔ n ∈ hidden := by
  unfold flip
  split <;> simp [hn]

theorem agree_clickMachine {f : FiltersPanel} (h : f.Agree) (name : String) :
    (f.clickMachine name).Agree := by
  refine ⟨h.1, fun n on hget => ?_⟩
  replace hget := (OrdMap.get?_set _ _ _ _).symm.trans hget
  split at hget
  · next hn =>
    cases hget
    rw [hn]
    exact decide_eq_true_iff
  · next hn =>
    have hold := h.2 n on hget
    rw [hold]
    exact not_congr (mem_flip hn).symm

/-- **A step keeps the agreement** exactly when it brings no hidden name back. -/
theorem agree_step_iff {f f' : FiltersPanel} {e : Event} (h : f.Agree)
    (hstep : step f e = some f') : f'.Agree ↔ f.NoneBack e := by
  cases e with
  -- a sync of one row leaves the other row alone
  | syncNamespaces names =>
    cases hstep
    exact (and_iff_left h.2).trans (Chips.agree_sync_iff h.1 names)
  | syncMachines names unavailable =>
    cases hstep
    exact (and_iff_right h.1).trans (Chips.agree_sync_iff h.2 names)
  | clickNamespace ns alt =>
    obtain ⟨-, ⟨⟩⟩ := Option.ite_none_right_eq_some.1 hstep
    exact iff_of_true (agree_clickNamespace h ns alt) trivial
  | clickMachine name =>
    obtain ⟨-, ⟨⟩⟩ := Option.ite_none_right_eq_some.1 hstep
    exact iff_of_true (agree_clickMachine h name) trivial

theorem agree_new : new.Agree := by
  constructor <;> intro n on h <;> cases h

/-- **A chip shows what its filter does**, all the time, exactly when no hidden name ever comes
back. -/
theorem always_agree_iff (es : List Event) :
    Run.Always step Agree new es ↔ Run.EveryStep step NoneBack new es :=
  Run.always_iff_everyStep (J := fun _ => True) (fun _ _ _ _ _ => trivial)
    (fun _ _ _ _ h hstep => agree_step_iff h hstep) trivial agree_new

/-- **The chips stand in the order of their names**, whatever has come and gone. -/
theorem ordered_of_reaches {f : FiltersPanel} (h : Run.Reaches step new f) :
    f.chips.Ordered ∧ f.machineChips.Ordered := by
  refine h.invariant (I := fun f => f.chips.Ordered ∧ f.machineChips.Ordered) ?_ ⟨rfl, rfl⟩
  intro f e f' hf hstep
  cases e with
  | syncNamespaces names =>
    cases hstep
    exact ⟨Chips.ordered_sync hf.1 names, hf.2⟩
  -- a sync puts new chips where they belong; a click moves none
  | syncMachines names unavailable =>
    cases hstep
    exact ⟨hf.1, Chips.ordered_sync hf.2 names⟩
  | clickNamespace ns alt =>
    obtain ⟨-, ⟨⟩⟩ := Option.ite_none_right_eq_some.1 hstep
    exact ⟨Chips.ordered_foldl_toggle _ hf.1 fun _ => OrdMap.mem_keys.1, hf.2⟩
  | clickMachine name =>
    obtain ⟨hmem, ⟨⟩⟩ := Option.ite_none_right_eq_some.1 hstep
    exact ⟨hf.1, Chips.ordered_toggle hf.2 _ hmem⟩

/-- Chips that come in front of others and in between. -/
def arriving : List Event :=
  [.syncNamespaces ["shop", "bank"], .clickNamespace "shop" true, .syncMachines ["m2", "m1"] ["m1"],
    .syncNamespaces ["shop", "cart", "app", "bank"]]

/-- Names that come in any order are shown in theirs. -/
theorem ordered_of_reaches_arriving : ∃ f, Run.run step new arriving = some f ∧
    f.chips.box = ["app", "bank", "cart", "shop"] ∧ f.chips.Ordered ∧ f.machineChips.Ordered := by
  have hsome : (Run.run step new arriving).isSome = true := by decide
  obtain ⟨f, hf⟩ := Option.isSome_iff_exists.1 hsome
  have hbox : (Run.run step new arriving).map (fun f => f.chips.box)
      = some ["app", "bank", "cart", "shop"] := by decide
  rw [hf, Option.map_some, Option.some.injEq] at hbox
  exact ⟨f, hf, hbox, ordered_of_reaches ⟨arriving, hf⟩⟩

/-- A namespace that is hidden goes away with its last node, and comes back. -/
def returning : List Event :=
  [.syncNamespaces ["shop"], .clickNamespace "shop" false, .syncNamespaces [],
    .syncNamespaces ["shop"]]

/-- **A namespace that was hidden and comes back has a chip that is on.** -/
theorem not_always_agree : ¬ ∀ es : List Event, Run.Always step Agree new es := by
  intro h
  have hlast : Agree _ := ((((h returning).2 _ rfl).2 _ rfl).2 _ rfl).2 _ rfl
  have hiff := hlast.1 "shop" true (by decide)
  exact absurd (hiff.1 rfl) (by decide)

end FiltersPanel

end Flowscape
