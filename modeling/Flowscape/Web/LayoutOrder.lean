import Mathlib.Analysis.Real.Pi.Bounds
import Flowscape.Web.Layout

/-!
# Flowscape: the layout and the order of arrival

A map is gone through in the order in which its keys came. Every list of the layout is sorted, so
the order matters only where a comparator takes two nodes for equal: two machines of one name,
which keep their order of arrival and stand beside each other.
-/

namespace Flowscape

open CodeUnits

/-! ## The plan -/

section Plans

variable {nodes nodes' : OrdMap String NodeState} (hperm : nodes'.entries.Perm nodes.entries)
include hperm

theorem get?_eq_of_perm (id : String) : nodes'.get? id = nodes.get? id := by
  apply Option.ext
  intro n
  rw [← OrdMap.mem_entries, ← OrdMap.mem_entries, hperm.mem_iff]

theorem values_perm : nodes'.values.Perm nodes.values := hperm.map Prod.snd

theorem Keyed.of_perm (h : Keyed nodes) : Keyed nodes' := by
  intro id n hget
  rw [get?_eq_of_perm hperm] at hget
  exact h id n hget

theorem idsOf_perm (r : Role) : (idsOf r nodes'.values).Perm (idsOf r nodes.values) :=
  ((values_perm hperm).filter _).map _

/-- Neither do the members of a group, but for their own order. -/
theorem members_perm (mode : GroupBy) (g : String) :
    (members mode g nodes'.values).Perm (members mode g nodes.values) :=
  ((values_perm hperm).filter _).map _

/-- The platforms do not depend on the order of the nodes. -/
theorem platformNames_eq_of_perm (mode : GroupBy) :
    platformNames mode nodes' = platformNames mode nodes := by
  apply platformNames_congr
  intro g
  rw [mem_platformNames, mem_platformNames]
  simp only [(values_perm hperm).mem_iff]

theorem kindOf_eq_of_perm : kindOf nodes' = kindOf nodes := by
  funext id
  rw [kindOf, kindOf, get?_eq_of_perm hperm]

theorem nameOf_eq_of_perm : nameOf nodes' = nameOf nodes := by
  funext id
  rw [nameOf, nameOf, get?_eq_of_perm hperm]

variable (localeCompare : String → String → Int) (mode : GroupBy)

/-- The groups of the plan do not depend on the order. -/
theorem plan_groups_eq :
    (plan localeCompare mode nodes').groups = (plan localeCompare mode nodes).groups := by
  rw [plan_groups, plan_groups, platformNames_eq_of_perm hperm]
  apply List.map_congr_left
  intro g _
  rw [CodeUnits.sort_eq_of_perm (members_perm hperm mode g)]

theorem plan_reserved_eq :
    (plan localeCompare mode nodes').reserved = (plan localeCompare mode nodes).reserved := by
  have hids : CodeUnits.sort (parts mode nodes').reserved
      = CodeUnits.sort (parts mode nodes).reserved := by
    rw [parts_reserved, parts_reserved]
    exact CodeUnits.sort_eq_of_perm (idsOf_perm hperm .reserved)
  simp only [plan, hids, kindOf_eq_of_perm hperm]

theorem plan_world_eq :
    (plan localeCompare mode nodes').world = (plan localeCompare mode nodes).world := by
  show CodeUnits.sort (parts mode nodes').world = CodeUnits.sort (parts mode nodes).world
  rw [parts_world, parts_world]
  exact CodeUnits.sort_eq_of_perm (idsOf_perm hperm .world)

end Plans

/-- No two machines have names that the browser sorts alike. -/
def NamesApart (localeCompare : String → String → Int) (nodes : OrdMap String NodeState) : Prop :=
  ∀ id id' n n', nodes.get? id = some n → nodes.get? id' = some n' → roleOf n = .machine →
    roleOf n' = .machine → localeCompare n.name n'.name = 0 → id = id'

theorem nameOf_eq {nodes : OrdMap String NodeState} {id : String} {n : NodeState}
    (h : nodes.get? id = some n) : nameOf nodes id = n.name := by
  rw [nameOf, h]
  rfl

/-- The comparator of the machines' ids. -/
def compareMachines (localeCompare : String → String → Int) (nodes : OrdMap String NodeState)
    (a b : String) : Int := localeCompare (nameOf nodes a) (nameOf nodes b)

theorem plan_machines (localeCompare : String → String → Int) (mode : GroupBy)
    (nodes : OrdMap String NodeState) : (plan localeCompare mode nodes).machines
      = Sorting.sort (compareMachines localeCompare nodes) (idsOf .machine nodes.values) := by
  rw [← parts_machines mode]
  rfl

theorem compareMachines_of_perm {localeCompare : String → String → Int}
    {nodes nodes' : OrdMap String NodeState} (hperm : nodes'.entries.Perm nodes.entries) :
    compareMachines localeCompare nodes' = compareMachines localeCompare nodes := by
  unfold compareMachines
  rw [nameOf_eq_of_perm hperm]

theorem consistent_compareMachines {localeCompare : String → String → Int}
    (hcmp : Sorting.Consistent localeCompare) (nodes : OrdMap String NodeState) :
    Sorting.Consistent (compareMachines localeCompare nodes) := hcmp.comap (nameOf nodes)

/-- **Machines whose names are apart** are sorted whatever their order was. -/
theorem plan_eq_of_perm {localeCompare : String → String → Int}
    (hcmp : Sorting.Consistent localeCompare) (mode : GroupBy)
    {nodes nodes' : OrdMap String NodeState} (hkeyed : Keyed nodes)
    (hperm : nodes'.entries.Perm nodes.entries) (hapart : NamesApart localeCompare nodes) :
    plan localeCompare mode nodes' = plan localeCompare mode nodes := by
  have hmachines : (plan localeCompare mode nodes').machines
      = (plan localeCompare mode nodes).machines := by
    rw [plan_machines, plan_machines, compareMachines_of_perm hperm]
    refine (Sorting.sort_eq_of_perm (consistent_compareMachines hcmp nodes) (fun a ha b hb heq => ?_)
      (idsOf_perm hperm .machine).symm).symm
    -- machines that compare as equal are one, by assumption
    obtain ⟨n, hn, hrole⟩ := hkeyed.mem_idsOf.1 ha
    obtain ⟨n', hn', hrole'⟩ := hkeyed.mem_idsOf.1 hb
    rw [compareMachines, nameOf_eq hn, nameOf_eq hn'] at heq
    exact hapart a b n n' hn hn' hrole hrole' heq
  exact Plan.ext (plan_groups_eq hperm localeCompare mode)
    (plan_reserved_eq hperm localeCompare mode) hmachines (plan_world_eq hperm localeCompare mode)

/-! ## The fan of the machines -/

/-- The angle of a machine, from the one of the API server on. -/
noncomputable def fanAngle (n i : Nat) : ℝ :=
  let mSpread : ℝ := min 2.2 (0.32 * (n : ℝ))
  let t : ℝ := if n = 1 then 0.5 else i / (n - 1)
  let side : ℝ := if t < 0.5 then -1 else 1
  side * (0.45 + |t - 0.5| * mSpread)

theorem machineSpot_real_x (outer : ℝ) (n i : Nat) :
    (machineSpot Math.real outer n i).x = Real.sin (fanAngle n i) * (outer + 1.5) := by
  show Real.cos (-Real.pi / 2 + fanAngle n i) * (outer + 1.5) = _
  rw [show -Real.pi / 2 + fanAngle n i = fanAngle n i - Real.pi / 2 by ring,
    Real.cos_sub_pi_div_two]

/-- The part of the fan before the middle is below it, the other one above. -/
theorem fanAngle_eq {n : Nat} (hn : 2 ≤ n) (i : Nat) : ∃ t : ℝ, t = i / ((n : ℝ) - 1) ∧
    fanAngle n i = (t - 0.5) * min 2.2 (0.32 * (n : ℝ)) + if t < 0.5 then -0.45 else 0.45 := by
  refine ⟨_, rfl, ?_⟩
  simp only [fanAngle, if_neg (show n ≠ 1 by omega)]
  split
  · next h => rw [abs_of_neg (by linarith)]; ring
  · next h => rw [abs_of_nonneg (by linarith)]; ring

/-- The angles of the fan grow. -/
theorem fanAngle_lt {n : Nat} {i j : Nat} (hij : i < j) (hj : j < n) :
    fanAngle n i < fanAngle n j := by
  have hn : (2 : ℝ) ≤ n := by exact_mod_cast (by omega : 2 ≤ n)
  obtain ⟨t, ht, hi⟩ := fanAngle_eq (by omega : 2 ≤ n) i
  obtain ⟨u, hu, hj⟩ := fanAngle_eq (by omega : 2 ≤ n) j
  -- both parts of the angle grow with the index, and the second one jumps at the middle
  have htu : t < u := by
    rw [ht, hu]
    exact div_lt_div_of_pos_right (by exact_mod_cast hij) (by linarith)
  have hs : (0 : ℝ) < min 2.2 (0.32 * (n : ℝ)) := lt_min (by norm_num) (by linarith)
  have hmul : (t - 0.5) * min 2.2 (0.32 * (n : ℝ)) < (u - 0.5) * min 2.2 (0.32 * (n : ℝ)) :=
    mul_lt_mul_of_pos_right (by linarith) hs
  rw [hi, hj]
  split <;> split <;> linarith

theorem fanAngle_mem {n : Nat} {i : Nat} (hn : 2 ≤ n) (hi : i < n) :
    fanAngle n i ∈ Set.Icc (-(Real.pi / 2)) (Real.pi / 2) := by
  obtain ⟨t, ht, hang⟩ := fanAngle_eq hn i
  have hn' : (2 : ℝ) ≤ n := by exact_mod_cast hn
  have hi' : (i : ℝ) + 1 ≤ n := by exact_mod_cast hi
  have h0 : 0 ≤ t := by
    rw [ht]
    exact div_nonneg (by positivity) (by linarith)
  have h1 : t ≤ 1 := by
    rw [ht, div_le_one (by linarith)]
    linarith
  have hs : min 2.2 (0.32 * (n : ℝ)) ≤ 2.2 := min_le_left _ _
  have hs0 : (0 : ℝ) ≤ min 2.2 (0.32 * (n : ℝ)) := le_min (by norm_num) (by linarith)
  have hpi := Real.pi_gt_d2
  rw [hang]
  -- the fan spans 0.45 + 0.5 * 2.2 to each side, less than a quarter of the circle
  constructor
  · have hlow : -(0.5 * 2.2) ≤ (t - 0.5) * min 2.2 (0.32 * (n : ℝ)) := by nlinarith
    split <;> linarith
  · have hhigh : (t - 0.5) * min 2.2 (0.32 * (n : ℝ)) ≤ 0.5 * 2.2 := by nlinarith
    split <;> linarith

/-- **No two machines stand at one place.** -/
theorem machineSpot_ne {outer : ℝ} (houter : 0 ≤ outer) {n i j : Nat} (hij : i < j) (hj : j < n) :
    machineSpot Math.real outer n i ≠ machineSpot Math.real outer n j := by
  intro heq
  have hx := congrArg Vec3.x heq
  rw [machineSpot_real_x, machineSpot_real_x] at hx
  have hsin : Real.sin (fanAngle n i) = Real.sin (fanAngle n j) :=
    mul_right_cancel₀ (by linarith) hx
  have hlt := Real.strictMonoOn_sin (fanAngle_mem (by omega) (by omega))
    (fanAngle_mem (by omega) hj) (fanAngle_lt hij hj)
  exact absurd hsin hlt.ne

/-! ## Two machines of one name -/

namespace Layout

/-- What the scene reads of a layout. -/
structure Same {K : Type*} (L L' : Layout K) : Prop where
  ringRadius : L.ringRadius = L'.ringRadius
  outerRadius : L.outerRadius = L'.outerRadius
  /-- With their centers, radii and nodes, and in this order. -/
  platforms : L.platforms = L'.platforms
  targets : ∀ id, L.targets.get? id = L'.targets.get? id

/-- The target of a machine is its place in the fan. -/
theorem get?_targets_machine {K : Type*} [Field K] [LinearOrder K] (M : Math K) (L : Layout K)
    {pl : Plan} (hnd : pl.ids.Nodup) {i : Nat} {id : String} (h : pl.machines[i]? = some id) :
    (L.draw M pl).targets.get? id
      = some (machineSpot M (Flowscape.ringRadius M pl + 9) pl.machines.length i) := by
  rw [← OrdMap.mem_entries, entries_targets M L hnd]
  refine List.mem_append_left _ (List.mem_append_left _ (List.mem_append_right _ ?_))
  apply List.mem_of_getElem? (i := i)
  rw [List.getElem?_mapIdx, h]
  rfl

/-- The two orders in which two nodes can be the first ones of a map. -/
theorem exists_swapped {nodes : OrdMap String NodeState} {a b : String} {n n' : NodeState}
    (hne : a ≠ b) (ha : nodes.get? a = some n) (hb : nodes.get? b = some n') :
    ∃ rest, ((a, n) :: (b, n') :: rest).Perm nodes.entries := by
  obtain ⟨l, l', hl⟩ := List.append_of_mem (OrdMap.mem_entries.2 ha)
  have hb' : (b, n') ∈ l ++ l' := by
    have hmem := OrdMap.mem_entries.2 hb
    rw [hl, List.mem_append, List.mem_cons, Prod.mk.injEq] at hmem
    rcases hmem with h | ⟨h, -⟩ | h
    · exact List.mem_append_left _ h
    · exact absurd h.symm hne
    · exact List.mem_append_right _ h
  -- both are taken out of the list and put in front
  obtain ⟨k, k', hk⟩ := List.append_of_mem hb'
  refine ⟨k ++ k', ?_⟩
  rw [hl]
  refine (List.Perm.cons _ ?_).trans List.perm_middle.symm
  rw [hk]
  exact List.perm_middle.symm

section

variable {localeCompare : String → String → Int} (hcmp : Sorting.Consistent localeCompare)
include hcmp

section Swapped

variable {nodes nodes' : OrdMap String NodeState} {n n' : NodeState}
  {rest : List (String × NodeState)} (hkeyed : Keyed nodes)
  (hfirst : nodes.entries = (n.id, n) :: (n'.id, n') :: rest)
  (hsecond : nodes'.entries = (n'.id, n') :: (n.id, n) :: rest)
  (hrole : roleOf n = .machine) (hrole' : roleOf n' = .machine)
  (heq : localeCompare n.name n'.name = 0)
include hfirst hsecond hrole hrole' heq

/-- Two machines of one name are listed as they came. -/
theorem plans_swapped (mode : GroupBy) : ∃ before after,
    (plan localeCompare mode nodes).machines = before ++ n.id :: n'.id :: after ∧
      (plan localeCompare mode nodes').machines = before ++ n'.id :: n.id :: after := by
  have hperm : nodes'.entries.Perm nodes.entries := by
    rw [hfirst, hsecond]
    exact List.Perm.swap _ _ _
  have hn : nodes.get? n.id = some n := OrdMap.mem_entries.1 (by simp [hfirst])
  have hn' : nodes.get? n'.id = some n' := OrdMap.mem_entries.1 (by simp [hfirst])
  -- sorting is stable, so two machines that tie keep the order they came in
  have htie : compareMachines localeCompare nodes n.id n'.id = 0 := by
    rwa [compareMachines, nameOf_eq hn, nameOf_eq hn']
  obtain ⟨before, after, hsort, hsort'⟩ := Sorting.sort_tie
    (consistent_compareMachines hcmp nodes) htie (idsOf .machine (rest.map Prod.snd))
  refine ⟨before, after, ?_, ?_⟩
  · rw [plan_machines, ← hsort]
    simp [OrdMap.values, hfirst, idsOf, hrole, hrole']
  · rw [plan_machines, compareMachines_of_perm hperm, ← hsort']
    simp [OrdMap.values, hsecond, idsOf, hrole, hrole']

include hkeyed

/-- **Two machines of one name stand as they came.** -/
theorem not_same_of_swapped (L : Layout ℝ) :
    ¬ (L.rebuild Math.real localeCompare nodes).Same
      (L.rebuild Math.real localeCompare nodes') := by
  intro hsame
  have hperm : nodes'.entries.Perm nodes.entries := by
    rw [hfirst, hsecond]
    exact List.Perm.swap _ _ _
  obtain ⟨before, after, hm, hm'⟩ :=
    plans_swapped hcmp hfirst hsecond hrole hrole' heq L.groupBy
  -- the machine stands at neighbouring indices of the two fans
  have hfst : (plan localeCompare L.groupBy nodes).machines[before.length]? = some n.id := by
    rw [hm]
    simp
  have hsnd : (plan localeCompare L.groupBy nodes').machines[before.length + 1]? = some n.id := by
    rw [hm']
    simp
  have hat := get?_targets_machine Math.real L (nodup_plan_ids localeCompare L.groupBy hkeyed) hfst
  have hat' := get?_targets_machine Math.real L
    (nodup_plan_ids localeCompare L.groupBy (hkeyed.of_perm hperm)) hsnd
  have houter : Flowscape.ringRadius Math.real (plan localeCompare L.groupBy nodes) + 9
      = Flowscape.ringRadius Math.real (plan localeCompare L.groupBy nodes') + 9 :=
    hsame.outerRadius
  have hring : (10 : ℝ) ≤ Flowscape.ringRadius Math.real (plan localeCompare L.groupBy nodes') :=
    (le_max_left _ _).trans (le_max_left _ _)
  rw [houter, hm] at hat
  rw [hm'] at hat'
  have hspot := Option.some.inj (hat.symm.trans ((hsame.targets n.id).trans hat'))
  have houter0 : 0 ≤ Flowscape.ringRadius Math.real (plan localeCompare L.groupBy nodes') + 9 := by
    linarith
  have hlen : before.length + 1 < (before ++ n.id :: n'.id :: after).length := by simp
  exact machineSpot_ne houter0 (Nat.lt_succ_self before.length) hlen (by simpa using hspot)

end Swapped

/-- **Two machines whose names tie have a layout for each order.** -/
theorem exists_not_same (L : Layout ℝ) {nodes : OrdMap String NodeState} (hkeyed : Keyed nodes)
    (htie : ¬ NamesApart localeCompare nodes) :
    ∃ nodes' nodes'' : OrdMap String NodeState, nodes'.entries.Perm nodes.entries ∧
      nodes''.entries.Perm nodes.entries ∧
      ¬ (L.rebuild Math.real localeCompare nodes').Same
        (L.rebuild Math.real localeCompare nodes'') := by
  simp only [NamesApart, not_forall] at htie
  obtain ⟨a, b, n, n', ha, hb, hrole, hrole', heq, hne⟩ := htie
  obtain rfl := hkeyed a n ha
  obtain rfl := hkeyed b n' hb
  obtain ⟨rest, hperm⟩ := exists_swapped hne ha hb
  have hperm' : ((n'.id, n') :: (n.id, n) :: rest).Perm nodes.entries :=
    (List.Perm.swap _ _ _).trans hperm
  -- the two come first, in both orders
  let m : OrdMap String NodeState := ⟨_, (hperm.map Prod.fst).nodup_iff.2 nodes.nodup⟩
  let m' : OrdMap String NodeState := ⟨_, (hperm'.map Prod.fst).nodup_iff.2 nodes.nodup⟩
  have hm : Keyed m := hkeyed.of_perm hperm
  exact ⟨m, m', hperm, hperm', not_same_of_swapped hcmp hm rfl rfl hrole hrole' heq L⟩

/-- Over any numbers, machines whose names are apart stand where they stand. -/
theorem rebuild_same {K : Type*} [Field K] [LinearOrder K] (M : Math K) (L : Layout K)
    {nodes : OrdMap String NodeState} (hkeyed : Keyed nodes)
    (hapart : NamesApart localeCompare nodes) {nodes' nodes'' : OrdMap String NodeState}
    (hperm : nodes'.entries.Perm nodes.entries) (hperm' : nodes''.entries.Perm nodes.entries) :
    (L.rebuild M localeCompare nodes').Same (L.rebuild M localeCompare nodes'') := by
  rw [rebuild, rebuild, plan_eq_of_perm hcmp L.groupBy hkeyed hperm hapart,
    plan_eq_of_perm hcmp L.groupBy hkeyed hperm' hapart]
  exact ⟨rfl, rfl, rfl, fun _ => rfl⟩

/-- **The layout does not depend on the order of arrival** exactly when no two machines have one
name. -/
theorem rebuild_same_iff (L : Layout ℝ) {nodes : OrdMap String NodeState} (hkeyed : Keyed nodes) :
    (∀ nodes' nodes'' : OrdMap String NodeState, nodes'.entries.Perm nodes.entries →
      nodes''.entries.Perm nodes.entries →
      (L.rebuild Math.real localeCompare nodes').Same
        (L.rebuild Math.real localeCompare nodes'')) ↔
    NamesApart localeCompare nodes := by
  constructor
  · intro hall
    by_contra htie
    obtain ⟨m, m', hperm, hperm', hnot⟩ := exists_not_same hcmp L hkeyed htie
    exact hnot (hall m m' hperm hperm')
  · intro hapart m m' hperm hperm'
    exact rebuild_same hcmp Math.real L hkeyed hapart hperm hperm'

end

/-- A host that goes by the name of a node. -/
def hosts : List NodeState :=
  [plainNode "reserved/node/host" "reserved" "node" "host" "",
    plainNode "reserved/host/host" "reserved" "host" "host" ""]

/-- Of two machines of one name the first one to come stands first. -/
theorem not_rebuild_same : ¬ ∀ (L : Layout ℝ) (nodes nodes' : OrdMap String NodeState),
    Keyed nodes → nodes'.entries.Perm nodes.entries →
      (L.rebuild Math.real CodeUnits.cmp nodes).Same
        (L.rebuild Math.real CodeUnits.cmp nodes') := by
  intro h
  have hperm : (ofNodes hosts.reverse).entries.Perm (ofNodes hosts).entries :=
    List.Perm.swap _ _ _
  exact not_same_of_swapped CodeUnits.consistent (keyed_ofNodes hosts) rfl rfl (by decide)
    (by decide) (by decide) new (h new _ _ (keyed_ofNodes hosts) hperm)

/-- Two machines of two names. -/
def workers : List NodeState :=
  [plainNode "reserved/node/worker-1" "reserved" "node" "worker-1" "",
    plainNode "reserved/node/worker-2" "reserved" "node" "worker-2" ""]

theorem namesApart_workers : NamesApart CodeUnits.cmp (ofNodes workers) := by
  intro id id' n n' hn hn' _ _ heq
  have hname : n.name = n'.name := units_injective (Sorting.byKey_eq_zero.1 heq)
  have hinj : ∀ n ∈ workers, ∀ n' ∈ workers, n.name = n'.name → n.id = n'.id := by decide
  rw [← keyed_ofNodes workers id n hn, ← keyed_ofNodes workers id' n' hn']
  exact hinj n (mem_of_get?_ofNodes hn) n' (mem_of_get?_ofNodes hn') hname

/-- Machines with different names stand where they do in any order. -/
theorem rebuild_same_workers :
    (new.rebuild Math.real CodeUnits.cmp (ofNodes workers)).Same
      (new.rebuild Math.real CodeUnits.cmp (ofNodes workers.reverse)) :=
  (rebuild_same_iff CodeUnits.consistent new (keyed_ofNodes workers)).2 namesApart_workers _ _
    (List.Perm.refl _) (List.Perm.swap _ _ _)

end Layout

end Flowscape
