import Mathlib.Analysis.Real.Pi.Bounds
import Flowscape.Lib.Text
import Flowscape.Web.Layout

/-!
# Flowscape: what a new workload moves

A platform stands where its index and the radius of the ring put it. A workload on a platform
that is there already changes no index. It makes its platform larger, and with it the sum of the
radii, which is what the ring is long enough for when there are many workloads.
-/

namespace Flowscape

namespace Layout

/-! ## One more workload -/

section

variable {mode : GroupBy} {nodes : OrdMap String NodeState} {n : NodeState} (hnew : n.id ∉ nodes)
include hnew

/-- A new node comes last. -/
theorem values_set : (nodes.set n.id n).values = nodes.values ++ [n] := by
  rw [OrdMap.values, OrdMap.entries_set_of_not_mem hnew, List.map_append]
  rfl

/-- A workload of another platform is none of this one, -/
theorem members_set_of_ne {g : String} (hne : groupOf mode n ≠ g) :
    members mode g (nodes.set n.id n).values = members mode g nodes.values := by
  rw [values_set hnew]
  simp [members, hne]

/-- No platform is new. -/
theorem platformNames_set (hgroup : groupOf mode n ∈ platformNames mode nodes) :
    platformNames mode (nodes.set n.id n) = platformNames mode nodes := by
  apply platformNames_congr
  intro g
  constructor
  · intro hg
    obtain ⟨n', hn', hrole, rfl⟩ := mem_platformNames.1 hg
    rw [values_set hnew, List.mem_append, List.mem_singleton] at hn'
    rcases hn' with hn' | rfl
    · exact mem_platformNames.2 ⟨n', hn', hrole, rfl⟩
    -- the group of the new node has a platform already
    · exact hgroup
  · intro hg
    obtain ⟨n', hn', hrole, rfl⟩ := mem_platformNames.1 hg
    refine mem_platformNames.2 ⟨n', ?_, hrole, rfl⟩
    rw [values_set hnew]
    exact List.mem_append_left _ hn'

end

/-! ## The ring -/

/-- The groups that have a workload. -/
def groups (mode : GroupBy) (nodes : OrdMap String NodeState) : Finset String :=
  ((nodes.values.filter fun n => roleOf n = .workload).map (groupOf mode)).toFinset

/-- The number of workloads of a group. -/
def size (mode : GroupBy) (nodes : OrdMap String NodeState) (g : String) : Nat :=
  nodes.values.countP fun n => roleOf n = .workload ∧ groupOf mode n = g

theorem mem_groups {mode : GroupBy} {nodes : OrdMap String NodeState} {g : String} :
    g ∈ groups mode nodes ↔ ∃ n ∈ nodes.values, roleOf n = .workload ∧ groupOf mode n = g := by
  simp [groups, and_assoc]

theorem toFinset_platformNames (mode : GroupBy) (nodes : OrdMap String NodeState) :
    (platformNames mode nodes).toFinset = groups mode nodes := by
  ext g
  rw [List.mem_toFinset, mem_platformNames, mem_groups]

theorem length_members (mode : GroupBy) (nodes : OrdMap String NodeState) (g : String) :
    (members mode g nodes.values).length = size mode nodes g := by
  rw [members, List.length_map, size, List.countP_eq_length_filter]

/-- The ring that is long enough for the platforms as large as they are. -/
noncomputable def crowdedRing (mode : GroupBy) (nodes : OrdMap String NodeState) : ℝ :=
  1.6 / Real.pi * ∑ g ∈ groups mode nodes, (2.2 + 0.7 * √(size mode nodes g : ℝ))

/-- The ring that is long enough for so many platforms. -/
noncomputable def roomyRing (mode : GroupBy) (nodes : OrdMap String NodeState) : ℝ :=
  max 10.0 (3.5 * ((groups mode nodes).card : ℝ))

/-- **The radius of the ring is what the crowd needs or what is left for room**, whichever is more.
-/
theorem ringOf_real (localeCompare : String → String → Int) (mode : GroupBy)
    (nodes : OrdMap String NodeState) : ringOf Math.real localeCompare mode nodes
      = max (crowdedRing mode nodes) (roomyRing mode nodes) := by
  have hsum : ((plan localeCompare mode nodes).groups.map fun g =>
      platformRadius Math.real g.2.length).sum
        = ∑ g ∈ groups mode nodes, (2.2 + 0.7 * √(size mode nodes g : ℝ)) := by
    rw [← toFinset_platformNames, plan_groups, List.map_map,
      List.sum_toFinset _ nodup_platformNames]
    refine congrArg List.sum (List.map_congr_left fun g _ => ?_)
    show platformRadius Math.real (CodeUnits.sort _).length = _
    rw [CodeUnits.sort, Sorting.length_sort, length_members]
    rfl
  have hcard : (plan localeCompare mode nodes).groups.length = (groups mode nodes).card := by
    rw [← toFinset_platformNames, List.toFinset_card_of_nodup nodup_platformNames, plan_groups,
      List.length_map]
  -- the sum of the diameters, spread over the circle
  have harc : ∀ x : ℝ, x * 2 * 1.6 / (2 * Real.pi) = 1.6 / Real.pi * x := by
    intro x
    have hpi : Real.pi ≠ 0 := Real.pi_ne_zero
    field_simp
  have hten : (10.0 : ℝ) = 10 := by norm_num
  rw [ringOf, Flowscape.ringRadius, hsum, hcard, crowdedRing, roomyRing, hten, ← harc,
    max_left_comm, ← max_assoc]
  rfl

section

variable {mode : GroupBy} {nodes : OrdMap String NodeState} {n : NodeState} (hnew : n.id ∉ nodes)
include hnew

/-- A new workload is one more in its own group. -/
theorem size_set (hrole : roleOf n = .workload) (g : String) :
    size mode (nodes.set n.id n) g
      = size mode nodes g + if groupOf mode n = g then 1 else 0 := by
  rw [size, values_set hnew, List.countP_append, size]
  by_cases hg : groupOf mode n = g <;> simp [hrole, hg]

variable (hgroup : groupOf mode n ∈ groups mode nodes)
include hgroup

theorem groups_set : groups mode (nodes.set n.id n) = groups mode nodes := by
  rw [← toFinset_platformNames, ← toFinset_platformNames, platformNames_set hnew]
  rwa [← List.mem_toFinset, toFinset_platformNames]

variable (hrole : roleOf n = .workload)
include hrole

/-- A platform with one more workload needs more room. -/
theorem crowdedRing_lt : crowdedRing mode nodes < crowdedRing mode (nodes.set n.id n) := by
  have hpos : (0 : ℝ) < 1.6 / Real.pi := div_pos (by norm_num) Real.pi_pos
  rw [crowdedRing, crowdedRing, groups_set hnew hgroup]
  refine mul_lt_mul_of_pos_left (Finset.sum_lt_sum (fun g _ => ?_) ⟨_, hgroup, ?_⟩) hpos
  · have hsize : size mode nodes g ≤ size mode (nodes.set n.id n) g := by
      rw [size_set hnew hrole]
      exact Nat.le_add_right _ _
    have hsqrt := Real.sqrt_le_sqrt (Nat.cast_le (α := ℝ).2 hsize)
    linarith
  · have hsize : size mode nodes (groupOf mode n)
        < size mode (nodes.set n.id n) (groupOf mode n) := by
      rw [size_set hnew hrole, if_pos rfl]
      exact Nat.lt_succ_self _
    -- its own disc grows, and the others stay
    have hsqrt := Real.sqrt_lt_sqrt (Nat.cast_nonneg _) (Nat.cast_lt (α := ℝ).2 hsize)
    linarith

/-- **The ring stays** when it need not be longer for what is on the platforms. -/
theorem ringOf_eq_iff (localeCompare : String → String → Int) :
    ringOf Math.real localeCompare mode (nodes.set n.id n)
      = ringOf Math.real localeCompare mode nodes ↔
    crowdedRing mode (nodes.set n.id n) ≤ roomyRing mode nodes := by
  have hlt := crowdedRing_lt hnew hgroup hrole
  rw [ringOf_real, ringOf_real, roomyRing, groups_set hnew hgroup, ← roomyRing]
  constructor
  · intro heq
    by_contra hnot
    -- the ring is the crowded one then, which has grown
    rw [max_eq_left (not_le.1 hnot).le] at heq
    rcases max_choice (crowdedRing mode nodes) (roomyRing mode nodes) with h | h
    · exact absurd (heq.trans h) hlt.ne'
    · exact absurd (heq.trans h).le hnot
  · intro hle
    rw [max_eq_right hle, max_eq_right (hlt.le.trans hle)]

end

/-! ## The other platforms -/

/-- Every platform but one stands where it stood, as large and with its workloads where they
were. -/
def OthersStay {K : Type*} (before after : Layout K) (moved : String) : Prop :=
  ∀ g p, g ≠ moved → before.platforms.get? g = some p →
    ∃ p', after.platforms.get? g = some p' ∧ p'.center = p.center ∧ p'.radius = p.radius ∧
      ∀ id ∈ p.nodes, after.targets.get? id = before.targets.get? id

/-- The target of a workload is its place on the platform. -/
theorem get?_targets_workload {K : Type*} [Field K] [LinearOrder K] (M : Math K) (L : Layout K)
    {pl : Plan} (hnd : pl.ids.Nodup) {p : Platform K} (hp : p ∈ platformList M L.groupBy pl)
    {k : Nat} {id : String} (h : p.nodes[k]? = some id) :
    (L.draw M pl).targets.get? id = some (workloadSpot M p k) := by
  rw [← OrdMap.mem_entries, entries_targets M L hnd]
  refine List.mem_append_left _ (List.mem_append_left _ (List.mem_append_left _
    (List.mem_append_left _ (List.mem_flatMap.2 ⟨p, hp, ?_⟩))))
  apply List.mem_of_getElem? (i := k)
  rw [workloadSpots, List.getElem?_mapIdx, h]
  rfl

/-- A place on a circle tells the radius. -/
theorem onCircle_real_inj {angle r r' y : ℝ}
    (h : onCircle Math.real angle r y = onCircle Math.real angle r' y) : r = r' := by
  have hx : Real.cos angle * r = Real.cos angle * r' := congrArg Vec3.x h
  have hz : Real.sin angle * r = Real.sin angle * r' := congrArg Vec3.z h
  have hone := Real.sin_sq_add_cos_sq angle
  calc r = (Real.sin angle ^ 2 + Real.cos angle ^ 2) * r := by rw [hone, one_mul]
    _ = Real.sin angle * (Real.sin angle * r) + Real.cos angle * (Real.cos angle * r) := by ring
    _ = Real.sin angle * (Real.sin angle * r') + Real.cos angle * (Real.cos angle * r') := by
        rw [hx, hz]
    _ = (Real.sin angle ^ 2 + Real.cos angle ^ 2) * r' := by ring
    _ = r' := by rw [hone, one_mul]

section

variable (localeCompare : String → String → Int) (L : Layout ℝ)
  {nodes : OrdMap String NodeState}

theorem get?_targets_rebuild (hkeyed : Keyed nodes) {g : String} {p : Platform ℝ}
    (hp : (L.rebuild Math.real localeCompare nodes).platforms.get? g = some p) {k : Nat}
    {id : String} (h : p.nodes[k]? = some id) :
    (L.rebuild Math.real localeCompare nodes).targets.get? id
      = some (workloadSpot Math.real p k) := by
  have hnames : ((plan localeCompare L.groupBy nodes).groups.map Prod.fst).Nodup :=
    nodup_plan_names localeCompare L.groupBy
  exact get?_targets_workload Math.real L (nodup_plan_ids localeCompare L.groupBy hkeyed)
    ((get?_platforms Math.real L hnames).1 hp).1 h

variable {n : NodeState} (hnew : n.id ∉ nodes)
  (hgroup : groupOf L.groupBy n ∈ groups L.groupBy nodes)
include hnew hgroup

/-- The new workload leaves the index of a platform. -/
theorem platformNames_groups :
    platformNames L.groupBy (nodes.set n.id n) = platformNames L.groupBy nodes := by
  apply platformNames_set hnew
  rwa [← List.mem_toFinset, toFinset_platformNames]

/-- On the same ring the other platforms are the same. -/
theorem get?_platforms_of_ring
    (hring : ringOf Math.real localeCompare L.groupBy (nodes.set n.id n)
      = ringOf Math.real localeCompare L.groupBy nodes) {g : String} {p : Platform ℝ}
    (hne : g ≠ groupOf L.groupBy n)
    (hp : (L.rebuild Math.real localeCompare nodes).platforms.get? g = some p) :
    (L.rebuild Math.real localeCompare (nodes.set n.id n)).platforms.get? g = some p := by
  obtain ⟨i, hi, rfl⟩ := (get?_platforms_rebuild Math.real localeCompare L).1 hp
  refine (get?_platforms_rebuild Math.real localeCompare L).2 ⟨i, ?_, ?_⟩
  · rwa [platformNames_groups L hnew hgroup]
  · rw [platformNames_groups L hnew hgroup, hring, members_set_of_ne hnew hne.symm]

/-- A platform that stays has kept the ring. -/
theorem ringOf_of_center {g : String} {p p' : Platform ℝ}
    (hp : (L.rebuild Math.real localeCompare nodes).platforms.get? g = some p)
    (hp' : (L.rebuild Math.real localeCompare (nodes.set n.id n)).platforms.get? g = some p')
    (hcenter : p'.center = p.center) :
    ringOf Math.real localeCompare L.groupBy (nodes.set n.id n)
      = ringOf Math.real localeCompare L.groupBy nodes := by
  obtain ⟨i, hi, rfl⟩ := (get?_platforms_rebuild Math.real localeCompare L).1 hp
  obtain ⟨j, hj, rfl⟩ := (get?_platforms_rebuild Math.real localeCompare L).1 hp'
  rw [platformNames_groups L hnew hgroup] at hj hcenter
  have hij : i = j := by
    obtain ⟨hlt, hat⟩ := List.getElem?_eq_some_iff.1 hi
    obtain ⟨hlt', hat'⟩ := List.getElem?_eq_some_iff.1 hj
    exact (nodup_platformNames.getElem_inj_iff).1 (hat.trans hat'.symm)
  -- the two centers are at one angle, as neither the index nor the count has changed
  rw [← hij] at hcenter
  exact onCircle_real_inj hcenter

/-- The others stay when there are none on other platforms, or when the ring stays. -/
theorem othersStay_iff_ring (hkeyed : Keyed nodes) :
    OthersStay (L.rebuild Math.real localeCompare nodes)
      (L.rebuild Math.real localeCompare (nodes.set n.id n)) (groupOf L.groupBy n) ↔
    groups L.groupBy nodes = {groupOf L.groupBy n} ∨
      ringOf Math.real localeCompare L.groupBy (nodes.set n.id n)
        = ringOf Math.real localeCompare L.groupBy nodes := by
  have hexists : ∀ {g}, (∃ p, (L.rebuild Math.real localeCompare nodes).platforms.get? g = some p) ↔
      g ∈ groups L.groupBy nodes := by
    intro g
    rw [exists_platform_iff, ← toFinset_platformNames, List.mem_toFinset]
  constructor
  · intro hstay
    -- one other platform that stays is enough to read the ring off
    by_cases hone : ∀ g ∈ groups L.groupBy nodes, g = groupOf L.groupBy n
    · exact Or.inl (Finset.eq_singleton_iff_unique_mem.2 ⟨hgroup, hone⟩)
    · simp only [not_forall] at hone
      obtain ⟨g, hg, hne⟩ := hone
      obtain ⟨p, hp⟩ := hexists.2 hg
      obtain ⟨p', hp', hcenter, -⟩ := hstay g p hne hp
      exact Or.inr (ringOf_of_center localeCompare L hnew hgroup hp hp' hcenter)
  · rintro (hone | hring) g p hne hp
    · have hg := hexists.1 ⟨p, hp⟩
      rw [hone, Finset.mem_singleton] at hg
      exact absurd hg hne
    · have hp' := get?_platforms_of_ring localeCompare L hnew hgroup hring hne hp
      refine ⟨p, hp', rfl, rfl, fun id hid => ?_⟩
      obtain ⟨k, hk⟩ := List.mem_iff_getElem?.1 hid
      rw [get?_targets_rebuild localeCompare L hkeyed hp hk,
        get?_targets_rebuild localeCompare L (hkeyed.set n) hp' hk]

end

/-- **A new workload moves no other platform** exactly when there is none, or when the ring need
not be longer for what is on the platforms then. -/
theorem othersStay_iff (localeCompare : String → String → Int) (L : Layout ℝ)
    {nodes : OrdMap String NodeState} (hkeyed : Keyed nodes) {n : NodeState}
    (hnew : n.id ∉ nodes) (hns : n.ns ≠ "reserved")
    (hgroup : groupOf L.groupBy n ∈ groups L.groupBy nodes) :
    OthersStay (L.rebuild Math.real localeCompare nodes)
      (L.rebuild Math.real localeCompare (nodes.set n.id n)) (groupOf L.groupBy n) ↔
    groups L.groupBy nodes = {groupOf L.groupBy n} ∨
      crowdedRing L.groupBy (nodes.set n.id n) ≤ roomyRing L.groupBy nodes := by
  rw [othersStay_iff_ring localeCompare L hnew hgroup hkeyed,
    ringOf_eq_iff hnew hgroup (roleOf_workload.2 hns)]

/-! ## A crowded platform -/

/-- A platform of one workload, and one of so many. -/
def crowd (k : Nat) : List NodeState :=
  plainNode "b/Deployment/y" "b" "Deployment" "y" "" ::
    (List.range k).map fun i =>
      plainNode ("a/Deployment/" ++ toString i) "a" "Deployment" (toString i) ""

/-- A second workload for `b`. -/
def second : NodeState := plainNode "b/Deployment/z" "b" "Deployment" "z" ""

theorem crowd_id_injective : Function.Injective fun i : Nat => "a/Deployment/" ++ toString i := by
  intro i j h
  refine Text.eq_of_toString_eq (String.toList_inj.1 ?_)
  have hlist := congrArg String.toList h
  simpa using hlist

theorem crowd_id_ne {s : String} (h : s.toList.head? = some 'b') (i : Nat) :
    "a/Deployment/" ++ toString i ≠ s := by
  rintro rfl
  simp at h

theorem nodup_crowd (k : Nat) : ((crowd k).map (·.id)).Nodup := by
  rw [crowd, List.map_cons, List.map_map, List.nodup_cons]
  refine ⟨fun h => ?_, List.nodup_range.map crowd_id_injective⟩
  obtain ⟨i, -, hi⟩ := List.mem_map.1 h
  exact crowd_id_ne (by decide) i hi

theorem second_not_mem (k : Nat) : second.id ∉ ofNodes (crowd k) := by
  intro h
  obtain ⟨n, hget⟩ := OrdMap.mem_iff.1 h
  have hid := keyed_ofNodes (crowd k) _ n hget
  rcases List.mem_cons.1 (mem_of_get?_ofNodes hget) with rfl | hn
  · exact absurd hid (by decide)
  · obtain ⟨i, -, rfl⟩ := List.mem_map.1 hn
    exact crowd_id_ne (by decide) i hid

/-- The crowd has two groups. -/
theorem groups_crowd {k : Nat} (hk : 0 < k) : groups .ns (ofNodes (crowd k)) = {"a", "b"} := by
  ext g
  rw [mem_groups, values_ofNodes (nodup_crowd k), Finset.mem_insert, Finset.mem_singleton]
  constructor
  · rintro ⟨n, hn, -, rfl⟩
    rcases List.mem_cons.1 hn with rfl | hn
    · exact Or.inr rfl
    · obtain ⟨i, -, rfl⟩ := List.mem_map.1 hn
      exact Or.inl rfl
  · rintro (rfl | rfl)
    · exact ⟨_, List.mem_cons_of_mem _ (List.mem_map_of_mem (List.mem_range.2 hk)),
        roleOf_workload.2 (show "a" ≠ "reserved" by decide), rfl⟩
    · exact ⟨_, List.mem_cons_self, roleOf_workload.2 (show "b" ≠ "reserved" by decide), rfl⟩

theorem size_crowd (k : Nat) (g : String) : size .ns (ofNodes (crowd k)) g
    = (if g = "a" then k else 0) + if g = "b" then 1 else 0 := by
  rw [size, values_ofNodes (nodup_crowd k), crowd, List.countP_cons, List.countP_map]
  by_cases ha : g = "a"
  · simp [ha, plainNode, roleOf_workload, groupOf, Function.comp_def]
  · simp [ha, plainNode, roleOf_workload, groupOf, Function.comp_def, @eq_comm _ _ g]

/-- What the crowd needs with the second of `b`. -/
theorem crowdedRing_crowd {k : Nat} (hk : 0 < k) :
    crowdedRing .ns ((ofNodes (crowd k)).set second.id second)
      = 1.6 / Real.pi * ((2.2 + 0.7 * √(k : ℝ)) + (2.2 + 0.7 * √2)) := by
  have hgroup : groupOf .ns second ∈ groups .ns (ofNodes (crowd k)) := by
    rw [groups_crowd hk]
    decide
  rw [crowdedRing, groups_set (second_not_mem k) hgroup, groups_crowd hk,
    Finset.sum_pair (by decide), size_set (second_not_mem k) (by decide),
    size_set (second_not_mem k) (by decide), size_crowd, size_crowd]
  norm_num [second, plainNode, groupOf, show "b" ≠ "a" by decide]

theorem roomyRing_crowd {k : Nat} (hk : 0 < k) : roomyRing .ns (ofNodes (crowd k)) = 10 := by
  rw [roomyRing, groups_crowd hk, Finset.card_pair (by decide)]
  norm_num

/-- The condition of the layout's own test: two platforms, a few workloads. -/
theorem othersStay_pair : OthersStay (new.rebuild Math.real CodeUnits.cmp (ofNodes (crowd 1)))
    (new.rebuild Math.real CodeUnits.cmp ((ofNodes (crowd 1)).set second.id second)) "b" := by
  have hgroup : groupOf .ns second ∈ groups .ns (ofNodes (crowd 1)) := by
    rw [groups_crowd one_pos]
    decide
  refine (othersStay_iff CodeUnits.cmp new (keyed_ofNodes (crowd 1)) (second_not_mem 1)
    (by decide) hgroup).2 (Or.inr ?_)
  show crowdedRing .ns _ ≤ roomyRing .ns _
  have hsqrt : √(2 : ℝ) ≤ 2 := Real.sqrt_le_iff.2 (by norm_num)
  have hpi := Real.pi_gt_three
  rw [crowdedRing_crowd one_pos, roomyRing_crowd one_pos, div_mul_eq_mul_div,
    div_le_iff₀ Real.pi_pos, Nat.cast_one, Real.sqrt_one]
  linarith

/-- Beside 441 workloads in `a`, a second one in `b` makes the ring longer. -/
theorem not_othersStay : ¬ ∀ (L : Layout ℝ) (nodes : OrdMap String NodeState) (n : NodeState),
    Keyed nodes → n.id ∉ nodes → n.ns ≠ "reserved" →
      (∃ m ∈ nodes.values, m.ns ≠ "reserved" ∧ groupOf L.groupBy m = groupOf L.groupBy n) →
      OthersStay (L.rebuild Math.real CodeUnits.cmp nodes)
        (L.rebuild Math.real CodeUnits.cmp (nodes.set n.id n)) (groupOf L.groupBy n) := by
  intro h
  have hpos : 0 < 441 := by decide
  have hgroup : groupOf .ns second ∈ groups .ns (ofNodes (crowd 441)) := by
    rw [groups_crowd hpos]
    decide
  obtain ⟨m, hm, hrole, hgm⟩ := mem_groups.1 hgroup
  have hstay := h new (ofNodes (crowd 441)) second (keyed_ofNodes _) (second_not_mem 441)
    (by decide) ⟨m, hm, roleOf_workload.1 hrole, hgm⟩
  rcases (othersStay_iff_ring CodeUnits.cmp new (second_not_mem 441) hgroup
    (keyed_ofNodes _)).1 hstay with hone | hring
  · have hne : ({"a", "b"} : Finset String) ≠ {"b"} := by decide
    exact hne ((groups_crowd hpos).symm.trans hone)
  · have hle : crowdedRing .ns _ ≤ roomyRing .ns _ :=
      (ringOf_eq_iff (second_not_mem 441) hgroup (by decide) CodeUnits.cmp).1 hring
    -- 441 is the first square for which 1.6/π * (4.4 + 0.7 * (√k + √2)) is over 10
    have hsqrt : √((441 : ℕ) : ℝ) = 21 := by
      rw [show ((441 : ℕ) : ℝ) = 21 ^ 2 by norm_num]
      exact Real.sqrt_sq (by norm_num)
    have hone : 1 ≤ √(2 : ℝ) := Real.one_le_sqrt.2 (by norm_num)
    have hpi := Real.pi_lt_d2
    rw [crowdedRing_crowd hpos, roomyRing_crowd hpos, div_mul_eq_mul_div,
      div_le_iff₀ Real.pi_pos, hsqrt] at hle
    linarith

end Layout

end Flowscape
