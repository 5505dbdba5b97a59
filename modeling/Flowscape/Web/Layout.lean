import Mathlib.Algebra.Order.Field.Basic
import Mathlib.Analysis.SpecialFunctions.Trigonometric.Basic
import Mathlib.Data.Prod.Lex
import Mathlib.Data.Rat.Cast.OfScientific
import Flowscape.Lib.Loop
import Flowscape.Lib.Sorting
import Flowscape.Web.GraphState

/-!
# Flowscape: where everything stands (`web/src/layout.ts`)

`Layout.rebuild` splits the nodes over five lists: the workloads of every platform, the reserved
entities, the machines, and the names outside of the cluster. It sorts each of them and gives
every node a place after its index.

* Numbers are exact: an ordered field, with `Math` as a parameter.
* The lists are sorted first, into a `Plan`, and drawn then. The source sorts each one right
  before it goes through it.
* `localeCompare` is the one of the browser, a parameter.
-/

namespace Flowscape

open CodeUnits

/-! ## Source definitions -/

/-- A point of the scene. -/
structure Vec3 (K : Type*) where
  x : K
  y : K
  z : K

/-- What a platform stands for. -/
inductive GroupBy where
  | ns
  | machine
deriving DecidableEq

/-- A disc with the workloads on it. -/
structure Platform (K : Type*) where
  /-- Namespace name or machine name, depending on the mode. -/
  group : String
  kind : GroupBy
  center : Vec3 K
  radius : K
  angle : K
  nodes : List String

/-- What the layout takes from `Math`. -/
structure Math (K : Type*) where
  pi : K
  sqrt : K → K
  cos : K → K
  sin : K → K

/-- Exact real arithmetic. -/
noncomputable def Math.real : Math ℝ where
  pi := Real.pi
  sqrt := Real.sqrt
  cos := Real.cos
  sin := Real.sin

/-- Where everything is. -/
structure Layout (K : Type*) where
  platforms : OrdMap String (Platform K)
  targets : OrdMap String (Vec3 K)
  groupBy : GroupBy
  ringRadius : K
  outerRadius : K
  maxWorld : Nat

/-- `UNPLACED` -/
def unplaced : String := "unplaced"

/-- `groupOf`: the platform a workload belongs to in a mode. -/
def groupOf (mode : GroupBy) (n : NodeState) : String :=
  match mode with
  | .ns => n.ns
  | .machine => if n.machine = "" then unplaced else n.machine

/-! ### The lists -/

/-- The list that a node goes to. -/
inductive Role where
  | workload
  | world
  | machine
  | reserved
deriving DecidableEq

/-- What decides where a node goes. -/
def roleOf (n : NodeState) : Role :=
  if n.ns = "reserved" then
    if n.kind = "world" then .world
    else if n.kind = "node" ∨ n.kind = "host" ∨ n.kind = "remote-node" then .machine
    else .reserved
  else .workload

/-- The nodes by where they go. -/
structure Parts where
  byGroup : OrdMap String (List String)
  reserved : List String
  machines : List String
  world : List String

/-- The body of the loop over the nodes. -/
def Parts.add (mode : GroupBy) (p : Parts) (n : NodeState) : Parts :=
  match roleOf n with
  | .world => { p with world := p.world ++ [n.id] }
  | .machine => { p with machines := p.machines ++ [n.id] }
  | .reserved => { p with reserved := p.reserved ++ [n.id] }
  | .workload => { p with byGroup := p.byGroup.push (groupOf mode n) n.id }

/-- The loop over the nodes: each goes to its part. -/
def parts (mode : GroupBy) (nodes : OrdMap String NodeState) : Parts :=
  nodes.values.foldl (Parts.add mode) ⟨∅, [], [], []⟩

/-- The comparator of the platforms' names. -/
def compareGroups (a b : String) : Int :=
  if a = unplaced then 1 else if b = unplaced then -1 else if units a < units b then -1 else 1

/-- The names of the platforms, in their order. -/
def platformNames (mode : GroupBy) (nodes : OrdMap String NodeState) : List String :=
  Sorting.sort compareGroups (parts mode nodes).byGroup.keys

/-- The lists in the order in which the nodes are placed. -/
@[ext]
structure Plan where
  /-- The platforms' names with their workloads. -/
  groups : List (String × List String)
  /-- The reserved entities with their kinds. -/
  reserved : List (String × String)
  machines : List String
  world : List String

/-- `nodes.get(id)!.kind`. The ids of the lists are found in a map that is keyed by id. -/
def kindOf (nodes : OrdMap String NodeState) (id : String) : String :=
  ((nodes.get? id).map (·.kind)).getD ""

/-- `nodes.get(id)!.name` -/
def nameOf (nodes : OrdMap String NodeState) (id : String) : String :=
  ((nodes.get? id).map (·.name)).getD ""

/-- What the layout is made from: names and orders, and no coordinates. -/
def plan (localeCompare : String → String → Int) (mode : GroupBy)
    (nodes : OrdMap String NodeState) : Plan :=
  let p := parts mode nodes
  { groups := (platformNames mode nodes).map fun g =>
      (g, CodeUnits.sort ((p.byGroup.get? g).getD []))
    reserved := (CodeUnits.sort p.reserved).map fun id => (id, kindOf nodes id)
    machines := Sorting.sort (fun a b => localeCompare (nameOf nodes a) (nameOf nodes b)) p.machines
    world := CodeUnits.sort p.world }

/-! ### The places -/

section Places

variable {K : Type*} [Field K] [LinearOrder K] (M : Math K)

/-- `GOLDEN` -/
def golden : K := M.pi * (3 - M.sqrt 5)

/-- `reservedAngles`: the fixed angles on the outer ring, world in front.

The source looks them up in a plain object, which also has the names that every object inherits
(`constructor`, `toString`). For such a kind it would find a function instead of an angle, and the
place would be no number. Here such a kind stands where all others do that have no fixed angle. It
makes no difference to the keys of the places, nor to any list or order. -/
def reservedAngles (kind : String) : Option K :=
  if kind = "world" then some (M.pi / 2)
  else if kind = "ingress" then some (M.pi / 2 - 0.6)
  else if kind = "kube-apiserver" then some (-M.pi / 2)
  else none

/-- The point of a circle around the middle. -/
def onCircle (angle r y : K) : Vec3 K := ⟨M.cos angle * r, y, M.sin angle * r⟩

/-- The radius of a platform with so many workloads. -/
def platformRadius (n : Nat) : K := 2.2 + 0.7 * M.sqrt n

/-- Ring long enough that neighbouring platforms keep a gap. -/
def ringRadius (pl : Plan) : K :=
  let sumRadius := (pl.groups.map fun g => platformRadius M g.2.length).sum
  max (max 10 ((sumRadius * 2 * 1.6) / (2 * M.pi))) (3.5 * (pl.groups.length : K))

/-- The platform at index `i` of `count`. -/
def platformAt (mode : GroupBy) (ring : K) (count i : Nat) (g : String × List String) :
    Platform K :=
  let angle := (i / max (count : K) 1) * M.pi * 2 + M.pi / count
  { group := g.1
    kind := mode
    center := onCircle M angle ring 0
    radius := platformRadius M g.2.length
    angle := angle
    nodes := g.2 }

/-- The sunflower spiral on a platform. -/
def workloadSpot (p : Platform K) (k : Nat) : Vec3 K :=
  let n := p.nodes.length
  let rr := if n = 1 then 0 else (p.radius - 0.6) * M.sqrt ((k + 0.5) / n)
  let th := k * golden M + p.angle
  ⟨p.center.x + M.cos th * rr, 0.18, p.center.z + M.sin th * rr⟩

/-- The place of a reserved entity at index `i`. -/
def reservedSpot (outer : K) (i : Nat) (kind : String) : Vec3 K :=
  onCircle M ((reservedAngles M kind).getD (M.pi + i * 0.5)) outer 0.6

/-- The machines fan out at the back, either side of the API server. -/
def machineSpot (outer : K) (n i : Nat) : Vec3 K :=
  let mSpread := min 2.2 (0.32 * (n : K))
  let t : K := if n = 1 then 0.5 else i / (n - 1)
  let side : K := if t < 0.5 then -1 else 1
  onCircle M (-M.pi / 2 + side * (0.45 + |t - 0.5| * mSpread)) (outer + 1.5) 0.6

/-- Wide fan in front, alternating radii, so the labels do not stack. -/
def worldSpot (outer : K) (n i : Nat) : Vec3 K :=
  let spread := min 2.4 (0.22 * (n : K))
  let t : K := if n = 1 then 0 else i / (n - 1) - 0.5
  onCircle M (M.pi / 2 + t * spread) (outer + 2.5 + (i % 3 : Nat) * 2) (0.6 + (i % 2 : Nat) * 0.8)

/-- Where the names stand that the fan does not show. -/
def overflowSpot (outer : K) : Vec3 K := ⟨0, 0.6, outer + 6⟩

end Places

namespace Layout

variable {K : Type*} [Field K] [LinearOrder K]

/-- A new layout, whose targets nobody has asked for yet. -/
def new : Layout K where
  platforms := ∅
  targets := ∅
  groupBy := .ns
  ringRadius := 14
  outerRadius := 24
  maxWorld := 24

/-- The platforms of a plan, in their order. -/
def platformList (M : Math K) (mode : GroupBy) (pl : Plan) : List (Platform K) :=
  pl.groups.mapIdx (platformAt M mode (Flowscape.ringRadius M pl) pl.groups.length)

/-- The places of the workloads of a platform. -/
def workloadSpots (M : Math K) (p : Platform K) : List (String × Vec3 K) :=
  p.nodes.mapIdx fun k id => (id, workloadSpot M p k)

/-- Every call of `targets.set`, in order. -/
def spots (M : Math K) (mode : GroupBy) (maxWorld : Nat) (pl : Plan) : List (String × Vec3 K) :=
  let outer := Flowscape.ringRadius M pl + 9
  let shown := pl.world.take maxWorld
  (platformList M mode pl).flatMap (workloadSpots M) ++
    pl.reserved.map (fun r =>
      (r.1, reservedSpot M outer ((pl.reserved.map Prod.fst).idxOf r.1) r.2)) ++
    pl.machines.mapIdx (fun i id => (id, machineSpot M outer pl.machines.length i)) ++
    shown.mapIdx (fun i id => (id, worldSpot M outer shown.length i)) ++
    (pl.world.drop maxWorld).map (fun id => (id, overflowSpot outer))

/-- The part of `rebuild` after the lists. -/
def draw (M : Math K) (L : Layout K) (pl : Plan) : Layout K :=
  { L with
    ringRadius := Flowscape.ringRadius M pl
    outerRadius := Flowscape.ringRadius M pl + 9
    platforms := (∅ : OrdMap String (Platform K)).setAll
      ((platformList M L.groupBy pl).map fun p => (p.group, p))
    targets := (∅ : OrdMap String (Vec3 K)).setAll (spots M L.groupBy L.maxWorld pl) }

/-- `rebuild` -/
def rebuild (M : Math K) (localeCompare : String → String → Int) (L : Layout K)
    (nodes : OrdMap String NodeState) : Layout K :=
  L.draw M (plan localeCompare L.groupBy nodes)

/-- `control`: Bézier control point, cross-platform arcs lift with distance. -/
def control (M : Math K) (a b : Vec3 K) (samePlatform : Bool) : Vec3 K :=
  let dx := b.x - a.x
  let dz := b.z - a.z
  let dist := M.sqrt (dx * dx + dz * dz)
  { x := (a.x + b.x) / 2
    z := (a.z + b.z) / 2
    y := (a.y + b.y) / 2 + if samePlatform then 0.35 + dist * 0.15 else 2 + dist * 0.16 }

end Layout

/-- A node that nothing is known of but its key and its machine. -/
def plainNode (id ns kind name machine : String) : NodeState where
  id := id
  ns := ns
  kind := kind
  name := name
  fqdn := ""
  machine := machine
  labels := ∅
  first := 0
  last := 0
  edges := ∅

/-! ## What is in the lists -/

/-- Every node is stored under its id. -/
def Keyed (nodes : OrdMap String NodeState) : Prop :=
  ∀ id n, nodes.get? id = some n → n.id = id

theorem keyed_empty : Keyed ∅ := by
  intro id n h
  cases h

theorem Keyed.set {nodes : OrdMap String NodeState} (h : Keyed nodes) (n : NodeState) :
    Keyed (nodes.set n.id n) := by
  intro id n' hget
  rcases OrdMap.get?_set_eq_some.1 hget with ⟨rfl, rfl⟩ | ⟨-, hget⟩
  · rfl
  · exact h id n' hget

/-- The map of a list of nodes. -/
def ofNodes (l : List NodeState) : OrdMap String NodeState := l.foldl (fun m n => m.set n.id n) ∅

theorem keyed_ofNodes (l : List NodeState) : Keyed (ofNodes l) :=
  Loop.foldl_keeps (fun _ n h => h.set n) keyed_empty

/-- Nodes with different ids are kept in order. -/
theorem values_ofNodes {l : List NodeState} (hnd : (l.map (·.id)).Nodup) :
    (ofNodes l).values = l := by
  have hset : ofNodes l = (∅ : OrdMap String NodeState).setAll (l.map fun n => (n.id, n)) := by
    rw [OrdMap.setAll, List.foldl_map]
    rfl
  have hkeys : ((l.map fun n => (n.id, n)).map Prod.fst).Nodup := by
    rwa [List.map_map]
  rw [hset, OrdMap.values, OrdMap.entries_setAll_empty hkeys, List.map_map]
  exact List.map_id l

/-- What is found was in the list. -/
theorem mem_of_get?_ofNodes {l : List NodeState} {id : String} {n : NodeState}
    (h : (ofNodes l).get? id = some n) : n ∈ l := by
  -- what the loop finds came in a round or was there before
  have hfold : ∀ (l : List NodeState) (m : OrdMap String NodeState),
      (l.foldl (fun m n => m.set n.id n) m).get? id = some n → n ∈ l ∨ m.get? id = some n := by
    intro l
    induction l with
    | nil => exact fun m h => Or.inr h
    | cons n' rest ih =>
      intro m h
      rcases ih _ h with hmem | hget
      · exact Or.inl (List.mem_cons_of_mem n' hmem)
      · rcases OrdMap.get?_set_eq_some.1 hget with ⟨-, rfl⟩ | ⟨-, hget⟩
        · exact Or.inl List.mem_cons_self
        · exact Or.inr hget
  exact (hfold l ∅ h).resolve_right nofun

/-- The ids of the nodes with a role, in the order of the map. -/
def idsOf (r : Role) (l : List NodeState) : List String :=
  (l.filter fun n => roleOf n = r).map (·.id)

/-- What the loop over the nodes makes of its lists. -/
theorem foldl_add (mode : GroupBy) (l : List NodeState) (p : Parts) :
    l.foldl (Parts.add mode) p
      = { byGroup := p.byGroup.pushAll (groupOf mode) (·.id)
            (l.filter fun n => roleOf n = .workload)
          reserved := p.reserved ++ idsOf .reserved l
          machines := p.machines ++ idsOf .machine l
          world := p.world ++ idsOf .world l } := by
  induction l generalizing p with
  | nil => simp [idsOf, OrdMap.pushAll]
  | cons n rest ih =>
    rw [List.foldl_cons, ih]
    cases h : roleOf n <;> simp [Parts.add, idsOf, h, OrdMap.pushAll]

theorem parts_reserved (mode : GroupBy) (nodes : OrdMap String NodeState) :
    (parts mode nodes).reserved = idsOf .reserved nodes.values := by
  rw [parts, foldl_add]
  rfl

theorem parts_machines (mode : GroupBy) (nodes : OrdMap String NodeState) :
    (parts mode nodes).machines = idsOf .machine nodes.values := by
  rw [parts, foldl_add]
  rfl

theorem parts_world (mode : GroupBy) (nodes : OrdMap String NodeState) :
    (parts mode nodes).world = idsOf .world nodes.values := by
  rw [parts, foldl_add]
  rfl

/-- The workloads of a platform, in the order of the map. -/
def members (mode : GroupBy) (g : String) (l : List NodeState) : List String :=
  (l.filter fun n => roleOf n = .workload ∧ groupOf mode n = g).map (·.id)

theorem parts_byGroup (mode : GroupBy) (nodes : OrdMap String NodeState) (g : String) :
    ((parts mode nodes).byGroup.get? g).getD [] = members mode g nodes.values := by
  rw [parts, foldl_add]
  refine OrdMap.get?_pushAll.trans ?_
  simp [members, List.filter_filter, and_comm]

theorem mem_parts_byGroup {mode : GroupBy} {nodes : OrdMap String NodeState} {g : String} :
    g ∈ (parts mode nodes).byGroup ↔
      ∃ n ∈ nodes.values, roleOf n = .workload ∧ groupOf mode n = g := by
  rw [parts, foldl_add]
  apply OrdMap.mem_pushAll.trans
  simp [and_assoc]

namespace Keyed

variable {nodes : OrdMap String NodeState}

/-- A node is there when it is under its id. -/
theorem mem_values (h : Keyed nodes) {n : NodeState} :
    n ∈ nodes.values ↔ nodes.get? n.id = some n := by
  constructor
  · intro hn
    obtain ⟨id, hget⟩ := OrdMap.mem_values.1 hn
    have hid : n.id = id := h id n hget
    exact hid ▸ hget
  · exact OrdMap.mem_values_of_get?

/-- The ids of the values are the keys. -/
theorem map_id_values (h : Keyed nodes) : nodes.values.map (·.id) = nodes.keys := by
  rw [OrdMap.values, OrdMap.keys, List.map_map]
  apply List.map_congr_left
  intro e he
  exact h e.1 e.2 (OrdMap.mem_entries.1 he)

theorem nodup_ids (h : Keyed nodes) (p : NodeState → Bool) :
    ((nodes.values.filter p).map (·.id)).Nodup := by
  apply (List.filter_sublist.map _).nodup
  rw [h.map_id_values]
  exact nodes.nodup

theorem mem_ids (h : Keyed nodes) {p : NodeState → Bool} {id : String} :
    id ∈ (nodes.values.filter p).map (·.id) ↔ ∃ n, nodes.get? id = some n ∧ p n = true := by
  rw [List.mem_map]
  constructor
  · rintro ⟨n, hn, rfl⟩
    obtain ⟨hn, hp⟩ := List.mem_filter.1 hn
    exact ⟨n, h.mem_values.1 hn, hp⟩
  · rintro ⟨n, hget, hp⟩
    exact ⟨n, List.mem_filter.2 ⟨OrdMap.mem_values_of_get? hget, hp⟩, h id n hget⟩

theorem mem_idsOf (h : Keyed nodes) {r : Role} {id : String} :
    id ∈ idsOf r nodes.values ↔ ∃ n, nodes.get? id = some n ∧ roleOf n = r := by
  rw [idsOf, h.mem_ids]
  simp only [decide_eq_true_eq]

theorem nodup_sort_idsOf (h : Keyed nodes) (r : Role) {cmp : String → String → Int} :
    (Sorting.sort cmp (idsOf r nodes.values)).Nodup := Sorting.nodup_sort.2 (h.nodup_ids _)

theorem mem_members (h : Keyed nodes) {mode : GroupBy} {g id : String} :
    id ∈ members mode g nodes.values ↔
      ∃ n, nodes.get? id = some n ∧ roleOf n = .workload ∧ groupOf mode n = g := by
  rw [members, h.mem_ids]
  simp only [decide_eq_true_eq]

end Keyed

/-- A node has one role only. -/
theorem disjoint_of_role_ne {nodes : OrdMap String NodeState} {l l' : List String} {r r' : Role}
    (hne : r ≠ r') (hl : ∀ {id}, id ∈ l ↔ ∃ n, nodes.get? id = some n ∧ roleOf n = r)
    (hl' : ∀ {id}, id ∈ l' ↔ ∃ n, nodes.get? id = some n ∧ roleOf n = r') : l.Disjoint l' := by
  intro id hid hid'
  obtain ⟨n, hget, rfl⟩ := hl.1 hid
  obtain ⟨n', hget', rfl⟩ := hl'.1 hid'
  cases hget.symm.trans hget'
  exact hne rfl

/-! ## The order of the platforms -/

/-- The names in increasing order, with `unplaced` last. -/
def groupKey (g : String) : Lex (Bool × List Nat) := toLex (decide (g = unplaced), units g)

theorem groupKey_injective : Function.Injective groupKey := by
  intro a b h
  exact units_injective (congrArg (fun k => (ofLex k).2) h)

theorem groupKey_lt {a b : String} :
    groupKey a < groupKey b ↔ a ≠ unplaced ∧ (b = unplaced ∨ units a < units b) := by
  rw [groupKey, groupKey, Prod.Lex.toLex_lt_toLex]
  by_cases ha : a = unplaced <;> by_cases hb : b = unplaced <;> simp [ha, hb]

theorem compareGroups_lt_zero {a b : String} :
    compareGroups a b < 0 ↔ groupKey a < groupKey b := by
  rw [groupKey_lt]
  unfold compareGroups
  split
  · simp [*]
  · split
    · simp [*]
    · split <;> simp [*]

/-- The comparator of the names has no answer for a name and itself, and is never asked. -/
theorem sort_compareGroups {l : List String} (hnd : l.Nodup) :
    Sorting.sort compareGroups l = Sorting.sort (Sorting.byKey groupKey) l := by
  apply Sorting.sort_congr hnd
  intro a _ b _ _
  rw [compareGroups_lt_zero, Sorting.byKey_lt_zero]

section Names

variable {mode : GroupBy} {nodes nodes' : OrdMap String NodeState}

theorem mem_platformNames {g : String} : g ∈ platformNames mode nodes ↔
    ∃ n ∈ nodes.values, roleOf n = .workload ∧ groupOf mode n = g := by
  rw [platformNames, Sorting.mem_sort, OrdMap.mem_keys, mem_parts_byGroup]

theorem nodup_platformNames : (platformNames mode nodes).Nodup :=
  Sorting.nodup_sort.2 (parts mode nodes).byGroup.nodup_keys

theorem pairwise_platformNames : (platformNames mode nodes).Pairwise fun a b =>
    a ≠ unplaced ∧ (b = unplaced ∨ units a < units b) := by
  have hnd := (parts mode nodes).byGroup.nodup_keys
  rw [platformNames, sort_compareGroups hnd]
  exact (Sorting.pairwise_sort_byKey groupKey_injective hnd).imp groupKey_lt.1

/-- The same names come in the same order. -/
theorem platformNames_congr
    (h : ∀ g, g ∈ platformNames mode nodes' ↔ g ∈ platformNames mode nodes) :
    platformNames mode nodes' = platformNames mode nodes := by
  have hnd := (parts mode nodes).byGroup.nodup_keys
  have hnd' := (parts mode nodes').byGroup.nodup_keys
  -- the keys are the same up to their order, which the sort does not see
  have hperm : (parts mode nodes').byGroup.keys.Perm (parts mode nodes).byGroup.keys := by
    apply (List.perm_ext_iff_of_nodup hnd' hnd).2
    intro g
    simpa only [platformNames, Sorting.mem_sort] using h g
  rw [platformNames, platformNames, sort_compareGroups hnd', sort_compareGroups hnd]
  exact Sorting.sort_byKey_eq_of_perm groupKey_injective hperm

end Names

/-! ## The plan -/

/-- Every id of a plan, in the order in which the places are given. -/
def Plan.ids (pl : Plan) : List String :=
  pl.groups.flatMap (·.2) ++ pl.reserved.map (·.1) ++ pl.machines ++ pl.world

section Plans

variable (localeCompare : String → String → Int) (mode : GroupBy) {nodes : OrdMap String NodeState}

theorem plan_groups : (plan localeCompare mode nodes).groups
    = (platformNames mode nodes).map fun g =>
        (g, CodeUnits.sort (members mode g nodes.values)) := by
  apply List.map_congr_left
  intro g _
  rw [parts_byGroup]

theorem plan_names :
    (plan localeCompare mode nodes).groups.map Prod.fst = platformNames mode nodes := by
  rw [plan_groups, List.map_map]
  exact List.map_id _

theorem nodup_plan_names : ((plan localeCompare mode nodes).groups.map Prod.fst).Nodup := by
  rw [plan_names]
  exact nodup_platformNames

/-- What is a group of the plan. -/
theorem mem_plan_groups {g : String} {ids : List String} :
    (g, ids) ∈ (plan localeCompare mode nodes).groups ↔
      (∃ n ∈ nodes.values, roleOf n = .workload ∧ groupOf mode n = g) ∧
        ids = CodeUnits.sort (members mode g nodes.values) := by
  rw [plan_groups, List.mem_map, ← mem_platformNames]
  constructor
  · rintro ⟨g', hg, heq⟩
    cases heq
    exact ⟨hg, rfl⟩
  · rintro ⟨hg, rfl⟩
    exact ⟨g, hg, rfl⟩

variable (hkeyed : Keyed nodes)
include hkeyed

/-- The plan has each workload on a platform. -/
theorem mem_plan_workloads {id : String} :
    id ∈ (plan localeCompare mode nodes).groups.flatMap (·.2) ↔
      ∃ n, nodes.get? id = some n ∧ roleOf n = .workload := by
  rw [List.mem_flatMap]
  constructor
  · rintro ⟨⟨g, ids⟩, hg, hid⟩
    obtain ⟨-, rfl⟩ := (mem_plan_groups localeCompare mode).1 hg
    obtain ⟨n, hget, hrole, -⟩ := hkeyed.mem_members.1 (Sorting.mem_sort.1 hid)
    exact ⟨n, hget, hrole⟩
  · rintro ⟨n, hget, hrole⟩
    refine ⟨(groupOf mode n, _), (mem_plan_groups localeCompare mode).2
      ⟨⟨n, OrdMap.mem_values_of_get? hget, hrole, rfl⟩, rfl⟩, ?_⟩
    exact Sorting.mem_sort.2 (hkeyed.mem_members.2 ⟨n, hget, hrole, rfl⟩)

theorem mem_plan_reserved {id : String} :
    id ∈ (plan localeCompare mode nodes).reserved.map (·.1) ↔
      ∃ n, nodes.get? id = some n ∧ roleOf n = .reserved := by
  rw [← hkeyed.mem_idsOf, ← parts_reserved mode]
  simp [plan, CodeUnits.sort]

theorem mem_plan_machines {id : String} : id ∈ (plan localeCompare mode nodes).machines ↔
    ∃ n, nodes.get? id = some n ∧ roleOf n = .machine := by
  rw [← hkeyed.mem_idsOf, ← parts_machines mode]
  exact Sorting.mem_sort

theorem mem_plan_world {id : String} : id ∈ (plan localeCompare mode nodes).world ↔
    ∃ n, nodes.get? id = some n ∧ roleOf n = .world := by
  rw [← hkeyed.mem_idsOf, ← parts_world mode]
  exact Sorting.mem_sort

/-- **Every node is in the plan**, -/
theorem mem_plan_ids {id : String} : id ∈ (plan localeCompare mode nodes).ids ↔ id ∈ nodes := by
  rw [Plan.ids, List.mem_append, List.mem_append, List.mem_append,
    mem_plan_workloads localeCompare mode hkeyed, mem_plan_reserved localeCompare mode hkeyed,
    mem_plan_machines localeCompare mode hkeyed, mem_plan_world localeCompare mode hkeyed,
    OrdMap.mem_iff]
  constructor
  · rintro (((⟨n, h, -⟩ | ⟨n, h, -⟩) | ⟨n, h, -⟩) | ⟨n, h, -⟩) <;> exact ⟨n, h⟩
  · rintro ⟨n, h⟩
    cases hrole : roleOf n with
    | workload => exact Or.inl (Or.inl (Or.inl ⟨n, h, hrole⟩))
    | reserved => exact Or.inl (Or.inl (Or.inr ⟨n, h, hrole⟩))
    | machine => exact Or.inl (Or.inr ⟨n, h, hrole⟩)
    | world => exact Or.inr ⟨n, h, hrole⟩

/-- No workload is on two platforms. -/
theorem nodup_plan_workloads :
    ((plan localeCompare mode nodes).groups.flatMap (·.2)).Nodup := by
  rw [List.nodup_flatMap]
  constructor
  · rintro ⟨g, ids⟩ hg
    obtain ⟨-, rfl⟩ := (mem_plan_groups localeCompare mode).1 hg
    exact Sorting.nodup_sort.2 (hkeyed.nodup_ids _)
  · -- two platforms have no workload in common, as each workload names its own
    have hnames : (plan localeCompare mode nodes).groups.Pairwise (·.1 ≠ ·.1) :=
      List.pairwise_map.1 (nodup_plan_names localeCompare mode)
    refine hnames.imp_of_mem fun {a b} ha hb hne => ?_
    obtain ⟨g, ids⟩ := a
    obtain ⟨g', ids'⟩ := b
    obtain ⟨-, rfl⟩ := (mem_plan_groups localeCompare mode).1 ha
    obtain ⟨-, rfl⟩ := (mem_plan_groups localeCompare mode).1 hb
    intro id hid hid'
    obtain ⟨n, hget, -, rfl⟩ := hkeyed.mem_members.1 (Sorting.mem_sort.1 hid)
    obtain ⟨n', hget', -, rfl⟩ := hkeyed.mem_members.1 (Sorting.mem_sort.1 hid')
    cases hget.symm.trans hget'
    exact hne rfl

/-- and only once. -/
theorem nodup_plan_ids : (plan localeCompare mode nodes).ids.Nodup := by
  have hw := @mem_plan_workloads localeCompare mode nodes hkeyed
  have hr := @mem_plan_reserved localeCompare mode nodes hkeyed
  have hm := @mem_plan_machines localeCompare mode nodes hkeyed
  have hx := @mem_plan_world localeCompare mode nodes hkeyed
  have hreserved : ((plan localeCompare mode nodes).reserved.map (·.1)).Nodup := by
    have hsort : (CodeUnits.sort (parts mode nodes).reserved).Nodup := by
      rw [parts_reserved]
      exact hkeyed.nodup_sort_idsOf .reserved
    simpa [plan, Function.comp_def] using hsort
  have hmachines : (plan localeCompare mode nodes).machines.Nodup := by
    show (Sorting.sort _ (parts mode nodes).machines).Nodup
    rw [parts_machines]
    exact hkeyed.nodup_sort_idsOf .machine
  have hworld : (plan localeCompare mode nodes).world.Nodup := by
    show (CodeUnits.sort (parts mode nodes).world).Nodup
    rw [parts_world]
    exact hkeyed.nodup_sort_idsOf .world
  -- four lists without repetitions, each for another role
  refine (((nodup_plan_workloads localeCompare mode hkeyed).append hreserved
    (disjoint_of_role_ne (by decide) hw hr)).append hmachines ?_).append hworld ?_
  · exact List.disjoint_append_left.2
      ⟨disjoint_of_role_ne (by decide) hw hm, disjoint_of_role_ne (by decide) hr hm⟩
  · exact List.disjoint_append_left.2 ⟨List.disjoint_append_left.2
      ⟨disjoint_of_role_ne (by decide) hw hx, disjoint_of_role_ne (by decide) hr hx⟩,
      disjoint_of_role_ne (by decide) hm hx⟩

end Plans

/-! ## The drawing -/

/-- What does not ask for the index. -/
theorem map_mapIdx {α β γ : Type*} {f : Nat → α → β} {g : β → γ} {h : α → γ}
    (hgf : ∀ i a, g (f i a) = h a) (l : List α) : (l.mapIdx f).map g = l.map h := by
  apply List.ext_getElem?
  intro i
  rw [List.getElem?_map, List.getElem?_map, List.getElem?_mapIdx, Option.map_map]
  exact congrArg (Option.map · l[i]?) (funext (hgf i))

/-- The keys of what is given by index. -/
theorem map_fst_mapIdx {α β : Type*} (f : Nat → β) (l : List α) :
    (l.mapIdx fun i a => (a, f i)).map Prod.fst = l := by
  have hid : ∀ i a, ((a, f i) : α × β).1 = a := fun _ _ => rfl
  exact (map_mapIdx hid l).trans (List.map_id' l)

namespace Layout

variable {K : Type*} [Field K] [LinearOrder K] (M : Math K) (mode : GroupBy)

theorem mem_platformList {pl : Plan} {p : Platform K} :
    p ∈ platformList M mode pl ↔ ∃ i g, pl.groups[i]? = some g ∧
      platformAt M mode (Flowscape.ringRadius M pl) pl.groups.length i g = p := by
  rw [platformList, List.mem_iff_getElem?]
  simp only [List.getElem?_mapIdx, Option.map_eq_some_iff]

theorem map_group_platformList (pl : Plan) :
    (platformList M mode pl).map (·.group) = pl.groups.map Prod.fst := by
  refine map_mapIdx ?_ pl.groups
  exact fun _ _ => rfl

theorem map_nodes_platformList (pl : Plan) :
    (platformList M mode pl).map (·.nodes) = pl.groups.map Prod.snd := by
  refine map_mapIdx ?_ pl.groups
  exact fun _ _ => rfl

/-- The places are given to the ids of the plan, one after the other. -/
theorem map_fst_spots (maxWorld : Nat) (pl : Plan) :
    (spots M mode maxWorld pl).map Prod.fst = pl.ids := by
  have hworkloads : ((platformList M mode pl).flatMap (workloadSpots M)).map Prod.fst
      = pl.groups.flatMap (·.2) := by
    rw [List.map_flatMap, List.flatMap_def, List.flatMap_def, ← map_nodes_platformList M mode]
    refine congrArg List.flatten (List.map_congr_left fun p _ => ?_)
    exact map_fst_mapIdx (workloadSpot M p) p.nodes
  simp only [spots, List.map_append, hworkloads, List.map_map, map_fst_mapIdx, Plan.ids,
    Function.comp_def, List.map_id']
  -- the names that the fan shows and the ones that it does not show are all names
  rw [List.append_assoc, List.take_append_drop]

theorem entries_targets (L : Layout K) {pl : Plan} (hnd : pl.ids.Nodup) :
    (L.draw M pl).targets.entries = spots M L.groupBy L.maxWorld pl :=
  OrdMap.entries_setAll_empty (by rwa [map_fst_spots])

theorem entries_platforms (L : Layout K) {pl : Plan} (hnd : (pl.groups.map Prod.fst).Nodup) :
    (L.draw M pl).platforms.entries
      = (platformList M L.groupBy pl).map fun p => (p.group, p) := by
  apply OrdMap.entries_setAll_empty
  rw [List.map_map]
  exact (map_group_platformList M L.groupBy pl).symm ▸ hnd

/-- A platform is found under its group. -/
theorem get?_platforms (L : Layout K) {pl : Plan} (hnd : (pl.groups.map Prod.fst).Nodup)
    {g : String} {p : Platform K} : (L.draw M pl).platforms.get? g = some p ↔
      p ∈ platformList M L.groupBy pl ∧ p.group = g := by
  rw [← OrdMap.mem_entries, entries_platforms M L hnd, List.mem_map]
  constructor
  · rintro ⟨p', hp, heq⟩
    cases heq
    exact ⟨hp, rfl⟩
  · rintro ⟨hp, rfl⟩
    exact ⟨p, hp, rfl⟩

theorem keys_platforms (L : Layout K) {pl : Plan} (hnd : (pl.groups.map Prod.fst).Nodup) :
    (L.draw M pl).platforms.keys = pl.groups.map Prod.fst := by
  rw [OrdMap.keys, entries_platforms M L hnd, List.map_map, ← map_group_platformList M L.groupBy]
  rfl

/-! ## Every node once -/

/-- The nodes of a map stand in a layout, the workloads on their platforms. -/
structure Places (L : Layout K) (nodes : OrdMap String NodeState) : Prop where
  targets : ∀ id, id ∈ L.targets ↔ id ∈ nodes
  /-- Every workload is on the platform of its group, -/
  workloads : ∀ id n, nodes.get? id = some n → n.ns ≠ "reserved" →
    ∃ p, L.platforms.get? (groupOf L.groupBy n) = some p ∧ id ∈ p.nodes
  /-- and nothing else is on a platform. -/
  members : ∀ g p, L.platforms.get? g = some p → p.group = g ∧ p.nodes ≠ [] ∧
    ∀ id ∈ p.nodes, ∃ n, nodes.get? id = some n ∧ n.ns ≠ "reserved" ∧ groupOf L.groupBy n = g
  sorted : ∀ g p, L.platforms.get? g = some p → p.nodes.Pairwise fun a b => units a < units b
  disjoint : ∀ g g' p p', g ≠ g' → L.platforms.get? g = some p → L.platforms.get? g' = some p' →
    p.nodes.Disjoint p'.nodes
  /-- The platforms come in the order of their names, with `unplaced` last. -/
  order : L.platforms.keys.Pairwise fun a b => a ≠ unplaced ∧ (b = unplaced ∨ units a < units b)

theorem roleOf_workload {n : NodeState} : roleOf n = .workload ↔ n.ns ≠ "reserved" := by
  unfold roleOf
  split
  · split
    · simp [*]
    · split <;> simp [*]
  · simp [*]

variable (localeCompare : String → String → Int)

/-- The radius of the ring of a map's layout. -/
def ringOf (mode : GroupBy) (nodes : OrdMap String NodeState) : K :=
  Flowscape.ringRadius M (plan localeCompare mode nodes)

/-- The platforms of a rebuild: each at the index of its name, with its workloads. -/
theorem get?_platforms_rebuild (L : Layout K) {nodes : OrdMap String NodeState} {g : String}
    {p : Platform K} : (L.rebuild M localeCompare nodes).platforms.get? g = some p ↔
      ∃ i, (platformNames L.groupBy nodes)[i]? = some g ∧
        platformAt M L.groupBy (ringOf M localeCompare L.groupBy nodes)
          (platformNames L.groupBy nodes).length i
          (g, CodeUnits.sort (members L.groupBy g nodes.values)) = p := by
  rw [rebuild, get?_platforms M L (nodup_plan_names localeCompare L.groupBy), mem_platformList]
  simp only [plan_groups, List.length_map, List.getElem?_map, Option.map_eq_some_iff, ringOf]
  constructor
  · rintro ⟨⟨i, _, ⟨g', hg, rfl⟩, rfl⟩, rfl⟩
    exact ⟨i, hg, rfl⟩
  · rintro ⟨i, hg, rfl⟩
    exact ⟨⟨i, _, ⟨g, hg, rfl⟩, rfl⟩, rfl⟩

theorem exists_platform_iff (L : Layout K) {nodes : OrdMap String NodeState} {g : String} :
    (∃ p, (L.rebuild M localeCompare nodes).platforms.get? g = some p) ↔
      g ∈ platformNames L.groupBy nodes := by
  rw [← OrdMap.mem_iff, ← OrdMap.mem_keys, rebuild,
    keys_platforms M L (nodup_plan_names localeCompare L.groupBy), plan_names]

theorem nodes_platform (L : Layout K) {nodes : OrdMap String NodeState} {g : String}
    {p : Platform K} (h : (L.rebuild M localeCompare nodes).platforms.get? g = some p) :
    p.nodes = CodeUnits.sort (members L.groupBy g nodes.values) := by
  obtain ⟨i, -, rfl⟩ := (get?_platforms_rebuild M localeCompare L).1 h
  rfl

/-- The workloads of a platform are the ones that name it. -/
theorem mem_nodes_platform (L : Layout K) {nodes : OrdMap String NodeState} (hkeyed : Keyed nodes)
    {g : String} {p : Platform K}
    (h : (L.rebuild M localeCompare nodes).platforms.get? g = some p) {id : String} :
    id ∈ p.nodes ↔
      ∃ n, nodes.get? id = some n ∧ n.ns ≠ "reserved" ∧ groupOf L.groupBy n = g := by
  simp only [nodes_platform M localeCompare L h, CodeUnits.sort, Sorting.mem_sort,
    hkeyed.mem_members, roleOf_workload]

theorem mem_targets_rebuild (L : Layout K) {nodes : OrdMap String NodeState}
    (hkeyed : Keyed nodes) {id : String} :
    id ∈ (L.rebuild M localeCompare nodes).targets ↔ id ∈ nodes := by
  have hnd := nodup_plan_ids localeCompare L.groupBy hkeyed
  rw [← mem_plan_ids localeCompare L.groupBy hkeyed, ← map_fst_spots M L.groupBy L.maxWorld,
    ← entries_targets M L hnd]
  exact OrdMap.mem_keys.symm

/-- A rebuild reads the mode and the number of names to show, and nothing else. -/
theorem rebuild_congr {L L' : Layout K} (hmode : L'.groupBy = L.groupBy)
    (hmax : L'.maxWorld = L.maxWorld) (nodes : OrdMap String NodeState) :
    L'.rebuild M localeCompare nodes = L.rebuild M localeCompare nodes := by
  simp only [rebuild, draw, hmode, hmax]

/-- **Every node is placed once**, and nothing of what the layout was before is left. -/
theorem rebuild_places (L : Layout K) {nodes : OrdMap String NodeState} (hkeyed : Keyed nodes) :
    (L.rebuild M localeCompare nodes).Places nodes ∧
      ∀ L' : Layout K, L'.groupBy = L.groupBy → L'.maxWorld = L.maxWorld →
        L'.rebuild M localeCompare nodes = L.rebuild M localeCompare nodes := by
  refine ⟨?_, fun L' hmode hmax => rebuild_congr M localeCompare hmode hmax nodes⟩
  constructor
  case targets => exact fun id => mem_targets_rebuild M localeCompare L hkeyed
  case workloads =>
    intro id n hget hns
    obtain ⟨p, hp⟩ := (exists_platform_iff M localeCompare L).2 (mem_platformNames.2
      ⟨n, OrdMap.mem_values_of_get? hget, roleOf_workload.2 hns, rfl⟩)
    exact ⟨p, hp, (mem_nodes_platform M localeCompare L hkeyed hp).2 ⟨n, hget, hns, rfl⟩⟩
  case members =>
    intro g p hp
    have hmem : ∀ {id}, id ∈ p.nodes ↔
        ∃ n, nodes.get? id = some n ∧ n.ns ≠ "reserved" ∧ groupOf L.groupBy n = g :=
      mem_nodes_platform M localeCompare L hkeyed hp
    obtain ⟨n, hn, hrole, hgroup⟩ := mem_platformNames.1
      ((exists_platform_iff M localeCompare L).1 ⟨p, hp⟩)
    obtain ⟨i, -, hat⟩ := (get?_platforms_rebuild M localeCompare L).1 hp
    have hg : p.group = g := by
      rw [← hat]
      rfl
    -- a name is there because some workload has it
    have hid : n.id ∈ p.nodes :=
      hmem.2 ⟨n, hkeyed.mem_values.1 hn, roleOf_workload.1 hrole, hgroup⟩
    exact ⟨hg, List.ne_nil_of_mem hid, fun id => hmem.1⟩
  case sorted =>
    intro g p hp
    rw [nodes_platform M localeCompare L hp]
    exact CodeUnits.pairwise_sort (hkeyed.nodup_ids _)
  case disjoint =>
    intro g g' p p' hne hp hp' id hid hid'
    obtain ⟨n, hget, -, rfl⟩ := (mem_nodes_platform M localeCompare L hkeyed hp).1 hid
    obtain ⟨n', hget', -, rfl⟩ := (mem_nodes_platform M localeCompare L hkeyed hp').1 hid'
    cases hget.symm.trans hget'
    exact hne rfl
  case order =>
    rw [rebuild, keys_platforms M L (nodup_plan_names localeCompare L.groupBy), plan_names]
    exact pairwise_platformNames

/-- A workload, a machine and a name outside of the cluster. -/
def mixedNodes : OrdMap String NodeState := ofNodes
  [plainNode "shop/workload/cart" "shop" "workload" "cart" "",
    plainNode "reserved/node/worker" "reserved" "node" "worker" "",
    plainNode "reserved/world/example" "reserved" "world" "example" ""]

/-- A workload among other kinds of nodes is on the platform of its namespace. -/
theorem rebuild_places_mixed : ∃ p,
    ((new : Layout ℝ).rebuild Math.real CodeUnits.cmp mixedNodes).platforms.get? "shop" = some p ∧
      "shop/workload/cart" ∈ p.nodes :=
  (rebuild_places Math.real CodeUnits.cmp new (keyed_ofNodes _)).1.workloads "shop/workload/cart"
    (plainNode "shop/workload/cart" "shop" "workload" "cart" "")
    (by simp [ofNodes, OrdMap.get?_set, plainNode]) (by decide)

end Layout

end Flowscape
