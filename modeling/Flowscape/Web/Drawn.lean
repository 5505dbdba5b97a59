import Flowscape.Web.InStep
import Flowscape.Web.LayoutOrder

/-!
# Flowscape: what the page draws is what a page made anew would draw

A frame looks at the changes only, and lays out again only if some of them call for it. What is
drawn after it is nevertheless what one would draw of the graph from scratch: the places are those
of a rebuild, there is a disc for every platform, every node is on its way to its place, every arc
knows whether its ends share a platform, and there is a chip for every namespace.
-/

namespace Flowscape

open GraphState

/-! ## Platforms -/

namespace Platforms

section

variable {K : Type*} {items : OrdMap String (PlatformItem K)} {L : Layout K}

theorem erase_writes : Loop.WritesOwn (fun _ => True)
    (fun (items : OrdMap String (PlatformItem K)) g => items.get? g) (fun g : String => g)
    (fun _ _ => none) OrdMap.erase where
  keeps _ _ h := h
  own items g _ := OrdMap.get?_erase_self items g
  other items _ _ _ h := OrdMap.get?_erase_ne items h

/-- What the first loop leaves stands for what it stood for. -/
theorem get?_kept {g : String} {item : PlatformItem K}
    (h : (((items.entries.filter fun e => stale L e.1 e.2).map Prod.fst).foldl OrdMap.erase
      items).get? g = some item) : ∃ p, L.platforms.get? g = some p ∧ p.kind = item.kind := by
  by_cases hgone : g ∈ (items.entries.filter fun e => stale L e.1 e.2).map Prod.fst
  · rw [erase_writes.foldl_overwrite trivial hgone] at h
    cases h
  · rw [erase_writes.foldl_of_not_mem trivial fun b hb => ne_of_mem_of_not_mem hb hgone] at h
    -- what is left was not stale, so the layout has it with the same kind
    have hfresh : stale L g item = false := by
      by_contra hstale
      refine hgone (List.mem_map.2 ⟨(g, item), List.mem_filter.2 ⟨OrdMap.mem_entries.2 h, ?_⟩, rfl⟩)
      simpa using hstale
    unfold stale at hfresh
    split at hfresh
    · cases hfresh
    · next p hp => exact ⟨p, hp, by simpa using hfresh⟩

end

variable {K : Type*} [Zero K] {items : OrdMap String (PlatformItem K)} {L : Layout K}

/-- What is to be seen of a platform of the layout, -/
def outline (p : Platform K) : GroupBy × Vec3 K × K :=
  (p.kind, ⟨p.center.x, 0, p.center.z⟩, p.radius)

/-- and what is seen of it. -/
def disc (item : PlatformItem K) : GroupBy × Vec3 K × K := (item.kind, item.center, item.radius)

/-- The discs are those of the platforms. -/
def Shows (items : OrdMap String (PlatformItem K)) (L : Layout K) : Prop :=
  ∀ g, (items.get? g).map disc = (L.platforms.get? g).map outline

theorem put_writes : Loop.WritesOwn (fun _ => True)
    (fun (items : OrdMap String (PlatformItem K)) g => items.get? g) Platform.group
    (fun p old => some { old.getD ⟨p.kind, p.center, p.radius, false⟩ with
      center := ⟨p.center.x, 0, p.center.z⟩, radius := p.radius }) put where
  keeps _ _ h := h
  own _ _ _ := OrdMap.get?_set_self _ _ _
  other _ _ _ _ h := OrdMap.get?_set_ne _ _ h

/-- **After a sync the discs are those of the platforms**, whatever there was before. -/
theorem shows_sync (items : OrdMap String (PlatformItem K))
    (hgroup : ∀ g p, L.platforms.get? g = some p → p.group = g) : Shows (sync items L) L := by
  have hkeys : L.platforms.values.map Platform.group = L.platforms.keys :=
    OrdMap.map_values_eq_keys hgroup
  intro g
  cases hp : L.platforms.get? g with
  | none =>
    -- a group that the layout lacks is written in no round, and a stale item is gone before
    have hnot : ∀ p ∈ L.platforms.values, p.group ≠ g := by
      rintro p hin rfl
      refine OrdMap.not_mem_iff.2 hp (OrdMap.mem_keys.1 ?_)
      exact hkeys ▸ List.mem_map_of_mem hin
    rw [sync, put_writes.foldl_of_not_mem trivial hnot]
    refine Option.map_eq_none_iff.2 ?_
    by_contra hitem
    obtain ⟨item, hitem⟩ := Option.ne_none_iff_exists'.1 hitem
    obtain ⟨p, hp', -⟩ := get?_kept hitem
    rw [hp] at hp'
    cases hp'
  | some p =>
    obtain rfl := hgroup g p hp
    rw [sync, put_writes.foldl_of_mem (hkeys ▸ L.platforms.nodup) trivial
      (OrdMap.mem_values_of_get? hp)]
    apply congrArg some
    -- a new item is made from the platform; an old one of the same kind is moved
    cases hitem : OrdMap.get? _ p.group with
    | none => rfl
    | some item =>
      obtain ⟨p', hp', hkind⟩ := get?_kept hitem
      rw [hp] at hp'
      cases hp'
      show (item.kind, _, _) = _
      rw [← hkind]
      rfl

/-- Dimming a platform moves nothing. -/
theorem shows_setDimmed {group : String} {dimmed : Bool} :
    Shows (setDimmed items group dimmed) L ↔ Shows items L := by
  apply forall_congr'
  intro g
  rw [setDimmed, OrdMap.get?_modify]
  split
  · rw [Option.map_map]
    exact Iff.rfl
  · exact Iff.rfl

end Platforms

/-! ## What is drawn -/

namespace Page

section

variable {K : Type*} [Field K] [LinearOrder K]

/-- What the page draws is what it would draw of the nodes from scratch. -/
structure Drawn (B : Browser K) (ends : String → String × String)
    (nodes : OrdMap String NodeState) (p : Page K) : Prop where
  targets : p.layout.targets = (p.layout.rebuild B.math B.localeCompare nodes).targets
  platforms : p.layout.platforms = (p.layout.rebuild B.math B.localeCompare nodes).platforms
  discs : Platforms.Shows p.platforms p.layout
  /-- Every node is on its way to its place. -/
  aims : ∀ id, NodeMesh.seen NodeSlot.target p.nodes id = p.layout.targets.get? id
  same : ∀ id same, Edges.seen EdgeSlot.same p.edges id = some same →
    same = samePlatform p.layout.groupBy nodes (ends id).1 (ends id).2
  chips : ∀ ns, ns ∈ p.panel.chips.on ↔ ns ∈ namespacesOf nodes

/-- What `samePlatform` makes of the namespaces and the groups of two nodes. -/
def sameSide (unknown : Bool) : Option (String × String) → Option (String × String) → Bool
  | some a, some b => if a.1 = "reserved" ∨ b.1 = "reserved" then false else a.2 = b.2
  | _, _ => unknown

/-- Whether two ends share a platform, from what the nodes tell. -/
theorem samePlatform_eq (mode : GroupBy) (nodes : OrdMap String NodeState) (src dst : String) :
    samePlatform mode nodes src dst = sameSide (firstPart src = firstPart dst)
      ((nodes.get? src).map fun n => (n.ns, groupOf mode n))
      ((nodes.get? dst).map fun n => (n.ns, groupOf mode n)) := by
  unfold samePlatform
  cases nodes.get? src with
  | none => rfl
  | some a => cases nodes.get? dst <;> rfl

theorem samePlatform_alike {mode : GroupBy} {nodes nodes' : OrdMap String NodeState}
    (h : Alike mode nodes nodes') (src dst : String) :
    samePlatform mode nodes' src dst = samePlatform mode nodes src dst := by
  have hget := map_get?_eq h (f := fun n => (n.ns, groupOf mode n)) (g := fun n => (n.ns, n.machine))
    fun n => rfl
  rw [samePlatform_eq, samePlatform_eq, hget src, hget dst]

theorem namespacesOf_alike {mode : GroupBy} {nodes nodes' : OrdMap String NodeState}
    (h : Alike mode nodes nodes') : namespacesOf nodes' = namespacesOf nodes := by
  have hview : ∀ m : OrdMap String NodeState,
      namespacesOf m = namespacesOf (m.map (glimpse mode)) := by
    intro m
    rw [namespacesOf, namespacesOf, OrdMap.values_map, List.filter_map, List.map_map]
    rfl
  rw [hview, hview nodes, h]

/-- Maps that are alike are drawn alike. -/
theorem Drawn.alike {B : Browser K} {ends : String → String × String}
    {nodes nodes' : OrdMap String NodeState} {p : Page K} (h : p.Drawn B ends nodes)
    (ha : Alike p.layout.groupBy nodes nodes') : p.Drawn B ends nodes' := by
  -- the layout is made from what is alike
  have hplan : p.layout.rebuild B.math B.localeCompare nodes'
      = p.layout.rebuild B.math B.localeCompare nodes := by
    rw [Layout.rebuild, Layout.rebuild, ha.plan]
  constructor
  case targets => rw [hplan]; exact h.targets
  case platforms => rw [hplan]; exact h.platforms
  case discs => exact h.discs
  case aims => exact h.aims
  case same =>
    intro id same hsame
    rw [samePlatform_alike ha]
    exact h.same id same hsame
  case chips => rw [namespacesOf_alike ha]; exact h.chips

end

end Page

end Flowscape
