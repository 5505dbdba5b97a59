import Flowscape.Graph.Ingest

/-!
# Flowscape: what a tick and a snapshot do

`Tick` drops the idle edges, forgets the idle nodes that no edge touches, reports what is
pending and settles. This module says what expiry leaves in each map, and what the two
messages carry, whatever the order in which the maps are visited.
-/

namespace Flowscape

namespace Graph

/-! ## Expiry -/

/-- A node without edge ends that was not seen since the cutoff. -/
def Idle (cutoff : Time) (n : Node) : Prop := n.edges ≤ 0 ∧ n.lastSeen < cutoff

/-- The loop over live nodes forgets exactly the idle ones. -/
theorem expireNodes_spec (cutoff : Time) {l : List (String × Ref)} {g : Graph} (hinv : g.Inv)
    (hlive : ∀ id r, (id, r) ∈ l → g.nodes.get? id = some r) (hnd : (l.map Prod.fst).Nodup) :
    (expireNodes cutoff l g).Inv ∧
      Forgotten (fun id => ∃ r, (id, r) ∈ l ∧ Idle cutoff (g.heap r)) g
        (expireNodes cutoff l g) := by
  induction l generalizing g with
  | nil => exact ⟨hinv, (Forgotten.refl g).congr (by simp)⟩
  | cons p rest ih =>
    obtain ⟨id, r⟩ := p
    rw [List.map_cons, List.nodup_cons] at hnd
    have hout : ∀ r', (id, r') ∉ rest := fun r' h => hnd.1 (List.mem_map.2 ⟨_, h, rfl⟩)
    have hr : g.nodes.get? id = some r := hlive id r List.mem_cons_self
    rw [show expireNodes cutoff ((id, r) :: rest) g
      = expireNodes cutoff rest (g.expireNode cutoff id r) from rfl]
    by_cases hidle : Idle cutoff (g.heap r)
    · -- the counter says that no edge touches the node
      have hdeg : g.degree id ≤ 0 := by
        rw [← hinv.counter hr]
        exact hidle.1
      have hinv₁ : (g.forgetNode id).Inv :=
        hinv.forgetNode fun h => not_touches_of_degree_le hdeg h
      have hf₁ : Forgotten (· = id) g (g.forgetNode id) := forgotten_forgetNode id g
      rw [show g.expireNode cutoff id r = g.forgetNode id from if_pos hidle]
      have hlive₁ : ∀ id' r', (id', r') ∈ rest → (g.forgetNode id).nodes.get? id' = some r' := by
        intro id' r' h
        have hne : id' ≠ id := fun heq => hout r' (heq ▸ h)
        rw [hf₁.nodes_kept hne]
        exact hlive id' r' (List.mem_cons_of_mem _ h)
      obtain ⟨hinv₂, hf₂⟩ := ih hinv₁ hlive₁ hnd.2
      rw [hf₁.heap] at hf₂
      refine ⟨hinv₂, (hf₁.trans hf₂ ?_).congr fun id' => ?_⟩
      · -- no node is visited twice
        rintro id' ⟨r', h, -⟩ rfl
        exact hout r' h
      · rw [OrdMap.exists_mem_cons_iff, and_iff_left hidle]
    · rw [show g.expireNode cutoff id r = g from if_neg hidle]
      obtain ⟨hinv₂, hf₂⟩ :=
        ih hinv (fun id' r' h => hlive id' r' (List.mem_cons_of_mem _ h)) hnd.2
      refine ⟨hinv₂, hf₂.congr fun id' => ?_⟩
      rw [OrdMap.exists_mem_cons_iff, or_iff_right fun h => hidle h.2]

/-- The edge under an id is idle. -/
def IdleEdge (cutoff : Time) (g : Graph) (id : String) : Prop :=
  ∃ e, g.edges.get? id = some e ∧ e.lastSeen < cutoff

/-- The node under an id is idle. -/
def IdleNode (cutoff : Time) (g : Graph) (id : String) : Prop :=
  ∃ n, g.node? id = some n ∧ Idle cutoff n

/-- What expiry leaves behind: first the idle edges go, then the nodes that are idle without
them. -/
def Expired (cutoff : Time) (g g' : Graph) : Prop :=
  ∃ g₁, g₁.Inv ∧ Dropped (g.IdleEdge cutoff) g g₁ ∧ Forgotten (g₁.IdleNode cutoff) g₁ g'

theorem Stable.expired {R : Graph → Prop} (hR : Stable R) {cutoff : Time} {g g' : Graph}
    (h : Expired cutoff g g') (hg : R g) : R g' := by
  obtain ⟨g₁, -, hd, hf⟩ := h
  exact hR.forgotten hf (hR.dropped hd hg)

/-- **What `expire` does**: the idle edges go, and then the idle nodes that no edge has any more. -/
theorem expire_spec (ρ : RangeOrder) (now : Time) {g : Graph} (hinv : g.Inv) :
    ∃ g', g.expire ρ now = some g' ∧ g'.Inv ∧ Expired (now - g.retention) g g' := by
  obtain ⟨g₁, hdrop, hinv₁, hd⟩ :=
    dropEdges_range_spec (fun e => e.lastSeen < now - g.retention) (ρ 0) hinv
  have hlive : ∀ id r, (id, r) ∈ g₁.nodes.range (ρ 1) → g₁.nodes.get? id = some r :=
    fun id r h => OrdMap.mem_range.1 h
  obtain ⟨hinv₂, hf⟩ := expireNodes_spec (now - g.retention) hinv₁ hlive
    (OrdMap.nodup_range g₁.nodes (ρ 1))
  refine ⟨_, ?_, hinv₂, g₁, hinv₁, ?_, ?_⟩
  · show (dropEdges _ _ g).bind _ = _
    rw [hdrop]
    rfl
  -- the loops go over what the maps have, so they come to every id that is idle
  · apply hd.congr
    intro id
    simp only [IdleEdge, decide_eq_true_eq]
  · apply hf.congr
    intro id
    simp only [OrdMap.mem_range]
    constructor
    · rintro ⟨r, hr, hi⟩
      exact ⟨_, node?_eq hr, hi⟩
    · rintro ⟨n, hn, hi⟩
      obtain ⟨r, hr, rfl⟩ := Option.map_eq_some_iff.1 hn
      exact ⟨r, hr, hi⟩

/-! ## Tick -/

/-- Nothing is pending after a tick. -/
theorem Inv.settle {g : Graph} (h : g.Inv) : g.settle.Inv where
  retention := h.retention
  alloc := h.alloc
  named := h.named
  edgeNamed := h.edgeNamed
  closed := h.closed
  counter := h.counter
  newNodes h' := by simp [Graph.settle] at h'
  dirtyNode h' := by simp [Graph.settle] at h'
  dirty h' := by simp [Graph.settle] at h'
  dirtyL7 h' := by simp [Graph.settle] at h'
  edgeSound := h.edgeSound

/-- A tick always has a result: it expires, reports and settles. -/
theorem tick_spec (ρ : RangeOrder) (now : Time) {g : Graph} (hinv : g.Inv) :
    ∃ g₁, g.tick ρ now = some (g₁.settle, g₁.delta ρ now) ∧ g₁.Inv ∧
      Expired (now - g.retention) g g₁ := by
  obtain ⟨g₁, hres, hinv₁, he⟩ := expire_spec ρ now hinv
  exact ⟨g₁, by rw [tick, hres]; rfl, hinv₁, he⟩

theorem tick_inv {ρ : RangeOrder} {now : Time} {g g' : Graph} {t : Tick} (hinv : g.Inv)
    (h : g.tick ρ now = some (g', t)) :
    ∃ g₁, g' = g₁.settle ∧ t = g₁.delta ρ now ∧ g₁.Inv ∧ Expired (now - g.retention) g g₁ := by
  obtain ⟨g₁, hres, hinv₁, he⟩ := tick_spec ρ now hinv
  obtain ⟨rfl, rfl⟩ := Prod.mk.inj (Option.some.inj (hres.symm.trans h))
  exact ⟨g₁, rfl, rfl, hinv₁, he⟩

/-! ## Messages -/

theorem mem_sortNodes {n : WireNode} {l : List WireNode} : n ∈ sortNodes l ↔ n ∈ l :=
  (List.perm_insertionSort _ l).mem_iff

theorem mem_sortEdges {e : WireEdge} {l : List WireEdge} : e ∈ sortEdges l ↔ e ∈ l :=
  (List.perm_insertionSort _ l).mem_iff

/-- A snapshot lists the live nodes. -/
theorem mem_snapshot_nodes {ρ : RangeOrder} {now : Time} {g : Graph} {n : WireNode} :
    n ∈ (g.snapshot ρ now).nodes ↔ ∃ id r, g.nodes.get? id = some r ∧ nodeJSON (g.heap r) = n := by
  simp only [snapshot, mem_sortNodes, List.mem_map, Prod.exists, OrdMap.mem_range]

/-- A snapshot lists the live edges, with totals and buckets. -/
theorem mem_snapshot_edges {ρ : RangeOrder} {now : Time} {g : Graph} {we : WireEdge} :
    we ∈ (g.snapshot ρ now).edges ↔ ∃ id e, g.edges.get? id = some e ∧
      { edgeJSON e e.counts true with
        buckets := e.ring.sparse (now - g.retention).unix } = we := by
  simp only [snapshot, mem_sortEdges, List.mem_map, Prod.exists, OrdMap.mem_range]

/-- A delta lists the new nodes and those whose machine changed. -/
theorem mem_delta_nodes {ρ : RangeOrder} {now : Time} {g : Graph} {n : WireNode} :
    n ∈ (g.delta ρ now).nodes ↔ ∃ id r,
      (g.newNodes.get? id = some r ∨ g.dirtyNode.get? id = some r ∧ id ∉ g.newNodes) ∧
        nodeJSON (g.heap r) = n := by
  simp only [delta, mem_sortNodes, List.mem_append, List.mem_map, List.mem_filter, Prod.exists,
    OrdMap.mem_range, decide_eq_true_eq]
  constructor
  · rintro (⟨id, r, h, rfl⟩ | ⟨id, r, h, rfl⟩)
    · exact ⟨id, r, Or.inl h, rfl⟩
    · exact ⟨id, r, Or.inr h, rfl⟩
  · rintro ⟨id, r, h | h, rfl⟩
    · exact Or.inl ⟨id, r, h, rfl⟩
    · exact Or.inr ⟨id, r, h, rfl⟩

/-- A delta lists the edges that flows were counted on, with the increments. -/
theorem mem_delta_edges {ρ : RangeOrder} {now : Time} {g : Graph} {we : WireEdge} :
    we ∈ (g.delta ρ now).edges ↔ ∃ id d e, g.dirty.get? id = some d ∧
      g.edges.get? id = some e ∧ edgeJSON e d (id ∈ g.dirtyL7) = we := by
  simp only [delta, mem_sortEdges, List.mem_filterMap, Prod.exists, OrdMap.mem_range,
    Option.map_eq_some_iff]
  constructor
  · rintro ⟨id, d, hd, e, he, rfl⟩
    exact ⟨id, d, e, hd, he, rfl⟩
  · rintro ⟨id, d, e, hd, he, rfl⟩
    exact ⟨id, d, hd, e, he, rfl⟩

/-! ### No message names an id twice -/

theorem map_id_sortNodes (l : List WireNode) :
    ((sortNodes l).map WireNode.id).Nodup ↔ (l.map WireNode.id).Nodup :=
  ((List.perm_insertionSort _ l).map _).nodup_iff

theorem map_id_sortEdges (l : List WireEdge) :
    ((sortEdges l).map WireEdge.id).Nodup ↔ (l.map WireEdge.id).Nodup :=
  ((List.perm_insertionSort _ l).map _).nodup_iff

/-- Node objects are sent under the id they lie under. -/
theorem map_nodeJSON_id {g : Graph} {l : List (String × Ref)}
    (h : ∀ p ∈ l, (g.heap p.2).id = p.1) :
    (l.map fun p => nodeJSON (g.heap p.2)).map WireNode.id = l.map Prod.fst := by
  rw [List.map_map]
  exact List.map_congr_left h

theorem nodup_snapshot_nodes {ρ : RangeOrder} {now : Time} {g : Graph} (hinv : g.Inv) :
    ((g.snapshot ρ now).nodes.map WireNode.id).Nodup := by
  rw [snapshot, map_id_sortNodes, map_nodeJSON_id]
  · exact OrdMap.nodup_range _ _
  · intro p hp
    exact (hinv.named (OrdMap.mem_range.1 hp)).1

theorem nodup_snapshot_edges {ρ : RangeOrder} {now : Time} {g : Graph} (hinv : g.Inv) :
    ((g.snapshot ρ now).edges.map WireEdge.id).Nodup := by
  rw [snapshot, map_id_sortEdges, List.map_map]
  have hids : (g.edges.range (ρ 1)).map (fun p => p.2.id) = (g.edges.range (ρ 1)).map Prod.fst :=
    List.map_congr_left fun p hp => (hinv.edgeNamed (OrdMap.mem_range.1 hp)).1
  show ((g.edges.range (ρ 1)).map fun p => p.2.id).Nodup
  rw [hids]
  exact OrdMap.nodup_range _ _

/-- A tick has a node once. -/
theorem nodup_delta_nodes {ρ : RangeOrder} {now : Time} {g : Graph} (hinv : g.Inv) :
    ((g.delta ρ now).nodes.map WireNode.id).Nodup := by
  rw [delta, map_id_sortNodes, List.map_append, map_nodeJSON_id, map_nodeJSON_id]
  · refine List.Nodup.append (OrdMap.nodup_range _ _) ?_ ?_
    · exact (List.filter_sublist.map Prod.fst).nodup (OrdMap.nodup_range _ _)
    · -- a dirty node that is also new is left out
      intro id hnew hdirty
      obtain ⟨⟨id₁, r₁⟩, hp, rfl⟩ := List.mem_map.1 hnew
      obtain ⟨⟨id₂, r₂⟩, hq, heq⟩ := List.mem_map.1 hdirty
      have hout := (List.mem_filter.1 hq).2
      obtain rfl : id₂ = id₁ := heq
      simp only [decide_eq_true_eq] at hout
      exact hout (OrdMap.mem_of_get? (OrdMap.mem_range.1 hp))
  · intro p hp
    exact (hinv.named (hinv.dirtyNode (OrdMap.mem_range.1 (List.mem_filter.1 hp).1))).1
  · intro p hp
    exact (hinv.named (hinv.newNodes (OrdMap.mem_range.1 hp))).1

/-- Pending edges are live, so none is left out of a delta. -/
theorem map_filterMap_id {g : Graph} (hinv : g.Inv) {l : List (String × Counters)}
    (h : ∀ p ∈ l, p.1 ∈ g.edges) :
    (l.filterMap fun p => (g.edges.get? p.1).map fun e =>
      edgeJSON e p.2 (p.1 ∈ g.dirtyL7)).map WireEdge.id = l.map Prod.fst := by
  induction l with
  | nil => rfl
  | cons p rest ih =>
    obtain ⟨e, he⟩ := OrdMap.mem_iff.1 (h p List.mem_cons_self)
    have hid : e.id = p.1 := (hinv.edgeNamed he).1
    rw [List.filterMap_cons, he, Option.map_some, List.map_cons, List.map_cons,
      ih fun q hq => h q (List.mem_cons_of_mem p hq)]
    exact congrArg (· :: rest.map Prod.fst) hid

theorem nodup_delta_edges {ρ : RangeOrder} {now : Time} {g : Graph} (hinv : g.Inv) :
    ((g.delta ρ now).edges.map WireEdge.id).Nodup := by
  rw [delta, map_id_sortEdges, map_filterMap_id hinv]
  · exact OrdMap.nodup_range _ _
  · intro p hp
    exact hinv.dirty (OrdMap.mem_of_get? (OrdMap.mem_range.1 hp))

end Graph

end Flowscape
