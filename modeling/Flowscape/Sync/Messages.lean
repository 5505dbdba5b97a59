import Flowscape.Sync.Pending

/-!
# Flowscape: a tick brings the browser up to the graph

What the browser has of a graph after it applied a snapshot, and after it applied a tick: the
three parts of the relation hold of the settled graph, where nothing is pending. With nothing
pending they say that the browser mirrors the graph (`Mirrors`).
-/

namespace Flowscape

namespace Sync

open Flowscape.Graph GraphState

/-! ## Snapshots -/

/-- What a browser has of an edge after a snapshot. -/
def snapshotInfo (e : Edge) : EdgeState := wireInfo (edgeJSON e e.counts true)

/-- After a snapshot the page has the edges of the graph, as they are sent. -/
theorem applySnapshot_edgeInfo (s : GraphState) {g : Graph} (hinv : g.Inv) (ρ : RangeOrder)
    (now : Time) (id : String) :
    (s.applySnapshot (g.snapshot ρ now)).edgeInfo id = (g.edges.get? id).map snapshotInfo := by
  cases he : g.edges.get? id with
  | none =>
    apply applySnapshot_edgeInfo_absent s
    intro we hwe heq
    obtain ⟨id', e, he', rfl⟩ := mem_snapshot_edges.1 hwe
    obtain rfl : id' = id := (hinv.edgeNamed he').1.symm.trans heq
    rw [he] at he'
    cases he'
  | some e =>
    have hid : e.id = id := (hinv.edgeNamed he).1
    -- a snapshot sends every edge with its details and the history of its ring
    have hmem : { edgeJSON e e.counts true with
        buckets := e.ring.sparse (now - g.retention).unix } ∈ (g.snapshot ρ now).edges :=
      mem_snapshot_edges.2 ⟨id, e, he, rfl⟩
    have hsent := applySnapshot_edgeInfo_sent s (nodup_snapshot_edges hinv) hmem
    rw [show (WireEdge.id { edgeJSON e e.counts true with
      buckets := e.ring.sparse (now - g.retention).unix }) = e.id from rfl, hid] at hsent
    exact hsent

theorem applySnapshot_nodeInfo (s : GraphState) {g : Graph} (hinv : g.Inv) (ρ : RangeOrder)
    (now : Time) (id : String) : (s.applySnapshot (g.snapshot ρ now)).nodeInfo id
      = (g.node? id).map fun n => freshNode (nodeJSON n) := by
  cases hn : g.node? id with
  | none =>
    apply applySnapshot_nodeInfo_absent s
    intro wn hwn heq
    obtain ⟨id', r, hr, rfl⟩ := mem_snapshot_nodes.1 hwn
    obtain rfl : id' = id := (hinv.named hr).1.symm.trans heq
    rw [node?_eq hr] at hn
    cases hn
  | some n =>
    obtain ⟨r, hr, rfl⟩ := Option.map_eq_some_iff.1 hn
    have hid : (g.heap r).id = id := (hinv.named hr).1
    have hmem : nodeJSON (g.heap r) ∈ (g.snapshot ρ now).nodes :=
      mem_snapshot_nodes.2 ⟨id, r, hr, rfl⟩
    have hsent := applySnapshot_nodeInfo_sent s (nodup_snapshot_nodes hinv) hmem
    rw [show (nodeJSON (g.heap r)).id = (g.heap r).id from rfl, hid] at hsent
    exact hsent

/-! ## Ticks -/

/-- What a tick leaves of a known edge has nothing pending any more. -/
theorem EdgeKnown.ticked {dirtyL7 : Prop} [Decidable dirtyL7] {e : Edge} {es : EdgeState}
    {dirty : Prop} (h : EdgeKnown dirty dirtyL7 e es) (d : Counters) :
    EdgeKnown False False e (countInfo (edgeJSON e d dirtyL7) es) := by
  have hlast : (if es.last < e.lastSeen.unixMilli then e.lastSeen.unixMilli else es.last)
      = e.lastSeen.unixMilli := by
    have := h.last_le
    split <;> omega
  -- each detail: when it is pending the message has it, or leaves out an empty one
  have hdrops : (countInfo (edgeJSON e d dirtyL7) es).drops = e.drops := by
    by_cases hl : dirtyL7
    · by_cases he : e.drops = ∅
      · simp [countInfo, edgeJSON, hl, he, h.drops_empty he, OrdMap.size_eq_zero_iff]
      · simp [countInfo, edgeJSON, hl, he, OrdMap.size_eq_zero_iff]
    · simp [countInfo, edgeJSON, hl, h.drops hl, OrdMap.size_eq_zero_iff]
  have hl7 : (countInfo (edgeJSON e d dirtyL7) es).l7 = e.l7.wire := by
    by_cases hl : dirtyL7
    · cases hw : e.l7.wire with
      | none => simp [countInfo, edgeJSON, hl, hw, h.l7_none hw]
      | some l7 => simp [countInfo, edgeJSON, hl, hw]
    · simp [countInfo, edgeJSON, hl, h.l7 hl]
  have hlat : (countInfo (edgeJSON e d dirtyL7) es).latencyMs = e.l7.latency := by
    by_cases hl : dirtyL7
    · by_cases he : e.l7.latency = 0
      · simp [countInfo, edgeJSON, hl, he, h.latency_zero he]
      · simp [countInfo, edgeJSON, hl, he]
    · simp [countInfo, edgeJSON, hl, h.latency hl]
  exact {
    id := h.id
    src := h.src
    dst := h.dst
    proto := h.proto
    port := h.port
    last_le := le_of_eq hlast
    last := fun _ => hlast
    drops := fun _ => hdrops
    l7 := fun _ => hl7
    latency := fun _ => hlat
    drops_empty := fun he => hdrops.trans he
    l7_none := fun he => hl7.trans he
    latency_zero := fun he => hlat.trans he }

/-- An edge that the browser hears of for the first time arrives whole. -/
theorem edgeKnown_fresh {dirtyL7 : Prop} [Decidable dirtyL7] {e : Edge}
    (hplain : ¬ dirtyL7 → Plain e) (d : Counters) : EdgeKnown False dirtyL7 e
      (freshInfo (edgeJSON e d dirtyL7)) where
  -- what is sent is taken over; drops and L7 are sent with the details only, and a plain edge has
  -- none
  id := rfl
  src := rfl
  dst := rfl
  proto := rfl
  port := rfl
  last_le := le_refl _
  last _ := rfl
  drops hl := by simp [freshInfo, wireInfo, edgeJSON, hl, (hplain hl).drops]
  l7 hl := by simp [freshInfo, wireInfo, edgeJSON, hl, (hplain hl).l7]
  latency hl := by simp [freshInfo, wireInfo, edgeJSON, hl, (hplain hl).latency]
  drops_empty he := by by_cases hl : dirtyL7 <;> simp [freshInfo, wireInfo, edgeJSON, hl, he]
  l7_none he := by by_cases hl : dirtyL7 <;> simp [freshInfo, wireInfo, edgeJSON, hl, he]
  latency_zero he := by by_cases hl : dirtyL7 <;> simp [freshInfo, wireInfo, edgeJSON, hl, he]

/-- With nothing pending for it, an edge is as any state of the graph has it. -/
theorem EdgeKnown.settled {e : Edge} {es : EdgeState} (h : EdgeKnown False False e es)
    (dirty dirtyL7 : Prop) : EdgeKnown dirty dirtyL7 e es :=
  { h with
    last := fun _ => h.last not_false
    drops := fun _ => h.drops not_false
    l7 := fun _ => h.l7 not_false
    latency := fun _ => h.latency not_false }

section Tick

variable {g : Graph} (hinv : g.Inv) (s : GraphState) (ρ : RangeOrder) (now : Time)

include hinv

/-- The browser's edge under an id that is not reported gone: counted up when the edge is
pending, and left alone otherwise. -/
theorem applyTick_edgeInfo {id : String} (hgone : id ∉ g.goneEdges) :
    (∃ d e, g.dirty.get? id = some d ∧ g.edges.get? id = some e ∧
      (s.applyTick (g.delta ρ now)).edgeInfo id
        = some (countInfo (edgeJSON e d (id ∈ g.dirtyL7))
            ((s.edgeInfo id).getD (freshInfo (edgeJSON e d (id ∈ g.dirtyL7)))))) ∨
    (id ∉ g.dirty ∧ (s.applyTick (g.delta ρ now)).edgeInfo id = s.edgeInfo id) := by
  cases hd : g.dirty.get? id with
  | some d =>
    obtain ⟨e, he⟩ := OrdMap.mem_iff.1 (hinv.dirty (OrdMap.mem_of_get? hd))
    have hid : (edgeJSON e d (id ∈ g.dirtyL7)).id = id := (hinv.edgeNamed he).1
    have hmem : edgeJSON e d (id ∈ g.dirtyL7) ∈ (g.delta ρ now).edges :=
      mem_delta_edges.2 ⟨id, d, e, hd, he, rfl⟩
    have hsent := applyTick_edgeInfo_sent s (nodup_delta_edges hinv) hmem (by rwa [hid])
    rw [hid] at hsent
    exact Or.inl ⟨d, e, rfl, he, hsent⟩
  | none =>
    -- an edge of the message with this id would be pending
    refine Or.inr ⟨OrdMap.not_mem_iff.2 hd, applyTick_edgeInfo_kept s (fun we hwe heq => ?_) hgone⟩
    obtain ⟨id', d, e, hd', he, rfl⟩ := mem_delta_edges.1 hwe
    obtain rfl : id' = id := (hinv.edgeNamed he).1.symm.trans heq
    rw [hd] at hd'
    cases hd'

/-- A tick brings the totals up. -/
theorem TotalsAhead.ticked (h : TotalsAhead g s) :
    TotalsAhead g.settle (s.applyTick (g.delta ρ now)) := by
  exact {
    known := fun {id e es} he hs v => by
      replace he : g.edges.get? id = some e := he
      show es.totals v + 0 = e.counts v
      rcases applyTick_edgeInfo hinv s ρ now (h.not_gone he) with ⟨d, e', hd, he', hs'⟩ | ⟨hd, hs'⟩
      · obtain rfl : e = e' := Option.some.inj (he.symm.trans he')
        obtain rfl := Option.some.inj (hs.symm.trans hs')
        cases hold : s.edgeInfo id with
        | none =>
          -- the whole count of a new edge is pending
          obtain rfl : d = e.counts := Option.some.inj (hd.symm.trans (h.fresh he hold))
          exact Nat.zero_add _
        | some es₀ =>
          have hsum := h.known he hold v
          rw [pending, hd] at hsum
          exact hsum
      · have hsum := h.known he (hs'.symm.trans hs) v
        rw [pending, OrdMap.not_mem_iff.1 hd] at hsum
        exact hsum
    fresh := fun {id e} he hs => by
      replace he : g.edges.get? id = some e := he
      rcases applyTick_edgeInfo hinv s ρ now (h.not_gone he) with ⟨d, e', -, -, hs'⟩ | ⟨hd, hs'⟩
      · -- the message brought the edge
        rw [hs] at hs'
        cases hs'
      · exact absurd (OrdMap.mem_of_get? (h.fresh he (hs'.symm.trans hs))) hd
    gone := fun {id es} hs he => by
      replace he : g.edges.get? id = none := he
      by_cases hg : id ∈ g.goneEdges
      · rw [applyTick_edgeInfo_gone s (t := g.delta ρ now) hg] at hs
        cases hs
      · rcases applyTick_edgeInfo hinv s ρ now hg with ⟨d, e', -, he', -⟩ | ⟨-, hs'⟩
        · rw [he] at he'
          cases he'
        · exact absurd (h.gone (hs'.symm.trans hs) he) hg
    dead := fun hg => by cases hg }

/-- A tick brings the edges up. -/
theorem EdgesAhead.ticked (h : EdgesAhead g s) :
    EdgesAhead g.settle (s.applyTick (g.delta ρ now)) := by
  have htotals := h.toTotalsAhead.ticked hinv s ρ now
  exact {
    toTotalsAhead := htotals
    details := fun {id e es} he hs => by
      replace he : g.edges.get? id = some e := he
      have hfalse : EdgeKnown False False e es := by
        rcases applyTick_edgeInfo hinv s ρ now (h.not_gone he) with
          ⟨d, e', hd, he', hs'⟩ | ⟨hd, hs'⟩
        · obtain rfl : e = e' := Option.some.inj (he.symm.trans he')
          obtain rfl := Option.some.inj (hs.symm.trans hs')
          cases hold : s.edgeInfo id with
          | none => exact (edgeKnown_fresh (fun hl => h.plain he hold hl) d).ticked d
          | some es₀ => exact (h.details he hold).ticked d
        · -- nothing is pending for the edge, so the browser has all of it
          have hk := h.details he (hs'.symm.trans hs)
          have hl7 : id ∉ g.dirtyL7 := fun hl => hd (h.dirtyL7 hl)
          exact { hk with
            last := fun _ => hk.last hd
            drops := fun _ => hk.drops hl7
            l7 := fun _ => hk.l7 hl7
            latency := fun _ => hk.latency hl7 }
      exact hfalse.settled _ _
    plain := fun {id e} he hs _ => by
      have hm : id ∈ g.settle.dirty := OrdMap.mem_of_get? (htotals.fresh he hs)
      exact absurd hm (OrdMap.not_mem_empty id)
    dirtyL7 := fun {id} hm => absurd hm (OrdMap.not_mem_empty id) }

/-- The browser's node under an id that is not reported gone: merged when the node is pending,
and left alone otherwise. -/
theorem applyTick_nodeInfo {id : String} (hgone : id ∉ g.goneNodes) :
    (∃ n, g.node? id = some n ∧ (id ∈ g.newNodes ∨ id ∈ g.dirtyNode) ∧
      (s.applyTick (g.delta ρ now)).nodeInfo id
        = some (mergeInfo (nodeJSON n) (s.nodeInfo id))) ∨
    (id ∉ g.newNodes ∧ id ∉ g.dirtyNode ∧
      (s.applyTick (g.delta ρ now)).nodeInfo id = s.nodeInfo id) := by
  by_cases hpend : id ∈ g.newNodes ∨ id ∈ g.dirtyNode
  · -- the object that is sent is the live node
    have hsent : ∃ r, g.nodes.get? id = some r ∧
        (g.newNodes.get? id = some r ∨ g.dirtyNode.get? id = some r ∧ id ∉ g.newNodes) := by
      by_cases hnew : id ∈ g.newNodes
      · obtain ⟨r, hr⟩ := OrdMap.mem_iff.1 hnew
        exact ⟨r, hinv.newNodes hr, Or.inl hr⟩
      · obtain ⟨r, hr⟩ := OrdMap.mem_iff.1 (hpend.resolve_left hnew)
        exact ⟨r, hinv.dirtyNode hr, Or.inr ⟨hr, hnew⟩⟩
    obtain ⟨r, hr, hsent⟩ := hsent
    have hid : (nodeJSON (g.heap r)).id = id := (hinv.named hr).1
    have hmem : nodeJSON (g.heap r) ∈ (g.delta ρ now).nodes :=
      mem_delta_nodes.2 ⟨id, r, hsent, rfl⟩
    have happlied := applyTick_nodeInfo_sent s (nodup_delta_nodes hinv) hmem (by rwa [hid])
    rw [hid] at happlied
    exact Or.inl ⟨_, node?_eq hr, hpend, happlied⟩
  · rw [not_or] at hpend
    refine Or.inr ⟨hpend.1, hpend.2, applyTick_nodeInfo_kept s (fun wn hwn heq => ?_) hgone⟩
    obtain ⟨id', r, hsent, rfl⟩ := mem_delta_nodes.1 hwn
    rcases hsent with hr | ⟨hr, -⟩
    · obtain rfl : id' = id := (hinv.named (hinv.newNodes hr)).1.symm.trans heq
      exact hpend.1 (OrdMap.mem_of_get? hr)
    · obtain rfl : id' = id := (hinv.named (hinv.dirtyNode hr)).1.symm.trans heq
      exact hpend.2 (OrdMap.mem_of_get? hr)

end Tick

/-- Merging the message of a node into what the browser has of it brings the machine up. -/
theorem NodeKnown.merged {dirty : Prop} {n : Node} {m : NodeState} (h : NodeKnown dirty n m) :
    NodeKnown False n (mergeNode (nodeJSON n) m) := by
  -- a machine never goes back to the empty one, which the browser would not take over
  have hmachine : (mergeNode (nodeJSON n) m).machine = n.machine := by
    by_cases he : n.machine = ""
    · simp [mergeNode, movesNode, nodeJSON, he, h.machine_empty he]
    · by_cases heq : n.machine = m.machine
      · simp [mergeNode, movesNode, nodeJSON, heq]
      · simp [mergeNode, movesNode, nodeJSON, he, heq]
  have hlabels : (mergeNode (nodeJSON n) m).labels = n.labels := by
    show (if n.labels.size ≠ 0 then n.labels else m.labels) = n.labels
    split
    · rfl
    · exact h.labels
  exact ⟨h.id, h.ns, h.kind, h.name, h.fqdn, hlabels, fun _ => hmachine,
    fun he => hmachine.trans he⟩

/-- A node is known as it is sent. -/
theorem nodeKnown_fresh (n : Node) : NodeKnown False n (freshNode (nodeJSON n)) where
  id := rfl
  ns := rfl
  kind := rfl
  name := rfl
  fqdn := rfl
  labels := rfl
  machine _ := rfl
  machine_empty h := h

/-- A tick brings the nodes up. -/
theorem NodesAhead.ticked {g : Graph} (hinv : g.Inv) (s : GraphState) (ρ : RangeOrder)
    (now : Time) (h : NodesAhead g s) :
    NodesAhead g.settle (s.applyTick (g.delta ρ now)) := by
  have hgone : ∀ {id}, id ∈ g.nodes → id ∉ g.goneNodes := fun hn hg => h.dead hg hn
  exact {
    known := fun {id n ns} hn hs => by
      replace hn : g.node? id = some n := hn
      have hmem : id ∈ g.nodes := node?_isSome.2 ⟨n, hn⟩
      have hfalse : NodeKnown False n ns := by
        rcases applyTick_nodeInfo hinv s ρ now (hgone hmem) with
          ⟨n', hn', -, hs'⟩ | ⟨-, hdirty, hs'⟩
        · obtain rfl : n = n' := Option.some.inj (hn.symm.trans hn')
          obtain rfl := Option.some.inj (hs.symm.trans hs')
          -- a node the browser knows is merged, which keeps what the message leaves out
          cases hold : s.nodeInfo id with
          | none => exact nodeKnown_fresh n
          | some ns₀ => exact (h.known hn hold).merged
        · have hk := h.known hn (hs'.symm.trans hs)
          exact { hk with machine := fun _ => hk.machine hdirty }
      exact { hfalse with machine := fun _ => hfalse.machine not_false }
    old := fun {id ns} _ hm => absurd hm (OrdMap.not_mem_empty id)
    fresh := fun {id} hn hs => by
      replace hn : id ∈ g.nodes := hn
      rcases applyTick_nodeInfo hinv s ρ now (hgone hn) with ⟨n', -, -, hs'⟩ | ⟨hnew, -, hs'⟩
      · rw [hs] at hs'
        cases hs'
      · exact absurd (h.fresh hn (hs'.symm.trans hs)) hnew
    gone := fun {id ns} hs hn => by
      replace hn : id ∉ g.nodes := hn
      by_cases hg : id ∈ g.goneNodes
      · rw [applyTick_nodeInfo_gone s (t := g.delta ρ now) hg] at hs
        cases hs
      · rcases applyTick_nodeInfo hinv s ρ now hg with ⟨n', hn', -, -⟩ | ⟨-, -, hs'⟩
        · exact absurd (node?_isSome.2 ⟨n', hn'⟩) hn
        · exact absurd (h.gone (hs'.symm.trans hs) hn) hg
    dead := fun hg => by cases hg }

/-! ## With nothing pending -/

/-- The browser has the graph: the same nodes and edges, and the edge ids of every browser
node are those of its incident edges. -/
structure Mirrors (g : Graph) (s : GraphState) : Prop where
  node_ids : ∀ id, id ∈ s.nodes ↔ id ∈ g.nodes
  node : ∀ id n ns, g.node? id = some n → s.nodes.get? id = some ns →
    ns.id = n.id ∧ ns.ns = n.key.namespace ∧ ns.kind = n.key.kind ∧ ns.name = n.key.name ∧
      ns.fqdn = n.fqdn ∧ ns.labels = n.labels ∧ ns.machine = n.machine
  edge_ids : ∀ id, id ∈ s.edges ↔ id ∈ g.edges
  edge : ∀ id e es, g.edges.get? id = some e → s.edges.get? id = some es →
    es.id = e.id ∧ es.src = e.key.src.id ∧ es.dst = e.key.dst.id ∧ es.proto = e.key.proto ∧
      es.port = e.key.port ∧ es.totals = e.counts ∧ es.last = e.lastSeen.unixMilli ∧
      es.drops = e.drops ∧ es.l7 = e.l7.wire ∧ es.latencyMs = e.l7.latency
  incident : ∀ id ns, s.nodes.get? id = some ns → ∀ eid, eid ∈ ns.edges ↔ g.Incident id eid

/-- Nothing is pending, as after a tick. -/
structure Quiet (g : Graph) : Prop where
  newNodes : g.newNodes = ∅
  dirtyNode : g.dirtyNode = ∅
  dirty : g.dirty = ∅
  dirtyL7 : g.dirtyL7 = ∅
  goneNodes : g.goneNodes = []
  goneEdges : g.goneEdges = []

theorem quiet_settle (g : Graph) : Quiet g.settle := ⟨rfl, rfl, rfl, rfl, rfl, rfl⟩

theorem edgeInfo_of_get? {s : GraphState} {id : String} {es : EdgeState}
    (h : s.edges.get? id = some es) : s.edgeInfo id = some es.info := by rw [edgeInfo, h]; rfl

theorem nodeInfo_of_get? {s : GraphState} {id : String} {ns : NodeState}
    (h : s.nodes.get? id = some ns) : s.nodeInfo id = some ns.info := by rw [nodeInfo, h]; rfl

/-- With nothing pending the browser has the edges of the graph. -/
theorem EdgesAhead.edge_ids {g : Graph} {s : GraphState} (h : EdgesAhead g s) (hq : Quiet g)
    (id : String) : id ∈ s.edges ↔ id ∈ g.edges := by
  constructor
  · intro hs
    obtain ⟨es, hes⟩ := OrdMap.mem_iff.1 hs
    by_contra hg
    -- an edge that only one side has is pending: reported gone, or dirty
    have hgone := h.gone (edgeInfo_of_get? hes) (OrdMap.not_mem_iff.1 hg)
    rw [hq.goneEdges] at hgone
    cases hgone
  · intro hg
    obtain ⟨e, he⟩ := OrdMap.mem_iff.1 hg
    by_contra hs
    have hnone : s.edgeInfo id = none := by rw [edgeInfo, OrdMap.not_mem_iff.1 hs]; rfl
    have hd := h.fresh he hnone
    rw [hq.dirty] at hd
    cases hd

/-- When nothing is pending, page and graph have the same nodes. -/
theorem NodesAhead.node_ids {g : Graph} {s : GraphState} (h : NodesAhead g s) (hq : Quiet g)
    (id : String) : id ∈ s.nodes ↔ id ∈ g.nodes := by
  constructor
  · intro hs
    obtain ⟨ns, hns⟩ := OrdMap.mem_iff.1 hs
    by_contra hg
    -- as for the edges: reported gone, or new
    have hgone := h.gone (nodeInfo_of_get? hns) hg
    rw [hq.goneNodes] at hgone
    cases hgone
  · intro hg
    by_contra hs
    have hnone : s.nodeInfo id = none := by rw [nodeInfo, OrdMap.not_mem_iff.1 hs]; rfl
    have hnew := h.fresh hg hnone
    rw [hq.newNodes] at hnew
    exact OrdMap.not_mem_empty id hnew

/-- **When nothing is pending, the page mirrors the graph.** -/
theorem mirrors_of_quiet {g : Graph} {s : GraphState} (he : EdgesAhead g s)
    (hn : NodesAhead g s) (hl : s.Linked) (hq : Quiet g) : Mirrors g s where
  node_ids := hn.node_ids hq
  node id n ns hg hs := by
    have hk := hn.known hg (nodeInfo_of_get? hs)
    have hd : id ∉ g.dirtyNode := hq.dirtyNode ▸ OrdMap.not_mem_empty id
    exact ⟨hk.id, hk.ns, hk.kind, hk.name, hk.fqdn, hk.labels, hk.machine hd⟩
  edge_ids := he.edge_ids hq
  edge id e es hg hs := by
    have hk := he.details hg (edgeInfo_of_get? hs)
    have hd : id ∉ g.dirty := hq.dirty ▸ OrdMap.not_mem_empty id
    have hl7 : id ∉ g.dirtyL7 := hq.dirtyL7 ▸ OrdMap.not_mem_empty id
    -- `known` says totals + pending = counts, and nothing is pending
    have htotals : es.totals = e.counts := funext fun v => by
      have hsum := he.known hg (edgeInfo_of_get? hs) v
      rw [pending, OrdMap.not_mem_iff.1 hd] at hsum
      exact hsum
    exact ⟨hk.id, hk.src, hk.dst, hk.proto, hk.port, htotals, hk.last hd, hk.drops hl7, hk.l7 hl7,
      hk.latency hl7⟩
  incident id ns hs eid := by
    rw [hl hs eid]
    constructor
    · rintro ⟨es, hes, hend⟩
      obtain ⟨e, hget⟩ := OrdMap.mem_iff.1 ((he.edge_ids hq eid).1 (OrdMap.mem_of_get? hes))
      have hk := he.details hget (edgeInfo_of_get? hes)
      rw [show es.src = e.key.src.id from hk.src, show es.dst = e.key.dst.id from hk.dst] at hend
      exact ⟨e, hget, hend⟩
    · rintro ⟨e, hget, ht⟩
      obtain ⟨es, hes⟩ := OrdMap.mem_iff.1 ((he.edge_ids hq eid).2 (OrdMap.mem_of_get? hget))
      have hk := he.details hget (edgeInfo_of_get? hes)
      rw [EdgeKey.touches, ← show es.src = e.key.src.id from hk.src,
        ← show es.dst = e.key.dst.id from hk.dst] at ht
      exact ⟨es, hes, ht⟩

/-- Between two ticks the browser's edges are closed, as those of the graph are. -/
theorem closed_of_quiet {g : Graph} {s : GraphState} (hinv : g.Inv) (he : EdgesAhead g s)
    (hn : NodesAhead g s) (hq : Quiet g) : s.Closed := by
  intro eid es hes
  obtain ⟨e, hget⟩ := OrdMap.mem_iff.1 ((he.edge_ids hq eid).1 (OrdMap.mem_of_get? hes))
  have hk := he.details hget (edgeInfo_of_get? hes)
  obtain ⟨hs, hd⟩ := hinv.closed hget
  rw [show es.src = e.key.src.id from hk.src, show es.dst = e.key.dst.id from hk.dst]
  exact ⟨(hn.node_ids hq _).2 hs, (hn.node_ids hq _).2 hd⟩

/-- A snapshot of a graph with nothing pending lacks nothing. -/
theorem edgesAhead_snapshot {g : Graph} (hinv : g.Inv) (hq : Quiet g) (s : GraphState)
    (ρ : RangeOrder) (now : Time) : EdgesAhead g (s.applySnapshot (g.snapshot ρ now)) where
  known {id e es} he hs v := by
    rw [applySnapshot_edgeInfo s hinv, he] at hs
    obtain rfl := Option.some.inj hs
    rw [pending, hq.dirty]
    rfl
  fresh {id e} he hs := by
    rw [applySnapshot_edgeInfo s hinv, he] at hs
    cases hs
  gone {id es} hs he := by
    rw [applySnapshot_edgeInfo s hinv, he] at hs
    cases hs
  -- nothing is gone, and nothing is dirty: the graph is quiet
  dead hg := by
    rw [hq.goneEdges] at hg
    cases hg
  details {id e es} he hs := by
    rw [applySnapshot_edgeInfo s hinv, he] at hs
    obtain rfl := Option.some.inj hs
    exact ⟨rfl, rfl, rfl, rfl, rfl, le_refl _, fun _ => rfl, fun _ => rfl, fun _ => rfl,
      fun _ => rfl, fun h => h, fun h => h, fun h => h⟩
  plain {id e} he hs := by
    rw [applySnapshot_edgeInfo s hinv, he] at hs
    cases hs
  dirtyL7 {id} hm := by
    rw [hq.dirtyL7] at hm
    exact absurd hm (OrdMap.not_mem_empty id)

/-- A snapshot tells the page all about the nodes. -/
theorem nodesAhead_snapshot {g : Graph} (hinv : g.Inv) (hq : Quiet g) (s : GraphState)
    (ρ : RangeOrder) (now : Time) : NodesAhead g (s.applySnapshot (g.snapshot ρ now)) where
  known {id n ns} hn hs := by
    rw [applySnapshot_nodeInfo s hinv, hn] at hs
    obtain rfl := Option.some.inj hs
    exact { nodeKnown_fresh n with machine := fun _ => rfl }
  old {id ns} _ hm := by
    rw [hq.newNodes] at hm
    exact OrdMap.not_mem_empty id hm
  fresh {id} hm hs := by
    obtain ⟨n, hn⟩ := node?_isSome.1 hm
    rw [applySnapshot_nodeInfo s hinv, hn] at hs
    cases hs
  gone {id ns} hs hm := by
    rw [applySnapshot_nodeInfo s hinv] at hs
    obtain ⟨n, hn, -⟩ := Option.map_eq_some_iff.1 hs
    exact absurd (node?_isSome.2 ⟨n, hn⟩) hm
  dead hg := by
    rw [hq.goneNodes] at hg
    cases hg

end Sync

end Flowscape
