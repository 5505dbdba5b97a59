import Flowscape.Lib.Loop
import Flowscape.Web.GraphState

/-!
# Flowscape: what the browser makes of a message

The nodes and edges of a `GraphState` after a tick or a snapshot, read off the message and the
state before it. The two views below leave out what no message carries: the edge ids of a
node, and the ring of an edge.

The edge ids of a node have an invariant of their own (`Linked`): they are the edges with an
end at the node. A tick keeps it when the ends of every edge are nodes before the tick.
-/

namespace Flowscape

/-- A node without its edge ids. -/
def NodeState.info (n : NodeState) : NodeState := { n with edges := ∅ }

/-- An edge without its ring. -/
def EdgeState.info (e : EdgeState) : EdgeState := { e with ring := [], epochs := [] }

namespace GraphState

/-- The node under an id, without its edge ids. -/
def nodeInfo (s : GraphState) (id : String) : Option NodeState := (s.nodes.get? id).map (·.info)

/-- The edge under an id, without its ring. -/
def edgeInfo (s : GraphState) (id : String) : Option EdgeState := (s.edges.get? id).map (·.info)

/-! ## Rings are not information -/

@[simp] theorem setBucket_info (retention : Nat) (e : EdgeState) (b : Bucket) :
    (setBucket retention e b).info = e.info := by
  unfold setBucket
  split <;> rfl

@[simp] theorem addBucket_info (retention : Nat) (e : EdgeState) (sec : Int) (c : Counters) :
    (addBucket retention e sec c).info = e.info := by
  unfold addBucket
  split
  · rfl
  · split <;> rfl

/-- An edge as a snapshot has it. -/
def wireInfo (e : WireEdge) : EdgeState where
  id := e.id
  src := e.src
  dst := e.dst
  proto := e.proto
  port := e.port
  totals := e.counts
  last := e.last
  latencyMs := e.latencyMs
  l7 := e.l7
  drops := e.drops
  ring := []
  epochs := []

theorem resetEdge_info (retention : Nat) (e : WireEdge) (es : EdgeState) :
    (resetEdge retention e es).info = { es.info with totals := e.counts } :=
  Loop.foldl_const fun s b => setBucket_info retention s b

/-- What a tick does to the information of an edge. -/
def countInfo (e : WireEdge) (es : EdgeState) : EdgeState :=
  { es with
    totals := fun v => es.totals v + e.counts v
    last := if es.last < e.last then e.last else es.last
    l7 := match e.l7 with
      | some l7 => some l7
      | none => es.l7
    drops := if e.drops.size ≠ 0 then e.drops else es.drops
    latencyMs := if e.latencyMs ≠ 0 then e.latencyMs else es.latencyMs }

theorem countEdge_info (retention : Nat) (sec : Int) (e : WireEdge) (es : EdgeState) :
    (countEdge retention sec e es).info = countInfo e es.info := by
  have h := addBucket_info retention { es with totals := fun v => es.totals v + e.counts v } sec
    e.counts
  generalize haddBucket : addBucket retention
    { es with totals := fun v => es.totals v + e.counts v } sec e.counts = es' at h
  unfold countEdge
  rw [haddBucket]
  -- two edges that tell the same have the same fields
  have hinfo : ∀ {a b : EdgeState}, a.info = b.info → a.id = b.id ∧ a.src = b.src ∧
      a.dst = b.dst ∧ a.proto = b.proto ∧ a.port = b.port ∧ a.totals = b.totals ∧
      a.last = b.last ∧ a.latencyMs = b.latencyMs ∧ a.l7 = b.l7 ∧ a.drops = b.drops := by
    intro a b hab
    simpa [EdgeState.info] using hab
  obtain ⟨h₁, h₂, h₃, h₄, h₅, h₆, h₇, h₈, h₉, h₁₀⟩ := hinfo h
  simp only [EdgeState.info, countInfo, h₁, h₂, h₃, h₄, h₅, h₆, h₇, h₈, h₉, h₁₀]
  rfl

/-! ## One round of a loop -/

/-- What `upsertNode` leaves under the id of the node, given what was there. -/
def mergeInfo (n : WireNode) : Option NodeState → NodeState
  | none => freshNode n
  | some ns => mergeNode n ns

/-- `upsertNode` merges what is sent into what is known. -/
theorem upsertNode_nodeInfo (s : GraphState) (n : WireNode) (id : String) :
    (s.upsertNode n).nodeInfo id
      = if id = n.id then some (mergeInfo n (s.nodeInfo n.id)) else s.nodeInfo id := by
  -- either way the node is set under its id
  have hset : ∀ v : NodeState, ((s.nodes.set n.id v).get? id).map (·.info)
      = if id = n.id then some v.info else s.nodeInfo id := by
    intro v
    rw [OrdMap.get?_set]
    split <;> rfl
  unfold upsertNode
  cases h : s.nodes.get? n.id with
  | none =>
    have hold : s.nodeInfo n.id = none := by rw [nodeInfo, h]; rfl
    rw [hold]
    exact hset _
  | some ns =>
    have hold : s.nodeInfo n.id = some ns.info := by rw [nodeInfo, h]; rfl
    rw [hold]
    exact hset _

@[simp] theorem upsertNode_edges (s : GraphState) (n : WireNode) :
    (s.upsertNode n).edges = s.edges := by
  unfold upsertNode
  split <;> rfl

/-- The information of a new edge. -/
def freshInfo (e : WireEdge) : EdgeState := { wireInfo e with totals := fun _ => 0 }

theorem link_info (nodes : OrdMap String NodeState) (id eid id' : String) :
    ((link nodes id eid).get? id').map (·.info) = (nodes.get? id').map (·.info) := by
  rw [link, OrdMap.get?_modify]
  split
  · rw [Option.map_map]; rfl
  · rfl

theorem unlink_info (nodes : OrdMap String NodeState) (id eid id' : String) :
    ((unlink nodes id eid).get? id').map (·.info) = (nodes.get? id').map (·.info) := by
  rw [unlink, OrdMap.get?_modify]
  split
  · rw [Option.map_map]; rfl
  · rfl

/-- A new edge changes nothing that the nodes tell. -/
theorem upsertEdge_nodeInfo (s : GraphState) (e : WireEdge) (id : String) :
    (s.upsertEdge e).nodeInfo id = s.nodeInfo id := by
  unfold upsertEdge
  split
  · rfl
  · exact (link_info _ _ _ _).trans (link_info _ _ _ _)

/-- `upsertEdge` makes an edge that is new, and leaves one that is known. -/
theorem upsertEdge_edgeInfo (s : GraphState) (e : WireEdge) (id : String) :
    (s.upsertEdge e).edgeInfo id
      = if id = e.id then some ((s.edgeInfo e.id).getD (freshInfo e)) else s.edgeInfo id := by
  unfold upsertEdge
  split
  -- an edge that is known stays as it is
  · next h =>
    obtain ⟨es, hes⟩ := OrdMap.mem_iff.1 h
    split
    · next heq => rw [heq, edgeInfo, hes]; rfl
    · rfl
  · next h =>
    show ((s.edges.set e.id _).get? id).map (·.info) = _
    rw [OrdMap.get?_set]
    split
    · rw [edgeInfo, OrdMap.not_mem_iff.1 h]
      rfl
    · rfl

/-- A write to the edge under an id changes the information of that edge. -/
theorem modify_info {f : EdgeState → EdgeState} {F : EdgeState → EdgeState}
    (hf : ∀ es, (f es).info = F es.info) (m : OrdMap String EdgeState) (eid id : String) :
    ((m.modify eid f).get? id).map (·.info)
      = if id = eid then ((m.get? id).map (·.info)).map F else (m.get? id).map (·.info) := by
  rw [OrdMap.get?_modify]
  split
  · rw [Option.map_map, Option.map_map]
    congr 1
    exact funext hf
  · rfl

theorem snapshotEdge_nodeInfo (s : GraphState) (e : WireEdge) (id : String) :
    (snapshotEdge s e).nodeInfo id = s.nodeInfo id := upsertEdge_nodeInfo s e id

theorem snapshotEdge_edgeInfo (s : GraphState) (e : WireEdge) (id : String) :
    (snapshotEdge s e).edgeInfo id
      = if id = e.id then some { (s.edgeInfo e.id).getD (freshInfo e) with totals := e.counts }
        else s.edgeInfo id := by
  show (((s.upsertEdge e).edges.modify e.id _).get? id).map (·.info) = _
  rw [modify_info (F := fun es => { es with totals := e.counts })
    fun es => resetEdge_info _ e es]
  show (if id = e.id then ((s.upsertEdge e).edgeInfo id).map _
    else (s.upsertEdge e).edgeInfo id) = _
  rw [upsertEdge_edgeInfo]
  split <;> rfl

theorem tickEdge_nodeInfo (sec : Int) (s : GraphState) (e : WireEdge) (id : String) :
    (tickEdge sec s e).nodeInfo id = s.nodeInfo id := upsertEdge_nodeInfo s e id

theorem tickEdge_edgeInfo (sec : Int) (s : GraphState) (e : WireEdge) (id : String) :
    (tickEdge sec s e).edgeInfo id
      = if id = e.id then some (countInfo e ((s.edgeInfo e.id).getD (freshInfo e)))
        else s.edgeInfo id := by
  show (((s.upsertEdge e).edges.modify e.id _).get? id).map (·.info) = _
  rw [modify_info (F := countInfo e) fun es => countEdge_info _ sec e es]
  show (if id = e.id then ((s.upsertEdge e).edgeInfo id).map _
    else (s.upsertEdge e).edgeInfo id) = _
  rw [upsertEdge_edgeInfo]
  split <;> rfl

theorem removeEdge_nodeInfo (s : GraphState) (eid id : String) :
    (s.removeEdge eid).nodeInfo id = s.nodeInfo id := by
  unfold removeEdge
  split
  · rfl
  · exact (unlink_info _ _ _ _).trans (unlink_info _ _ _ _)

theorem removeEdge_edges (s : GraphState) (eid id : String) :
    (s.removeEdge eid).edges.get? id = if id = eid then none else s.edges.get? id := by
  unfold removeEdge
  split
  · next h =>
    split
    · next heq => rw [heq, h]
    · rfl
  · exact OrdMap.get?_erase _ _ _

/-- Removing a node takes that node away. -/
theorem removeNode_nodes (s : GraphState) (id id' : String) :
    (s.removeNode id).nodes.get? id' = if id' = id then none else s.nodes.get? id' := by
  unfold removeNode
  split
  · next h =>
    split
    · next heq => rw [heq, OrdMap.not_mem_iff.1 h]
    · rfl
  · exact OrdMap.get?_erase _ _ _

@[simp] theorem removeNode_edges (s : GraphState) (id : String) :
    (s.removeNode id).edges = s.edges := by
  unfold removeNode
  split <;> rfl

/-! ## The loops -/

theorem upsertNode_writes : Loop.WritesOwn (fun _ => True) nodeInfo WireNode.id
    (fun n old => some (mergeInfo n old)) upsertNode where
  keeps _ _ h := h
  own s n _ := by rw [upsertNode_nodeInfo, if_pos rfl]
  other s n id _ h := by rw [upsertNode_nodeInfo, if_neg h]

theorem snapshotEdge_writes : Loop.WritesOwn (fun _ => True) edgeInfo WireEdge.id
    (fun e old => some { old.getD (freshInfo e) with totals := e.counts }) snapshotEdge where
  keeps _ _ h := h
  own s e _ := by rw [snapshotEdge_edgeInfo, if_pos rfl]
  other s e id _ h := by rw [snapshotEdge_edgeInfo, if_neg h]

theorem tickEdge_writes (sec : Int) : Loop.WritesOwn (fun _ => True) edgeInfo WireEdge.id
    (fun e old => some (countInfo e (old.getD (freshInfo e)))) (tickEdge sec) where
  keeps _ _ h := h
  own s e _ := by rw [tickEdge_edgeInfo, if_pos rfl]
  other s e id _ h := by rw [tickEdge_edgeInfo, if_neg h]

theorem removeEdge_writes : Loop.WritesOwn (fun _ => True) edgeInfo (fun id : String => id)
    (fun _ _ => none) removeEdge where
  keeps _ _ h := h
  own s id _ := by rw [edgeInfo, removeEdge_edges, if_pos rfl]; rfl
  other s id id' _ h := by rw [edgeInfo, removeEdge_edges, if_neg h]; rfl

theorem removeNode_writes : Loop.WritesOwn (fun _ => True) nodeInfo (fun id : String => id)
    (fun _ _ => none) removeNode where
  keeps _ _ h := h
  own s id _ := by rw [nodeInfo, removeNode_nodes, if_pos rfl]; rfl
  other s id id' _ h := by rw [nodeInfo, removeNode_nodes, if_neg h]; rfl

/-! ## Ticks -/

/-- The four loops of a tick. -/
def tickLoops (s : GraphState) (t : Tick) : GraphState :=
  t.gone.nodes.foldl removeNode
    (t.gone.edges.foldl removeEdge
      (t.edges.foldl (tickEdge (t.ts / 1000)) (t.nodes.foldl upsertNode s)))

/-- The nodes after a tick come from the first loop and the last. -/
theorem tickLoops_nodeInfo (s : GraphState) (t : Tick) (id : String) :
    (s.tickLoops t).nodeInfo id
      = (t.gone.nodes.foldl removeNode (t.nodes.foldl upsertNode s)).nodeInfo id := by
  -- the two loops over edges change nothing that the nodes tell
  have hmid : ∀ id, (t.gone.edges.foldl removeEdge (t.edges.foldl (tickEdge (t.ts / 1000))
      (t.nodes.foldl upsertNode s))).nodeInfo id = (t.nodes.foldl upsertNode s).nodeInfo id := by
    intro id
    rw [Loop.foldl_const (g := fun s : GraphState => s.nodeInfo id)
        fun s eid => removeEdge_nodeInfo s eid id,
      Loop.foldl_const (g := fun s : GraphState => s.nodeInfo id)
        fun s e => tickEdge_nodeInfo _ s e id]
  by_cases h : id ∈ t.gone.nodes
  · rw [tickLoops, removeNode_writes.foldl_overwrite trivial h,
      removeNode_writes.foldl_overwrite trivial h]
  · have hne : ∀ b ∈ t.gone.nodes, b ≠ id := fun b hb => ne_of_mem_of_not_mem hb h
    rw [tickLoops, removeNode_writes.foldl_of_not_mem trivial hne, hmid,
      removeNode_writes.foldl_of_not_mem trivial hne]

/-- A node that the tick reports gone is gone, also when it is among the nodes it sends. -/
theorem applyTick_nodeInfo_gone (s : GraphState) {t : Tick} {id : String}
    (h : id ∈ t.gone.nodes) : (s.applyTick t).nodeInfo id = none := by
  show (s.tickLoops t).nodeInfo id = none
  rw [tickLoops_nodeInfo, removeNode_writes.foldl_overwrite trivial h]

/-- After a tick a node that was sent tells that as well as what it told before. -/
theorem applyTick_nodeInfo_sent (s : GraphState) {t : Tick}
    (hnd : (t.nodes.map WireNode.id).Nodup) {n : WireNode} (hn : n ∈ t.nodes)
    (hgone : n.id ∉ t.gone.nodes) :
    (s.applyTick t).nodeInfo n.id = some (mergeInfo n (s.nodeInfo n.id)) := by
  show (s.tickLoops t).nodeInfo n.id = _
  rw [tickLoops_nodeInfo, removeNode_writes.foldl_of_not_mem trivial
    fun b hb => ne_of_mem_of_not_mem hb hgone]
  exact upsertNode_writes.foldl_of_mem hnd trivial hn

theorem applyTick_nodeInfo_kept (s : GraphState) {t : Tick} {id : String}
    (hn : ∀ n ∈ t.nodes, n.id ≠ id) (hgone : id ∉ t.gone.nodes) :
    (s.applyTick t).nodeInfo id = s.nodeInfo id := by
  show (s.tickLoops t).nodeInfo id = _
  rw [tickLoops_nodeInfo, removeNode_writes.foldl_of_not_mem trivial
    fun b hb => ne_of_mem_of_not_mem hb hgone]
  exact upsertNode_writes.foldl_of_not_mem trivial hn

/-- The edges after a tick come from the two loops in the middle. -/
theorem tickLoops_edgeInfo (s : GraphState) (t : Tick) (id : String) :
    (s.tickLoops t).edgeInfo id = (t.gone.edges.foldl removeEdge
      (t.edges.foldl (tickEdge (t.ts / 1000)) (t.nodes.foldl upsertNode s))).edgeInfo id := by
  unfold tickLoops
  exact Loop.foldl_const (g := fun s : GraphState => s.edgeInfo id) fun s id' => by
    rw [edgeInfo, removeNode_edges]
    rfl

theorem foldl_upsertNode_edges (s : GraphState) (l : List WireNode) :
    (l.foldl upsertNode s).edges = s.edges := Loop.foldl_const upsertNode_edges

theorem applyTick_edgeInfo_gone (s : GraphState) {t : Tick} {id : String}
    (h : id ∈ t.gone.edges) : (s.applyTick t).edgeInfo id = none := by
  show (s.tickLoops t).edgeInfo id = none
  rw [tickLoops_edgeInfo, removeEdge_writes.foldl_overwrite trivial h]

theorem applyTick_edgeInfo_sent (s : GraphState) {t : Tick}
    (hnd : (t.edges.map WireEdge.id).Nodup) {e : WireEdge} (he : e ∈ t.edges)
    (hgone : e.id ∉ t.gone.edges) :
    (s.applyTick t).edgeInfo e.id
      = some (countInfo e ((s.edgeInfo e.id).getD (freshInfo e))) := by
  show (s.tickLoops t).edgeInfo e.id = _
  rw [tickLoops_edgeInfo, removeEdge_writes.foldl_of_not_mem trivial
      fun b hb => ne_of_mem_of_not_mem hb hgone,
    (tickEdge_writes _).foldl_of_mem hnd trivial he, edgeInfo, foldl_upsertNode_edges]
  rfl

/-- An edge that no part of the tick speaks of tells what it told. -/
theorem applyTick_edgeInfo_kept (s : GraphState) {t : Tick} {id : String}
    (he : ∀ e ∈ t.edges, e.id ≠ id) (hgone : id ∉ t.gone.edges) :
    (s.applyTick t).edgeInfo id = s.edgeInfo id := by
  show (s.tickLoops t).edgeInfo id = _
  rw [tickLoops_edgeInfo, removeEdge_writes.foldl_of_not_mem trivial
      fun b hb => ne_of_mem_of_not_mem hb hgone,
    (tickEdge_writes _).foldl_of_not_mem trivial he, edgeInfo, foldl_upsertNode_edges]
  rfl

/-! ## Snapshots -/

/-- The two loops of a snapshot. -/
def snapshotLoops (s : GraphState) (m : Snapshot) : GraphState :=
  m.edges.foldl snapshotEdge (m.nodes.foldl upsertNode s.clear)

theorem applySnapshot_nodes (s : GraphState) (m : Snapshot) :
    (s.applySnapshot m).nodes = (s.snapshotLoops m).nodes := rfl

theorem applySnapshot_edges (s : GraphState) (m : Snapshot) :
    (s.applySnapshot m).edges = (s.snapshotLoops m).edges := rfl

theorem snapshotLoops_nodeInfo (s : GraphState) (m : Snapshot) (id : String) :
    (s.snapshotLoops m).nodeInfo id = (m.nodes.foldl upsertNode s.clear).nodeInfo id :=
  Loop.foldl_const (g := fun s : GraphState => s.nodeInfo id)
    fun s e => snapshotEdge_nodeInfo s e id

/-- **After a snapshot a node is what was sent**. -/
theorem applySnapshot_nodeInfo_sent (s : GraphState) {m : Snapshot}
    (hnd : (m.nodes.map WireNode.id).Nodup) {n : WireNode} (hn : n ∈ m.nodes) :
    (s.applySnapshot m).nodeInfo n.id = some (freshNode n) := by
  rw [nodeInfo, applySnapshot_nodes]
  exact (snapshotLoops_nodeInfo s m n.id).trans (upsertNode_writes.foldl_of_mem hnd trivial hn)

theorem applySnapshot_nodeInfo_absent (s : GraphState) {m : Snapshot} {id : String}
    (hn : ∀ n ∈ m.nodes, n.id ≠ id) : (s.applySnapshot m).nodeInfo id = none := by
  rw [nodeInfo, applySnapshot_nodes]
  exact (snapshotLoops_nodeInfo s m id).trans (upsertNode_writes.foldl_of_not_mem trivial hn)

/-- **An edge is what was sent**. -/
theorem applySnapshot_edgeInfo_sent (s : GraphState) {m : Snapshot}
    (hnd : (m.edges.map WireEdge.id).Nodup) {e : WireEdge} (he : e ∈ m.edges) :
    (s.applySnapshot m).edgeInfo e.id = some (wireInfo e) := by
  rw [edgeInfo, applySnapshot_edges]
  apply (snapshotEdge_writes.foldl_of_mem hnd trivial he).trans
  rw [edgeInfo, foldl_upsertNode_edges]
  rfl

/-- An edge that was not sent is not there. -/
theorem applySnapshot_edgeInfo_absent (s : GraphState) {m : Snapshot} {id : String}
    (he : ∀ e ∈ m.edges, e.id ≠ id) : (s.applySnapshot m).edgeInfo id = none := by
  rw [edgeInfo, applySnapshot_edges]
  apply (snapshotEdge_writes.foldl_of_not_mem trivial he).trans
  rw [edgeInfo, foldl_upsertNode_edges]
  rfl

/-! ## Edge ids of nodes -/

/-- The edge has an end at the node. -/
def HasEnd (s : GraphState) (id eid : String) : Prop :=
  ∃ e, s.edges.get? eid = some e ∧ (e.src = id ∨ e.dst = id)

/-- The edge ids of a node are those of the edges with an end at it. -/
def Linked (s : GraphState) : Prop :=
  ∀ ⦃id n⦄, s.nodes.get? id = some n → ∀ eid, eid ∈ n.edges ↔ s.HasEnd id eid

/-- The ends of every edge are nodes. -/
def Closed (s : GraphState) : Prop :=
  ∀ ⦃eid e⦄, s.edges.get? eid = some e → e.src ∈ s.nodes ∧ e.dst ∈ s.nodes

/-- The whole node after `upsertNode`. -/
theorem upsertNode_nodes (s : GraphState) (n : WireNode) (id : String) :
    (s.upsertNode n).nodes.get? id = if id = n.id then
      some (match s.nodes.get? n.id with
        | none => freshNode n
        | some ns => mergeNode n ns)
      else s.nodes.get? id := by
  unfold upsertNode
  cases h : s.nodes.get? n.id with
  | none => exact OrdMap.get?_set _ _ _ _
  | some ns => exact OrdMap.get?_set _ _ _ _

/-- An edge that has its ends has them when a node comes. -/
theorem closed_upsertNode {s : GraphState} (h : s.Closed) (n : WireNode) :
    (s.upsertNode n).Closed := by
  have hgrow : ∀ {id}, id ∈ s.nodes → id ∈ (s.upsertNode n).nodes := by
    intro id hid
    rw [OrdMap.mem_iff_isSome, upsertNode_nodes]
    split
    · rfl
    · exact hid
  intro eid e he
  rw [upsertNode_edges] at he
  obtain ⟨hs, hd⟩ := h he
  exact ⟨hgrow hs, hgrow hd⟩

/-- A new node starts without edge ids: no edge can have an end at it yet. -/
theorem linked_upsertNode {s : GraphState} (hl : s.Linked) (hc : s.Closed) (n : WireNode) :
    (s.upsertNode n).Linked := by
  intro id ns hget eid
  rw [HasEnd, upsertNode_edges]
  rw [upsertNode_nodes] at hget
  split at hget
  · next heq =>
    subst heq
    obtain rfl := Option.some.inj hget
    cases h : s.nodes.get? n.id with
    | none =>
      -- a new node has no edges yet, and no edge ends in it, since all have known ends
      apply iff_of_false (OrdMap.not_mem_empty eid)
      rintro ⟨e, he, hend⟩
      have hout : n.id ∉ s.nodes := OrdMap.not_mem_iff.2 h
      obtain ⟨hs, hd⟩ := hc he
      rcases hend with heq | heq
      · exact hout (heq ▸ hs)
      · exact hout (heq ▸ hd)
    | some ns => exact hl h eid
  · exact hl hget eid

/-- Adding or deleting an edge id at both ends, seen from one node. -/
theorem get?_link_both {nodes : OrdMap String NodeState} {a b eid id : String} {n : NodeState}
    (h : (link (link nodes a eid) b eid).get? id = some n) :
    ∃ n₀, nodes.get? id = some n₀ ∧
      ∀ eid', eid' ∈ n.edges ↔ ((a = id ∨ b = id) ∧ eid' = eid) ∨ eid' ∈ n₀.edges := by
  simp only [link, OrdMap.get?_modify] at h
  -- an edge of a node to itself is linked once
  by_cases ha : id = a
  · by_cases hb : id = b
    · rw [if_pos hb, if_pos ha, Option.map_map] at h
      obtain ⟨n₀, hn₀, rfl⟩ := Option.map_eq_some_iff.1 h
      exact ⟨n₀, hn₀, fun eid' => by simp [ha.symm]⟩
    · rw [if_neg hb, if_pos ha] at h
      obtain ⟨n₀, hn₀, rfl⟩ := Option.map_eq_some_iff.1 h
      exact ⟨n₀, hn₀, fun eid' => by simp [ha.symm]⟩
  · by_cases hb : id = b
    · rw [if_pos hb, if_neg ha] at h
      obtain ⟨n₀, hn₀, rfl⟩ := Option.map_eq_some_iff.1 h
      exact ⟨n₀, hn₀, fun eid' => by simp [hb.symm]⟩
    · rw [if_neg hb, if_neg ha] at h
      exact ⟨n, h, fun eid' => by simp [Ne.symm ha, Ne.symm hb]⟩

/-- What two unlinks leave in a node. -/
theorem get?_unlink_both {nodes : OrdMap String NodeState} {a b eid id : String} {n : NodeState}
    (h : (unlink (unlink nodes a eid) b eid).get? id = some n) :
    ∃ n₀, nodes.get? id = some n₀ ∧
      ∀ eid', eid' ∈ n.edges ↔ ¬ ((a = id ∨ b = id) ∧ eid' = eid) ∧ eid' ∈ n₀.edges := by
  simp only [unlink, OrdMap.get?_modify] at h
  -- as for linking, an edge of a node to itself included
  by_cases ha : id = a
  · by_cases hb : id = b
    · rw [if_pos hb, if_pos ha, Option.map_map] at h
      obtain ⟨n₀, hn₀, rfl⟩ := Option.map_eq_some_iff.1 h
      exact ⟨n₀, hn₀, fun eid' => by simp [ha.symm]⟩
    · rw [if_neg hb, if_pos ha] at h
      obtain ⟨n₀, hn₀, rfl⟩ := Option.map_eq_some_iff.1 h
      exact ⟨n₀, hn₀, fun eid' => by simp [ha.symm]⟩
  · by_cases hb : id = b
    · rw [if_pos hb, if_neg ha] at h
      obtain ⟨n₀, hn₀, rfl⟩ := Option.map_eq_some_iff.1 h
      exact ⟨n₀, hn₀, fun eid' => by simp [hb.symm]⟩
    · rw [if_neg hb, if_neg ha] at h
      exact ⟨n, h, fun eid' => by simp [Ne.symm ha, Ne.symm hb]⟩

/-- A new edge is linked to its ends. -/
theorem linked_upsertEdge {s : GraphState} (hl : s.Linked) (e : WireEdge) :
    (s.upsertEdge e).Linked := by
  unfold upsertEdge
  split
  · exact hl
  · next hnew =>
    intro id n hget eid
    obtain ⟨n₀, hn₀, hmem⟩ := get?_link_both hget
    rw [hmem, hl hn₀]
    simp only [HasEnd, OrdMap.get?_set]
    -- only the new edge is added, and only to its ends
    by_cases heq : eid = e.id
    · have hold : s.edges.get? eid = none := heq ▸ OrdMap.not_mem_iff.1 hnew
      simp [heq, OrdMap.not_mem_iff.1 hnew, freshEdge]
    · simp [heq]

/-- Writes that leave the ends of an edge alone keep the edge ids right. -/
theorem linked_modify {s : GraphState} (hl : s.Linked) {f : EdgeState → EdgeState}
    (hf : ∀ es, (f es).src = es.src ∧ (f es).dst = es.dst) (eid : String) :
    ({ s with edges := s.edges.modify eid f } : GraphState).Linked := by
  intro id n hget eid'
  rw [hl hget]
  simp only [HasEnd, OrdMap.get?_modify]
  -- an edge that is changed ends where it did
  split
  · simp only [Option.map_eq_some_iff]
    constructor
    · rintro ⟨e, he, hend⟩
      exact ⟨f e, ⟨e, he, rfl⟩, by rwa [(hf e).1, (hf e).2]⟩
    · rintro ⟨-, ⟨e, he, rfl⟩, hend⟩
      exact ⟨e, he, by rwa [(hf e).1, (hf e).2] at hend⟩
  · rfl

theorem resetEdge_ends (retention : Nat) (e : WireEdge) (es : EdgeState) :
    (resetEdge retention e es).src = es.src ∧ (resetEdge retention e es).dst = es.dst := by
  have hs : (resetEdge retention e es).info.src = es.info.src := by rw [resetEdge_info]
  have hd : (resetEdge retention e es).info.dst = es.info.dst := by rw [resetEdge_info]
  exact ⟨hs, hd⟩

theorem countEdge_ends (retention : Nat) (sec : Int) (e : WireEdge) (es : EdgeState) :
    (countEdge retention sec e es).src = es.src ∧
      (countEdge retention sec e es).dst = es.dst := by
  have hs : (countEdge retention sec e es).info.src = es.info.src := by
    rw [countEdge_info]
    rfl
  have hd : (countEdge retention sec e es).info.dst = es.info.dst := by
    rw [countEdge_info]
    rfl
  exact ⟨hs, hd⟩

/-- An edge that goes is unlinked from its ends. -/
theorem linked_removeEdge {s : GraphState} (hl : s.Linked) (eid : String) :
    (s.removeEdge eid).Linked := by
  unfold removeEdge
  split
  · exact hl
  · next e he =>
    intro id n hget eid'
    obtain ⟨n₀, hn₀, hmem⟩ := get?_unlink_both hget
    rw [hmem, hl hn₀]
    simp only [HasEnd, OrdMap.get?_erase]
    -- only the edge that goes is taken out, and only of its ends
    by_cases heq : eid' = eid
    · subst heq
      simp [he]
    · simp [heq]

/-- A node that goes takes its list with it. -/
theorem linked_removeNode {s : GraphState} (hl : s.Linked) (id : String) :
    (s.removeNode id).Linked := by
  intro id' n hget eid
  rw [removeNode_nodes] at hget
  rw [HasEnd, removeNode_edges]
  split at hget
  · cases hget
  · exact hl hget eid

/-- A tick keeps the edge ids right when the edges are closed before it. -/
theorem linked_applyTick {s : GraphState} (hl : s.Linked) (hc : s.Closed) (t : Tick) :
    (s.applyTick t).Linked := by
  have h₁ : (t.nodes.foldl upsertNode s).Linked ∧ (t.nodes.foldl upsertNode s).Closed :=
    Loop.foldl_keeps (J := fun s : GraphState => s.Linked ∧ s.Closed)
      (fun _ n h => ⟨linked_upsertNode h.1 h.2 n, closed_upsertNode h.2 n⟩) ⟨hl, hc⟩
  have h₂ := Loop.foldl_keeps (J := Linked) (f := tickEdge (t.ts / 1000)) (l := t.edges)
    (fun s e h => linked_modify (linked_upsertEdge h e) (countEdge_ends _ _ e) e.id) h₁.1
  have h₃ := Loop.foldl_keeps (J := Linked) (l := t.gone.edges)
    (fun _ eid h => linked_removeEdge h eid) h₂
  exact Loop.foldl_keeps (J := Linked) (l := t.gone.nodes)
    (fun _ id h => linked_removeNode h id) h₃

/-- A snapshot starts from nothing, so it always leaves the edge ids right. -/
theorem linked_applySnapshot (s : GraphState) (m : Snapshot) : (s.applySnapshot m).Linked := by
  have h₀ : s.clear.Linked ∧ s.clear.Closed :=
    ⟨fun _ _ h => by simp [clear] at h, fun _ _ h => by simp [clear] at h⟩
  have h₁ : (m.nodes.foldl upsertNode s.clear).Linked ∧
      (m.nodes.foldl upsertNode s.clear).Closed :=
    Loop.foldl_keeps (J := fun s : GraphState => s.Linked ∧ s.Closed)
      (fun _ n h => ⟨linked_upsertNode h.1 h.2 n, closed_upsertNode h.2 n⟩) h₀
  exact Loop.foldl_keeps (J := Linked) (f := snapshotEdge) (l := m.edges)
    (fun s e h => linked_modify (linked_upsertEdge h e) (resetEdge_ends _ e) e.id) h₁.1

end GraphState

end Flowscape
