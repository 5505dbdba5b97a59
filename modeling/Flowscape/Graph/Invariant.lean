import Flowscape.Lib.Run
import Flowscape.Graph.State
import Mathlib.Algebra.Order.BigOperators.Group.List

/-!
# Flowscape: the representation invariant, and what removing edges does

`Graph.Inv` ties the maps of a graph together: edges end in nodes, the `edges` counter of a
node counts the edge ends under its id, and every pending entry is about a live node (the
same object) or a live edge. It is what makes every `g.nodes[...].edges` of the code a
lookup of a present id.

This module has the invariant and the two operations that take edges away in the middle of
other work: `dropEdges`, the loop of `retireAddress` and of `Tick`, and `retireAddress`
itself with its caller `learnMachine`. Each gets one lemma that says it has a result, keeps
the invariant, and what it leaves in each map.
-/

namespace Flowscape

namespace EdgeKey

/-- How many ends of the conversation carry the id. -/
def ends (k : EdgeKey) (id : String) : Int :=
  (if k.src.id = id then 1 else 0) + (if k.dst.id = id then 1 else 0)

/-- One of the ends carries the id. -/
def touches (k : EdgeKey) (id : String) : Prop := k.src.id = id ∨ k.dst.id = id

instance (k : EdgeKey) (id : String) : Decidable (k.touches id) :=
  inferInstanceAs (Decidable (_ ∨ _))

theorem ends_nonneg (k : EdgeKey) (id : String) : 0 ≤ k.ends id := by
  unfold ends; split <;> split <;> omega

theorem ends_pos {k : EdgeKey} {id : String} (h : k.touches id) : 0 < k.ends id := by
  unfold ends
  rcases h with h | h
  · rw [if_pos h]; split <;> omega
  · rw [if_pos h]; split <;> omega

end EdgeKey

/-- What holds of every edge object: its ring has slots, and a latency is never negative. -/
structure Edge.Sound (e : Edge) : Prop where
  ring : 0 < e.ring.slots.length
  latency : 0 ≤ e.l7.latency

namespace Graph

/-- The number of edge ends with the id. -/
def degree (g : Graph) (id : String) : Int := g.edges.sumOver fun e => e.key.ends id

/-- The node object under an id. -/
def node? (g : Graph) (id : String) : Option Node := (g.nodes.get? id).map g.heap

/-- The representation invariant. -/
structure Inv (g : Graph) : Prop where
  retention : 10 * second ≤ g.retention
  /-- Node addresses are allocated. -/
  alloc : ∀ {id r}, g.nodes.get? id = some r → r < g.next
  /-- A node lies under its own id. -/
  named : ∀ {id r}, g.nodes.get? id = some r → (g.heap r).id = id ∧ (g.heap r).key.id = id
  /-- An edge lies under its own id. -/
  edgeNamed : ∀ {id e}, g.edges.get? id = some e → e.id = id ∧ e.key.id = id
  /-- Both ends of an edge are nodes. -/
  closed : ∀ {id e}, g.edges.get? id = some e → e.key.src.id ∈ g.nodes ∧ e.key.dst.id ∈ g.nodes
  /-- The `edges` counter counts edge ends. -/
  counter : ∀ {id r}, g.nodes.get? id = some r → (g.heap r).edges = g.degree id
  /-- A new node is a live node. -/
  newNodes : ∀ {id r}, g.newNodes.get? id = some r → g.nodes.get? id = some r
  /-- A dirty node is a live node. -/
  dirtyNode : ∀ {id r}, g.dirtyNode.get? id = some r → g.nodes.get? id = some r
  dirty : ∀ {id}, id ∈ g.dirty → id ∈ g.edges
  dirtyL7 : ∀ {id}, id ∈ g.dirtyL7 → id ∈ g.edges
  edgeSound : ∀ {id e}, g.edges.get? id = some e → e.Sound

/-- The graph of the start is empty, so only its retention has to be looked at. -/
theorem inv_new (retention : Time) : (new retention).Inv where
  retention := by
    unfold new
    split
    · exact le_refl _
    · next h => exact not_lt.1 h
  alloc h := by simp [new] at h
  named h := by simp [new] at h
  edgeNamed h := by simp [new] at h
  closed h := by simp [new] at h
  counter h := by simp [new] at h
  newNodes h := by simp [new] at h
  dirtyNode h := by simp [new] at h
  dirty h := by simp [new] at h
  dirtyL7 h := by simp [new] at h
  edgeSound h := by simp [new] at h

/-- Two ids never share a node object. -/
theorem Inv.ref_inj {g : Graph} (h : g.Inv) {id id' : String} {r : Ref}
    (h₁ : g.nodes.get? id = some r) (h₂ : g.nodes.get? id' = some r) : id = id' :=
  (h.named h₁).1.symm.trans (h.named h₂).1

/-- No two ids share an object. -/
theorem Inv.ref_iff {g : Graph} (h : g.Inv) {id id' : String} {r r' : Ref}
    (h₁ : g.nodes.get? id = some r) (h₂ : g.nodes.get? id' = some r') : r' = r ↔ id' = id := by
  constructor
  · rintro rfl
    exact h.ref_inj h₂ h₁
  · rintro rfl
    rw [h₁] at h₂
    exact (Option.some.inj h₂).symm

/-- Without edge ends under the id, no edge touches it. -/
theorem not_touches_of_degree_le {g : Graph} {id : String} (h : g.degree id ≤ 0) {eid : String}
    {e : Edge} (he : g.edges.get? eid = some e) : ¬ e.key.touches id := by
  intro ht
  have hsum : g.degree id = e.key.ends id + (g.edges.erase eid).sumOver fun e => e.key.ends id :=
    OrdMap.sumOver_erase _ he
  have hrest : 0 ≤ (g.edges.erase eid).sumOver fun e => e.key.ends id := by
    apply List.sum_nonneg
    intro x hx
    obtain ⟨p, _, rfl⟩ := List.mem_map.1 hx
    exact EdgeKey.ends_nonneg _ _
  have := EdgeKey.ends_pos ht
  omega

/-! ## Counters

Only the counters of the two ends move when an edge comes or goes. -/

/-- The two `edges` counters of a conversation move by `d`; nothing else in the graph does. -/
theorem addDegree_both {g : Graph} (hinv : g.Inv) (g₀ : Graph) (hnodes : g₀.nodes = g.nodes)
    (hheap : g₀.heap = g.heap) (k : EdgeKey) (d : Int) (hs : k.src.id ∈ g.nodes)
    (hd : k.dst.id ∈ g.nodes) :
    ∃ heap : Ref → Node,
      (g₀.addDegree k.src.id d).bind (fun g => g.addDegree k.dst.id d)
        = some { g₀ with heap := heap } ∧
      (∀ r, heap r = { g.heap r with edges := (heap r).edges }) ∧
      ∀ id r, g.nodes.get? id = some r →
        (heap r).edges = (g.heap r).edges + d * k.ends id := by
  obtain ⟨rs, hrs⟩ := OrdMap.mem_iff.1 hs
  obtain ⟨rd, hrd⟩ := OrdMap.mem_iff.1 hd
  let add : Node → Node := fun n => { n with edges := n.edges + d }
  let heap₁ := Function.update g.heap rs (add (g.heap rs))
  let heap₂ := Function.update heap₁ rd (add (heap₁ rd))
  refine ⟨heap₂, ?_, ?_, ?_⟩
  · -- both updates find their node
    have hrs₀ : g₀.nodes.get? k.src.id = some rs := hnodes ▸ hrs
    have hrd₀ : g₀.nodes.get? k.dst.id = some rd := hnodes ▸ hrd
    have h₁ : g₀.addDegree k.src.id d = some { g₀ with heap := heap₁ } := by
      rw [addDegree, hrs₀, Option.map_some, update, hheap]
    have h₂ : ({ g₀ with heap := heap₁ } : Graph).addDegree k.dst.id d
        = some { g₀ with heap := heap₂ } := by
      rw [addDegree]
      show Option.map _ (g₀.nodes.get? k.dst.id) = _
      rw [hrd₀]
      rfl
    rw [h₁, Option.bind_some, h₂]
  · -- the frame: the two ends may be one node, so the cases overlap
    intro r
    by_cases h₁ : r = rs
    · subst h₁
      by_cases h₂ : r = rd <;> simp [heap₂, heap₁, add, Function.update_apply, h₂]
    · by_cases h₂ : r = rd
      · subst h₂
        simp [heap₂, heap₁, add, h₁]
      · simp [heap₂, heap₁, Function.update_apply, h₁, h₂]
  · -- an edge from a node to itself counts twice, as it does in the degree
    intro id r hr
    have hsrc : (k.src.id = id) ↔ rs = r := (hinv.ref_iff hr hrs).symm
    have hdst : (k.dst.id = id) ↔ rd = r := (hinv.ref_iff hr hrd).symm
    have hcount : (heap₂ r).edges = (g.heap r).edges + (if rs = r then d else 0)
        + (if rd = r then d else 0) := by
      by_cases h₁ : rs = r
      · subst h₁
        by_cases h₂ : rd = rs
        · simp [heap₂, heap₁, add, h₂]
        · simp [heap₂, heap₁, add, h₂, Ne.symm h₂]
      · by_cases h₂ : rd = r
        · subst h₂
          simp [heap₂, heap₁, add, Ne.symm h₁, h₁]
        · simp [heap₂, heap₁, Function.update_apply, Ne.symm h₁, h₁, Ne.symm h₂, h₂]
    rw [hcount]
    simp only [EdgeKey.ends, hsrc, hdst, Int.mul_add, mul_ite, Int.mul_one, Int.mul_zero,
      Int.add_assoc]

/-! ## Dropping edges -/

/-- What dropping the edges with `gone` leaves behind. -/
structure Dropped (gone : String → Prop) (g g' : Graph) : Prop where
  retention : g'.retention = g.retention
  next : g'.next = g.next
  heap : ∀ r, g'.heap r = { g.heap r with edges := (g'.heap r).edges }
  nodes : g'.nodes = g.nodes
  newNodes : g'.newNodes = g.newNodes
  dirtyNode : g'.dirtyNode = g.dirtyNode
  goneNodes : g'.goneNodes = g.goneNodes
  unknown : g'.unknown = g.unknown
  nodeIPs : g'.nodeIPs = g.nodeIPs
  edges_gone : ∀ {id}, gone id → g'.edges.get? id = none
  edges_kept : ∀ {id}, ¬ gone id → g'.edges.get? id = g.edges.get? id
  dirty_gone : ∀ {id}, gone id → g'.dirty.get? id = none
  dirty_kept : ∀ {id}, ¬ gone id → g'.dirty.get? id = g.dirty.get? id
  dirtyL7 : ∀ {id}, id ∈ g'.dirtyL7 ↔ ¬ gone id ∧ id ∈ g.dirtyL7
  goneEdges : ∀ {id}, id ∈ g'.goneEdges ↔ gone id ∨ id ∈ g.goneEdges

/-- Nothing is dropped. -/
theorem Dropped.refl (g : Graph) : Dropped (fun _ => False) g g where
  retention := rfl
  next := rfl
  heap _ := rfl
  nodes := rfl
  newNodes := rfl
  dirtyNode := rfl
  goneNodes := rfl
  unknown := rfl
  nodeIPs := rfl
  edges_gone h := h.elim
  edges_kept _ := rfl
  dirty_gone h := h.elim
  dirty_kept _ := rfl
  dirtyL7 := by simp
  goneEdges := by simp

/-- What is dropped in two steps is dropped. -/
theorem Dropped.trans {p q : String → Prop} {g₁ g₂ g₃ : Graph} (h₁ : Dropped p g₁ g₂)
    (h₂ : Dropped q g₂ g₃) : Dropped (fun id => p id ∨ q id) g₁ g₃ where
  retention := h₂.retention.trans h₁.retention
  next := h₂.next.trans h₁.next
  heap r := by rw [h₂.heap r, h₁.heap r]
  nodes := h₂.nodes.trans h₁.nodes
  newNodes := h₂.newNodes.trans h₁.newNodes
  dirtyNode := h₂.dirtyNode.trans h₁.dirtyNode
  goneNodes := h₂.goneNodes.trans h₁.goneNodes
  unknown := h₂.unknown.trans h₁.unknown
  nodeIPs := h₂.nodeIPs.trans h₁.nodeIPs
  -- an edge that the first step has taken is not brought back by the second
  edges_gone h := OrdMap.get?_eq_none_trans h₂.edges_gone h₂.edges_kept h₁.edges_gone h
  edges_kept {id} h := by
    rw [not_or] at h
    rw [h₂.edges_kept h.2, h₁.edges_kept h.1]
  dirty_gone h := OrdMap.get?_eq_none_trans h₂.dirty_gone h₂.dirty_kept h₁.dirty_gone h
  dirty_kept {id} h := by
    rw [not_or] at h
    rw [h₂.dirty_kept h.2, h₁.dirty_kept h.1]
  dirtyL7 {id} := by
    rw [h₂.dirtyL7, h₁.dirtyL7, not_or]
    tauto
  goneEdges {id} := by
    rw [h₂.goneEdges, h₁.goneEdges]
    tauto

theorem Dropped.congr {p q : String → Prop} {g g' : Graph} (h : Dropped p g g')
    (hpq : ∀ id, p id ↔ q id) : Dropped q g g' := by
  have : p = q := funext fun id => propext (hpq id)
  exact this ▸ h

/-- The graph without the edge `eid`, which the clients hear is gone; `heap` has the counters of
its ends. -/
def withoutEdge (eid : String) (heap : Ref → Node) (g : Graph) : Graph :=
  { g with
    heap := heap
    edges := g.edges.erase eid
    dirty := g.dirty.erase eid
    dirtyL7 := g.dirtyL7.erase eid
    goneEdges := g.goneEdges ++ [eid] }

/-- With the counters of its two ends one lower, the graph without a live edge keeps the
invariant. -/
theorem Inv.withoutEdge {g : Graph} (hinv : g.Inv) {eid : String} {e : Edge}
    (he : g.edges.get? eid = some e) {heap : Ref → Node}
    (hheap : ∀ r, heap r = { g.heap r with edges := (heap r).edges })
    (hcount : ∀ id r, g.nodes.get? id = some r →
      (heap r).edges = (g.heap r).edges + -1 * e.key.ends id) : (g.withoutEdge eid heap).Inv := by
  have hkept : ∀ {id e'}, (g.withoutEdge eid heap).edges.get? id = some e' →
      g.edges.get? id = some e' := fun h => (OrdMap.get?_erase_eq_some.1 h).2
  exact {
    retention := hinv.retention
    alloc := hinv.alloc
    named := fun {id r} h => by
      have := hinv.named h
      rw [show (g.withoutEdge eid heap).heap r = heap r from rfl, hheap r]
      exact this
    edgeNamed := fun h => hinv.edgeNamed (hkept h)
    closed := fun h => hinv.closed (hkept h)
    counter := fun {id r} h => by
      -- both sides lose the ends of the edge
      have hsum : g.degree id = e.key.ends id + (g.withoutEdge eid heap).degree id :=
        OrdMap.sumOver_erase _ he
      rw [show ((g.withoutEdge eid heap).heap r).edges = (heap r).edges from rfl, hcount id r h,
        hinv.counter h]
      omega
    newNodes := hinv.newNodes
    dirtyNode := hinv.dirtyNode
    dirty := fun {id} h => by
      obtain ⟨hne, hmem⟩ := OrdMap.mem_erase.1 h
      exact OrdMap.mem_erase.2 ⟨hne, hinv.dirty hmem⟩
    dirtyL7 := fun {id} h => by
      obtain ⟨hne, hmem⟩ := OrdMap.mem_erase.1 h
      exact OrdMap.mem_erase.2 ⟨hne, hinv.dirtyL7 hmem⟩
    edgeSound := fun h => hinv.edgeSound (hkept h) }

/-- One edge is dropped: the flags that it may have had go along, and the next tick reports it. -/
theorem dropped_withoutEdge (eid : String) {heap : Ref → Node} {g : Graph}
    (hheap : ∀ r, heap r = { g.heap r with edges := (heap r).edges }) :
    Dropped (· = eid) g (g.withoutEdge eid heap) where
  retention := rfl
  next := rfl
  heap := hheap
  nodes := rfl
  newNodes := rfl
  dirtyNode := rfl
  goneNodes := rfl
  unknown := rfl
  nodeIPs := rfl
  -- only the one edge goes, and with it what was pending of it
  edges_gone {id} h := by rw [h]; exact OrdMap.get?_erase_self _ _
  edges_kept {id} h := OrdMap.get?_erase_ne _ h
  dirty_gone {id} h := by rw [h]; exact OrdMap.get?_erase_self _ _
  dirty_kept {id} h := OrdMap.get?_erase_ne _ h
  dirtyL7 := OrdMap.mem_erase
  goneEdges {id} := by
    rw [show (g.withoutEdge eid heap).goneEdges = g.goneEdges ++ [eid] from rfl, List.mem_append,
      List.mem_singleton, or_comm]

/-- Dropping a live edge has a result and keeps the invariant. -/
theorem dropEdge_spec {g : Graph} (hinv : g.Inv) {eid : String} {e : Edge}
    (he : g.edges.get? eid = some e) :
    ∃ g', g.dropEdge eid e = some g' ∧ g'.Inv ∧ Dropped (· = eid) g g' := by
  let g₀ : Graph := { g with
    edges := g.edges.erase eid, dirty := g.dirty.erase eid, dirtyL7 := g.dirtyL7.erase eid }
  obtain ⟨hs, hd⟩ := hinv.closed he
  obtain ⟨heap, hres, hheap, hcount⟩ :=
    addDegree_both hinv g₀ rfl rfl e.key (-1) hs hd
  -- taking it out of the maps and out of the lists of its two ends can be done in either order
  have hdrop : g.dropEdge eid e = some (g.withoutEdge eid heap) := by
    have : g.dropEdge eid e = ((g₀.addDegree e.key.src.id (-1)).bind
        fun g => g.addDegree e.key.dst.id (-1)).bind
          fun g => some { g with goneEdges := g.goneEdges ++ [eid] } := by
      rw [Option.bind_assoc]; rfl
    rw [this, hres]; rfl
  exact ⟨_, hdrop, hinv.withoutEdge he hheap hcount, dropped_withoutEdge eid hheap⟩

/-- The loop over live edges drops exactly those that meet the condition. -/
theorem dropEdges_spec (cond : Edge → Bool) {l : List (String × Edge)} {g : Graph} (hinv : g.Inv)
    (hlive : ∀ id e, (id, e) ∈ l → g.edges.get? id = some e)
    (hnd : (l.map Prod.fst).Nodup) :
    ∃ g', dropEdges cond l g = some g' ∧ g'.Inv ∧
      Dropped (fun id => ∃ e, (id, e) ∈ l ∧ cond e = true) g g' := by
  induction l generalizing g with
  | nil => exact ⟨g, rfl, hinv, (Dropped.refl g).congr (by simp)⟩
  | cons p rest ih =>
    obtain ⟨eid, e⟩ := p
    rw [List.map_cons, List.nodup_cons] at hnd
    have hout : ∀ e', (eid, e') ∉ rest := fun e' h => hnd.1 (List.mem_map.2 ⟨_, h, rfl⟩)
    by_cases hc : cond e = true
    · obtain ⟨g₁, hdrop, hinv₁, hd₁⟩ := dropEdge_spec hinv (hlive eid e List.mem_cons_self)
      -- the entries still to be visited are live in the state after the drop
      have hlive₁ : ∀ id e', (id, e') ∈ rest → g₁.edges.get? id = some e' := by
        intro id e' h
        have hne : id ≠ eid := fun heq => hout e' (heq ▸ h)
        rw [hd₁.edges_kept hne]
        exact hlive id e' (List.mem_cons_of_mem _ h)
      obtain ⟨g₂, hrest, hinv₂, hd₂⟩ := ih hinv₁ hlive₁ hnd.2
      refine ⟨g₂, ?_, hinv₂, (hd₁.trans hd₂).congr fun id => ?_⟩
      · rw [dropEdges, if_pos hc, hdrop, Option.bind_some, hrest]
      · rw [OrdMap.exists_mem_cons_iff, and_iff_left hc]
    · obtain ⟨g₂, hrest, hinv₂, hd₂⟩ :=
        ih hinv (fun id e' h => hlive id e' (List.mem_cons_of_mem _ h)) hnd.2
      refine ⟨g₂, ?_, hinv₂, hd₂.congr fun id => ?_⟩
      · rw [dropEdges, if_neg hc, hrest]
      · rw [OrdMap.exists_mem_cons_iff, or_iff_right fun h => hc h.2]

/-- The loop over all edges, in any order. -/
theorem dropEdges_range_spec (cond : Edge → Bool) (ρ : String → Nat) {g : Graph} (hinv : g.Inv) :
    ∃ g', dropEdges cond (g.edges.range ρ) g = some g' ∧ g'.Inv ∧
      Dropped (fun id => ∃ e, g.edges.get? id = some e ∧ cond e = true) g g' := by
  obtain ⟨g', hres, hinv', hd⟩ := dropEdges_spec cond hinv
    (fun id e h => OrdMap.mem_range.1 h) (OrdMap.nodup_range g.edges ρ)
  exact ⟨g', hres, hinv', hd.congr fun id => by simp only [OrdMap.mem_range]⟩

/-! ## Forgetting nodes -/

/-- What forgetting the nodes with `gone` leaves behind. -/
structure Forgotten (gone : String → Prop) (g g' : Graph) : Prop where
  retention : g'.retention = g.retention
  next : g'.next = g.next
  heap : g'.heap = g.heap
  edges : g'.edges = g.edges
  dirty : g'.dirty = g.dirty
  dirtyL7 : g'.dirtyL7 = g.dirtyL7
  goneEdges : g'.goneEdges = g.goneEdges
  unknown : g'.unknown = g.unknown
  nodeIPs : g'.nodeIPs = g.nodeIPs
  nodes_gone : ∀ {id}, gone id → g'.nodes.get? id = none
  nodes_kept : ∀ {id}, ¬ gone id → g'.nodes.get? id = g.nodes.get? id
  newNodes_gone : ∀ {id}, gone id → g'.newNodes.get? id = none
  newNodes_kept : ∀ {id}, ¬ gone id → g'.newNodes.get? id = g.newNodes.get? id
  dirtyNode_gone : ∀ {id}, gone id → g'.dirtyNode.get? id = none
  dirtyNode_kept : ∀ {id}, ¬ gone id → g'.dirtyNode.get? id = g.dirtyNode.get? id
  /-- The clients hear of the nodes that they know. -/
  goneNodes : ∀ {id}, id ∈ g'.goneNodes ↔ (gone id ∧ id ∉ g.newNodes) ∨ id ∈ g.goneNodes

/-- Nothing is forgotten. -/
theorem Forgotten.refl (g : Graph) : Forgotten (fun _ => False) g g where
  retention := rfl
  next := rfl
  heap := rfl
  edges := rfl
  dirty := rfl
  dirtyL7 := rfl
  goneEdges := rfl
  unknown := rfl
  nodeIPs := rfl
  nodes_gone h := h.elim
  nodes_kept _ := rfl
  newNodes_gone h := h.elim
  newNodes_kept _ := rfl
  dirtyNode_gone h := h.elim
  dirtyNode_kept _ := rfl
  goneNodes := by simp

/-- Forgetting in two rounds; no node goes twice. -/
theorem Forgotten.trans {p q : String → Prop} {g₁ g₂ g₃ : Graph} (h₁ : Forgotten p g₁ g₂)
    (h₂ : Forgotten q g₂ g₃) (hpq : ∀ id, q id → ¬ p id) :
    Forgotten (fun id => p id ∨ q id) g₁ g₃ where
  retention := h₂.retention.trans h₁.retention
  next := h₂.next.trans h₁.next
  heap := h₂.heap.trans h₁.heap
  edges := h₂.edges.trans h₁.edges
  dirty := h₂.dirty.trans h₁.dirty
  dirtyL7 := h₂.dirtyL7.trans h₁.dirtyL7
  goneEdges := h₂.goneEdges.trans h₁.goneEdges
  unknown := h₂.unknown.trans h₁.unknown
  nodeIPs := h₂.nodeIPs.trans h₁.nodeIPs
  nodes_gone h := OrdMap.get?_eq_none_trans h₂.nodes_gone h₂.nodes_kept h₁.nodes_gone h
  nodes_kept {id} h := by
    rw [not_or] at h
    rw [h₂.nodes_kept h.2, h₁.nodes_kept h.1]
  newNodes_gone h := OrdMap.get?_eq_none_trans h₂.newNodes_gone h₂.newNodes_kept h₁.newNodes_gone h
  newNodes_kept {id} h := by
    rw [not_or] at h
    rw [h₂.newNodes_kept h.2, h₁.newNodes_kept h.1]
  dirtyNode_gone h := OrdMap.get?_eq_none_trans h₂.dirtyNode_gone h₂.dirtyNode_kept h₁.dirtyNode_gone h
  dirtyNode_kept {id} h := by
    rw [not_or] at h
    rw [h₂.dirtyNode_kept h.2, h₁.dirtyNode_kept h.1]
  goneNodes {id} := by
    -- what the second round forgets was as new before the first round as after it
    have hmem : q id → (id ∈ g₂.newNodes ↔ id ∈ g₁.newNodes) := fun hq =>
      OrdMap.mem_congr (congrArg _ (h₁.newNodes_kept (hpq id hq)))
    rw [h₂.goneNodes, h₁.goneNodes]
    tauto

theorem Forgotten.mem_nodes {p : String → Prop} {g g' : Graph} (h : Forgotten p g g')
    {id : String} : id ∈ g'.nodes ↔ ¬ p id ∧ id ∈ g.nodes := by
  by_cases hp : p id
  · exact iff_of_false (OrdMap.not_mem_iff.2 (h.nodes_gone hp)) fun hc => hc.1 hp
  · rw [and_iff_right hp]
    exact OrdMap.mem_congr (congrArg _ (h.nodes_kept hp))

theorem Forgotten.congr {p q : String → Prop} {g g' : Graph} (h : Forgotten p g g')
    (hpq : ∀ id, p id ↔ q id) : Forgotten q g g' := by
  have : p = q := funext fun id => propext (hpq id)
  exact this ▸ h

/-- The two branches of `forgetNode` differ in what the clients will hear. -/
theorem forgetNode_eq (id : String) (g : Graph) :
    g.forgetNode id = { g with
      nodes := g.nodes.erase id
      dirtyNode := g.dirtyNode.erase id
      newNodes := g.newNodes.erase id
      goneNodes := if id ∈ g.newNodes then g.goneNodes else g.goneNodes ++ [id] } := by
  by_cases h : id ∈ g.newNodes
  · simp [forgetNode, h]
  · simp [forgetNode, h, OrdMap.erase_of_not_mem]

/-- Forgetting a node that no edge touches keeps the invariant. -/
theorem Inv.forgetNode {g : Graph} (hinv : g.Inv) {id : String}
    (hfree : ∀ {eid e}, g.edges.get? eid = some e → ¬ e.key.touches id) :
    (g.forgetNode id).Inv := by
  rw [forgetNode_eq]
  have hlive : ∀ {id' r}, (g.nodes.erase id).get? id' = some r → g.nodes.get? id' = some r :=
    fun h => (OrdMap.get?_erase_eq_some.1 h).2
  exact {
    retention := hinv.retention
    alloc := fun h => hinv.alloc (hlive h)
    named := fun h => hinv.named (hlive h)
    edgeNamed := hinv.edgeNamed
    closed := fun {eid e} h => by
      obtain ⟨hs, hd⟩ := hinv.closed h
      -- an edge at the node would lose its end
      have ht := hfree h
      exact ⟨OrdMap.mem_erase.2 ⟨fun heq => ht (Or.inl heq), hs⟩,
        OrdMap.mem_erase.2 ⟨fun heq => ht (Or.inr heq), hd⟩⟩
    counter := fun h => hinv.counter (hlive h)
    newNodes := fun h => by
      obtain ⟨hne, hold⟩ := OrdMap.get?_erase_eq_some.1 h
      exact OrdMap.get?_erase_eq_some.2 ⟨hne, hinv.newNodes hold⟩
    dirtyNode := fun h => by
      obtain ⟨hne, hold⟩ := OrdMap.get?_erase_eq_some.1 h
      exact OrdMap.get?_erase_eq_some.2 ⟨hne, hinv.dirtyNode hold⟩
    dirty := hinv.dirty
    dirtyL7 := hinv.dirtyL7
    edgeSound := hinv.edgeSound }

/-- One node is forgotten. -/
theorem forgotten_forgetNode (id : String) (g : Graph) :
    Forgotten (· = id) g (g.forgetNode id) := by
  rw [forgetNode_eq]
  exact {
    retention := rfl
    next := rfl
    heap := rfl
    edges := rfl
    dirty := rfl
    dirtyL7 := rfl
    goneEdges := rfl
    unknown := rfl
    nodeIPs := rfl
    nodes_gone := fun {id'} h => by rw [h]; exact OrdMap.get?_erase_self _ _
    nodes_kept := fun {id'} h => OrdMap.get?_erase_ne _ h
    newNodes_gone := fun {id'} h => by rw [h]; exact OrdMap.get?_erase_self _ _
    newNodes_kept := fun {id'} h => OrdMap.get?_erase_ne _ h
    dirtyNode_gone := fun {id'} h => by rw [h]; exact OrdMap.get?_erase_self _ _
    dirtyNode_kept := fun {id'} h => OrdMap.get?_erase_ne _ h
    goneNodes := fun {id'} => by
      show id' ∈ (if id ∈ g.newNodes then g.goneNodes else g.goneNodes ++ [id]) ↔ _
      split
      · next hf =>
        -- a node that no client heard of is not reported gone
        refine ⟨Or.inr, ?_⟩
        rintro (⟨rfl, hn⟩ | h)
        · exact absurd hf hn
        · exact h
      · next hf =>
        rw [List.mem_append, List.mem_singleton, or_comm]
        refine or_congr_left ⟨?_, And.left⟩
        rintro rfl
        exact ⟨rfl, hf⟩ }

/-! ## What the removals keep -/

/-- A property of graphs that dropping edges, forgetting nodes and a new address table keep. -/
structure Stable (R : Graph → Prop) : Prop where
  nodeIPs : ∀ {g} nodeIPs, R g → R { g with nodeIPs := nodeIPs }
  dropped : ∀ {p g g'}, Dropped p g g' → R g → R g'
  forgotten : ∀ {p g g'}, Forgotten p g g' → R g → R g'

end Graph

end Flowscape
