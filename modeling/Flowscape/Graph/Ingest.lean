import Flowscape.Graph.Machines

/-!
# Flowscape: what ingesting a flow does

The stages of `Ingest` after the key derivation: both nodes are touched, one of them is
placed on a machine, and the flow is counted on its edge. Each stage keeps the
representation invariant, and a structure says what it leaves in each map.
-/

namespace Flowscape

namespace Graph

/-- The node under an id, read through the maps. -/
theorem node?_eq {g : Graph} {id : String} {r : Ref} (h : g.nodes.get? id = some r) :
    g.node? id = some (g.heap r) := by
  rw [node?, h, Option.map_some]

/-- An id has a node exactly when the map has a reference for it. -/
theorem node?_isSome {g : Graph} {id : String} : id ∈ g.nodes ↔ ∃ n, g.node? id = some n := by
  rw [OrdMap.mem_iff]
  constructor
  · rintro ⟨r, hr⟩
    exact ⟨_, node?_eq hr⟩
  · rintro ⟨n, hn⟩
    obtain ⟨r, hr, -⟩ := Option.map_eq_some_iff.1 hn
    exact ⟨r, hr⟩

/-- A write to the object of one node is seen under its id only. -/
theorem node?_update {g : Graph} (hinv : g.Inv) {id₀ : String} {r : Ref}
    (h : g.nodes.get? id₀ = some r) (f : Node → Node) (id : String) :
    (g.update r f).node? id = if id = id₀ then (g.node? id).map f else g.node? id := by
  show (g.nodes.get? id).map (Function.update g.heap r (f (g.heap r))) = _
  split
  · next heq =>
    subst heq
    rw [node?_eq h, h]
    simp
  · next hne =>
    cases hr : g.nodes.get? id with
    | none => simp [node?, hr]
    | some r' =>
      -- no two ids share an object
      have hrr : r' ≠ r := fun heq => hne ((hinv.ref_iff h hr).1 heq)
      simp [node?, hr, hrr]

/-- Writes that leave the id, the key and the counter of a node alone keep the invariant. -/
theorem Inv.update {g : Graph} (hinv : g.Inv) (r : Ref) {f : Node → Node}
    (hid : (f (g.heap r)).id = (g.heap r).id) (hkey : (f (g.heap r)).key = (g.heap r).key)
    (hedges : (f (g.heap r)).edges = (g.heap r).edges) : (g.update r f).Inv := by
  -- a write to one object is seen under one id only, and leaves what the invariant reads
  have hheap : ∀ r', ((g.update r f).heap r').id = (g.heap r').id ∧
      ((g.update r f).heap r').key = (g.heap r').key ∧
      ((g.update r f).heap r').edges = (g.heap r').edges := by
    intro r'
    by_cases h : r' = r
    · subst h; simp [Graph.update, hid, hkey, hedges]
    · simp [Graph.update, h]
  exact {
    retention := hinv.retention
    alloc := hinv.alloc
    named := fun {id r'} h => by
      obtain ⟨h₁, h₂, -⟩ := hheap r'
      rw [h₁, h₂]
      exact hinv.named h
    edgeNamed := hinv.edgeNamed
    closed := hinv.closed
    counter := fun {id r'} h => (hheap r').2.2.trans (hinv.counter h)
    newNodes := hinv.newNodes
    dirtyNode := hinv.dirtyNode
    dirty := hinv.dirty
    dirtyL7 := hinv.dirtyL7
    edgeSound := hinv.edgeSound }

/-! ## Touching a node -/

/-- What touching the node of `k` leaves behind, with the reference it returns. -/
structure Touched (k : NodeKey) (labels : List String) (t : Time) (fqdn : Bool)
    (g g' : Graph) (r : Ref) : Prop where
  retention : g'.retention = g.retention
  edges : g'.edges = g.edges
  dirtyNode : g'.dirtyNode = g.dirtyNode
  dirty : g'.dirty = g.dirty
  dirtyL7 : g'.dirtyL7 = g.dirtyL7
  goneNodes : g'.goneNodes = g.goneNodes
  goneEdges : g'.goneEdges = g.goneEdges
  unknown : g'.unknown = g.unknown
  nodeIPs : g'.nodeIPs = g.nodeIPs
  nodes : ∀ id, g'.nodes.get? id = if id = k.id then some r else g.nodes.get? id
  newNodes : ∀ id, g'.newNodes.get? id
    = if id = k.id ∧ k.id ∉ g.nodes then some r else g.newNodes.get? id
  node? : ∀ id, g'.node? id
    = if id = k.id then some (seen t ((g.node? id).getD (newNode k labels t fqdn)))
      else g.node? id

theorem Touched.mem_nodes {k : NodeKey} {labels : List String} {t : Time} {fqdn : Bool}
    {g g' : Graph} {r : Ref} (h : Touched k labels t fqdn g g' r) (id : String) :
    id ∈ g'.nodes ↔ id = k.id ∨ id ∈ g.nodes := by
  rw [OrdMap.mem_iff_isSome, h.nodes]
  by_cases heq : id = k.id <;> simp [heq, OrdMap.mem_iff_isSome]

/-- The node is new to the browsers when it was not there. -/
theorem Touched.mem_newNodes {k : NodeKey} {labels : List String} {t : Time} {fqdn : Bool}
    {g g' : Graph} {r : Ref} (h : Touched k labels t fqdn g g' r) (id : String) :
    id ∈ g'.newNodes ↔ (id = k.id ∧ k.id ∉ g.nodes) ∨ id ∈ g.newNodes := by
  rw [OrdMap.mem_iff_isSome, h.newNodes]
  split
  · next hc => simp [hc]
  · next hc =>
    rw [or_iff_right hc]
    rfl

/-- A node that is not there yet has no edge ends. -/
theorem Inv.degree_of_not_mem {g : Graph} (hinv : g.Inv) {id : String} (h : id ∉ g.nodes) :
    g.degree id = 0 := by
  apply List.sum_eq_zero
  intro x hx
  obtain ⟨⟨eid, e⟩, hp, rfl⟩ := List.mem_map.1 hx
  have hc := hinv.closed (OrdMap.mem_entries.1 hp)
  have h₁ : e.key.src.id ≠ id := fun heq => h (heq ▸ hc.1)
  have h₂ : e.key.dst.id ≠ id := fun heq => h (heq ▸ hc.2)
  simp [EdgeKey.ends, h₁, h₂]

/-- A node that is there is seen once more. -/
theorem touched_of_get? (k : NodeKey) (labels : List String) (t : Time) (fqdn : Bool) {g : Graph}
    (hinv : g.Inv) {r : Ref} (hget : g.nodes.get? k.id = some r) :
    Touched k labels t fqdn g (g.update r (seen t)) r where
  retention := rfl
  edges := rfl
  dirtyNode := rfl
  dirty := rfl
  dirtyL7 := rfl
  goneNodes := rfl
  goneEdges := rfl
  unknown := rfl
  nodeIPs := rfl
  nodes id := by
    -- the node is there, so the map of the nodes stays
    show g.nodes.get? id = _
    split
    · next h => rw [h, hget]
    · rfl
  newNodes id := by
    rw [if_neg fun h => h.2 (OrdMap.mem_of_get? hget)]
    rfl
  node? id := by
    rw [node?_update hinv hget]
    split
    · next h => rw [h, node?_eq hget]; rfl
    · rfl

/-- The graph with a new object `n`, under the id `id`. -/
def withNode (id : String) (n : Node) (g : Graph) : Graph :=
  { g with
    heap := Function.update g.heap g.next n
    next := g.next + 1
    nodes := g.nodes.set id g.next
    newNodes := g.newNodes.set id g.next }

theorem withNode_heap_next (id : String) (n : Node) (g : Graph) :
    (g.withNode id n).heap g.next = n := Function.update_self _ _ _

/-- The nodes are the new one, at an address no node used, and the old ones, unchanged. -/
theorem get?_withNode {id₀ : String} {n : Node} {g : Graph} (hinv : g.Inv) {id : String} {r : Ref}
    (h : (g.withNode id₀ n).nodes.get? id = some r) :
    (id = id₀ ∧ r = g.next) ∨
      (id ≠ id₀ ∧ g.nodes.get? id = some r ∧ (g.withNode id₀ n).heap r = g.heap r) := by
  rcases OrdMap.get?_set_eq_some.1 h with hnew | ⟨hne, hold⟩
  · exact Or.inl hnew
  · have hlt : r < g.next := hinv.alloc hold
    exact Or.inr ⟨hne, hold, Function.update_of_ne (Nat.ne_of_lt hlt) _ _⟩

/-- A node without edges can come at a new id. -/
theorem Inv.withNode {g : Graph} (hinv : g.Inv) {id₀ : String} {n : Node} (hk : id₀ ∉ g.nodes)
    (hid : n.id = id₀) (hkey : n.key.id = id₀) (hedges : n.edges = 0) :
    (g.withNode id₀ n).Inv where
  retention := hinv.retention
  alloc h := by
    rcases get?_withNode hinv h with ⟨-, rfl⟩ | ⟨-, hold, -⟩
    · exact Nat.lt_succ_self _
    · exact Nat.lt_succ_of_lt (hinv.alloc hold)
  named h := by
    rcases get?_withNode hinv h with ⟨rfl, rfl⟩ | ⟨-, hold, hheap⟩
    · rw [withNode_heap_next]
      exact ⟨hid, hkey⟩
    · rw [hheap]
      exact hinv.named hold
  edgeNamed := hinv.edgeNamed
  closed h := by
    obtain ⟨h₁, h₂⟩ := hinv.closed h
    exact ⟨OrdMap.mem_set.2 (Or.inr h₁), OrdMap.mem_set.2 (Or.inr h₂)⟩
  counter h := by
    rcases get?_withNode hinv h with ⟨rfl, rfl⟩ | ⟨-, hold, hheap⟩
    · -- no edge ends in a node that was not there
      rw [withNode_heap_next, hedges]
      exact (hinv.degree_of_not_mem hk).symm
    · rw [hheap]
      exact hinv.counter hold
  newNodes h :=
    OrdMap.get?_set_eq_some.2
      ((OrdMap.get?_set_eq_some.1 h).imp_right fun ⟨hne, hold⟩ => ⟨hne, hinv.newNodes hold⟩)
  dirtyNode {id r} h := by
    -- a node that is pending is in the graph, so it is not the new one
    have h' := hinv.dirtyNode h
    have hne : id ≠ id₀ := fun heq => hk (heq ▸ OrdMap.mem_of_get? h')
    exact (OrdMap.get?_set_ne _ _ hne).trans h'
  dirty := hinv.dirty
  dirtyL7 := hinv.dirtyL7
  edgeSound := hinv.edgeSound

/-- A node that is not there is made, and pending from then on. -/
theorem touched_of_not_mem (k : NodeKey) (labels : List String) (t : Time) (fqdn : Bool)
    {g : Graph} (hinv : g.Inv) (hk : k.id ∉ g.nodes) :
    Touched k labels t fqdn g
      ((g.withNode k.id (newNode k labels t fqdn)).update g.next (seen t)) g.next where
  retention := rfl
  edges := rfl
  dirtyNode := rfl
  dirty := rfl
  dirtyL7 := rfl
  goneNodes := rfl
  goneEdges := rfl
  unknown := rfl
  nodeIPs := rfl
  nodes id := OrdMap.get?_set _ _ _ _
  newNodes id := by
    show (g.newNodes.set k.id g.next).get? id = _
    rw [OrdMap.get?_set]
    simp [hk]
  node? id := by
    have hinv₁ : (g.withNode k.id (newNode k labels t fqdn)).Inv := hinv.withNode hk rfl rfl rfl
    have hself : (g.withNode k.id (newNode k labels t fqdn)).nodes.get? k.id = some g.next :=
      OrdMap.get?_set_self _ _ _
    -- the object is made with the time of the flow, then seen like any other
    rw [node?_update hinv₁ hself]
    split
    · next h =>
      rw [h, node?_eq hself, withNode_heap_next, node?, OrdMap.not_mem_iff.1 hk]
      rfl
    · next h =>
      cases hr : (g.withNode k.id (newNode k labels t fqdn)).nodes.get? id with
      | none =>
        have hnone : g.nodes.get? id = none := (OrdMap.get?_set_ne _ _ h).symm.trans hr
        rw [node?, node?, hr, hnone]
        rfl
      | some r =>
        obtain ⟨-, hold, hheap⟩ := (get?_withNode hinv hr).resolve_left fun hc => h hc.1
        rw [node?_eq hr, node?_eq hold, hheap]

/-- **What `touchNode` does**: the id has a node, with its times moved on, and the rest stays. -/
theorem touchNode_spec (k : NodeKey) (labels : List String) (t : Time) (fqdn : Bool)
    {g : Graph} (hinv : g.Inv) :
    (g.touchNode k labels t fqdn).1.Inv ∧
      Touched k labels t fqdn g (g.touchNode k labels t fqdn).1
        (g.touchNode k labels t fqdn).2 := by
  cases hget : g.nodes.get? k.id with
  -- an object that is there is written to, and a new one is made and then written to
  | some r =>
    have heq : g.touchNode k labels t fqdn = (g.update r (seen t), r) := by
      simp [touchNode, hget]
    rw [heq]
    exact ⟨hinv.update r rfl rfl rfl, touched_of_get? k labels t fqdn hinv hget⟩
  | none =>
    have hk : k.id ∉ g.nodes := OrdMap.not_mem_iff.2 hget
    have heq : g.touchNode k labels t fqdn
        = ((g.withNode k.id (newNode k labels t fqdn)).update g.next (seen t), g.next) := by
      simp [touchNode, hget, withNode]
    have hinv₁ : (g.withNode k.id (newNode k labels t fqdn)).Inv := hinv.withNode hk rfl rfl rfl
    rw [heq]
    exact ⟨hinv₁.update g.next rfl rfl rfl, touched_of_not_mem k labels t fqdn hinv hk⟩

/-! ## Placing a workload -/

/-- What `placeOn` does to the node object. -/
def placed (machine : String) (n : Node) : Node :=
  if machine = "" ∨ n.key.namespace = reservedNamespace ∨ n.key.namespace = "unknown" then n
  else { n with
    machines := countedOn machine n
    machine := if movesTo machine n then machine else n.machine }

theorem placed_frame (machine : String) (n : Node) :
    placed machine n
      = { n with machines := (placed machine n).machines, machine := (placed machine n).machine } := by
  unfold placed
  split <;> rfl

/-- A changed machine is never the empty one. -/
theorem placed_machine {machine : String} {n : Node} (h : (placed machine n).machine ≠ n.machine) :
    (placed machine n).machine = machine ∧ machine ≠ "" := by
  unfold placed at h ⊢
  split at h
  · exact absurd rfl h
  · next hs =>
    rw [if_neg hs]
    simp only at h ⊢
    split at h
    · next hc =>
      rw [if_pos hc]
      exact ⟨rfl, fun he => hs (Or.inl he)⟩
    · exact absurd rfl h

theorem ne_of_movesTo {machine : String} {n : Node} (h : movesTo machine n = true) :
    machine ≠ n.machine := by
  simp only [movesTo, Bool.and_eq_true, decide_eq_true_eq] at h
  exact Ne.symm h.2

/-- The node object changes as `placed` says; a change of the machine of a node that the
clients know is pending. -/
theorem placeOn_eq (r : Ref) (machine : String) (g : Graph) :
    g.placeOn r machine = { g.update r (placed machine) with
      dirtyNode :=
        if (placed machine (g.heap r)).machine ≠ (g.heap r).machine ∧ (g.heap r).id ∉ g.newNodes
        then g.dirtyNode.set (g.heap r).id r else g.dirtyNode } := by
  unfold placeOn
  by_cases hs : machine = "" ∨ (g.heap r).key.namespace = reservedNamespace ∨
      (g.heap r).key.namespace = "unknown"
  · have hp : placed machine (g.heap r) = g.heap r := by rw [placed, if_pos hs]
    simp only [hs, if_true, update, hp, Function.update_eq_self, ne_eq, not_true_eq_false,
      false_and, if_false]
  · have hp : placed machine (g.heap r) = { g.heap r with
        machines := countedOn machine (g.heap r)
        machine := if movesTo machine (g.heap r) then machine else (g.heap r).machine } := by
      rw [placed, if_neg hs]
    simp only [hs, if_false, hp, update]
    -- a node that is new is sent whole with the next tick, so its move is not pending
    cases hm : movesTo machine (g.heap r) with
    | false => simp
    | true =>
      by_cases hf : (g.heap r).id ∈ g.newNodes
      · simp [hf]
      · simp [hf, ne_of_movesTo hm]

/-- What placing the node of `id₀` on a machine leaves behind. -/
structure Placed (machine : String) (id₀ : String) (g g' : Graph) : Prop where
  retention : g'.retention = g.retention
  nodes : g'.nodes = g.nodes
  edges : g'.edges = g.edges
  newNodes : g'.newNodes = g.newNodes
  dirty : g'.dirty = g.dirty
  dirtyL7 : g'.dirtyL7 = g.dirtyL7
  goneNodes : g'.goneNodes = g.goneNodes
  goneEdges : g'.goneEdges = g.goneEdges
  unknown : g'.unknown = g.unknown
  nodeIPs : g'.nodeIPs = g.nodeIPs
  node? : ∀ id, g'.node? id
    = if id = id₀ then (g.node? id).map (placed machine) else g.node? id
  /-- A node whose machine changed is pending. -/
  dirtyNode_changed : ∀ {n}, g.node? id₀ = some n → (placed machine n).machine ≠ n.machine →
    id₀ ∉ g.newNodes → id₀ ∈ g'.dirtyNode
  dirtyNode_kept : ∀ {id}, id ∈ g.dirtyNode → id ∈ g'.dirtyNode

/-- No map depends on where a node stands. -/
theorem Inv.placeOn {g : Graph} (hinv : g.Inv) {id₀ : String} {r : Ref}
    (hr : g.nodes.get? id₀ = some r) (machine : String) : (g.placeOn r machine).Inv := by
  have hframe := placed_frame machine (g.heap r)
  have hinv' : (g.update r (placed machine)).Inv :=
    hinv.update r (by rw [hframe]) (by rw [hframe]) (by rw [hframe])
  have hid : (g.heap r).id = id₀ := (hinv.named hr).1
  rw [placeOn_eq]
  exact {
    retention := hinv'.retention
    alloc := hinv'.alloc
    named := hinv'.named
    edgeNamed := hinv'.edgeNamed
    closed := hinv'.closed
    counter := hinv'.counter
    newNodes := hinv'.newNodes
    dirtyNode := fun {id r'} h => by
      simp only at h
      split at h
      · rw [OrdMap.get?_set, hid] at h
        split at h
        · next heq =>
          -- the entry just written is the node itself
          obtain rfl : r = r' := Option.some.inj h
          exact heq ▸ hr
        · exact hinv.dirtyNode h
      · exact hinv.dirtyNode h
    dirty := hinv'.dirty
    dirtyL7 := hinv'.dirtyL7
    edgeSound := hinv'.edgeSound }

/-- **What `placeOn` does**: it counts the machine, and reports the node when it moves. -/
theorem placed_placeOn (machine : String) {g : Graph} (hinv : g.Inv) {id₀ : String} {r : Ref}
    (hr : g.nodes.get? id₀ = some r) : Placed machine id₀ g (g.placeOn r machine) := by
  have hid : (g.heap r).id = id₀ := (hinv.named hr).1
  rw [placeOn_eq]
  exact {
    retention := rfl
    nodes := rfl
    edges := rfl
    newNodes := rfl
    dirty := rfl
    dirtyL7 := rfl
    goneNodes := rfl
    goneEdges := rfl
    unknown := rfl
    nodeIPs := rfl
    node? := fun id => node?_update hinv hr (placed machine) id
    -- a node that is not new is reported when its machine changes
    dirtyNode_changed := fun {n} hn hne hnew => by
      obtain rfl : g.heap r = n := Option.some.inj ((node?_eq hr).symm.trans hn)
      rw [if_pos ⟨hne, by rwa [hid]⟩, hid]
      exact OrdMap.mem_set.2 (Or.inl rfl)
    dirtyNode_kept := fun {id} h => by
      simp only
      split
      · exact OrdMap.mem_set.2 (Or.inr h)
      · exact h }

/-! ## Counting a flow on its edge -/

/-- What counting a flow on the edge of `ek` leaves behind. -/
structure Counted (f : Flow) (t : Time) (v : VerdictCode) (ek : EdgeKey) (g g' : Graph) :
    Prop where
  retention : g'.retention = g.retention
  nodes : g'.nodes = g.nodes
  heap : ∀ r, g'.heap r = { g.heap r with edges := (g'.heap r).edges }
  newNodes : g'.newNodes = g.newNodes
  dirtyNode : g'.dirtyNode = g.dirtyNode
  goneNodes : g'.goneNodes = g.goneNodes
  goneEdges : g'.goneEdges = g.goneEdges
  unknown : g'.unknown = g.unknown
  nodeIPs : g'.nodeIPs = g.nodeIPs
  edge : ∃ e, countOnEdge f t v ((g.edges.get? ek.id).getD (newEdge g.retention ek)) = some e ∧
    ∀ id, g'.edges.get? id = if id = ek.id then some e else g.edges.get? id
  dirty : ∀ id, g'.dirty.get? id
    = if id = ek.id then
        some (Function.update ((g.dirty.get? ek.id).getD fun _ => 0) v
          (((g.dirty.get? ek.id).getD fun _ => 0) v + 1))
      else g.dirty.get? id
  dirtyL7 : ∀ {id}, id ∈ g'.dirtyL7 ↔ (id = ek.id ∧ detailsChanged f v = true) ∨ id ∈ g.dirtyL7

/-- Nothing happens to the other edges. -/
theorem Counted.other {f : Flow} {t : Time} {v : VerdictCode} {ek : EdgeKey} {g g' : Graph}
    (h : Counted f t v ek g g') {id : String} (hne : id ≠ ek.id) :
    g'.edges.get? id = g.edges.get? id ∧ g'.dirty.get? id = g.dirty.get? id := by
  obtain ⟨e, -, hedges⟩ := h.edge
  exact ⟨(hedges id).trans (if_neg hne), (h.dirty id).trans (if_neg hne)⟩

theorem Counted.mem_dirtyL7_other {f : Flow} {t : Time} {v : VerdictCode} {ek : EdgeKey}
    {g g' : Graph} (h : Counted f t v ek g g') {id : String} (hne : id ≠ ek.id) :
    id ∈ g'.dirtyL7 ↔ id ∈ g.dirtyL7 :=
  h.dirtyL7.trans (or_iff_right fun hp => hne hp.1)

/-- The edge that a flow lands on keeps its identity. -/
theorem countOnEdge_frame {f : Flow} {t : Time} {v : VerdictCode} {e e' : Edge}
    (h : countOnEdge f t v e = some e') : e'.key = e.key ∧ e'.id = e.id := by
  obtain ⟨ring, -, rfl⟩ := Option.map_eq_some_iff.1 h
  exact ⟨rfl, rfl⟩

/-- Counting a flow keeps the ring of the edge at its length. -/
theorem countOnEdge_sound {f : Flow} {t : Time} {v : VerdictCode} {e e' : Edge} (hs : e.Sound)
    (h : countOnEdge f t v e = some e') : e'.Sound := by
  obtain ⟨ring, hring, rfl⟩ := Option.map_eq_some_iff.1 h
  constructor
  · rw [Ring.length_add hring]
    exact hs.ring
  · cases hl7 : f.l7 with
    | none => exact hs.latency
    | some l7 => exact L7Summary.observe_latency_nonneg hs.latency l7

theorem countOnEdge_isSome (f : Flow) {t : Time} (ht : 0 ≤ t) (v : VerdictCode) {e : Edge}
    (hlen : 0 < e.ring.slots.length) : ∃ e', countOnEdge f t v e = some e' := by
  have hsec : 0 ≤ t.unix := Int.ediv_nonneg ht (by decide)
  obtain ⟨ring, hring⟩ := Ring.add_isSome (v := v) hlen hsec
  exact ⟨_, by rw [countOnEdge, hring, Option.map_some]⟩

/-- A new edge has a ring of the length that the graph keeps. -/
theorem newEdge_sound {g : Graph} (hinv : g.Inv) (ek : EdgeKey) :
    (newEdge g.retention ek).Sound := by
  have hret := hinv.retention
  have hten : (10 : Int) ≤ g.retention / second := by
    rw [Int.le_ediv_iff_mul_le (by decide)]
    exact hret
  constructor
  · show 0 < (newRing (g.retention / second)).slots.length
    rw [length_newRing]
    omega
  · exact le_refl 0

/-- A new edge between two live nodes, with the counters of its ends one higher, keeps the
invariant. -/
theorem Inv.withEdge {g : Graph} (hinv : g.Inv) {ek : EdgeKey} (hk : ek.id ∉ g.edges)
    (hs : ek.src.id ∈ g.nodes) (hd : ek.dst.id ∈ g.nodes) {heap : Ref → Node}
    (hheap : ∀ r, heap r = { g.heap r with edges := (heap r).edges })
    (hcount : ∀ id r, g.nodes.get? id = some r →
      (heap r).edges = (g.heap r).edges + 1 * ek.ends id) :
    ({ g with heap := heap, edges := g.edges.set ek.id (newEdge g.retention ek) } : Graph).Inv := by
  have hcase : ∀ {id e}, (g.edges.set ek.id (newEdge g.retention ek)).get? id = some e →
      (id = ek.id ∧ e = newEdge g.retention ek) ∨ g.edges.get? id = some e :=
    fun h => (OrdMap.get?_set_eq_some.1 h).imp_right And.right
  exact {
    retention := hinv.retention
    alloc := hinv.alloc
    named := fun {id r} h => by
      have := hinv.named h
      show (heap r).id = id ∧ (heap r).key.id = id
      rw [hheap r]
      exact this
    edgeNamed := fun {id e} h => by
      rcases hcase h with ⟨rfl, rfl⟩ | h
      · exact ⟨rfl, rfl⟩
      · exact hinv.edgeNamed h
    closed := fun {id e} h => by
      rcases hcase h with ⟨rfl, rfl⟩ | h
      · exact ⟨hs, hd⟩
      · exact hinv.closed h
    counter := fun {id r} h => by
      -- both sides grow by the ends of the new edge
      have hsum : (g.edges.set ek.id (newEdge g.retention ek)).sumOver (fun e => e.key.ends id)
          = ek.ends id + g.degree id :=
        OrdMap.sumOver_set_of_not_mem _ hk
      show (heap r).edges = _
      rw [degree, hsum, hcount id r h, hinv.counter h]
      omega
    newNodes := hinv.newNodes
    dirtyNode := hinv.dirtyNode
    dirty := fun h => OrdMap.mem_set.2 (Or.inr (hinv.dirty h))
    dirtyL7 := fun h => OrdMap.mem_set.2 (Or.inr (hinv.dirtyL7 h))
    edgeSound := fun {id e} h => by
      rcases hcase h with ⟨rfl, rfl⟩ | h
      · exact newEdge_sound hinv ek
      · exact hinv.edgeSound h }

/-- Making or finding the edge of two live nodes has a result and keeps the invariant. -/
theorem touchEdge_spec {g : Graph} (hinv : g.Inv) {ek : EdgeKey} (hs : ek.src.id ∈ g.nodes)
    (hd : ek.dst.id ∈ g.nodes) :
    ∃ heap, let g' : Graph := { g with
        heap := heap
        edges := if ek.id ∈ g.edges then g.edges
          else g.edges.set ek.id (newEdge g.retention ek) }
      g.touchEdge ek = some (g', (g.edges.get? ek.id).getD (newEdge g.retention ek)) ∧
      (∀ r, heap r = { g.heap r with edges := (heap r).edges }) ∧ g'.Inv := by
  cases hget : g.edges.get? ek.id with
  | some e =>
    refine ⟨g.heap, ?_, fun _ => rfl, ?_⟩
    · rw [touchEdge, hget]
      simp [OrdMap.mem_of_get? hget]
    · simp only [OrdMap.mem_of_get? hget, if_true]
      exact hinv
  | none =>
    have hk : ek.id ∉ g.edges := OrdMap.not_mem_iff.2 hget
    -- the edge comes first, and then the degrees of its two ends go up
    let e := newEdge g.retention ek
    let g₀ : Graph := { g with edges := g.edges.set ek.id e }
    obtain ⟨heap, hres, hheap, hcount⟩ := addDegree_both hinv g₀ rfl rfl ek 1 hs hd
    refine ⟨heap, ?_, hheap, ?_⟩
    · have : g.touchEdge ek = ((g₀.addDegree ek.src.id 1).bind
          fun g => g.addDegree ek.dst.id 1).bind fun g => some (g, e) := by
        rw [touchEdge, hget, Option.bind_assoc]
        rfl
      rw [this, hres]
      simp [hk, g₀, e]
    · simp only [hk, if_false]
      exact hinv.withEdge hk hs hd hheap hcount

/-- Another edge object under the same id, with the same key, keeps the invariant. -/
theorem Inv.replaceEdge {g : Graph} (hinv : g.Inv) {eid : String} {e e' : Edge}
    (hget : g.edges.get? eid = some e) (hkey : e'.key = e.key) (hid : e'.id = e.id)
    (hsound : e'.Sound) {dirty : OrdMap String Counters} {dirtyL7 : OrdSet String}
    (hdirty : ∀ {id}, id ∈ dirty → id = eid ∨ id ∈ g.dirty)
    (hdirtyL7 : ∀ {id}, id ∈ dirtyL7 → id = eid ∨ id ∈ g.dirtyL7) :
    ({ g with edges := g.edges.set eid e', dirty := dirty, dirtyL7 := dirtyL7 } : Graph).Inv := by
  have hcase : ∀ {id e₁}, (g.edges.set eid e').get? id = some e₁ →
      (id = eid ∧ e₁ = e') ∨ g.edges.get? id = some e₁ :=
    fun h => (OrdMap.get?_set_eq_some.1 h).imp_right And.right
  have hmem : ∀ {id}, id = eid ∨ id ∈ g.edges → id ∈ g.edges.set eid e' :=
    fun h => OrdMap.mem_set.2 h
  exact {
    retention := hinv.retention
    alloc := hinv.alloc
    named := hinv.named
    edgeNamed := fun h => by
      rcases hcase h with ⟨rfl, rfl⟩ | h
      · rw [hid, hkey]
        exact hinv.edgeNamed hget
      · exact hinv.edgeNamed h
    closed := fun h => by
      rcases hcase h with ⟨rfl, rfl⟩ | h
      · rw [hkey]
        exact hinv.closed hget
      · exact hinv.closed h
    counter := fun {id r} h => by
      -- the key is the old one, so the edge ends where it did
      have hsum : ({ g with edges := g.edges.set eid e' } : Graph).degree id = g.degree id :=
        OrdMap.sumOver_set_of_get? _ hget (by rw [hkey])
      exact (hinv.counter h).trans hsum.symm
    newNodes := hinv.newNodes
    dirtyNode := hinv.dirtyNode
    dirty := fun h => hmem ((hdirty h).imp id hinv.dirty)
    dirtyL7 := fun h => hmem ((hdirtyL7 h).imp id hinv.dirtyL7)
    edgeSound := fun h => by
      rcases hcase h with ⟨rfl, rfl⟩ | h
      · exact hsound
      · exact hinv.edgeSound h }

/-- Counting a flow, when its second has a slot in the ring, keeps the invariant. -/
theorem countFlow_spec {f : Flow} {t : Time} {v : VerdictCode} (ek : EdgeKey) {g : Graph}
    (hinv : g.Inv) (hs : ek.src.id ∈ g.nodes) (hd : ek.dst.id ∈ g.nodes) {e : Edge}
    (he : countOnEdge f t v ((g.edges.get? ek.id).getD (newEdge g.retention ek)) = some e) :
    ∃ g', g.countFlow f t v ek = some g' ∧ g'.Inv ∧ Counted f t v ek g g' := by
  obtain ⟨heap, htouch, hheap, hinv₁⟩ := touchEdge_spec hinv hs hd
  let edges₁ := if ek.id ∈ g.edges then g.edges
    else g.edges.set ek.id (newEdge g.retention ek)
  let d := (g.dirty.get? ek.id).getD fun _ => 0
  let dirty' := g.dirty.set ek.id (Function.update d v (d v + 1))
  let dirtyL7' := if detailsChanged f v then g.dirtyL7.add ek.id else g.dirtyL7
  let g' : Graph := { g with
    heap := heap, edges := edges₁.set ek.id e, dirtyL7 := dirtyL7', dirty := dirty' }
  have hres : g.countFlow f t v ek = some g' := by
    show (g.touchEdge ek).bind _ = _
    rw [htouch, Option.bind_some]
    show (countOnEdge f t v _).bind _ = _
    rw [he]
    rfl
  -- the edge before the flow is counted, found or just made
  have hold : edges₁.get? ek.id = some ((g.edges.get? ek.id).getD (newEdge g.retention ek)) := by
    cases hget : g.edges.get? ek.id with
    | some e₀ => simp [edges₁, OrdMap.mem_of_get? hget, hget]
    | none => simp [edges₁, OrdMap.not_mem_iff.2 hget]
  have hdirtyL7 : ∀ {id}, id ∈ dirtyL7' ↔
      (id = ek.id ∧ detailsChanged f v = true) ∨ id ∈ g.dirtyL7 := by
    intro id
    show id ∈ (if detailsChanged f v then g.dirtyL7.add ek.id else g.dirtyL7) ↔ _
    split
    · next h => simp [h]
    · next h => simp [h]
  obtain ⟨hkey, hid⟩ := countOnEdge_frame he
  refine ⟨g', hres, ?_, ?_⟩
  · exact hinv₁.replaceEdge hold hkey hid (countOnEdge_sound (hinv₁.edgeSound hold) he)
      OrdMap.mem_set.1 fun h => (hdirtyL7.1 h).imp And.left id
  · exact {
      retention := rfl
      nodes := rfl
      heap := hheap
      newNodes := rfl
      dirtyNode := rfl
      goneNodes := rfl
      goneEdges := rfl
      unknown := rfl
      nodeIPs := rfl
      edge := ⟨e, he, fun id => by
        show (edges₁.set ek.id e).get? id = _
        rw [OrdMap.get?_set]
        split
        · rfl
        · next hne =>
          simp only [edges₁]
          split
          · rfl
          · exact OrdMap.get?_set_ne _ _ hne⟩
      dirty := fun id => OrdMap.get?_set _ _ _ _
      dirtyL7 := hdirtyL7 }

/-- A flow that is counted found a slot in the ring. -/
theorem countOnEdge_of_countFlow {f : Flow} {t : Time} {v : VerdictCode} (ek : EdgeKey)
    {g g' : Graph} (hinv : g.Inv) (hs : ek.src.id ∈ g.nodes) (hd : ek.dst.id ∈ g.nodes)
    (h : g.countFlow f t v ek = some g') :
    ∃ e, countOnEdge f t v ((g.edges.get? ek.id).getD (newEdge g.retention ek)) = some e := by
  obtain ⟨heap, htouch, -, -⟩ := touchEdge_spec hinv hs hd
  replace h : (g.touchEdge ek).bind _ = some g' := h
  rw [htouch, Option.bind_some] at h
  obtain ⟨e, he, -⟩ := Option.bind_eq_some_iff.1 h
  exact ⟨e, he⟩

/-! ## Adding a flow -/

/-- The edge key of a flow between two nodes. -/
def flowKey (f : Flow) (src dst : NodeKey) : EdgeKey := ⟨src, dst, (l4Key f.l4).1, (l4Key f.l4).2⟩

/-- The id of the node that a flow places on the observing machine. -/
def placedId (f : Flow) (src dst : NodeKey) : Option String :=
  match f.trafficDirection with
  | .egress => some src.id
  | .ingress => some dst.id
  | .unknown => none

/-- The stages of adding a flow between two nodes, up to the state in which it is counted. -/
def FlowStaged (f : Flow) (src dst : NodeKey) (g g₃ : Graph) : Prop :=
  ∃ u g₁ g₂ sn dn,
    Touched src (endpointLabels f.source) f.asTime (!f.sourceNames.isEmpty)
      { g with unknown := u } g₁ sn ∧
    Touched dst (endpointLabels f.destination) f.asTime (!f.destinationNames.isEmpty) g₁ g₂ dn ∧
    g₁.Inv ∧ g₂.Inv ∧
    (∀ id, placedId f src dst = some id → Placed (observerName f.nodeName) id g₂ g₃) ∧
    (placedId f src dst = none → g₃ = g₂)

/-- What adding a flow between two nodes leaves behind. -/
def FlowAdded (f : Flow) (v : VerdictCode) (src dst : NodeKey) (g g' : Graph) : Prop :=
  ∃ g₃, FlowStaged f src dst g g₃ ∧ g₃.Inv ∧ src.id ∈ g₃.nodes ∧ dst.id ∈ g₃.nodes ∧
    Counted f f.asTime v (flowKey f src dst) g₃ g'

/-- The stages before a flow is counted leave the edges alone. -/
theorem FlowStaged.edges {f : Flow} {src dst : NodeKey} {g g₃ : Graph}
    (h : FlowStaged f src dst g g₃) : g₃.edges = g.edges ∧ g₃.retention = g.retention := by
  obtain ⟨u, g₁, g₂, sn, dn, ht₁, ht₂, -, -, hsome, hnone⟩ := h
  have h₂ : g₂.edges = g.edges ∧ g₂.retention = g.retention :=
    ⟨ht₂.edges.trans ht₁.edges, ht₂.retention.trans ht₁.retention⟩
  cases hp : placedId f src dst with
  | none =>
    rw [hnone hp]
    exact h₂
  | some id => exact ⟨(hsome id hp).edges.trans h₂.1, (hsome id hp).retention.trans h₂.2⟩

/-- The number of unclassified flows is not part of the invariant. -/
theorem Inv.setUnknown {g : Graph} (h : g.Inv) (u : Nat) :
    ({ g with unknown := u } : Graph).Inv where
  retention := h.retention
  alloc := h.alloc
  named := h.named
  edgeNamed := h.edgeNamed
  closed := h.closed
  counter := h.counter
  newNodes := h.newNodes
  dirtyNode := h.dirtyNode
  dirty := h.dirty
  dirtyL7 := h.dirtyL7
  edgeSound := h.edgeSound

/-- The rule for adding a flow: what each stage keeps holds at the end. The lists of gone ids
do not change on the way. -/
theorem FlowAdded.rule {R : Graph → Prop} {f : Flow} {v : VerdictCode} {src dst : NodeKey}
    {g g' : Graph} (h : FlowAdded f v src dst g g') (hg : R g)
    (hunknown : ∀ u, R g → R { g with unknown := u })
    (htouch : ∀ {k labels fqdn g₁ g₂ r}, k = src ∨ k = dst → g₁.Inv →
      g₁.goneNodes = g.goneNodes → Touched k labels f.asTime fqdn g₁ g₂ r → R g₁ → R g₂)
    (hplace : ∀ {id g₁ g₂}, g₁.Inv → Placed (observerName f.nodeName) id g₁ g₂ → R g₁ → R g₂)
    (hcount : ∀ {g₃}, g₃.Inv → g₃.goneEdges = g.goneEdges →
      Counted f f.asTime v (flowKey f src dst) g₃ g' → R g₃ → R g') (hinv : g.Inv) : R g' := by
  obtain ⟨g₃, ⟨u, g₁, g₂, sn, dn, ht₁, ht₂, hinv₁, hinv₂, hsome, hnone⟩, hinv₃, -, -, hc⟩ := h
  have h₁ : R g₁ := htouch (Or.inl rfl) (hinv.setUnknown u) rfl ht₁ (hunknown u hg)
  have h₂ : R g₂ := htouch (Or.inr rfl) hinv₁ ht₁.goneNodes ht₂ h₁
  have hgone₂ : g₂.goneEdges = g.goneEdges := ht₂.goneEdges.trans ht₁.goneEdges
  cases hp : placedId f src dst with
  | none =>
    -- no workload to place: placing is the identity
    obtain rfl := hnone hp
    exact hcount hinv₂ hgone₂ hc h₂
  | some id =>
    have hplaced := hsome id hp
    exact hcount hinv₃ (hplaced.goneEdges.trans hgone₂) hc (hplace hinv₂ hplaced h₂)

/-- Adding a flow teaches no address and reports nothing gone. -/
theorem FlowAdded.frame {f : Flow} {v : VerdictCode} {src dst : NodeKey} {g g' : Graph}
    (h : FlowAdded f v src dst g g') (hinv : g.Inv) :
    g'.nodeIPs = g.nodeIPs ∧ g'.goneNodes = g.goneNodes ∧ g'.goneEdges = g.goneEdges :=
  h.rule (R := fun g' => g'.nodeIPs = g.nodeIPs ∧ g'.goneNodes = g.goneNodes ∧
      g'.goneEdges = g.goneEdges) ⟨rfl, rfl, rfl⟩ (fun _ h => h)
    (fun _ _ _ ht h => ⟨ht.nodeIPs.trans h.1, ht.goneNodes.trans h.2.1,
      ht.goneEdges.trans h.2.2⟩)
    (fun _ hp h => ⟨hp.nodeIPs.trans h.1, hp.goneNodes.trans h.2.1, hp.goneEdges.trans h.2.2⟩)
    (fun _ _ hc h => ⟨hc.nodeIPs.trans h.1, hc.goneNodes.trans h.2.1,
      hc.goneEdges.trans h.2.2⟩) hinv

/-- Adding a flow makes its two nodes and no other. -/
theorem FlowAdded.mem_nodes {f : Flow} {v : VerdictCode} {src dst : NodeKey} {g g' : Graph}
    (h : FlowAdded f v src dst g g') (id : String) :
    id ∈ g'.nodes ↔ id = src.id ∨ id = dst.id ∨ id ∈ g.nodes := by
  obtain ⟨g₃, ⟨u, g₁, g₂, sn, dn, ht₁, ht₂, -, -, hsome, hnone⟩, -, -, -, hc⟩ := h
  have h₃ : g₃.nodes = g₂.nodes := by
    cases hp : placedId f src dst with
    | none => rw [hnone hp]
    | some id => exact (hsome id hp).nodes
  rw [hc.nodes, h₃, ht₂.mem_nodes, ht₁.mem_nodes]
  show id = dst.id ∨ id = src.id ∨ id ∈ g.nodes ↔ _
  tauto

/-- Adding a flow counts it on its edge, found or new, and leaves the other edges alone. -/
theorem FlowAdded.edges {f : Flow} {v : VerdictCode} {src dst : NodeKey} {g g' : Graph}
    (h : FlowAdded f v src dst g g') :
    ∃ e, countOnEdge f f.asTime v ((g.edges.get? (flowKey f src dst).id).getD
        (newEdge g.retention (flowKey f src dst))) = some e ∧
      ∀ id, g'.edges.get? id
        = if id = (flowKey f src dst).id then some e else g.edges.get? id := by
  obtain ⟨g₃, hstaged, -, -, -, hc⟩ := h
  obtain ⟨hedges, hretention⟩ := hstaged.edges
  rw [← hedges, ← hretention]
  exact hc.edge

/-- Touching a node that is there returns its object. -/
theorem touchNode_snd (k : NodeKey) (labels : List String) (t : Time) (fqdn : Bool) {g : Graph}
    {r : Ref} (h : g.nodes.get? k.id = some r) : (g.touchNode k labels t fqdn).2 = r := by
  simp [touchNode, h]

/-- Placing the node of a flow on the observing machine, which is the last stage. -/
theorem FlowStaged.placeOn {f : Flow} {src dst : NodeKey} {g g₁ g₂ : Graph} {u : Nat} {sn dn : Ref}
    (ht₁ : Touched src (endpointLabels f.source) f.asTime (!f.sourceNames.isEmpty)
      { g with unknown := u } g₁ sn)
    (ht₂ : Touched dst (endpointLabels f.destination) f.asTime (!f.destinationNames.isEmpty)
      g₁ g₂ dn)
    (hinv₁ : g₁.Inv) (hinv₂ : g₂.Inv) {id : String} {r : Ref}
    (hplaced : placedId f src dst = some id) (hr : g₂.nodes.get? id = some r) :
    FlowStaged f src dst g (g₂.placeOn r (observerName f.nodeName)) ∧
      (g₂.placeOn r (observerName f.nodeName)).Inv ∧
      (g₂.placeOn r (observerName f.nodeName)).nodes = g₂.nodes := by
  have hp : Placed (observerName f.nodeName) id g₂ (g₂.placeOn r (observerName f.nodeName)) :=
    placed_placeOn _ hinv₂ hr
  -- only the end that the flow was seen at is placed
  refine ⟨⟨u, g₁, g₂, sn, dn, ht₁, ht₂, hinv₁, hinv₂, fun id' h => ?_, fun h => ?_⟩,
    hinv₂.placeOn hr _, hp.nodes⟩
  · obtain rfl : id = id' := Option.some.inj (hplaced.symm.trans h)
    exact hp
  · rw [hplaced] at h
    cases h

/-- The graph when a flow is counted on its edge, as `addFlow` makes it. -/
def staged (f : Flow) (src dst : NodeKey) (g : Graph) : Graph :=
  let g := if src.namespace = "unknown" ∨ dst.namespace = "unknown" then
    { g with unknown := g.unknown + 1 } else g
  let p := g.touchNode src (endpointLabels f.source) f.asTime (!f.sourceNames.isEmpty)
  let q := p.1.touchNode dst (endpointLabels f.destination) f.asTime
    (!f.destinationNames.isEmpty)
  match f.trafficDirection with
  | .egress => q.1.placeOn p.2 (observerName f.nodeName)
  | .ingress => q.1.placeOn q.2 (observerName f.nodeName)
  | .unknown => q.1

theorem addFlow_eq (f : Flow) (v : VerdictCode) (src dst : NodeKey) (g : Graph) :
    g.addFlow f v src dst = ((g.staged f src dst).countFlow f f.asTime v (flowKey f src dst)).map
      fun g' => (g', { edgeID := (flowKey f src dst).id, verdict := v }) := rfl

/-- A flow is counted from a state that its stages lead to, and both its nodes are there. -/
theorem staged_spec (f : Flow) (src dst : NodeKey) {g : Graph} (hinv : g.Inv) :
    FlowStaged f src dst g (g.staged f src dst) ∧ (g.staged f src dst).Inv ∧
      src.id ∈ (g.staged f src dst).nodes ∧ dst.id ∈ (g.staged f src dst).nodes := by
  let u := if src.namespace = "unknown" ∨ dst.namespace = "unknown" then g.unknown + 1
    else g.unknown
  let g₀ : Graph := { g with unknown := u }
  have hu : (if src.namespace = "unknown" ∨ dst.namespace = "unknown" then
      { g with unknown := g.unknown + 1 } else g) = g₀ := by
    simp only [g₀, u]
    split <;> rfl
  obtain ⟨hinv₁, ht₁⟩ := touchNode_spec src (endpointLabels f.source) f.asTime
    (!f.sourceNames.isEmpty) (hinv.setUnknown u)
  generalize hg₁ : g₀.touchNode src (endpointLabels f.source) f.asTime
    (!f.sourceNames.isEmpty) = p₁ at ht₁ hinv₁
  obtain ⟨g₁, sn⟩ := p₁
  obtain ⟨hinv₂, ht₂⟩ := touchNode_spec dst (endpointLabels f.destination) f.asTime
    (!f.destinationNames.isEmpty) hinv₁
  have hsame : g₁.nodes.get? dst.id = some sn → (g₁.touchNode dst (endpointLabels f.destination)
      f.asTime (!f.destinationNames.isEmpty)).2 = sn := touchNode_snd dst _ _ _
  generalize hg₂ : g₁.touchNode dst (endpointLabels f.destination) f.asTime
    (!f.destinationNames.isEmpty) = p₂ at ht₂ hinv₂ hsame
  obtain ⟨g₂, dn⟩ := p₂
  have hdn : g₂.nodes.get? dst.id = some dn := by rw [ht₂.nodes, if_pos rfl]
  have hsn : g₂.nodes.get? src.id = some sn := by
    have hsn₁ : g₁.nodes.get? src.id = some sn := (ht₁.nodes src.id).trans (if_pos rfl)
    rw [ht₂.nodes]
    split
    · next heq =>
      -- both keys have one id: the second touch returns the object of the first
      rw [hsame (heq ▸ hsn₁)]
    · exact hsn₁
  have hsrc : src.id ∈ g₂.nodes := OrdMap.mem_of_get? hsn
  have hdst : dst.id ∈ g₂.nodes := OrdMap.mem_of_get? hdn
  cases hdir : f.trafficDirection with
  | unknown =>
    have hplaced : placedId f src dst = none := by rw [placedId, hdir]
    have hend : g.staged f src dst = g₂ := by simp only [staged, hu, hg₁, hg₂, hdir]
    rw [hend]
    refine ⟨⟨u, g₁, g₂, sn, dn, ht₁, ht₂, hinv₁, hinv₂, fun id h => ?_, fun _ => rfl⟩,
      hinv₂, hsrc, hdst⟩
    rw [hplaced] at h
    cases h
  | egress =>
    have hend : g.staged f src dst = g₂.placeOn sn (observerName f.nodeName) := by
      simp only [staged, hu, hg₁, hg₂, hdir]
    obtain ⟨hstaged, hinv₃, hnodes⟩ := FlowStaged.placeOn ht₁ ht₂ hinv₁ hinv₂
      (by rw [placedId, hdir]) hsn
    rw [hend]
    exact ⟨hstaged, hinv₃, hnodes ▸ hsrc, hnodes ▸ hdst⟩
  | ingress =>
    have hend : g.staged f src dst = g₂.placeOn dn (observerName f.nodeName) := by
      simp only [staged, hu, hg₁, hg₂, hdir]
    obtain ⟨hstaged, hinv₃, hnodes⟩ := FlowStaged.placeOn ht₁ ht₂ hinv₁ hinv₂
      (by rw [placedId, hdir]) hdn
    rw [hend]
    exact ⟨hstaged, hinv₃, hnodes ▸ hsrc, hnodes ▸ hdst⟩

/-- **What `addFlow` does**, which does not fail for a flow from after 1970. -/
theorem addFlow_spec {f : Flow} (hf : 0 ≤ f.asTime) (v : VerdictCode) (src dst : NodeKey)
    {g : Graph} (hinv : g.Inv) :
    ∃ g', g.addFlow f v src dst
        = some (g', { edgeID := (flowKey f src dst).id, verdict := v }) ∧
      g'.Inv ∧ FlowAdded f v src dst g g' := by
  obtain ⟨hstaged, hinv₃, hs, hd⟩ := staged_spec f src dst hinv
  -- the edge that the flow lands on has a slot for its second
  have hlen : 0 < (((g.staged f src dst).edges.get? (flowKey f src dst).id).getD
      (newEdge (g.staged f src dst).retention (flowKey f src dst))).ring.slots.length := by
    cases hget : (g.staged f src dst).edges.get? (flowKey f src dst).id with
    | some e => exact (hinv₃.edgeSound hget).ring
    | none => exact (newEdge_sound hinv₃ _).ring
  obtain ⟨e, he⟩ := countOnEdge_isSome f hf v hlen
  obtain ⟨g', hcount, hinv', hc⟩ := countFlow_spec (flowKey f src dst) hinv₃ hs hd he
  exact ⟨g', by rw [addFlow_eq, hcount]; rfl, hinv', _, hstaged, hinv₃, hs, hd, hc⟩

/-- Whenever `addFlow` has a result, it is the one that the stages lead to. -/
theorem addFlow_inv {f : Flow} {v : VerdictCode} {src dst : NodeKey} {g g' : Graph}
    {res : Result} (hinv : g.Inv) (h : g.addFlow f v src dst = some (g', res)) :
    g'.Inv ∧ FlowAdded f v src dst g g' ∧
      res = { edgeID := (flowKey f src dst).id, verdict := v } := by
  obtain ⟨hstaged, hinv₃, hs, hd⟩ := staged_spec f src dst hinv
  rw [addFlow_eq] at h
  obtain ⟨g'', hcount, heq⟩ := Option.map_eq_some_iff.1 h
  obtain ⟨rfl, rfl⟩ := Prod.mk.inj heq
  obtain ⟨e, he⟩ := countOnEdge_of_countFlow (flowKey f src dst) hinv₃ hs hd hcount
  obtain ⟨g₄, hcount', hinv', hc⟩ := countFlow_spec (flowKey f src dst) hinv₃ hs hd he
  obtain rfl : g'' = g₄ := Option.some.inj (hcount.symm.trans hcount')
  exact ⟨hinv', ⟨_, hstaged, hinv₃, hs, hd, hc⟩, rfl⟩

/-! ## Ingest -/

/-- The three ways in which a flow is taken in. -/
inductive Ingested (ρ : RangeOrder) (f : Flow) (g : Graph) : Graph → Result → Prop where
  /-- It is ignored before its endpoints are looked at. -/
  | skipped {reason : String} (h : accept f = .error reason) :
      Ingested ρ f g g { skipped := reason }
  /-- Both sides are one node. It may still have taught an address. -/
  | self {v : VerdictCode} {k : NodeKey} {g' : Graph} (h : accept f = .ok v)
      (hres : g.endpointKeys ρ f = some (k, k, g')) (hkeys : KeysDerived f g k k g') :
      Ingested ρ f g g' { skipped := "self" }
  /-- It is counted on the edge between two nodes. -/
  | added {v : VerdictCode} {src dst : NodeKey} {g₁ g' : Graph} (h : accept f = .ok v)
      (hres : g.endpointKeys ρ f = some (src, dst, g₁)) (hkeys : KeysDerived f g src dst g₁)
      (hinv : g₁.Inv) (hne : src ≠ dst) (hadd : FlowAdded f v src dst g₁ g') :
      Ingested ρ f g g' { edgeID := (flowKey f src dst).id, verdict := v }

/-- Once both keys are derived, the rest of `Ingest` decides. -/
theorem ingest_eq {ρ : RangeOrder} {f : Flow} {g g₁ : Graph} {v : VerdictCode}
    {src dst : NodeKey} (h : accept f = .ok v)
    (hkeys : g.endpointKeys ρ f = some (src, dst, g₁)) :
    g.ingest ρ f
      = if src = dst then some (g₁, { skipped := "self" }) else g₁.addFlow f v src dst := by
  unfold ingest
  rw [h]
  show (g.endpointKeys ρ f).bind _ = _
  rw [hkeys]
  rfl

/-- A flow of a non-negative time never stops the server. -/
theorem ingest_spec (ρ : RangeOrder) {f : Flow} (hf : 0 ≤ f.asTime) {g : Graph}
    (hinv : g.Inv) :
    ∃ g' res, g.ingest ρ f = some (g', res) ∧ g'.Inv ∧ Ingested ρ f g g' res := by
  cases haccept : accept f with
  | error reason =>
    refine ⟨g, _, ?_, hinv, .skipped haccept⟩
    rw [ingest, haccept]
  | ok v =>
    obtain ⟨src, dst, g₁, hkeys, hinv₁, hderived⟩ := endpointKeys_spec ρ f hinv
    have hingest := ingest_eq haccept hkeys
    -- the keys have taught the machines by now, whether or not the flow is counted
    by_cases hself : src = dst
    · subst hself
      rw [if_pos rfl] at hingest
      exact ⟨g₁, _, hingest, hinv₁, .self haccept hkeys hderived⟩
    · rw [if_neg hself] at hingest
      obtain ⟨g', hadd, hinv', hadded⟩ := addFlow_spec hf v src dst hinv₁
      exact ⟨g', _, hingest.trans hadd, hinv', .added haccept hkeys hderived hinv₁ hself hadded⟩

/-- Whenever `Ingest` returns, the flow was taken in. -/
theorem ingest_inv {ρ : RangeOrder} {f : Flow} {g g' : Graph} {res : Result} (hinv : g.Inv)
    (h : g.ingest ρ f = some (g', res)) : g'.Inv ∧ Ingested ρ f g g' res := by
  cases haccept : accept f with
  | error reason =>
    rw [ingest, haccept] at h
    obtain ⟨rfl, rfl⟩ := Prod.mk.inj (Option.some.inj h)
    exact ⟨hinv, .skipped haccept⟩
  | ok v =>
    obtain ⟨src, dst, g₁, hkeys, hinv₁, hderived⟩ := endpointKeys_spec ρ f hinv
    -- the run is given here, so each guard says which of the three cases it was
    rw [ingest_eq haccept hkeys] at h
    split at h
    · next hself =>
      subst hself
      obtain ⟨rfl, rfl⟩ := Prod.mk.inj (Option.some.inj h)
      exact ⟨hinv₁, .self haccept hkeys hderived⟩
    · next hself =>
      obtain ⟨hinv', hadded, rfl⟩ := addFlow_inv hinv₁ h
      exact ⟨hinv', .added haccept hkeys hderived hinv₁ hself hadded⟩

/-- The rule for `Ingest`: what the removals keep, and adding the flow keeps. -/
theorem Stable.ingested {R : Graph → Prop} (hR : Stable R) {ρ : RangeOrder} {f : Flow}
    {g g' : Graph} {res : Result} (h : Ingested ρ f g g' res) (hg : R g)
    (hadd : ∀ {v src dst g₁}, accept f = .ok v → g.endpointKeys ρ f = some (src, dst, g₁) →
      src ≠ dst → g₁.Inv → R g₁ → FlowAdded f v src dst g₁ g' → R g') : R g' := by
  cases h with
  | skipped => exact hg
  | self _ _ hkeys => exact hR.keysDerived hkeys hg
  | added haccept hres hkeys hinv₁ hne hadded =>
    exact hadd haccept hres hne hinv₁ (hR.keysDerived hkeys hg) hadded

end Graph

end Flowscape
