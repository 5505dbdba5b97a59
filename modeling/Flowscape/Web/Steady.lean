import Flowscape.Web.Layout
import Flowscape.Web.Nodes

/-!
# Flowscape: what stays of a node between two frames

The scene is brought up to date by differences: a frame that hears of no node that came, went or
moved leaves the layout as it is. That is sound when a node that was there at the last frame, and
is not reported as new, is still the same node, and on the same machine unless it is touched. A
message keeps that, unless it is a snapshot, which is reported as such.
-/

namespace Flowscape

open GraphState

/-- The two are one node, as far as its key goes. -/
def SameNode (n n' : NodeState) : Prop :=
  n'.id = n.id ∧ n'.ns = n.ns ∧ n'.kind = n.kind ∧ n'.name = n.name

theorem SameNode.refl (n : NodeState) : SameNode n n := ⟨rfl, rfl, rfl, rfl⟩

/-- A node of the last frame that is not reported as new is the same, and one that moved is
touched. -/
def Steady (old : OrdMap String NodeState) (s : GraphState) : Prop :=
  ∀ id n n', old.get? id = some n → s.nodeInfo id = some n' → id ∉ s.addedNodes →
    SameNode n n' ∧ (n'.machine = n.machine ∨ id ∈ s.touchedNodes)

/-- The nodes of the last frame that are still there and not reported as new are in the order they
were in. -/
def InOrder (old : OrdMap String NodeState) (s : GraphState) : Prop :=
  s.nodes.keys.filter (· ∉ s.addedNodes)
    = old.keys.filter fun id => id ∈ s.nodes ∧ id ∉ s.addedNodes

/-- What the layout reads of a node. -/
def glimpse (mode : GroupBy) (n : NodeState) : NodeState :=
  plainNode n.id n.ns n.kind n.name (groupOf mode n)

/-- The layout does not tell the two maps apart. -/
def Alike (mode : GroupBy) (nodes nodes' : OrdMap String NodeState) : Prop :=
  nodes'.map (glimpse mode) = nodes.map (glimpse mode)

/-! ## Logs, id by id -/

namespace GraphState

variable {s : GraphState} {id : String}

/-- A node is noted as added when it is new. -/
theorem mem_addedNodes_upsertNode (n : WireNode) : id ∈ (s.upsertNode n).addedNodes ↔
    id ∈ s.addedNodes ∨ (id = n.id ∧ n.id ∉ s.nodes) := by
  have hlog : id ∈ (s.upsertNode n).nodesLog.added ↔ id ∈ (s.nodesLog.insertAll {n.id}).added := by
    rw [upsertNode_nodesLog]
  refine hlog.trans (or_congr_right (and_congr_right fun heq => ?_))
  rw [Set.mem_singleton_iff.1 heq]
  exact Iff.rfl

theorem addedNodes_of_nodesLog {s' : GraphState} (h : s'.nodesLog = s.nodesLog) :
    id ∈ s'.addedNodes ↔ id ∈ s.addedNodes := by
  have hmem : id ∈ s'.nodesLog.added ↔ id ∈ s.nodesLog.added := by rw [h]
  exact hmem

theorem mem_addedNodes_removeNode (id' : String) (hne : id ≠ id') :
    id ∈ (s.removeNode id').addedNodes ↔ id ∈ s.addedNodes := by
  have hlog : id ∈ (s.removeNode id').nodesLog.added ↔
      id ∈ (s.nodesLog.eraseAll {id'}).added := by
    rw [removeNode_nodesLog]
  refine hlog.trans (and_iff_left fun h => hne ?_)
  exact h.1

theorem mem_nodes_iff_nodeInfo : id ∈ s.nodes ↔ (s.nodeInfo id).isSome = true := by
  rw [OrdMap.mem_iff_isSome, nodeInfo, Option.isSome_map]

end GraphState

/-! ## One round of a loop -/

section

variable {old : OrdMap String NodeState} {s s' : GraphState}

/-- What a merge leaves of a node. -/
theorem sameNode_mergeNode {n₀ n : NodeState} (h : SameNode n₀ n) (m : WireNode) :
    SameNode n₀ (mergeNode m n) := h

/-- A node that is known tells the same but for its machine, and is touched then. -/
theorem Steady.upsertNode (h : Steady old s) (m : WireNode) : Steady old (s.upsertNode m) := by
  intro id n n' hn hn' hadded
  rw [mem_addedNodes_upsertNode, not_or] at hadded
  have htouched := Screen.mem_touchedNodes_upsertNode s m id
  rw [upsertNode_nodeInfo] at hn'
  by_cases heq : id = m.id
  · subst heq
    rw [if_pos rfl] at hn'
    obtain rfl := Option.some.inj hn'
    cases hold : s.nodeInfo m.id with
    | none =>
      -- a node that the graph does not have counts as new
      refine absurd ⟨rfl, ?_⟩ hadded.2
      rw [mem_nodes_iff_nodeInfo, hold]
      exact Bool.noConfusion
    | some ns =>
      obtain ⟨hsame, hmachine⟩ := h m.id n ns hn hold hadded.1
      refine ⟨sameNode_mergeNode hsame m, ?_⟩
      show (if movesNode m ns then m.machine else ns.machine) = n.machine ∨ _
      by_cases hm : movesNode m ns = true
      · exact Or.inr (htouched.2 (Or.inr ⟨rfl, ns, hold, hm⟩))
      · rw [if_neg hm]
        exact hmachine.imp_right fun ht => htouched.2 (Or.inl ht)
  · rw [if_neg heq] at hn'
    obtain ⟨hsame, hmachine⟩ := h id n n' hn hn' hadded.1
    exact ⟨hsame, hmachine.imp_right fun ht => htouched.2 (Or.inl ht)⟩

/-- A round that does not look at the nodes. -/
theorem Steady.congr (h : Steady old s) (hinfo : ∀ id, s'.nodeInfo id = s.nodeInfo id)
    (hlog : s'.nodesLog = s.nodesLog) (htouched : s'.touchedNodes = s.touchedNodes) :
    Steady old s' := by
  intro id n n' hn hn' hadded
  rw [hinfo] at hn'
  rw [htouched]
  exact h id n n' hn hn' fun ha => hadded ((addedNodes_of_nodesLog hlog).2 ha)

/-- Removing a node changes nothing about the others. -/
theorem Steady.removeNode (h : Steady old s) (id' : String) : Steady old (s.removeNode id') := by
  intro id n n' hn hn' hadded
  rw [nodeInfo, removeNode_nodes] at hn'
  by_cases heq : id = id'
  · rw [if_pos heq] at hn'
    cases hn'
  · rw [if_neg heq] at hn'
    rw [mem_addedNodes_removeNode id' heq] at hadded
    rw [Screen.mem_touchedNodes_removeNode]
    obtain ⟨hsame, hmachine⟩ := h id n n' hn hn' hadded
    exact ⟨hsame, hmachine.imp_right fun ht => ⟨ht, fun h => absurd h heq⟩⟩

/-- **A tick keeps it.** -/
theorem Steady.applyTick (h : Steady old s) (t : Tick) : Steady old (s.applyTick t) := by
  have h₁ := Loop.foldl_keeps (J := Steady old) (l := t.nodes) (fun _ n h => h.upsertNode n) h
  have h₂ := Loop.foldl_keeps (J := Steady old) (f := tickEdge (t.ts / 1000)) (l := t.edges)
    (fun s e h => h.congr (tickEdge_nodeInfo _ s e) (tickEdge_nodesLog _ s e)
      (Screen.touchedNodes_upsertEdge s e)) h₁
  have h₃ := Loop.foldl_keeps (J := Steady old) (l := t.gone.edges)
    (fun s id h => h.congr (removeEdge_nodeInfo s id) (removeEdge_nodesLog s id)
      (Screen.touchedNodes_removeEdge s id)) h₂
  exact Loop.foldl_keeps (J := Steady old) (l := t.gone.nodes) (fun _ id h => h.removeNode id) h₃

end

/-! ## Messages -/

/-- A tick resets nothing. -/
theorem reset_applyTick (s : GraphState) (t : Tick) : (s.applyTick t).reset = s.reset := by
  show (s.tickLoops t).reset = s.reset
  -- no loop of a tick touches the flag
  rw [tickLoops,
    Loop.foldl_const (g := GraphState.reset) (f := GraphState.removeNode) fun s id => by
      unfold GraphState.removeNode
      split <;> rfl,
    Loop.foldl_const (g := GraphState.reset) (f := GraphState.removeEdge) fun s id => by
      unfold GraphState.removeEdge
      split <;> rfl,
    Loop.foldl_const (g := GraphState.reset) (f := tickEdge (t.ts / 1000)) fun s e => by
      show (s.upsertEdge e).reset = s.reset
      unfold GraphState.upsertEdge
      split <;> rfl,
    Loop.foldl_const (g := GraphState.reset) (f := GraphState.upsertNode) fun s n => by
      unfold GraphState.upsertNode
      split <;> rfl]

/-- Right after a frame nothing has changed. -/
theorem steady_consume (s : GraphState) : Steady s.nodes s.consume.2 := by
  intro id n n' hn hn' _
  have hinfo : s.nodeInfo id = some n' := hn'
  rw [nodeInfo, hn] at hinfo
  obtain rfl := Option.some.inj hinfo
  exact ⟨SameNode.refl n, Or.inl rfl⟩

/-! ## Edges and their ends -/

/-- Every edge lies under its id. -/
def EdgesKeyed (s : GraphState) : Prop := ∀ id e, s.edges.get? id = some e → e.id = id

/-- Every edge lies under its id, which names its ends. -/
def Named (ends : String → String × String) (s : GraphState) : Prop :=
  ∀ id e, s.edgeInfo id = some e → e.id = id ∧ ends id = (e.src, e.dst)

section

variable {ends : String → String × String} {s : GraphState}

theorem Named.edge (h : Named ends s) {id : String} {e : EdgeState}
    (he : s.edges.get? id = some e) : e.id = id ∧ ends id = (e.src, e.dst) :=
  h id e.info (congrArg (Option.map EdgeState.info) he)

theorem Named.congr (h : Named ends s) {s' : GraphState} (hedges : s'.edges = s.edges) :
    Named ends s' := by
  intro id e he
  rw [edgeInfo, hedges] at he
  exact h id e he

/-- An edge of a message is merged into one with the same ends. -/
theorem Named.getD (h : Named ends s) {e : WireEdge} (he : ends e.id = (e.src, e.dst)) :
    let es := (s.edgeInfo e.id).getD (freshInfo e)
    es.id = e.id ∧ ends e.id = (es.src, es.dst) := by
  cases hold : s.edgeInfo e.id with
  | none => exact ⟨rfl, he⟩
  | some es => exact h e.id es hold

/-- An edge of a tick that ends where its id says keeps it. -/
theorem Named.tickEdge (h : Named ends s) (sec : Int) {e : WireEdge}
    (he : ends e.id = (e.src, e.dst)) : Named ends (tickEdge sec s e) := by
  intro id es hes
  rw [tickEdge_edgeInfo] at hes
  split at hes
  · next heq =>
    obtain rfl := Option.some.inj hes
    rw [heq]
    exact h.getD he
  · exact h id es hes

theorem Named.snapshotEdge (h : Named ends s) {e : WireEdge} (he : ends e.id = (e.src, e.dst)) :
    Named ends (snapshotEdge s e) := by
  intro id es hes
  rw [snapshotEdge_edgeInfo] at hes
  split at hes
  · next heq =>
    obtain rfl := Option.some.inj hes
    rw [heq]
    exact h.getD he
  · exact h id es hes

theorem Named.removeEdge (h : Named ends s) (eid : String) : Named ends (s.removeEdge eid) := by
  intro id es hes
  rw [edgeInfo, removeEdge_edges] at hes
  split at hes
  · cases hes
  · exact h id es hes

/-- A tick whose edges end where their ids say keeps the names. -/
theorem Named.applyTick (h : Named ends s) {t : Tick}
    (ht : ∀ e ∈ t.edges, ends e.id = (e.src, e.dst)) : Named ends (s.applyTick t) := by
  have h₁ := Loop.foldl_keeps (J := Named ends) (l := t.nodes)
    (fun s n h => h.congr (upsertNode_edges s n)) h
  have h₂ := List.foldlRecOn t.edges (GraphState.tickEdge (t.ts / 1000)) (motive := Named ends) h₁
    fun s h e he => h.tickEdge _ (ht e he)
  have h₃ := Loop.foldl_keeps (J := Named ends) (l := t.gone.edges)
    (fun s id h => h.removeEdge id) h₂
  exact Loop.foldl_keeps (J := Named ends) (l := t.gone.nodes)
    (fun s id h => h.congr (removeNode_edges s id)) h₃

/-- After a snapshot the names are those of its edges. -/
theorem named_applySnapshot {m : Snapshot} (hm : ∀ e ∈ m.edges, ends e.id = (e.src, e.dst)) :
    Named ends (s.applySnapshot m) := by
  have h₁ := Loop.foldl_keeps (J := Named ends) (f := GraphState.upsertNode) (l := m.nodes)
    (s := s.clear) (fun s n h => h.congr (upsertNode_edges s n)) fun id e he => nomatch he
  exact List.foldlRecOn m.edges GraphState.snapshotEdge (motive := Named ends) h₁
    fun s h e he => h.snapshotEdge (hm e he)

end

/-! ## The order of the nodes -/

section

variable {old : OrdMap String NodeState} {s s' : GraphState}

theorem InOrder.congr (h : InOrder old s) (hkeys : s'.nodes.keys = s.nodes.keys)
    (hadded : s'.addedNodes = s.addedNodes) : InOrder old s' := by
  have hmem : ∀ id, id ∈ s'.nodes ↔ id ∈ s.nodes := fun id => by
    rw [← OrdMap.mem_keys, hkeys, OrdMap.mem_keys]
  simp only [InOrder, hkeys, hadded, hmem]
  exact h

theorem keys_modify {α : Type*} (m : OrdMap String α) (id : String) (f : α → α) :
    (m.modify id f).keys = m.keys := by
  unfold OrdMap.modify
  split
  · rfl
  · next h => exact OrdMap.keys_set_of_mem (OrdMap.mem_of_get? h)

/-- A new node comes last. -/
theorem InOrder.upsertNode (h : InOrder old s) (n : WireNode) : InOrder old (s.upsertNode n) := by
  unfold GraphState.upsertNode
  cases hn : s.nodes.get? n.id with
  | none =>
    have hnew : n.id ∉ s.nodes := OrdMap.not_mem_iff.2 hn
    -- a new node comes last and is noted, so the others are as before
    have hleft : (s.nodes.set n.id (freshNode n)).keys.filter (· ∉ s.addedNodes.add n.id)
        = s.nodes.keys.filter (· ∉ s.addedNodes) := by
      rw [OrdMap.keys_set_of_not_mem hnew, List.filter_append]
      have hlast : [n.id].filter (· ∉ s.addedNodes.add n.id) = [] := by simp
      rw [hlast, List.append_nil]
      apply List.filter_congr
      intro id hid
      have hne : id ≠ n.id := ne_of_mem_of_not_mem (OrdMap.mem_keys.1 hid) hnew
      simp [hne]
    refine hleft.trans (h.trans (List.filter_congr fun id _ => ?_))
    by_cases heq : id = n.id
    · simp [heq, hnew]
    · simp [heq]
  | some ns =>
    refine h.congr ?_ rfl
    exact OrdMap.keys_set_of_mem (OrdMap.mem_of_get? hn)

/-- Removing a node leaves the others in order. -/
theorem InOrder.removeNode (h : InOrder old s) (id : String) : InOrder old (s.removeNode id) := by
  unfold GraphState.removeNode
  split
  · exact h
  · have hfilter := congrArg (List.filter (· ≠ id)) h
    rw [List.filter_filter, List.filter_filter] at hfilter
    show (s.nodes.erase id).keys.filter (· ∉ s.addedNodes.erase id) = _
    rw [OrdMap.keys_erase, List.filter_filter]
    refine Eq.trans (List.filter_congr fun id' _ => ?_)
      (hfilter.trans (List.filter_congr fun id' _ => ?_))
    · by_cases heq : id' = id <;> simp [heq]
    · by_cases heq : id' = id <;> simp [heq]

theorem keys_link (nodes : OrdMap String NodeState) (a b eid : String) :
    (link (link nodes a eid) b eid).keys = nodes.keys :=
  (keys_modify _ b _).trans (keys_modify nodes a _)

theorem InOrder.tickEdge (h : InOrder old s) (sec : Int) (e : WireEdge) :
    InOrder old (tickEdge sec s e) := by
  unfold GraphState.tickEdge GraphState.upsertEdge
  split
  · exact h.congr rfl rfl
  · exact h.congr (keys_link s.nodes e.src e.dst e.id) rfl

theorem InOrder.removeEdge (h : InOrder old s) (id : String) : InOrder old (s.removeEdge id) := by
  unfold GraphState.removeEdge
  cases s.edges.get? id with
  | none => exact h
  | some e => exact h.congr ((keys_modify _ e.dst _).trans (keys_modify s.nodes e.src _)) rfl

/-- A tick leaves the old nodes in order. -/
theorem InOrder.applyTick (h : InOrder old s) (t : Tick) : InOrder old (s.applyTick t) := by
  have h₁ := Loop.foldl_keeps (J := InOrder old) (l := t.nodes) (fun _ n h => h.upsertNode n) h
  have h₂ := Loop.foldl_keeps (J := InOrder old) (l := t.edges)
    (fun _ e h => h.tickEdge (t.ts / 1000) e) h₁
  have h₃ := Loop.foldl_keeps (J := InOrder old) (l := t.gone.edges)
    (fun _ id h => h.removeEdge id) h₂
  exact Loop.foldl_keeps (J := InOrder old) (l := t.gone.nodes) (fun _ id h => h.removeNode id) h₃

theorem inOrder_consume (s : GraphState) : InOrder s.nodes s.consume.2 := by
  apply List.filter_congr
  intro id hid
  have hmem : id ∈ s.nodes := OrdMap.mem_keys.1 hid
  simp [GraphState.consume, hmem]

/-- Where no node came, went or moved to another platform, the maps are alike. -/
theorem Steady.alike {mode : GroupBy} (h : Steady old s) (horder : InOrder old s)
    (hids : ∀ id, id ∈ s.nodes ↔ id ∈ old) (hadded : ∀ id, id ∉ s.addedNodes)
    (hmoved : mode = .machine → ∀ id, id ∉ s.touchedNodes) : Alike mode old s.nodes := by
  -- nothing was added, so the order is the old one
  have hkeys : s.nodes.keys = old.keys := by
    have hleft : s.nodes.keys.filter (· ∉ s.addedNodes) = s.nodes.keys :=
      List.filter_eq_self.2 fun id _ => by simp [hadded]
    have hright : (old.keys.filter fun id => id ∈ s.nodes ∧ id ∉ s.addedNodes) = old.keys :=
      List.filter_eq_self.2 fun id hid => by
        have hmem : id ∈ old := OrdMap.mem_keys.1 hid
        simp [hadded, hids, hmem]
    exact hleft.symm.trans (horder.trans hright)
  apply OrdMap.eq_of_keys
  · rw [OrdMap.keys_map, OrdMap.keys_map, hkeys]
  intro id
  rw [OrdMap.get?_map, OrdMap.get?_map]
  cases hn : old.get? id with
  | none => rw [OrdMap.not_mem_iff.1 fun hin => OrdMap.not_mem_iff.2 hn ((hids id).1 hin)]
  | some n =>
    obtain ⟨n', hn'⟩ := OrdMap.mem_iff.1 ((hids id).2 (OrdMap.mem_of_get? hn))
    have hinfo : s.nodeInfo id = some n'.info := by
      rw [nodeInfo, hn']
      rfl
    obtain ⟨⟨hid, hns, hkind, hname⟩, hmachine⟩ := h id n n'.info hn hinfo (hadded id)
    -- by namespace the group stays; by machine it does too, as none was touched
    have hgroup : groupOf mode n' = groupOf mode n := by
      cases mode with
      | ns => exact hns
      | machine =>
        have heq : n'.machine = n.machine := hmachine.resolve_right (hmoved rfl id)
        rw [groupOf, groupOf, heq]
    rw [hn', Option.map_some, Option.map_some, glimpse, hgroup, show n'.id = n.id from hid,
      show n'.ns = n.ns from hns, show n'.kind = n.kind from hkind,
      show n'.name = n.name from hname]
    rfl

end

/-! ## What reads a glimpse only -/

section

variable {mode : GroupBy} {nodes nodes' : OrdMap String NodeState}

/-- The lists of the layout, from what it reads. -/
def addGlimpse (p : Parts) (n : NodeState) : Parts :=
  match roleOf n with
  | .world => { p with world := p.world ++ [n.id] }
  | .machine => { p with machines := p.machines ++ [n.id] }
  | .reserved => { p with reserved := p.reserved ++ [n.id] }
  | .workload => { p with byGroup := p.byGroup.push n.machine n.id }

/-- The layout reads no more of a node than the glimpse. -/
theorem parts_eq (mode : GroupBy) (nodes : OrdMap String NodeState) : parts mode nodes
    = (nodes.map (glimpse mode)).values.foldl addGlimpse ⟨∅, [], [], []⟩ := by
  rw [OrdMap.values_map, List.foldl_map]
  rfl

/-- What is read of the glimpse is the same in both. -/
theorem map_get?_eq {α : Type*} (h : Alike mode nodes nodes') {f g : NodeState → α}
    (hf : ∀ n, f n = g (glimpse mode n)) (id : String) :
    (nodes'.get? id).map f = (nodes.get? id).map f := by
  have hcomp : ∀ m : OrdMap String NodeState,
      (m.get? id).map f = ((m.map (glimpse mode)).get? id).map g := by
    intro m
    rw [OrdMap.get?_map, Option.map_map, funext hf]
    rfl
  rw [hcomp, hcomp, h]

/-- **The lists of the layout** are the same for maps that are alike. -/
theorem Alike.plan (h : Alike mode nodes nodes') (localeCompare : String → String → Int) :
    plan localeCompare mode nodes' = plan localeCompare mode nodes := by
  have hparts : parts mode nodes' = parts mode nodes := by rw [parts_eq, parts_eq, h]
  have hkind : kindOf nodes' = kindOf nodes := funext fun id =>
    congrArg (Option.getD · "") (map_get?_eq h (g := (·.kind)) (fun _ => rfl) id)
  have hname : nameOf nodes' = nameOf nodes := funext fun id =>
    congrArg (Option.getD · "") (map_get?_eq h (g := (·.name)) (fun _ => rfl) id)
  simp only [Flowscape.plan, platformNames, hparts, hkind, hname]

end

end Flowscape
