import Flowscape.Lib.ChangeLog
import Flowscape.Lib.Run
import Flowscape.Web.Fold

/-!
# Flowscape: the changes between two frames

Between two frames the browser's graph collects which nodes and edges came and which went
(`consume`); the scene removes and adds them. Both pairs of sets are change logs, and the
loops over a message add to them.

A snapshot keeps the scene in step in every case, and so does a frame. A tick loses track of
what the scene shows if it reports an id gone that came back after the last frame: the id
counts as added, by a snapshot that sent it again for one, and is then neither added nor
removed.
-/

namespace Flowscape

namespace GraphState

/-- The keys of a map and the two sets of changes to them. -/
def logOf {α : Type} (ids : OrdMap String α) (added removed : OrdSet String) :
    ChangeLog String where
  ids := {id | id ∈ ids}
  added := {id | id ∈ added}
  removed := {id | id ∈ removed}

/-- The node ids and the changes to them since the last frame. -/
def nodesLog (s : GraphState) : ChangeLog String := logOf s.nodes s.addedNodes s.removedNodes

/-- The edge ids and the changes to them since the last frame. -/
def edgesLog (s : GraphState) : ChangeLog String := logOf s.edges s.addedEdges s.removedEdges

section logOf

variable {α : Type} {ids : OrdMap String α} {added removed : OrdSet String} {id : String}

/-- Only the keys of the map count. -/
theorem logOf_congr {ids' : OrdMap String α} (h : ∀ id, id ∈ ids ↔ id ∈ ids') :
    logOf ids added removed = logOf ids' added removed := by
  unfold logOf
  congr 1
  exact Set.ext h

theorem logOf_set_of_mem (v : α) (h : id ∈ ids) :
    logOf (ids.set id v) added removed = (logOf ids added removed).insertAll {id} := by
  rw [ChangeLog.insertAll_of_mem h]
  apply logOf_congr
  intro id'
  rw [OrdMap.mem_set]
  exact or_iff_right_of_imp fun heq => heq ▸ h

theorem logOf_set_of_not_mem (v : α) (h : id ∉ ids) :
    logOf (ids.set id v) (added.add id) (removed.erase id)
      = (logOf ids added removed).insertAll {id} := by
  rw [ChangeLog.insertAll_of_not_mem h]
  simp only [logOf, ChangeLog.mk.injEq]
  refine ⟨Set.ext fun id' => OrdMap.mem_set, Set.ext fun id' => OrdSet.mem_add, ?_⟩
  exact Set.ext fun id' => OrdMap.mem_erase.trans and_comm

theorem logOf_erase_of_mem (h : id ∈ ids) :
    logOf (ids.erase id) (added.erase id) (if id ∈ added then removed else removed.add id)
      = (logOf ids added removed).eraseAll {id} := by
  rw [ChangeLog.eraseAll_of_mem h]
  simp only [logOf, ChangeLog.mk.injEq]
  refine ⟨Set.ext fun id' => OrdMap.mem_erase.trans and_comm,
    Set.ext fun id' => OrdMap.mem_erase.trans and_comm, Set.ext fun id' => ?_⟩
  split
  -- added and deleted again: neither
  · next hadded =>
    show id' ∈ removed ↔ id' ∈ removed ∨ (id' = id ∧ id' ∉ added)
    exact (or_iff_left fun hc => hc.2 (hc.1 ▸ hadded)).symm
  · next hadded =>
    show id' ∈ removed.add id ↔ id' ∈ removed ∨ (id' = id ∧ id' ∉ added)
    rw [OrdSet.mem_add, or_comm]
    exact or_congr_right ⟨fun heq => ⟨heq, heq ▸ hadded⟩, fun hc => hc.1⟩

end logOf

/-! ## One round of a loop -/

/-- `upsertNode` inserts the node. -/
theorem upsertNode_nodesLog (s : GraphState) (n : WireNode) :
    (s.upsertNode n).nodesLog = s.nodesLog.insertAll {n.id} := by
  unfold upsertNode
  cases h : s.nodes.get? n.id with
  | none => exact logOf_set_of_not_mem _ (OrdMap.not_mem_iff.2 h)
  | some ns => exact logOf_set_of_mem _ (OrdMap.mem_of_get? h)

theorem upsertNode_edgesLog (s : GraphState) (n : WireNode) :
    (s.upsertNode n).edgesLog = s.edgesLog := by
  unfold upsertNode
  cases s.nodes.get? n.id <;> rfl

/-- `upsertEdge` inserts the edge. -/
theorem upsertEdge_edgesLog (s : GraphState) (e : WireEdge) :
    (s.upsertEdge e).edgesLog = s.edgesLog.insertAll {e.id} := by
  unfold upsertEdge
  split
  · next h => exact (ChangeLog.insertAll_of_mem h).symm
  · next h => exact logOf_set_of_not_mem _ h

theorem mem_link {nodes : OrdMap String NodeState} {a eid id : String} :
    id ∈ link nodes a eid ↔ id ∈ nodes := OrdMap.mem_modify

theorem mem_unlink {nodes : OrdMap String NodeState} {a eid id : String} :
    id ∈ unlink nodes a eid ↔ id ∈ nodes := OrdMap.mem_modify

theorem upsertEdge_nodesLog (s : GraphState) (e : WireEdge) :
    (s.upsertEdge e).nodesLog = s.nodesLog := by
  unfold upsertEdge
  split
  · rfl
  · exact logOf_congr fun id => mem_link.trans mem_link

theorem snapshotEdge_edgesLog (s : GraphState) (e : WireEdge) :
    (snapshotEdge s e).edgesLog = s.edgesLog.insertAll {e.id} := by
  rw [← upsertEdge_edgesLog]
  exact logOf_congr fun id => OrdMap.mem_modify

theorem tickEdge_edgesLog (sec : Int) (s : GraphState) (e : WireEdge) :
    (tickEdge sec s e).edgesLog = s.edgesLog.insertAll {e.id} := by
  rw [← upsertEdge_edgesLog]
  exact logOf_congr fun id => OrdMap.mem_modify

theorem snapshotEdge_nodesLog (s : GraphState) (e : WireEdge) :
    (snapshotEdge s e).nodesLog = s.nodesLog := upsertEdge_nodesLog s e

theorem tickEdge_nodesLog (sec : Int) (s : GraphState) (e : WireEdge) :
    (tickEdge sec s e).nodesLog = s.nodesLog := upsertEdge_nodesLog s e

/-- `removeEdge` takes the edge away. -/
theorem removeEdge_edgesLog (s : GraphState) (id : String) :
    (s.removeEdge id).edgesLog = s.edgesLog.eraseAll {id} := by
  unfold removeEdge
  cases h : s.edges.get? id with
  | none => exact (ChangeLog.eraseAll_of_not_mem (OrdMap.not_mem_iff.2 h)).symm
  | some e => exact logOf_erase_of_mem (OrdMap.mem_of_get? h)

theorem removeEdge_nodesLog (s : GraphState) (id : String) :
    (s.removeEdge id).nodesLog = s.nodesLog := by
  unfold removeEdge
  cases s.edges.get? id with
  | none => rfl
  | some e => exact logOf_congr fun id => mem_unlink.trans mem_unlink

/-- `removeNode` takes the node away. -/
theorem removeNode_nodesLog (s : GraphState) (id : String) :
    (s.removeNode id).nodesLog = s.nodesLog.eraseAll {id} := by
  unfold removeNode
  split
  · next h => exact (ChangeLog.eraseAll_of_not_mem h).symm
  · next h => exact logOf_erase_of_mem (not_not.1 h)

theorem removeNode_edgesLog (s : GraphState) (id : String) :
    (s.removeNode id).edgesLog = s.edgesLog := by
  unfold removeNode
  split <;> rfl

/-! ## Messages -/

/-- **A tick inserts its nodes and takes the gone ones away**. -/
theorem applyTick_nodesLog (s : GraphState) (t : Tick) :
    (s.applyTick t).nodesLog
      = (s.nodesLog.insertAll (ChangeLog.keysOf WireNode.id t.nodes)).eraseAll
          {id | id ∈ t.gone.nodes} := by
  show (s.tickLoops t).nodesLog = _
  rw [tickLoops, ChangeLog.foldl_eraseAll removeNode_nodesLog,
    Loop.foldl_const (g := nodesLog) removeEdge_nodesLog,
    Loop.foldl_const (g := nodesLog) (tickEdge_nodesLog _),
    ChangeLog.foldl_insertAll upsertNode_nodesLog]

/-- A tick does with the edges what it does with the nodes. -/
theorem applyTick_edgesLog (s : GraphState) (t : Tick) :
    (s.applyTick t).edgesLog
      = (s.edgesLog.insertAll (ChangeLog.keysOf WireEdge.id t.edges)).eraseAll
          {id | id ∈ t.gone.edges} := by
  show (s.tickLoops t).edgesLog = _
  rw [tickLoops, Loop.foldl_const (g := edgesLog) removeNode_edgesLog,
    ChangeLog.foldl_eraseAll removeEdge_edgesLog,
    ChangeLog.foldl_insertAll (tickEdge_edgesLog _),
    Loop.foldl_const (g := edgesLog) upsertNode_edgesLog]

/-- The cancellation at the end of a snapshot, for all ids at once. -/
theorem mem_cancel (added removed : OrdSet String) (id : String) :
    (id ∈ (cancel added removed).1 ↔ id ∈ added ∧ id ∉ removed) ∧
      (id ∈ (cancel added removed).2 ↔ id ∈ removed ∧ id ∉ added) := by
  let view : OrdSet String × OrdSet String → String → Prop × Prop :=
    fun p id => (id ∈ p.1, id ∈ p.2)
  -- the round of an id looks at that id alone, so the loop is one step for each id of `added`
  have hwrites : Loop.WritesOwn (fun _ => True) view (fun id : String => id)
      (fun _ v => (v.1 ∧ ¬ v.2, False))
      (fun p id => if id ∈ p.2 then (p.1.erase id, p.2.erase id) else p) := by
    refine ⟨fun _ _ h => h, fun p id _ => ?_, fun p id id' _ hne => ?_⟩
    · by_cases h : id ∈ p.2
      · simp [view, h]
      · simp [view, h]
    · by_cases h : id ∈ p.2
      · simp [view, h, hne]
      · simp [view, h]
  have hview : view (cancel added removed) id
      = if id ∈ added then (id ∉ removed, False) else (False, id ∈ removed) := by
    split
    · next h =>
      rw [cancel, hwrites.foldl_of_mem (b := id) ?_ trivial (OrdMap.mem_keys.2 h)]
      · simp [view, h]
      · rw [List.map_id']
        exact added.nodup
    · next h =>
      have hne : ∀ b ∈ added.keys, b ≠ id := fun b hb =>
        ne_of_mem_of_not_mem (OrdMap.mem_keys.1 hb) h
      rw [cancel, hwrites.foldl_of_not_mem trivial hne]
      simp [view, h]
  have h₁ : (id ∈ (cancel added removed).1) = (view (cancel added removed) id).1 := rfl
  have h₂ : (id ∈ (cancel added removed).2) = (view (cancel added removed) id).2 := rfl
  rw [h₁, h₂, hview]
  split
  · next h => simp [h]
  · next h => simp [h]

theorem logOf_cancel {α : Type} (ids : OrdMap String α) (added removed : OrdSet String) :
    logOf ids (cancel added removed).1 (cancel added removed).2
      = (logOf ids added removed).cancel := by
  unfold logOf ChangeLog.cancel
  congr 1
  · exact Set.ext fun id => (mem_cancel added removed id).1
  · exact Set.ext fun id => (mem_cancel added removed id).2

/-- A restart notes everything as removed. -/
theorem logOf_clear {α : Type} (ids : OrdMap String α) (added removed : OrdSet String) :
    logOf (∅ : OrdMap String α) ∅ (removed.addAll ids.keys) = (logOf ids added removed).clear := by
  simp only [logOf, ChangeLog.clear, ChangeLog.mk.injEq]
  refine ⟨Set.ext fun id => ?_, Set.ext fun id => ?_, Set.ext fun id => ?_⟩
  · exact iff_of_false (OrdMap.not_mem_empty id) (Set.notMem_empty id)
  · exact iff_of_false (OrdMap.not_mem_empty id) (Set.notMem_empty id)
  · exact OrdSet.mem_addAll.trans (or_comm.trans (or_congr_right OrdMap.mem_keys))

/-- A frame takes the notes away. -/
theorem logOf_consumed {α : Type} (ids : OrdMap String α) (added removed : OrdSet String) :
    logOf ids ∅ ∅ = (logOf ids added removed).consumed := by
  have hnone : {id | id ∈ (∅ : OrdSet String)} = ∅ := Set.ext fun id =>
    iff_of_false (OrdMap.not_mem_empty id) (Set.notMem_empty id)
  simp only [logOf, ChangeLog.consumed, hnone]

theorem consume_nodesLog (s : GraphState) : s.consume.2.nodesLog = s.nodesLog.consumed :=
  logOf_consumed _ _ _

theorem consume_edgesLog (s : GraphState) : s.consume.2.edgesLog = s.edgesLog.consumed :=
  logOf_consumed _ _ _

/-- What a snapshot does to the log of the nodes. -/
theorem applySnapshot_nodesLog (s : GraphState) (m : Snapshot) :
    (s.applySnapshot m).nodesLog
      = (s.nodesLog.clear.insertAll (ChangeLog.keysOf WireNode.id m.nodes)).cancel := by
  have hloops : (s.snapshotLoops m).nodesLog
      = s.nodesLog.clear.insertAll (ChangeLog.keysOf WireNode.id m.nodes) := by
    rw [snapshotLoops, Loop.foldl_const (g := nodesLog) snapshotEdge_nodesLog,
      ChangeLog.foldl_insertAll upsertNode_nodesLog]
    rw [show s.clear.nodesLog = s.nodesLog.clear from logOf_clear _ _ _]
  rw [← hloops]
  exact logOf_cancel _ _ _

/-- **A snapshot clears the edges, inserts its own and cancels.** -/
theorem applySnapshot_edgesLog (s : GraphState) (m : Snapshot) :
    (s.applySnapshot m).edgesLog
      = (s.edgesLog.clear.insertAll (ChangeLog.keysOf WireEdge.id m.edges)).cancel := by
  have hloops : (s.snapshotLoops m).edgesLog
      = s.edgesLog.clear.insertAll (ChangeLog.keysOf WireEdge.id m.edges) := by
    rw [snapshotLoops, ChangeLog.foldl_insertAll snapshotEdge_edgesLog,
      Loop.foldl_const (g := edgesLog) upsertNode_edgesLog]
    rw [show s.clear.edgesLog = s.edgesLog.clear from logOf_clear _ _ _]
  rw [← hloops]
  exact logOf_cancel _ _ _

end GraphState

/-! ## The scene -/

/-- The graph, and the ids that the scene shows: every frame removes and adds what the graph
says has changed. -/
structure Scene where
  state : GraphState
  nodes : Set String
  edges : Set String

namespace Scene

/-- What happens between two frames, and the frame. -/
inductive Input where
  | snapshot (m : Snapshot)
  | tick (t : Tick)
  | frame

/-- The set after its changes. -/
def changed (shown : Set String) (added removed : List String) : Set String :=
  shown \ {id | id ∈ removed} ∪ {id | id ∈ added}

/-- A message comes, or a frame applies the notes to the copy. -/
def step (sc : Scene) : Input → Option Scene
  | .snapshot m => some { sc with state := sc.state.applySnapshot m }
  | .tick t => some { sc with state := sc.state.applyTick t }
  | .frame =>
    let (c, s) := sc.state.consume
    some {
      state := s
      nodes := changed sc.nodes c.addedNodes c.removedNodes
      edges := changed sc.edges c.addedEdges c.removedEdges }

/-- The next frame would show exactly the nodes and the edges of the graph. -/
def InStep (sc : Scene) : Prop :=
  let c := sc.state.consume.1
  changed sc.nodes c.addedNodes c.removedNodes = {id | id ∈ sc.state.nodes} ∧
    changed sc.edges c.addedEdges c.removedEdges = {id | id ∈ sc.state.edges}

/-- The scene right after a frame that has shown the graph as it is. -/
def shown (s : GraphState) : Scene where
  state := s.consume.2
  nodes := {id | id ∈ s.nodes}
  edges := {id | id ∈ s.edges}

/-- No id that the scene shows is reported gone after it came back: it was not added since the
last frame, nor does the same tick send it again after it was gone. -/
def KeepsTrack (sc : Scene) : Input → Prop
  | .tick t =>
    (∀ id ∈ t.gone.nodes, id ∈ sc.nodes →
      id ∉ sc.state.addedNodes ∧ (id ∈ sc.state.nodes ∨ ∀ n ∈ t.nodes, n.id ≠ id)) ∧
    (∀ id ∈ t.gone.edges, id ∈ sc.edges →
      id ∉ sc.state.addedEdges ∧ (id ∈ sc.state.edges ∨ ∀ e ∈ t.edges, e.id ≠ id))
  | _ => True

/-- What a frame does to the copy is what the log says. -/
theorem changed_keys {α : Type} (ids : OrdMap String α) (added removed : OrdSet String)
    (copy : Set String) : changed copy added.keys removed.keys
      = (GraphState.logOf ids added removed).apply copy := by
  have hkeys : ∀ m : OrdSet String, {id | id ∈ m.keys} = {id | id ∈ m} := fun m =>
    Set.ext fun id => OrdMap.mem_keys
  rw [changed, hkeys, hkeys]
  rfl

theorem changed_nodes (sc : Scene) :
    changed sc.nodes sc.state.consume.1.addedNodes sc.state.consume.1.removedNodes
      = sc.state.nodesLog.apply sc.nodes := changed_keys sc.state.nodes _ _ _

theorem changed_edges (sc : Scene) :
    changed sc.edges sc.state.consume.1.addedEdges sc.state.consume.1.removedEdges
      = sc.state.edgesLog.apply sc.edges := changed_keys sc.state.edges _ _ _

/-- The scene is in step when nodes and edges are. -/
theorem inStep_iff {sc : Scene} : sc.InStep ↔
    sc.state.nodesLog.InStep sc.nodes ∧ sc.state.edgesLog.InStep sc.edges := by
  show changed sc.nodes _ _ = _ ∧ changed sc.edges _ _ = _ ↔ _
  rw [changed_nodes, changed_edges]
  rfl

/-- The logs of both maps are sound. -/
def Sound (sc : Scene) : Prop := sc.state.nodesLog.Sound ∧ sc.state.edgesLog.Sound

/-- Every step keeps the notes sound. -/
theorem sound_step {sc sc' : Scene} {i : Input} (h : sc.Sound) (hstep : sc.step i = some sc') :
    sc'.Sound := by
  cases i with
  -- a snapshot starts the notes anew
  | snapshot m =>
    obtain rfl := Option.some.inj hstep
    refine ⟨?_, ?_⟩
    · rw [GraphState.applySnapshot_nodesLog]
      exact .restart _
    · rw [GraphState.applySnapshot_edgesLog]
      exact .restart _
  | tick t =>
    obtain rfl := Option.some.inj hstep
    refine ⟨?_, ?_⟩
    · rw [GraphState.applyTick_nodesLog]
      exact (h.1.insertAll _).eraseAll _
    · rw [GraphState.applyTick_edgesLog]
      exact (h.2.insertAll _).eraseAll _
  | frame =>
    obtain rfl := Option.some.inj hstep
    exact ⟨sc.state.consume_nodesLog ▸ .consumed _, sc.state.consume_edgesLog ▸ .consumed _⟩

/-- What it takes for the set to stay in step when ids come and then ids go. -/
theorem inStep_tick_iff {l : ChangeLog String} {copy : Set String} (hs : l.Sound)
    (h : l.InStep copy) (sent gone : Set String) :
    ((l.insertAll sent).eraseAll gone).InStep copy ↔
      ∀ id ∈ gone, id ∈ copy → id ∉ l.added ∧ (id ∈ l.ids ∨ id ∉ sent) := by
  rw [ChangeLog.inStep_eraseAll_iff (hs.insertAll sent) (h.insertAll sent)]
  apply forall₃_congr
  intro id _ _
  show ¬ (id ∈ l.added ∨ (id ∈ sent ∧ id ∉ l.ids)) ↔ _
  rw [not_or, not_and_not_right]
  exact and_congr_right fun _ => ⟨fun h => or_iff_not_imp_right.2 fun hn => h (not_not.1 hn),
    fun h hsent => h.resolve_right (not_not.2 hsent)⟩

/-- **A step keeps the copy in step just when nothing falls between the notes.** -/
theorem inStep_step_iff {sc sc' : Scene} {i : Input} (hs : sc.Sound) (h : sc.InStep)
    (hstep : sc.step i = some sc') : sc'.InStep ↔ sc.KeepsTrack i := by
  obtain ⟨hnodes, hedges⟩ := inStep_iff.1 h
  cases i with
  | snapshot m =>
    obtain rfl := Option.some.inj hstep
    refine iff_of_true (inStep_iff.2 ⟨?_, ?_⟩) trivial
    · rw [GraphState.applySnapshot_nodesLog]
      exact hnodes.restart _
    · rw [GraphState.applySnapshot_edgesLog]
      exact hedges.restart _
  | tick t =>
    obtain rfl := Option.some.inj hstep
    rw [inStep_iff, GraphState.applyTick_nodesLog, GraphState.applyTick_edgesLog,
      inStep_tick_iff hs.1 hnodes, inStep_tick_iff hs.2 hedges]
    -- the condition of the log, in the words of the message
    simp only [KeepsTrack, ChangeLog.keysOf, Set.mem_ofPred_eq, not_exists, not_and]
    rfl
  | frame =>
    obtain rfl := Option.some.inj hstep
    refine iff_of_true (inStep_iff.2 ⟨?_, ?_⟩) trivial
    · show sc.state.consume.2.nodesLog.InStep
        (changed sc.nodes sc.state.consume.1.addedNodes sc.state.consume.1.removedNodes)
      rw [GraphState.consume_nodesLog, changed_nodes]
      exact hnodes.consumed
    · show sc.state.consume.2.edgesLog.InStep
        (changed sc.edges sc.state.consume.1.addedEdges sc.state.consume.1.removedEdges)
      rw [GraphState.consume_edgesLog, changed_edges]
      exact hedges.consumed

/-- **The changes keep the scene in step, exactly as long as nothing that came back goes.** -/
theorem always_inStep_iff (s : GraphState) (inputs : List Input) :
    Run.Always step InStep (shown s) inputs ↔ Run.EveryStep step KeepsTrack (shown s) inputs := by
  refine Run.always_iff_everyStep (J := Sound) (fun _ _ _ h hstep => sound_step h hstep)
    (fun _ _ _ hs h hstep => inStep_step_iff hs h hstep) ?_ ?_
  · exact ⟨s.consume_nodesLog ▸ .consumed _, s.consume_edgesLog ▸ .consumed _⟩
  · refine inStep_iff.2 ⟨?_, ?_⟩
    · show s.consume.2.nodesLog.InStep s.nodesLog.ids
      rw [GraphState.consume_nodesLog]
      exact ChangeLog.inStep_consumed _
    · show s.consume.2.edgesLog.InStep s.edgesLog.ids
      rw [GraphState.consume_edgesLog]
      exact ChangeLog.inStep_consumed _

/-- A graph of one pod. -/
def onePod : Snapshot where
  ts := 0
  nodes := [{
    id := "shop/Pod/cart-0"
    ns := "shop"
    kind := "Pod"
    name := "cart-0"
    fqdn := ""
    machine := ""
    labels := ∅
    first := 0
    last := 0 }]
  edges := []

/-- A tick at which the pod expires. -/
def podGone : Tick where
  ts := 100
  nodes := []
  edges := []
  gone := ⟨["shop/Pod/cart-0"], []⟩
  sparks := []

set_option maxRecDepth 10000 in
/-- **The scene can keep a node that is gone.** The snapshot sends the pod that is shown once
more, the tick reports it gone, and the next frame hears of neither. -/
theorem not_inStep_of_run :
    ¬ ∀ (s : GraphState) (inputs : List Input) (sc : Scene),
      Run.run step (shown s) inputs = some sc → sc.InStep := by
  intro h
  let s := (GraphState.new 300).applySnapshot onePod
  let s' := (s.consume.2.applySnapshot onePod).applyTick podGone
  obtain ⟨hnodes, -⟩ := h s [.snapshot onePod, .tick podGone] _ rfl
  have hshown : "shop/Pod/cart-0" ∈ s.nodes := by decide
  have hkept : "shop/Pod/cart-0" ∉ s'.consume.1.removedNodes := by decide
  have hgone : "shop/Pod/cart-0" ∉ s'.nodes := by decide
  exact hgone ((Set.ext_iff.1 hnodes _).1 (Or.inl ⟨hshown, hkept⟩))

end Scene

end Flowscape
