import Flowscape.Lib.Run
import Flowscape.Web.Changes

/-!
# Flowscape: the machine of a rendered node (`web/src/nodes.ts`, `applyChanges` in `main.ts`)

Every node has a slot in the scene, which has the machine that the node runs on. A slot is made
with the machine of its node, and a frame writes the machines of the nodes that were touched
since the frame before. `Nodes.add` ignores an id that has a slot, so a node must be touched
whenever its machine changes.

A message that merges into a node touches it when the machine changes. A message that makes the
node anew does not: a snapshot does that to every node, and so does a tick that sends an id
again that an earlier one has removed.

Of `Nodes` the slots and the free list are modelled; positions, labels, colours and the arcs are
left out.
-/

namespace Flowscape

/-! ## Source definitions -/

/-- `CAPACITY` -/
def CAPACITY : Nat := 2048

/-- `Slot` -/
structure RenderSlot where
  index : Nat
  machine : String

/-- `Nodes` -/
structure Nodes where
  slots : OrdMap String RenderSlot
  /-- A stack, its top first. -/
  free : List Nat

namespace Nodes

/-- The constructor. -/
def new : Nodes where
  slots := ∅
  free := List.range CAPACITY

/-- `has` -/
def has (ns : Nodes) (id : String) : Bool := id ∈ ns.slots

/-- `add`: a new id takes a free slot if there is one. -/
def add (ns : Nodes) (n : NodeState) : Nodes :=
  if ns.has n.id then ns
  else match ns.free with
    | [] => ns
    | index :: free => { slots := ns.slots.set n.id ⟨index, n.machine⟩, free := free }

/-- `remove` -/
def remove (ns : Nodes) (id : String) : Nodes :=
  match ns.slots.get? id with
  | none => ns
  | some slot => { slots := ns.slots.erase id, free := slot.index :: ns.free }

/-- `setMachine` -/
def setMachine (ns : Nodes) (id machine : String) : Nodes :=
  { ns with slots := ns.slots.modify id fun slot => { slot with machine := machine } }

/-- `machineOf` -/
def machineOf (ns : Nodes) (id : String) : String :=
  ((ns.slots.get? id).map (·.machine)).getD ""

end Nodes

/-- What a frame finds besides the graph. -/
structure Frame where
  /-- The platforms stand for machines. -/
  byMachine : Bool
  /-- The grouping was switched just now. -/
  regrouped : Bool
  /-- The ids of `layout.targets`, in their order. -/
  targets : List String

/-- The loop over `touchedNodes` in `applyChanges`. -/
def setTouched (s : GraphState) (ns : Nodes) (id : String) : Nodes :=
  match s.nodes.get? id with
  | none => ns
  | some n => if n.machine ≠ "" then ns.setMachine id n.machine else ns

/-- The loop over `layout.targets`. -/
def place (s : GraphState) (ns : Nodes) (id : String) : Nodes :=
  if ns.has id then ns
  else match s.nodes.get? id with
    | none => ns
    | some n => ns.add n

/-- `applyChanges`, as far as it is about nodes. -/
def applyChanges (f : Frame) (s : GraphState) (ns : Nodes) : GraphState × Nodes :=
  let (c, s) := s.consume
  let ns := if c.reset then c.removedNodes.foldl Nodes.remove ns else ns
  let ns := c.removedNodes.foldl Nodes.remove ns
  let ns := c.touchedNodes.foldl (setTouched s) ns
  let membershipDirty := f.regrouped || !c.addedNodes.isEmpty || !c.removedNodes.isEmpty ||
    c.reset || (!c.touchedNodes.isEmpty && f.byMachine)
  (s, if membershipDirty then f.targets.foldl (place s) ns else ns)

/-- The graph of the browser and its scene. -/
structure Screen where
  state : GraphState
  nodes : Nodes
  /-- The nodes of the graph at the last `consume`. -/
  consumed : OrdMap String NodeState

namespace Screen

/-- What happens to the graph, and the frame. -/
inductive Input where
  | snapshot (m : Snapshot)
  | tick (t : Tick)
  | frame (f : Frame)

/-- A message comes, or a frame applies the changes to the slots. -/
def step (sc : Screen) : Input → Option Screen
  | .snapshot m => some { sc with state := sc.state.applySnapshot m }
  | .tick t => some { sc with state := sc.state.applyTick t }
  | .frame f =>
    let (s, ns) := applyChanges f sc.state sc.nodes
    some { state := s, nodes := ns, consumed := sc.state.nodes }

/-- An empty browser. -/
def start (retentionSeconds : Nat) : Screen where
  state := GraphState.new retentionSeconds
  nodes := Nodes.new
  consumed := ∅

/-- A node that was there at the last `consume` and has another machine now, and not none, is
touched, and the next frame has the machine in its slot. -/
def MachinesReach (sc : Screen) : Prop :=
  ∀ id n₀ n, sc.consumed.get? id = some n₀ → sc.state.nodes.get? id = some n →
    n.machine ≠ "" → n.machine ≠ n₀.machine →
    id ∈ sc.state.consume.1.touchedNodes ∧
      ∀ f, ∀ slot ∈ (applyChanges f sc.state sc.nodes).2.slots.get? id, slot.machine = n.machine

/-- The machines that a message gives for an id, in its order. -/
def machinesFor (id : String) (l : List WireNode) : List String :=
  (l.filter fun n => n.id = id).map (·.machine)

/-- A message moves a node from the machine. -/
def Moves (machines : List String) (machine : String) : Prop :=
  ∃ m ∈ machines, m ≠ "" ∧ m ≠ machine

instance (machines : List String) (machine : String) : Decidable (Moves machines machine) :=
  inferInstanceAs (Decidable (∃ m ∈ machines, m ≠ "" ∧ m ≠ machine))

/-- A node that is made anew comes without a machine or with the one it had, or the message
moves it further. -/
def ComesWith (machine : String) : List String → Prop
  | [] => True
  | m :: rest => m = "" ∨ m = machine ∨ Moves rest m

instance (machine : String) : (machines : List String) → Decidable (ComesWith machine machines)
  | [] => isTrue trivial
  | m :: rest => inferInstanceAs (Decidable (m = "" ∨ m = machine ∨ Moves rest m))

/-- No message makes a node anew on another machine: not a snapshot, and not a tick that sends
the id of a node which went since the last `consume`. -/
def KeepsMachines (sc : Screen) : Input → Prop
  | .snapshot m => ∀ id n₀, sc.consumed.get? id = some n₀ →
      ComesWith n₀.machine (machinesFor id m.nodes)
  | .tick t => ∀ id n₀, sc.consumed.get? id = some n₀ → id ∉ sc.state.nodes →
      id ∉ t.gone.nodes → ComesWith n₀.machine (machinesFor id t.nodes)
  | .frame _ => True

/-! ## What a message does to the machine of a node -/

/-- The machine of a node, if it is there, and whether the node is touched. -/
def machineView (s : GraphState) (id : String) : Option String × Prop :=
  ((s.nodeInfo id).map (·.machine), id ∈ s.touchedNodes)

/-- The same after the node was sent with a machine. -/
def hear (v : Option String × Prop) (m : String) : Option String × Prop :=
  match v.1 with
  | none => (some m, v.2)
  | some m₀ => if m ≠ "" ∧ m ≠ m₀ then (some m, True) else v

/-- A node is touched when its machine changes. -/
theorem mem_touchedNodes_upsertNode (s : GraphState) (n : WireNode) (id : String) :
    id ∈ (s.upsertNode n).touchedNodes ↔
      id ∈ s.touchedNodes ∨ (id = n.id ∧ ∃ ns ∈ s.nodeInfo n.id, GraphState.movesNode n ns) := by
  unfold GraphState.upsertNode GraphState.nodeInfo
  cases s.nodes.get? n.id with
  | none => simp
  | some ns =>
    have hinfo : GraphState.movesNode n ns.info = GraphState.movesNode n ns := rfl
    by_cases hm : GraphState.movesNode n ns = true
    · simp [hm, hinfo, or_comm]
    · simp [hm, hinfo]

/-- Each round hears the machine of its own node. -/
theorem upsertNode_hear : Loop.WritesOwn (fun _ => True) machineView WireNode.id
    (fun n v => hear v n.machine) GraphState.upsertNode where
  keeps _ _ h := h
  own s n _ := by
    have htouched := mem_touchedNodes_upsertNode s n n.id
    unfold machineView
    rw [GraphState.upsertNode_nodeInfo, if_pos rfl]
    cases h : s.nodeInfo n.id with
    -- a new node has its machine from the start, and is not touched
    | none => exact Prod.ext rfl (propext (htouched.trans (by simp [h, hear])))
    | some ns =>
      show _ = if n.machine ≠ "" ∧ n.machine ≠ ns.machine then _ else _
      split
      · next hm =>
        have hmoves : GraphState.movesNode n ns = true := decide_eq_true hm
        refine Prod.ext ?_ (propext (htouched.trans (by simp [h, hmoves])))
        exact congrArg some (if_pos hmoves)
      · next hm =>
        have hmoves : GraphState.movesNode n ns ≠ true := fun h => hm (of_decide_eq_true h)
        refine Prod.ext ?_ (propext (htouched.trans (by simp [h, hmoves])))
        exact congrArg some (if_neg hmoves)
  other s n id _ hne := by
    have htouched := mem_touchedNodes_upsertNode s n id
    unfold machineView
    rw [GraphState.upsertNode_nodeInfo, if_neg hne]
    exact Prod.ext rfl (propext (htouched.trans (or_iff_left fun h => hne h.1)))

theorem machineView_upserts (s : GraphState) (l : List WireNode) (id : String) :
    machineView (l.foldl GraphState.upsertNode s) id
      = (machinesFor id l).foldl hear (machineView s id) := by
  rw [upsertNode_hear.foldl_view trivial, machinesFor, List.foldl_map]

/-- What a message makes of a node that is there. -/
theorem foldl_hear_some (machines : List String) (m₀ : String) (touched : Prop) :
    ∃ m, machines.foldl hear (some m₀, touched) = (some m, touched ∨ Moves machines m₀) ∧
      (¬ Moves machines m₀ → m = m₀) := by
  induction machines generalizing m₀ touched with
  | nil => exact ⟨m₀, by simp [Moves], fun _ => rfl⟩
  | cons m' rest ih =>
    rw [List.foldl_cons]
    -- a machine that is told and is another one moves the node; what follows may move it back
    by_cases hm : m' ≠ "" ∧ m' ≠ m₀
    · obtain ⟨m, hfold, -⟩ := ih m' True
      have hmoves : Moves (m' :: rest) m₀ := ⟨m', List.mem_cons_self, hm⟩
      refine ⟨m, ?_, fun h => absurd hmoves h⟩
      rw [show hear (some m₀, touched) m' = (some m', True) from if_pos hm, hfold]
      simp [hmoves]
    · obtain ⟨m, hfold, hkept⟩ := ih m₀ touched
      have hmoves : Moves (m' :: rest) m₀ ↔ Moves rest m₀ := by simp [Moves, hm]
      refine ⟨m, ?_, fun h => hkept fun hrest => h (hmoves.2 hrest)⟩
      rw [show hear (some m₀, touched) m' = (some m₀, touched) from if_neg hm, hfold, hmoves]

/-- The node was not there at the last `consume`, or has its machine of then or none, or is
touched. -/
def Fine (shown : Option String) (v : Option String × Prop) : Prop :=
  ∀ m₀ ∈ shown, ∀ m ∈ v.1, m ≠ "" → m ≠ m₀ → v.2

/-- Merging into a node keeps that. -/
theorem fine_foldl_some {shown : Option String} {m₀ : String} {touched : Prop}
    (h : Fine shown (some m₀, touched)) (machines : List String) :
    Fine shown (machines.foldl hear (some m₀, touched)) := by
  obtain ⟨m, hfold, hkept⟩ := foldl_hear_some machines m₀ touched
  rw [hfold]
  rintro m₁ hm₁ _ ⟨⟩ hne hne'
  by_cases hmoves : Moves machines m₀
  · exact Or.inr hmoves
  · obtain rfl := hkept hmoves
    exact Or.inl (h m₁ hm₁ m rfl hne hne')

/-- Making a node anew keeps that exactly when it comes with the machine it had. -/
theorem fine_foldl_none_iff (shown : Option String) (machines : List String) :
    Fine shown (machines.foldl hear (none, False)) ↔
      ∀ m₀ ∈ shown, ComesWith m₀ machines := by
  cases machines with
  | nil => simp [Fine, ComesWith]
  | cons m' rest =>
    obtain ⟨m, hfold, hkept⟩ := foldl_hear_some rest m' False
    rw [List.foldl_cons, show hear (none, False) m' = (some m', False) from rfl, hfold]
    apply forall₂_congr
    intro m₀ _
    -- a node that came in this loop is touched when a later round moves it, and else has the first
    -- machine
    by_cases hmoves : Moves rest m'
    · simp [ComesWith, hmoves]
    · obtain rfl := hkept hmoves
      simp only [Option.mem_some_iff, forall_eq', hmoves, or_self, ComesWith, or_false]
      tauto

/-! ## Messages -/

theorem touchedNodes_upsertEdge (s : GraphState) (e : WireEdge) :
    (s.upsertEdge e).touchedNodes = s.touchedNodes := by
  unfold GraphState.upsertEdge
  split <;> rfl

theorem touchedNodes_removeEdge (s : GraphState) (id : String) :
    (s.removeEdge id).touchedNodes = s.touchedNodes := by
  unfold GraphState.removeEdge
  split <;> rfl

theorem machineView_snapshotEdge (s : GraphState) (e : WireEdge) (id : String) :
    machineView (GraphState.snapshotEdge s e) id = machineView s id := by
  unfold machineView
  rw [GraphState.snapshotEdge_nodeInfo]
  exact congrArg (fun touched => (_, id ∈ touched)) (touchedNodes_upsertEdge s e)

theorem machineView_tickEdge (sec : Int) (s : GraphState) (e : WireEdge) (id : String) :
    machineView (GraphState.tickEdge sec s e) id = machineView s id := by
  unfold machineView
  rw [GraphState.tickEdge_nodeInfo]
  exact congrArg (fun touched => (_, id ∈ touched)) (touchedNodes_upsertEdge s e)

theorem machineView_removeEdge (s : GraphState) (eid id : String) :
    machineView (s.removeEdge eid) id = machineView s id := by
  unfold machineView
  rw [GraphState.removeEdge_nodeInfo, touchedNodes_removeEdge]

/-- A node that goes is no longer touched. -/
theorem mem_touchedNodes_removeNode (s : GraphState) (id id' : String) :
    id' ∈ (s.removeNode id).touchedNodes ↔
      id' ∈ s.touchedNodes ∧ (id' = id → s.nodeInfo id = none) := by
  unfold GraphState.removeNode GraphState.nodeInfo
  split
  · next h => simp [OrdMap.not_mem_iff.1 h]
  · next h =>
    obtain ⟨n, hn⟩ := OrdMap.mem_iff.1 (not_not.1 h)
    simp [hn, and_comm]

/-- Each removal forgets the machine of its own node. -/
theorem removeNode_machineView : Loop.WritesOwn (fun _ => True) machineView (fun id : String => id)
    (fun _ v => (none, v.2 ∧ v.1 = none)) GraphState.removeNode where
  keeps _ _ h := h
  own s id _ := by
    unfold machineView
    rw [GraphState.nodeInfo, GraphState.removeNode_nodes, if_pos rfl, mem_touchedNodes_removeNode]
    simp
  other s id id' _ hne := by
    unfold machineView
    rw [GraphState.nodeInfo, GraphState.removeNode_nodes, if_neg hne, mem_touchedNodes_removeNode]
    simp [GraphState.nodeInfo, hne]

/-- The loops of a tick over the edges do not show. -/
theorem machineView_tickLoops (s : GraphState) (t : Tick) (id : String) :
    machineView (t.gone.edges.foldl GraphState.removeEdge
      (t.edges.foldl (GraphState.tickEdge (t.ts / 1000)) (t.nodes.foldl GraphState.upsertNode s))) id
      = (machinesFor id t.nodes).foldl hear (machineView s id) := by
  rw [Loop.foldl_const (g := fun s => machineView s id)
      fun s eid => machineView_removeEdge s eid id,
    Loop.foldl_const (g := fun s => machineView s id) fun s e => machineView_tickEdge _ s e id,
    machineView_upserts]

/-- A node that a tick does not report gone. -/
theorem machineView_applyTick (s : GraphState) {t : Tick} {id : String}
    (hgone : id ∉ t.gone.nodes) :
    machineView (s.applyTick t) id = (machinesFor id t.nodes).foldl hear (machineView s id) := by
  show machineView (s.tickLoops t) id = _
  rw [GraphState.tickLoops, removeNode_machineView.foldl_of_not_mem trivial
    fun b hb => ne_of_mem_of_not_mem hb hgone, machineView_tickLoops]

/-- A snapshot makes every node anew. -/
theorem machineView_applySnapshot (s : GraphState) (m : Snapshot) (id : String) :
    machineView (s.applySnapshot m) id = (machinesFor id m.nodes).foldl hear (none, False) := by
  show machineView (s.snapshotLoops m) id = _
  rw [GraphState.snapshotLoops,
    Loop.foldl_const (g := fun s => machineView s id) fun s e => machineView_snapshotEdge s e id,
    machineView_upserts]
  refine congrArg (List.foldl hear · _) (Prod.ext rfl (eq_false ?_))
  exact OrdMap.not_mem_empty id

/-! ## What holds in every state -/

/-- Touched nodes are there, and nodes lie under their ids. -/
structure Sound (s : GraphState) : Prop where
  touched : ∀ id, (machineView s id).1 = none → ¬ (machineView s id).2
  named : ∀ id n, s.nodeInfo id = some n → n.id = id

/-- Who is touched has a machine to hear of. -/
theorem foldl_hear_touched {v : Option String × Prop} (h : v.1 = none → ¬ v.2)
    (machines : List String) :
    (machines.foldl hear v).1 = none → ¬ (machines.foldl hear v).2 := by
  refine Loop.foldl_keeps (J := fun v : Option String × Prop => v.1 = none → ¬ v.2)
    (fun v m hv => ?_) h
  unfold hear
  split
  · nofun
  · split
    · nofun
    · exact hv

/-- The nodes stay under their ids. -/
theorem named_upsertNode {s : GraphState} (h : ∀ id n, s.nodeInfo id = some n → n.id = id)
    (n : WireNode) (id : String) (n' : NodeState)
    (hn' : (s.upsertNode n).nodeInfo id = some n') : n'.id = id := by
  rw [GraphState.upsertNode_nodeInfo] at hn'
  split at hn'
  · next heq =>
    obtain rfl := Option.some.inj hn'
    rw [heq]
    cases hold : s.nodeInfo n.id with
    | none => rfl
    | some ns => exact h n.id ns hold
  · exact h id n' hn'

/-- A snapshot leaves the notes sound. -/
theorem Sound.applySnapshot (s : GraphState) (m : Snapshot) : Sound (s.applySnapshot m) where
  touched id := by
    rw [machineView_applySnapshot]
    exact foldl_hear_touched (fun _ h => h) _
  named := by
    have hloop := Loop.foldl_keeps (J := fun s => ∀ id n, s.nodeInfo id = some n → n.id = id)
      (f := GraphState.upsertNode) (l := m.nodes) (s := s.clear)
      (fun s n h => named_upsertNode h n) (fun id n h => nomatch h)
    intro id n hn
    apply hloop id n
    rw [← GraphState.snapshotLoops_nodeInfo s m id]
    exact hn

theorem Sound.applyTick {s : GraphState} (h : Sound s) (t : Tick) : Sound (s.applyTick t) where
  touched := by
    refine Loop.foldl_keeps (J := fun s => ∀ id, (machineView s id).1 = none →
      ¬ (machineView s id).2) (fun s id' h id => ?_) fun id => ?_
    · by_cases heq : id = id'
      -- a node that goes is taken out of the touched ones
      · rw [heq, removeNode_machineView.own s id' trivial]
        exact fun _ hv => h id' hv.2 hv.1
      · rw [removeNode_machineView.other s id' id trivial heq]
        exact h id
    · rw [machineView_tickLoops]
      exact foldl_hear_touched (h.touched id) _
  named := by
    have hloop := Loop.foldl_keeps (J := fun s => ∀ id n, s.nodeInfo id = some n → n.id = id)
      (f := GraphState.upsertNode) (l := t.nodes) (s := s)
      (fun s n h => named_upsertNode h n) h.named
    intro id n hn
    by_cases hgone : id ∈ t.gone.nodes
    · rw [GraphState.applyTick_nodeInfo_gone s hgone] at hn
      cases hn
    · apply hloop id n
      rw [← hn]
      show _ = (s.tickLoops t).nodeInfo id
      rw [GraphState.tickLoops_nodeInfo, GraphState.removeNode_writes.foldl_of_not_mem trivial
        fun b hb => ne_of_mem_of_not_mem hb hgone]

theorem Sound.consume {s : GraphState} (h : Sound s) : Sound s.consume.2 where
  touched id _ := OrdMap.not_mem_empty id
  named := h.named

/-! ## The frame -/

/-- The slot of the id, if there is one, has the machine. -/
def SlotHas (id machine : String) (ns : Nodes) : Prop :=
  ∀ slot ∈ ns.slots.get? id, slot.machine = machine

section slots

variable {s : GraphState} {id : String} {n : NodeState}

theorem slotHas_setMachine (id machine : String) (ns : Nodes) :
    SlotHas id machine (ns.setMachine id machine) := by
  intro slot hslot
  rw [Nodes.setMachine, OrdMap.get?_modify, if_pos rfl, Option.mem_map] at hslot
  obtain ⟨old, -, rfl⟩ := hslot
  rfl

/-- The machines that the loop over touched nodes writes are those of the graph. -/
theorem slotHas_setTouched (hn : s.nodes.get? id = some n) (ns : Nodes) (id' : String)
    (h : SlotHas id n.machine ns) : SlotHas id n.machine (setTouched s ns id') := by
  unfold setTouched
  cases hn' : s.nodes.get? id' with
  | none => exact h
  | some n' =>
    show SlotHas id n.machine (if n'.machine ≠ "" then _ else _)
    split
    -- the round of the node itself writes the machine that it has; others write elsewhere
    · by_cases heq : id = id'
      · obtain rfl : n = n' := by
          rw [heq, hn'] at hn
          exact (Option.some.inj hn).symm
        rw [heq]
        exact slotHas_setMachine _ _ _
      · intro slot hslot
        rw [Nodes.setMachine, OrdMap.get?_modify, if_neg heq] at hslot
        exact h slot hslot
    · exact h

theorem setTouched_slotHas (hn : s.nodes.get? id = some n) (hm : n.machine ≠ "") (ns : Nodes) :
    SlotHas id n.machine (setTouched s ns id) := by
  rw [setTouched, hn]
  show SlotHas id n.machine (if n.machine ≠ "" then _ else _)
  rw [if_pos hm]
  exact slotHas_setMachine _ _ _

/-- A new slot has the machine of its node. -/
theorem slotHas_place (hs : Sound s) (hn : s.nodes.get? id = some n) (ns : Nodes) (id' : String)
    (h : SlotHas id n.machine ns) : SlotHas id n.machine (place s ns id') := by
  unfold place
  split
  · exact h
  · cases hn' : s.nodes.get? id' with
    | none => exact h
    | some n' =>
      have hid : n'.id = id' := hs.named id' n'.info (congrArg (Option.map NodeState.info) hn')
      show SlotHas id n.machine (ns.add n')
      unfold Nodes.add
      split
      · exact h
      · split
        · exact h
        · intro slot hslot
          rw [OrdMap.get?_set] at hslot
          split at hslot
          -- a new slot gets the machine that the node has
          · next heq =>
            obtain rfl := Option.some.inj hslot
            rw [heq, hid, hn'] at hn
            exact congrArg NodeState.machine (Option.some.inj hn)
          · exact h slot hslot

/-- **After a frame the slot of a touched node has its machine.** -/
theorem slotHas_applyChanges (hs : Sound s) (hn : s.nodes.get? id = some n) (hm : n.machine ≠ "")
    (ht : id ∈ s.consume.1.touchedNodes) (f : Frame) (ns : Nodes) :
    SlotHas id n.machine (applyChanges f s ns).2 := by
  have htouched : ∀ ns, SlotHas id n.machine
      (s.consume.1.touchedNodes.foldl (setTouched s.consume.2) ns) := fun ns =>
    Loop.foldl_makes (slotHas_setTouched (s := s.consume.2) hn) ht (setTouched_slotHas hn hm)
  unfold applyChanges
  show SlotHas id n.machine (if _ then _ else _)
  split
  · exact Loop.foldl_keeps (slotHas_place hs.consume hn) (htouched _)
  · exact htouched _

end slots

/-! ## Whole runs -/

/-- Every step keeps the notes sound. -/
theorem sound_step {sc sc' : Screen} {i : Input} (h : Sound sc.state)
    (hstep : sc.step i = some sc') : Sound sc'.state := by
  cases i with
  | snapshot m =>
    obtain rfl := Option.some.inj hstep
    exact .applySnapshot _ m
  | tick t =>
    obtain rfl := Option.some.inj hstep
    exact h.applyTick t
  | frame f =>
    obtain rfl := Option.some.inj hstep
    exact h.consume

/-- The machine of a node at the last `consume`. -/
def shown (sc : Screen) (id : String) : Option String := (sc.consumed.get? id).map (·.machine)

/-- The frame has its part when the graph has: a node that moved is touched. -/
theorem machinesReach_iff {sc : Screen} (h : Sound sc.state) :
    sc.MachinesReach ↔ ∀ id, Fine (sc.shown id) (machineView sc.state id) := by
  constructor
  · intro hreach id m₀ hm₀ m hm hne hne'
    obtain ⟨n₀, hn₀, rfl⟩ := Option.map_eq_some_iff.1 hm₀
    obtain ⟨info, hinfo, rfl⟩ := Option.map_eq_some_iff.1 hm
    obtain ⟨n, hn, rfl⟩ := Option.map_eq_some_iff.1 hinfo
    exact OrdMap.mem_keys.1 (hreach id n₀ n hn₀ hn hne hne').1
  · intro hfine id n₀ n hn₀ hn hne hne'
    have hm : n.machine ∈ (machineView sc.state id).1 := by
      show (Option.map _ (Option.map _ (sc.state.nodes.get? id))) = some n.machine
      rw [hn]
      rfl
    -- a slot with another machine than the node has is set right when the node is touched
    have ht : id ∈ sc.state.consume.1.touchedNodes :=
      OrdMap.mem_keys.2 (hfine id n₀.machine (congrArg (Option.map _) hn₀) _ hm hne hne')
    exact ⟨ht, fun f => slotHas_applyChanges h hn hne ht f sc.nodes⟩

/-- A message leaves a state in which moved nodes are touched in such a state exactly when it
makes no node anew on another machine. -/
theorem machinesReach_step_iff {sc sc' : Screen} {i : Input} (hs : Sound sc.state)
    (h : sc.MachinesReach) (hstep : sc.step i = some sc') :
    sc'.MachinesReach ↔ sc.KeepsMachines i := by
  have hs' := sound_step hs hstep
  rw [machinesReach_iff hs] at h
  rw [machinesReach_iff hs']
  cases i with
  | snapshot m =>
    obtain rfl := Option.some.inj hstep
    simp only [machineView_applySnapshot, fine_foldl_none_iff]
    simp [KeepsMachines, shown]
  | tick t =>
    obtain rfl := Option.some.inj hstep
    apply forall_congr'
    intro id
    by_cases hgone : id ∈ t.gone.nodes
    · refine iff_of_true (fun m₀ _ m hm => ?_) fun _ _ _ hout => absurd hgone hout
      rw [machineView, GraphState.applyTick_nodeInfo_gone _ hgone] at hm
      cases hm
    · rw [machineView_applyTick _ hgone]
      cases hn : sc.state.nodes.get? id with
      | some n =>
        -- the tick merges into the node
        have hv : machineView sc.state id = (some n.machine, id ∈ sc.state.touchedNodes) := by
          rw [machineView, GraphState.nodeInfo, hn]
          rfl
        have hfine := h id
        rw [hv] at hfine ⊢
        exact iff_of_true (fine_foldl_some hfine _) fun _ _ hout =>
          absurd (OrdMap.mem_of_get? hn) hout
      | none =>
        have hv : machineView sc.state id = (none, False) := by
          have hnone : (machineView sc.state id).1 = none := by
            rw [machineView, GraphState.nodeInfo, hn]
            rfl
          exact Prod.ext hnone (eq_false (hs.touched id hnone))
        rw [hv, fine_foldl_none_iff]
        simp [shown, hgone, OrdMap.not_mem_iff.2 hn]
  | frame f =>
    obtain rfl := Option.some.inj hstep
    refine iff_of_true (fun id m₀ hm₀ m hm _ hne => ?_) trivial
    -- what the graph has now is what it had at this `consume`
    obtain ⟨n₀, hn₀, rfl⟩ := Option.map_eq_some_iff.1 hm₀
    obtain ⟨info, hinfo, rfl⟩ := Option.map_eq_some_iff.1 hm
    obtain ⟨n, hn, rfl⟩ := Option.map_eq_some_iff.1 hinfo
    obtain rfl : n₀ = n := Option.some.inj (hn₀.symm.trans hn)
    exact absurd rfl hne

/-- **Which machine changes reach the scene.** In every state of every run from an empty browser,
each node that has moved since the last `consume` is touched, and gets its machine in the scene,
exactly when no message made such a node anew on another machine. -/
theorem always_machinesReach_iff (retentionSeconds : Nat) (inputs : List Input) :
    Run.Always step MachinesReach (start retentionSeconds) inputs ↔
      Run.EveryStep step KeepsMachines (start retentionSeconds) inputs := by
  refine Run.always_iff_everyStep (J := fun sc => Sound sc.state)
    (fun _ _ _ h hstep => sound_step h hstep)
    (fun _ _ _ hs h hstep => machinesReach_step_iff hs h hstep) ?_ ?_
  · exact ⟨fun id _ => OrdMap.not_mem_empty id, fun id n h => (nomatch h)⟩
  · exact fun id n₀ n h => (nomatch h)

/-- A pod on a machine. -/
def podOn (machine : String) : Snapshot where
  ts := 0
  nodes := [{
    id := "shop/Pod/cart-0"
    ns := "shop"
    kind := "Pod"
    name := "cart-0"
    fqdn := ""
    machine := machine
    labels := ∅
    first := 0
    last := 0 }]
  edges := []

/-- A frame that lays out the pod. -/
def podFrame : Frame where
  byMachine := false
  regrouped := false
  targets := ["shop/Pod/cart-0"]

set_option maxRecDepth 10000 in
/-- **A snapshot can keep a machine change from the scene.** After a reconnect the pod is on
another machine than the one it is shown on, and the next frame does not hear of it. -/
theorem not_machinesReach_of_run :
    ¬ ∀ (retentionSeconds : Nat) (inputs : List Input) (sc : Screen),
      Run.run step (start retentionSeconds) inputs = some sc → sc.MachinesReach := by
  intro h
  have hreach := h 300 [.snapshot (podOn "n1"), .frame podFrame, .snapshot (podOn "n2")] _ rfl
  have htouched := (hreach "shop/Pod/cart-0" _ _ rfl rfl (by decide) (by decide)).1
  exact absurd htouched (by decide)

set_option maxRecDepth 10000 in
/-- The slot still has the machine from before. -/
example : (Run.run step (start 300) [.snapshot (podOn "n1"), .frame podFrame,
    .snapshot (podOn "n2"), .frame podFrame]).map (fun sc => sc.nodes.machineOf "shop/Pod/cart-0")
      = some "n1" := by
  decide

end Screen

end Flowscape
