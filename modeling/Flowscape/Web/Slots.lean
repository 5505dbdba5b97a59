import Flowscape.Lib.Pool
import Flowscape.Web.Edges
import Flowscape.Web.Nodes

/-!
# Flowscape: who has which slot (`web/src/edges.ts`, `web/src/nodes.ts`, `web/src/picking.ts`)

The scene draws edges and nodes in meshes of a fixed size. A pool of free indices says which places
of a mesh are not in use, and an array leads back from a place to whoever has it, which is how the
pointer finds what it is over. `Edges` has both, and here `Nodes` gets the array as well. The sizes
of the meshes are parameters.

As in `Edges`, the array back keeps a reference to the slot, which is the id here.
-/

namespace Flowscape

/-! ## Source definitions -/

/-- `Nodes` with the array that leads back to the slots. -/
structure NodeSlots where
  nodes : Nodes
  byIndex : Nat → Option String

namespace NodeSlots

/-- The constructor. -/
def new (capacity : Nat) : NodeSlots where
  nodes := { slots := ∅, free := List.range capacity }
  byIndex := fun _ => none

/-- `add`, with `byIndex`. -/
def add (s : NodeSlots) (n : NodeState) : NodeSlots :=
  if s.nodes.has n.id then s
  else match s.nodes.free with
    | [] => s
    | index :: _ => ⟨s.nodes.add n, Function.update s.byIndex index (some n.id)⟩

/-- `remove`, with `byIndex`. -/
def remove (s : NodeSlots) (id : String) : NodeSlots :=
  match s.nodes.slots.get? id with
  | none => s
  | some slot => ⟨s.nodes.remove id, Function.update s.byIndex slot.index none⟩

/-- `idAt`: whose instance it is. -/
def idAt (s : NodeSlots) (index : Nat) : Option String := s.byIndex index

/-- The calls that move slots. -/
inductive Call where
  | add (n : NodeState)
  | remove (id : String)

/-- What a call does. -/
def call (s : NodeSlots) : Call → NodeSlots
  | .add n => s.add n
  | .remove id => s.remove id

/-- The indices that are in use. -/
def taken (s : NodeSlots) : List Nat := s.nodes.slots.values.map RenderSlot.index

end NodeSlots

/-- `Pick` -/
inductive Pick where
  | node (id : String)
  | edge (id : String)

/-- `Picking.pick`, of what the ray hits, nearest first: instances of the nodes, then segments of
the arcs, each with the batch of its mesh. A hit without a number is passed over, and so is one
that nobody has, or somebody whose id is empty. -/
def pick {K : Type*} (capacity : Nat) (nodes : NodeSlots) (edges : Edges K)
    (hits : List (Option Nat)) (lines : List (Fin 3 × Option Nat)) : Option Pick :=
  let node := hits.findSome? fun h =>
    (h.bind nodes.idAt).bind fun id => if id ≠ "" then some (Pick.node id) else none
  let edge := lines.findSome? fun h =>
    (h.2.bind (edges.idAt capacity h.1)).bind fun id =>
      if id ≠ "" then some (Pick.edge id) else none
  node.or edge

/-! ## The segments of the arcs -/

namespace Edges

/-- The segments of a slot lead back to its edge, and the others to none. -/
theorem Sound.idAt {K : Type*} {capacity : Nat} {s : Edges K} (hs : s.Sound capacity)
    (batch : Fin 3) {segmentIndex : Nat} (hseg : segmentIndex < capacity * SEGMENTS)
    (id : String) : s.idAt capacity batch segmentIndex = some id ↔
      ∃ slot, s.slots.get? id = some slot ∧ slot.batch = batch ∧
        slot.index * SEGMENTS ≤ segmentIndex ∧ segmentIndex < (slot.index + 1) * SEGMENTS := by
  have hpos : 0 < SEGMENTS := by decide
  -- a segment of the mesh is one of a slot below the capacity
  have hindex : segmentIndex / SEGMENTS < capacity := (Nat.div_lt_iff_lt_mul hpos).2 hseg
  rw [Edges.idAt, hs.bySlot]
  refine exists_congr fun slot => and_congr_right fun hget => ?_
  rw [(hs.slot id slot hget).2]
  constructor
  · intro heq
    obtain ⟨hbatch, hdiv⟩ := cpOf_inj (hs.index_lt hget) hindex heq
    exact ⟨hbatch, by rw [hdiv]; exact Nat.div_mul_le_self segmentIndex SEGMENTS,
      by rw [hdiv, Nat.mul_comm]; exact Nat.lt_mul_div_succ segmentIndex hpos⟩
  · rintro ⟨rfl, hle, hlt⟩
    rw [Nat.div_eq_of_lt_le hle hlt]
    rfl

/-- An arc that has become wider is found in another mesh, and the next one where it was. -/
example :
    let calls : List (Call ℚ) := [.add "a" true, .setRate "a" 30, .add "b" true]
    let edges := calls.foldl (call 2) (new 2)
    edges.idAt 2 2 13 = some "a" ∧ edges.idAt 2 0 13 = some "b" := by decide

end Edges

/-! ## The pool of the nodes -/

namespace NodeSlots

/-- The slots of the scene are `Nodes`, -/
theorem new_nodes : (new CAPACITY).nodes = Nodes.new := rfl

/-- and go as they do there. -/
theorem call_nodes (s : NodeSlots) (c : Call) : (s.call c).nodes
    = (match c with
        | .add n => s.nodes.add n
        | .remove id => s.nodes.remove id) := by
  cases c with
  | add n =>
    show (s.add n).nodes = s.nodes.add n
    unfold add
    cases hhas : s.nodes.has n.id with
    | true => simp [Nodes.add, hhas]
    | false =>
      cases hfree : s.nodes.free with
      -- without a free place both do nothing
      | nil => simp [Nodes.add, hhas, hfree]
      | cons index rest => simp
  | remove id =>
    show (s.remove id).nodes = s.nodes.remove id
    unfold remove
    cases h : s.nodes.slots.get? id with
    | none => simp [Nodes.remove, h]
    | some slot => rfl

/-- No index is lost or handed out twice, and the way back leads to whoever has the slot. -/
structure Sound (capacity : Nat) (s : NodeSlots) : Prop where
  partition : Pool.Partition capacity s.nodes.free s.taken
  byIndex : Pool.LeadsBack s.byIndex s.nodes.slots RenderSlot.index

variable {capacity : Nat} {s : NodeSlots} {id : String}

/-- The places that are taken are those of the slots. -/
theorem mem_taken {index : Nat} :
    index ∈ s.taken ↔ ∃ id slot, s.nodes.slots.get? id = some slot ∧ slot.index = index := by
  simp only [taken, List.mem_map, OrdMap.mem_values]
  constructor
  · rintro ⟨slot, ⟨id, hget⟩, hindex⟩
    exact ⟨id, slot, hget, hindex⟩
  · rintro ⟨id, slot, hget, hindex⟩
    exact ⟨slot, ⟨id, hget⟩, hindex⟩

theorem sound_new : (new capacity).Sound capacity where
  partition := Pool.partition_range capacity
  byIndex := Pool.leadsBack_empty

/-- A node without a slot takes the one on top of the free ones. -/
theorem Sound.add (hs : s.Sound capacity) (n : NodeState) : (s.add n).Sound capacity := by
  unfold NodeSlots.add
  by_cases hhas : s.nodes.has n.id
  · rw [if_pos hhas]
    exact hs
  rw [if_neg hhas]
  have hnew : n.id ∉ s.nodes.slots := by simpa [Nodes.has] using hhas
  cases hfree : s.nodes.free with
  | nil => exact hs
  | cons index rest =>
    have hnodes : s.nodes.add n = ⟨s.nodes.slots.set n.id ⟨index, n.machine⟩, rest⟩ := by
      simp [Nodes.add, hhas, hfree]
    have hpart := hs.partition
    rw [hfree] at hpart
    rw [hnodes]
    constructor
    case partition =>
      have hperm := OrdMap.values_set_perm_of_not_mem hnew ⟨index, n.machine⟩
      exact hpart.take.congr (hperm.map RenderSlot.index)
    case byIndex =>
      apply hs.byIndex.set_new (v := ⟨index, n.machine⟩) hnew
      intro id' slot hget hindex
      -- what is on top of the free ones is not in use
      exact hpart.not_taken List.mem_cons_self (mem_taken.2 ⟨id', slot, hget, hindex⟩)

/-- A slot that is given back is on top of the free ones. -/
theorem Sound.remove (hs : s.Sound capacity) (id : String) : (s.remove id).Sound capacity := by
  unfold NodeSlots.remove
  cases h : s.nodes.slots.get? id with
  | none => exact hs
  | some slot =>
    have hnodes : s.nodes.remove id = ⟨s.nodes.slots.erase id, slot.index :: s.nodes.free⟩ := by
      simp [Nodes.remove, h]
    rw [hnodes]
    constructor
    case partition =>
      -- the place of the removed one moves from the taken to the free ones
      have hperm : s.taken.Perm (slot.index :: (s.nodes.slots.erase id).values.map
          RenderSlot.index) := (OrdMap.values_erase_perm h).map RenderSlot.index
      exact (hs.partition.congr hperm.symm).give
    case byIndex => exact hs.byIndex.erase h

theorem Sound.call (hs : s.Sound capacity) (c : Call) : (s.call c).Sound capacity := by
  cases c with
  | add n => exact hs.add n
  | remove id => exact hs.remove id

theorem sound_run (calls : List Call) :
    (calls.foldl NodeSlots.call (new capacity)).Sound capacity :=
  Loop.foldl_keeps (fun _ c hs => hs.call c) sound_new

end NodeSlots

/-! ## The pools and the pointer -/

section

variable {K : Type*} [Field K] [LinearOrder K]

/-- **No slot leaks or is shared**, with meshes of any size and after any calls. -/
theorem slots_run (capacity nodeCapacity : Nat) (calls : List (Edges.Call K))
    (nodeCalls : List NodeSlots.Call) :
    let edges := calls.foldl (Edges.call capacity) (Edges.new capacity)
    let nodes := nodeCalls.foldl NodeSlots.call (NodeSlots.new nodeCapacity)
    -- the free indices and the ones in use, of every batch and of the nodes
    (∀ batch, (edges.free batch ++ edges.taken batch).Perm (List.range capacity)) ∧
    (nodes.nodes.free ++ nodes.taken).Perm (List.range nodeCapacity) ∧
    -- the way back
    (∀ cp id, edges.bySlot cp = some id ↔ ∃ slot, edges.slots.get? id = some slot ∧
      slot.batch.val * capacity + slot.index = cp) ∧
    (∀ index id, nodes.byIndex index = some id ↔
      ∃ slot, nodes.nodes.slots.get? id = some slot ∧ slot.index = index) ∧
    -- one slot each
    (∀ cp cp' id, edges.bySlot cp = some id → edges.bySlot cp' = some id → cp = cp') ∧
    (∀ index index' id,
      nodes.byIndex index = some id → nodes.byIndex index' = some id → index = index') ∧
    -- what the pointer is over
    (∀ batch segmentIndex id, segmentIndex < capacity * SEGMENTS →
      (edges.idAt capacity batch segmentIndex = some id ↔
        ∃ slot, edges.slots.get? id = some slot ∧ slot.batch = batch ∧
          slot.index * SEGMENTS ≤ segmentIndex ∧
          segmentIndex < (slot.index + 1) * SEGMENTS)) ∧
    (∀ index id, nodes.idAt index = some id ↔
      ∃ slot, nodes.nodes.slots.get? id = some slot ∧ slot.index = index) := by
  intro edges nodes
  have hedges : edges.Sound capacity := Edges.sound_run calls
  have hnodes : nodes.Sound nodeCapacity := NodeSlots.sound_run nodeCalls
  refine ⟨hedges.partition, hnodes.partition, ?_, hnodes.byIndex, ?_, ?_, ?_, hnodes.byIndex⟩
  · intro cp id
    rw [hedges.bySlot cp id]
    refine exists_congr fun slot => and_congr_right fun hget => ?_
    rw [(hedges.slot id slot hget).2]
    exact Iff.rfl
  · intro cp cp' id h h'
    exact hedges.bySlot.num_eq h h'
  · intro index index' id h h'
    exact hnodes.byIndex.num_eq h h'
  · intro batch segmentIndex id hseg
    exact hedges.idAt batch hseg id

end

section

variable {K : Type*} {capacity nodeCapacity : Nat} {edges : Edges K} {nodes : NodeSlots}
  {hits : List (Option Nat)} {lines : List (Fin 3 × Option Nat)} {id : String}

/-- A node is picked at one of its instances, -/
theorem pick_node (hnodes : nodes.Sound nodeCapacity)
    (h : pick capacity nodes edges hits lines = some (.node id)) :
    ∃ slot, nodes.nodes.slots.get? id = some slot ∧ some slot.index ∈ hits := by
  rcases Option.or_eq_some_iff.1 h with hnode | ⟨-, hedge⟩
  · obtain ⟨hit, hmem, hfound⟩ := List.exists_of_findSome?_eq_some hnode
    obtain ⟨id', hback, hid⟩ := Option.bind_eq_some_iff.1 hfound
    obtain ⟨index, rfl, hat⟩ := Option.bind_eq_some_iff.1 hback
    -- the first hit that leads back to a node is the one that is picked
    obtain ⟨slot, hget, rfl⟩ := (hnodes.byIndex index id').1 hat
    split at hid
    · cases hid
      exact ⟨slot, hget, hmem⟩
    · cases hid
  · obtain ⟨hit, -, hfound⟩ := List.exists_of_findSome?_eq_some hedge
    obtain ⟨id', -, hid⟩ := Option.bind_eq_some_iff.1 hfound
    split at hid <;> cases hid

/-- and an edge on one of its segments. -/
theorem pick_edge (hedges : edges.Sound capacity)
    (hlines : ∀ h ∈ lines, ∀ segmentIndex, h.2 = some segmentIndex →
      segmentIndex < capacity * SEGMENTS)
    (h : pick capacity nodes edges hits lines = some (.edge id)) :
    ∃ slot segmentIndex, edges.slots.get? id = some slot ∧
      (slot.batch, some segmentIndex) ∈ lines ∧
      slot.index * SEGMENTS ≤ segmentIndex ∧ segmentIndex < (slot.index + 1) * SEGMENTS := by
  rcases Option.or_eq_some_iff.1 h with hnode | ⟨-, hedge⟩
  · obtain ⟨hit, -, hfound⟩ := List.exists_of_findSome?_eq_some hnode
    obtain ⟨id', -, hid⟩ := Option.bind_eq_some_iff.1 hfound
    split at hid <;> cases hid
  · obtain ⟨⟨batch, seg⟩, hmem, hfound⟩ := List.exists_of_findSome?_eq_some hedge
    obtain ⟨id', hback, hid⟩ := Option.bind_eq_some_iff.1 hfound
    obtain ⟨segmentIndex, rfl, hat⟩ := Option.bind_eq_some_iff.1 hback
    have hseg := hlines _ hmem segmentIndex rfl
    -- the segment that was hit lies among those of the slot
    obtain ⟨slot, hget, rfl, hle, hlt⟩ := (hedges.idAt batch hseg id').1 hat
    split at hid
    · cases hid
      exact ⟨slot, segmentIndex, hget, hmem, hle, hlt⟩
    · cases hid

end

end Flowscape
