import Flowscape.Lib.Average
import Flowscape.Web.Slots

/-!
# Flowscape: the rendered nodes (`web/src/nodes.ts`)

`Nodes` with all that a slot has: where the node is to stand and where it stands now, whether it
is shown and how bright. A node that gets a slot drops in from above, and every frame moves it a
part of the way to its place. The instance matrices, the colours and the labels are computed from
that and are left out.

The positions are exact numbers. The source keeps them in a `Float32Array`, so that every write
rounds to `float32`, and a glide stalls short of its place once the rounding swallows what a frame
would add. What is said of distances is said of exact numbers. Which slots there are, and whose they
are, does not depend on it.

Who has which slot goes as in `NodeSlots`, so what holds of the pool there holds here.
-/

namespace Flowscape

/-! ## Source definitions -/

/-- `Slot` -/
structure NodeSlot (K : Type*) where
  index : Nat
  id : String
  ns : String
  reserved : Bool
  target : Vec3 K
  /-- 0..1 activity for brightness and scale. -/
  activity : K
  hidden : Bool
  labelText : String
  /-- Cluster node the workload runs on; halo tint. -/
  machine : String
  /-- Reserved machine anchor Relay cannot reach. -/
  unavailable : Bool

/-- `Nodes`, with what is read of a slot. -/
structure NodeMesh (K : Type*) where
  slots : OrdMap String (NodeSlot K)
  byIndex : Nat → Option String
  /-- A stack, its top first. -/
  free : List Nat
  positions : Nat → Vec3 K

namespace NodeMesh

section

variable {K : Type*} [Field K] [LinearOrder K]

/-- The constructor. -/
def new : NodeMesh K where
  slots := ∅
  byIndex := fun _ => none
  free := List.range CAPACITY
  positions := fun _ => ⟨0, 0, 0⟩

/-- `has` -/
def has (s : NodeMesh K) (id : String) : Bool := id ∈ s.slots

/-- The slot that `add` makes. -/
def freshSlot (n : NodeState) (target : Vec3 K) (index : Nat) : NodeSlot K where
  index := index
  id := n.id
  ns := n.ns
  reserved := n.ns = "reserved"
  target := target
  activity := 0.4
  hidden := false
  labelText := n.name
  machine := n.machine
  unavailable := false

/-- `add`: without a free place nothing is added. -/
def add (s : NodeMesh K) (n : NodeState) (target : Vec3 K) : NodeMesh K :=
  if s.has n.id then s
  else match s.free with
    | [] => s
    | index :: free =>
      { slots := s.slots.set n.id (freshSlot n target index)
        byIndex := Function.update s.byIndex index (some n.id)
        free := free
        -- drop in from above
        positions := Function.update s.positions index ⟨target.x, target.y + 6.0, target.z⟩ }

/-- `remove` -/
def remove (s : NodeMesh K) (id : String) : NodeMesh K :=
  match s.slots.get? id with
  | none => s
  | some slot =>
    { s with
      slots := s.slots.erase id
      byIndex := Function.update s.byIndex slot.index none
      free := slot.index :: s.free }

/-- Write to the slot of a node, if it has one. -/
def write (s : NodeMesh K) (id : String) (f : NodeSlot K → NodeSlot K) : NodeMesh K :=
  { s with slots := s.slots.modify id f }

/-- `setTarget` -/
def setTarget (s : NodeMesh K) (id : String) (target : Vec3 K) : NodeMesh K :=
  s.write id fun slot => { slot with target := target }

/-- `setActivity` -/
def setActivity (s : NodeMesh K) (id : String) (activity : K) : NodeMesh K :=
  s.write id fun slot => { slot with activity := activity }

/-- `setHidden` -/
def setHidden (s : NodeMesh K) (id : String) (h : Bool) : NodeMesh K :=
  s.write id fun slot => { slot with hidden := h }

/-- `setMachine` -/
def setMachine (s : NodeMesh K) (id machine : String) : NodeMesh K :=
  s.write id fun slot => { slot with machine := machine }

/-- `machineOf` -/
def machineOf (s : NodeMesh K) (id : String) : String :=
  ((s.slots.get? id).map (·.machine)).getD ""

/-- `setUnavailable`: mark the reserved anchors of machines Relay lost. -/
def setUnavailable (s : NodeMesh K) (names : List String) : NodeMesh K :=
  { s with
    slots := s.slots.map fun slot =>
      if slot.reserved then { slot with unavailable := decide (slot.labelText ∈ names) }
      else slot }

/-- `positionOf`: the current place of a node, as it is kept. -/
def positionOf (s : NodeMesh K) (id : String) : Option (Vec3 K) :=
  (s.slots.get? id).map fun slot => s.positions slot.index

/-- A part `k` of the way from one place to another. -/
def glide (k : K) (pos target : Vec3 K) : Vec3 K where
  x := Average.towards k pos.x target.x
  y := Average.towards k pos.y target.y
  z := Average.towards k pos.z target.z

/-- The share of the way that a frame of `dt` seconds moves a node. -/
def share (dt : K) : K := min 1 (6.0 * dt)

/-- `update`, as far as it moves the nodes. The new positions are not rounded to `float32`. -/
def update (s : NodeMesh K) (dt : K) : NodeMesh K :=
  { s with
    positions := s.slots.values.foldl (fun positions slot =>
      Function.update positions slot.index
        (glide (share dt) (positions slot.index) slot.target)) s.positions }

end

/-! ## The slots as a pool -/

section

variable {K : Type*}

/-- What `Nodes` has of a slot. -/
def render (slot : NodeSlot K) : RenderSlot := ⟨slot.index, slot.machine⟩

/-- The mesh without what is only drawn. -/
def toSlots (s : NodeMesh K) : NodeSlots := ⟨⟨s.slots.map render, s.free⟩, s.byIndex⟩

theorem mem_toSlots {s : NodeMesh K} {id : String} :
    id ∈ s.toSlots.nodes.slots ↔ id ∈ s.slots := OrdMap.mem_map render

/-- Removing does to the slots what it does there. -/
theorem toSlots_remove (s : NodeMesh K) (id : String) :
    (s.remove id).toSlots = s.toSlots.remove id := by
  have hget : s.toSlots.nodes.slots.get? id = (s.slots.get? id).map render :=
    OrdMap.get?_map render s.slots id
  rw [NodeSlots.remove, hget, remove]
  cases h : s.slots.get? id with
  | none => rfl
  | some slot =>
    rw [Option.map_some]
    simp only [toSlots, Nodes.remove, OrdMap.get?_map, h, Option.map_some, OrdMap.map_erase]
    rfl

variable [Field K]

theorem toSlots_new : (new : NodeMesh K).toSlots = NodeSlots.new CAPACITY := by
  simp only [toSlots, new, NodeSlots.new]
  rfl

theorem toSlots_add (s : NodeMesh K) (n : NodeState) (target : Vec3 K) :
    (s.add n target).toSlots = s.toSlots.add n := by
  -- who has a slot is the same question in both
  have hhas : s.toSlots.nodes.has n.id = s.has n.id := by
    simp only [Nodes.has, has, mem_toSlots]
  rw [NodeSlots.add, hhas, add]
  split
  · rfl
  · next hnew =>
    have hfree : s.toSlots.nodes.free = s.free := rfl
    rw [hfree]
    cases h : s.free with
    | nil => rfl
    | cons index rest =>
      have hnot : ¬ (s.toSlots.nodes.has n.id = true) := by rwa [hhas]
      have hadd : s.toSlots.nodes.add n
          = ⟨(s.slots.map render).set n.id ⟨index, n.machine⟩, rest⟩ := by
        rw [Nodes.add, if_neg hnot, hfree, h]
        rfl
      show (⟨⟨(s.slots.set n.id (freshSlot n target index)).map render, rest⟩, _⟩ : NodeSlots)
        = ⟨s.toSlots.nodes.add n, _⟩
      rw [hadd, OrdMap.map_set]
      rfl

end

/-! ## Who has a slot -/

section

variable {K : Type*} {α : Type*} {g : NodeSlot K → α} {s : NodeMesh K} {id : String}

/-- No index is lost or handed out twice. -/
def Pooled (s : NodeMesh K) : Prop := s.toSlots.Sound CAPACITY

/-- What `g` says of the slot of a node, if it has one. -/
def seen {α : Type*} (g : NodeSlot K → α) (s : NodeMesh K) (id : String) : Option α :=
  (s.slots.get? id).map g

theorem mem_slots_iff_seen : id ∈ s.slots ↔ (seen g s id).isSome = true := by
  rw [OrdMap.mem_iff_isSome, seen, Option.isSome_map]

/-- **There is room** as long as there are fewer slots in use than the meshes take. -/
theorem Pooled.free_ne_nil (hs : s.Pooled) (hlt : s.slots.size < CAPACITY) : s.free ≠ [] := by
  apply hs.partition.free_ne_nil
  rw [NodeSlots.taken, List.length_map]
  show (s.slots.map render).values.length < CAPACITY
  rw [OrdMap.values_map, List.length_map, OrdMap.values, List.length_map]
  exact hlt

/-- Only the node that is removed is gone. -/
theorem seen_remove (s : NodeMesh K) (id id' : String) :
    seen g (s.remove id) id' = if id' = id then none else seen g s id' := by
  cases h : s.slots.get? id with
  | none =>
    rw [remove, h]
    by_cases heq : id' = id
    · rw [if_pos heq, heq, seen, h]
      rfl
    · rw [if_neg heq]
  | some slot =>
    rw [remove, h]
    show ((s.slots.erase id).get? id').map g = _
    rw [OrdMap.get?_erase]
    split <;> rfl

theorem remove_writes : Loop.WritesOwn (fun _ => True) (seen g) (fun id : String => id)
    (fun _ _ => none) remove where
  keeps _ _ h := h
  own s id _ := by rw [seen_remove, if_pos rfl]
  other s id id' _ h := by rw [seen_remove, if_neg h]

theorem seen_foldl_remove (s : NodeMesh K) (l : List String) (id : String) :
    seen g (l.foldl remove s) id = if id ∈ l then none else seen g s id := by
  split
  · next h => exact remove_writes.foldl_overwrite trivial h
  · next h => exact remove_writes.foldl_of_not_mem trivial fun b hb => ne_of_mem_of_not_mem hb h

/-- A write is seen of its own node. -/
theorem seen_write (s : NodeMesh K) (id id' : String) (f : NodeSlot K → NodeSlot K) :
    seen g (s.write id f) id'
      = if id' = id then seen (fun slot => g (f slot)) s id' else seen g s id' := by
  show ((s.slots.modify id f).get? id').map g = _
  rw [OrdMap.get?_modify]
  split
  · rw [Option.map_map]
    rfl
  · rfl

/-- A write that `g` does not see. -/
theorem seen_write_of_eq (s : NodeMesh K) (id id' : String) {f : NodeSlot K → NodeSlot K}
    (hf : ∀ slot, g (f slot) = g slot) : seen g (s.write id f) id' = seen g s id' := by
  rw [seen_write]
  split
  · exact congrArg (Option.map · _) (funext hf)
  · rfl

theorem mem_write {id' : String} {f : NodeSlot K → NodeSlot K} :
    id' ∈ (s.write id f).slots ↔ id' ∈ s.slots := OrdMap.mem_modify

theorem mem_setUnavailable {names : List String} :
    id ∈ (s.setUnavailable names).slots ↔ id ∈ s.slots := OrdMap.mem_map _

theorem Pooled.remove (hs : s.Pooled) (id : String) : (s.remove id).Pooled := by
  rw [Pooled, toSlots_remove]
  exact NodeSlots.Sound.remove hs id

/-- A slot changes, but stays where it is. -/
theorem Pooled.set (hs : s.Pooled) {slot slot' : NodeSlot K} (h : s.slots.get? id = some slot)
    (hindex : slot'.index = slot.index) : Pooled { s with slots := s.slots.set id slot' } := by
  have hget : (s.slots.map render).get? id = some (render slot) := by rw [OrdMap.get?_map, h]; rfl
  constructor
  case partition =>
    apply hs.partition.congr
    show ((s.slots.set id slot').map render).values.map RenderSlot.index |>.Perm
      ((s.slots.map render).values.map RenderSlot.index)
    rw [OrdMap.map_set]
    -- the slot that is set has the place of the one it replaces
    have hnew := (OrdMap.values_set_perm (s.slots.map render) id (render slot')).map
      RenderSlot.index
    have hold := (OrdMap.values_erase_perm hget).map RenderSlot.index
    rw [List.map_cons, show (render slot').index = (render slot).index from hindex] at hnew
    exact hnew.trans hold.symm
  case byIndex =>
    show Pool.LeadsBack s.byIndex ((s.slots.set id slot').map render) RenderSlot.index
    rw [OrdMap.map_set]
    exact hs.byIndex.set_same hget hindex

theorem Pooled.write (hs : s.Pooled) (id : String) {f : NodeSlot K → NodeSlot K}
    (hf : ∀ slot, (f slot).index = slot.index) : (s.write id f).Pooled := by
  unfold NodeMesh.write OrdMap.modify
  cases h : s.slots.get? id with
  | none => exact hs
  | some slot => exact hs.set h (hf slot)

theorem Pooled.setUnavailable (hs : s.Pooled) (names : List String) :
    (s.setUnavailable names).Pooled := by
  -- what is drawn red has its place and its machine as before
  have hmap : ((s.setUnavailable names).slots.map render) = s.slots.map render := by
    apply OrdMap.ext
    show (List.map _ (List.map _ s.slots.entries)) = List.map _ s.slots.entries
    rw [List.map_map]
    apply List.map_congr_left
    rintro ⟨id, slot⟩ -
    simp only [Function.comp_apply]
    split <;> rfl
  have hslots : (s.setUnavailable names).toSlots = s.toSlots := by
    rw [toSlots, hmap]
    rfl
  rw [Pooled, hslots]
  exact hs

variable [Field K]

theorem pooled_new : (new : NodeMesh K).Pooled := by
  rw [Pooled, toSlots_new]
  exact NodeSlots.sound_new

theorem Pooled.add (hs : s.Pooled) (n : NodeState) (target : Vec3 K) :
    (s.add n target).Pooled := by
  rw [Pooled, toSlots_add]
  exact NodeSlots.Sound.add hs n

/-- A node without a slot gets one when there is room. -/
theorem seen_add (hroom : s.free ≠ []) {n : NodeState} (hnew : n.id ∉ s.slots)
    {target : Vec3 K} {c : α} (hg : ∀ index, g (freshSlot n target index) = c) (id : String) :
    seen g (s.add n target) id = if id = n.id then some c else seen g s id := by
  obtain ⟨index, rest, hfree⟩ := List.exists_cons_of_ne_nil hroom
  rw [add, if_neg (by simpa [has] using hnew), hfree]
  show ((s.slots.set n.id (freshSlot n target index)).get? id).map g = _
  rw [OrdMap.get?_set]
  split
  · exact congrArg some (hg index)
  · rfl

end

end NodeMesh

end Flowscape
