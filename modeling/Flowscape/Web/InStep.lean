import Flowscape.Web.Arcs
import Flowscape.Web.Page
import Flowscape.Web.Steady

/-!
# Flowscape: the page keeps up with its graph

`Scene` says which ids are shown, as sets. Here it is shown by the page itself, which has a fixed
number of slots: as long as the graph fits into the meshes, a frame leaves a slot for every node
and an arc for every edge of the graph, and no others, whatever came and went before it, and the
layout, the platforms and the chips are those of the nodes there are. The runs are those in which
no tick reports an id gone that came back after the last frame (`KeepsTrack`).
-/

namespace Flowscape

open GraphState

namespace Page

/-! ## The loops of `applyChanges` -/

section

variable {K : Type*} {p : Page K}

/-- What the page shows, as sets. -/
def scene (p : Page K) : Scene where
  state := p.state
  nodes := {id | id ∈ p.nodes.slots}
  edges := {id | id ∈ p.edges.slots}

/-- The pools are sound. -/
structure Pooled (p : Page K) : Prop where
  edges : p.edges.Pooled
  nodes : p.nodes.Pooled

/-- What the removals of a frame leave. -/
def trim (c : Changes) (p : Page K) : Page K :=
  (if c.reset then p.removeGone c else p).removeGone c

theorem seen_removeGone {α : Type*} {g : EdgeSlot K → α} (p : Page K) (c : Changes)
    (id : String) : Edges.seen g (p.removeGone c).edges id
      = if id ∈ c.removedEdges then none else Edges.seen g p.edges id :=
  Edges.seen_foldl_remove p.edges c.removedEdges id

theorem nodes_removeGone {α : Type*} {g : NodeSlot K → α} (p : Page K) (c : Changes)
    (id : String) : NodeMesh.seen g (p.removeGone c).nodes id
      = if id ∈ c.removedNodes then none else NodeMesh.seen g p.nodes id :=
  NodeMesh.seen_foldl_remove p.nodes c.removedNodes id

/-- To remove twice is to remove. -/
theorem seen_trim {α : Type*} {g : EdgeSlot K → α} (p : Page K) (c : Changes) (id : String) :
    Edges.seen g (p.trim c).edges id
      = if id ∈ c.removedEdges then none else Edges.seen g p.edges id := by
  unfold trim
  split
  · rw [seen_removeGone, seen_removeGone]
    split <;> rfl
  · exact seen_removeGone p c id

/-- A reset takes the gone nodes away again, which changes nothing. -/
theorem nodes_trim {α : Type*} {g : NodeSlot K → α} (p : Page K) (c : Changes) (id : String) :
    NodeMesh.seen g (p.trim c).nodes id
      = if id ∈ c.removedNodes then none else NodeMesh.seen g p.nodes id := by
  unfold trim
  split
  · rw [nodes_removeGone, nodes_removeGone]
    split <;> rfl
  · exact nodes_removeGone p c id

/-- The loop over the touched nodes writes machines, and nothing else. -/
theorem foldl_showMachine {α : Type*} {g : NodeSlot K → α}
    (hg : ∀ slot m, g { slot with machine := m } = g slot) (s : GraphState) (l : List String)
    (nodes : NodeMesh K) : (nodes.Pooled → (l.foldl (showMachine s) nodes).Pooled) ∧
      ∀ id, NodeMesh.seen g (l.foldl (showMachine s) nodes) id = NodeMesh.seen g nodes id := by
  refine Loop.foldl_keeps (J := fun m : NodeMesh K => (nodes.Pooled → m.Pooled) ∧
    ∀ id, NodeMesh.seen g m id = NodeMesh.seen g nodes id) (fun m id h => ?_)
    ⟨fun h => h, fun _ => rfl⟩
  unfold showMachine
  split
  · exact h
  · next n _ =>
    split
    · refine ⟨fun hs => ?_, fun id' => ?_⟩
      · exact (h.1 hs).write id (f := fun slot => { slot with machine := n.machine }) fun _ => rfl
      · exact (NodeMesh.seen_write_of_eq m id id' fun slot => hg slot _).trans (h.2 id')
    -- an unknown id is skipped, and so is a node whose machine is shown already
    · exact h

end

section

variable {K : Type*} [Field K] {s : GraphState}

/-- The slots in use are those of nodes of the graph. -/
structure Within (s : GraphState) (m : NodeMesh K) : Prop where
  pooled : m.Pooled
  known : ∀ id, id ∈ m.slots → id ∈ s.nodes

/-- A place is given to a node of the graph, which gets a slot if it has none. -/
theorem placeNode_writes (hkeyed : Keyed s.nodes) (hsize : s.nodes.size ≤ CAPACITY) :
    Loop.WritesOwn (Within (K := K) s) (NodeMesh.seen NodeSlot.target) Prod.fst
      (fun e old => if e.1 ∈ s.nodes then some e.2 else old) (placeNode s) := by
  have hhas : ∀ {m : NodeMesh K} {e : String × Vec3 K}, e.1 ∈ m.slots →
      placeNode s m e = m.setTarget e.1 e.2 := fun h => if_pos (decide_eq_true h)
  have hnone : ∀ {m : NodeMesh K} {e : String × Vec3 K}, Within s m → e.1 ∉ s.nodes →
      placeNode s m e = m := by
    intro m e h hnot
    rw [placeNode, if_neg (by simpa [NodeMesh.has] using fun hin => hnot (h.known e.1 hin)),
      OrdMap.not_mem_iff.1 hnot]
  have hadd : ∀ {m : NodeMesh K} {e : String × Vec3 K} {n : NodeState}, e.1 ∉ m.slots →
      s.nodes.get? e.1 = some n → placeNode s m e = m.add n e.2 := by
    intro m e n hnot hn
    rw [placeNode, if_neg (by simpa [NodeMesh.has] using hnot), hn]
  -- there is room for one more node of the graph
  have hseen : ∀ {m : NodeMesh K} {e : String × Vec3 K} {n : NodeState}, Within s m →
      e.1 ∉ m.slots → s.nodes.get? e.1 = some n → ∀ id,
      NodeMesh.seen NodeSlot.target (m.add n e.2) id
        = if id = e.1 then some e.2 else NodeMesh.seen NodeSlot.target m id := by
    intro m e n h hnot hn id
    have hid : n.id = e.1 := hkeyed e.1 n hn
    have hlt : m.slots.size < CAPACITY :=
      (OrdMap.size_lt_of_forall_mem h.known (OrdMap.mem_of_get? hn) hnot).trans_le hsize
    rw [NodeMesh.seen_add (h.pooled.free_ne_nil hlt) (hid ▸ hnot) fun _ => rfl, hid]
  constructor
  case keeps =>
    intro m e h
    by_cases hin : e.1 ∈ m.slots
    · rw [hhas hin]
      refine ⟨h.pooled.write e.1 (f := fun slot => { slot with target := e.2 }) fun _ => rfl, ?_⟩
      exact fun id hid => h.known id (NodeMesh.mem_write.1 hid)
    · cases hn : s.nodes.get? e.1 with
      | none => rwa [hnone h (OrdMap.not_mem_iff.2 hn)]
      | some n =>
        rw [hadd hin hn]
        refine ⟨h.pooled.add n e.2, fun id hid => ?_⟩
        rw [NodeMesh.mem_slots_iff_seen (g := NodeSlot.target), hseen h hin hn] at hid
        split at hid
        · next heq => exact heq ▸ OrdMap.mem_of_get? hn
        · exact h.known id (NodeMesh.mem_slots_iff_seen.2 hid)
  case own =>
    intro m e h
    by_cases hin : e.1 ∈ m.slots
    · rw [hhas hin, if_pos (h.known e.1 hin)]
      obtain ⟨slot, hslot⟩ := OrdMap.mem_iff.1 hin
      refine (NodeMesh.seen_write m e.1 e.1 _).trans ((if_pos rfl).trans ?_)
      rw [NodeMesh.seen, hslot]
      rfl
    · cases hn : s.nodes.get? e.1 with
      | none => rw [hnone h (OrdMap.not_mem_iff.2 hn), if_neg (OrdMap.not_mem_iff.2 hn)]
      | some n => rw [hadd hin hn, hseen h hin hn, if_pos rfl, if_pos (OrdMap.mem_of_get? hn)]
  case other =>
    intro m e id h hne
    by_cases hin : e.1 ∈ m.slots
    · rw [hhas hin]
      exact (NodeMesh.seen_write m e.1 id _).trans (if_neg hne)
    · cases hn : s.nodes.get? e.1 with
      | none => rw [hnone h (OrdMap.not_mem_iff.2 hn)]
      | some n => rw [hadd hin hn, hseen h hin hn, if_neg hne]

/-- **Every node of the graph gets a slot and its place.** -/
theorem seen_placeAll (hkeyed : Keyed s.nodes) (hsize : s.nodes.size ≤ CAPACITY)
    {targets : OrdMap String (Vec3 K)} (htargets : ∀ id, id ∈ targets ↔ id ∈ s.nodes)
    {m : NodeMesh K} (h : Within s m) :
    (targets.entries.foldl (placeNode s) m).Pooled ∧
      ∀ id, NodeMesh.seen NodeSlot.target (targets.entries.foldl (placeNode s) m) id
        = targets.get? id := by
  have hwrites := placeNode_writes (K := K) hkeyed hsize
  refine ⟨(Loop.foldl_keeps (fun m e h => hwrites.keeps m e h) h).pooled, fun id => ?_⟩
  cases ht : targets.get? id with
  | none =>
    have hnot : id ∉ targets := OrdMap.not_mem_iff.2 ht
    have hkeys : ∀ e ∈ targets.entries, e.1 ≠ id := by
      rintro e he rfl
      exact hnot (OrdMap.mem_keys.1 (List.mem_map_of_mem he))
    -- an id without a target is not a node of the page, so it has no slot
    have hslot : id ∉ m.slots := fun hin => hnot ((htargets id).2 (h.known id hin))
    rw [hwrites.foldl_of_not_mem h hkeys, NodeMesh.seen, OrdMap.not_mem_iff.1 hslot]
    rfl
  | some v =>
    have hmem : id ∈ s.nodes := (htargets id).1 (OrdMap.mem_of_get? ht)
    refine (hwrites.foldl_of_mem targets.nodup h (OrdMap.mem_entries.2 ht)).trans ?_
    exact if_pos hmem

/-- The arcs are those of edges of the graph. -/
structure Covers (s : GraphState) (edges : Edges K) : Prop where
  pooled : edges.Pooled
  known : ∀ id, id ∈ edges.slots → id ∈ s.edges

/-- The flag of an arc after `addedEdges` was gone through. -/
def flagOf (mode : GroupBy) (s : GraphState) (id : String) (old : Option Bool) : Option Bool :=
  match s.edges.get? id with
  | none => old
  | some e => some (old.getD (samePlatform mode s.nodes e.src e.dst))

variable [LinearOrder K]

/-- Each round adds its own arc. -/
theorem addArc_writes (mode : GroupBy) (hkeyed : EdgesKeyed s)
    (hsize : s.edges.size ≤ Edges.capacity) :
    Loop.WritesOwn (Covers s) (Edges.seen (K := K) EdgeSlot.same) (fun id : String => id)
      (flagOf mode s) (addArc mode s) := by
  -- the arcs are edges of the page, which fit, so a new one finds a place
  have hroom : ∀ {edges : Edges K} {id : String}, Covers s edges → id ∈ s.edges →
      id ∉ edges.slots → edges.free 0 ≠ [] := by
    intro edges id h hid hnew
    exact h.pooled.free_ne_nil ((OrdMap.size_lt_of_forall_mem h.known hid hnew).trans_le hsize) 0
  have hadd : ∀ {edges : Edges K} {id : String} (same : Bool), Covers s edges → id ∈ s.edges →
      ∀ id', Edges.seen EdgeSlot.same (edges.add Edges.capacity id same) id' = if id' = id then
        some ((Edges.seen EdgeSlot.same edges id).getD same)
        else Edges.seen EdgeSlot.same edges id' := by
    intro edges id same h hid id'
    by_cases hmem : id ∈ edges.slots
    · rw [Edges.add, if_pos hmem]
      obtain ⟨slot, hslot⟩ := OrdMap.mem_iff.1 hmem
      split
      · next heq => rw [heq, Edges.seen, hslot]; rfl
      · rfl
    · exact Edges.seen_add (hroom h hid hmem) id id' same
  constructor
  case keeps =>
    intro edges id h
    unfold addArc
    cases he : s.edges.get? id with
    | none => exact h
    | some e =>
      have hid : e.id = id := hkeyed id e he
      refine ⟨h.pooled.add e.id _, fun id' hid' => ?_⟩
      rw [Edges.mem_slots_iff_seen (g := EdgeSlot.same),
        hadd _ h (hid ▸ OrdMap.mem_of_get? he)] at hid'
      split at hid'
      · next heq => exact heq ▸ hid ▸ OrdMap.mem_of_get? he
      · exact h.known id' (Edges.mem_slots_iff_seen.2 hid')
  case own =>
    intro edges id h
    unfold addArc flagOf
    cases he : s.edges.get? id with
    | none => rfl
    | some e =>
      have hid : e.id = id := hkeyed id e he
      subst hid
      exact (hadd _ h (OrdMap.mem_of_get? he) _).trans (if_pos rfl)
  case other =>
    intro edges id id' h hne
    unfold addArc
    cases he : s.edges.get? id with
    | none => rfl
    | some e =>
      have hid : e.id = id := hkeyed id e he
      subst hid
      exact (hadd _ h (OrdMap.mem_of_get? he) id').trans (if_neg hne)

/-- **The arcs after the additions.** -/
theorem covers_addArcs (mode : GroupBy) (hkeyed : EdgesKeyed s)
    (hsize : s.edges.size ≤ Edges.capacity) {l : List String} (hnd : l.Nodup) {edges : Edges K}
    (h : Covers s edges) : Covers s (l.foldl (addArc mode s) edges) ∧
      ∀ id, Edges.seen EdgeSlot.same (l.foldl (addArc mode s) edges) id
        = if id ∈ l then flagOf mode s id (Edges.seen EdgeSlot.same edges id)
          else Edges.seen EdgeSlot.same edges id := by
  have hwrites := addArc_writes (K := K) mode hkeyed hsize
  refine ⟨Loop.foldl_keeps (fun edges id h => hwrites.keeps edges id h) h, fun id => ?_⟩
  split
  · next hid => exact hwrites.foldl_of_mem (by rwa [List.map_id']) h hid
  · next hid => exact hwrites.foldl_of_not_mem h fun b hb => ne_of_mem_of_not_mem hb hid

end

end Page

end Flowscape
