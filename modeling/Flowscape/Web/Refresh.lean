import Flowscape.Web.Arcs
import Flowscape.Web.Page
import Flowscape.Web.Steady

/-!
# Flowscape: what a refresh shows

A refresh works out for every edge whether its arc is hidden, and for every node whether it is
hidden and how bright it is. It gives and takes no slots.
-/

namespace Flowscape

namespace Page

section

variable {K : Type*} {edges edges' : Edges K}

/-- What a new width does not touch: the flag of the arc, and whether it is hidden. -/
def lookOf (slot : EdgeSlot K) : Bool × Bool := (slot.same, slot.hidden)

/-- The arcs keep their slots, and there are not too many of them. -/
structure Roomy (edges : Edges K) : Prop where
  pooled : edges.Pooled
  size : edges.slots.size ≤ Edges.capacity

theorem Roomy.congr (h : Roomy edges) (hpool : edges'.Pooled)
    (hmem : ∀ id, id ∈ edges'.slots ↔ id ∈ edges.slots) : Roomy edges' :=
  ⟨hpool, (OrdMap.size_congr hmem).trans_le h.size⟩

theorem Roomy.write (h : Roomy edges) (id : String) {f : EdgeSlot K → EdgeSlot K}
    (hf : ∀ slot, Edges.SamePlace slot (f slot)) :
    Roomy { edges with slots := edges.slots.modify id f } :=
  h.congr (h.pooled.write id hf) fun _ => OrdMap.mem_modify

theorem Roomy.setRate [Field K] [LinearOrder K] (h : Roomy edges) (id : String) (rate : K) :
    Roomy (edges.setRate Edges.capacity id rate) ∧
      ∀ id', Edges.seen lookOf (edges.setRate Edges.capacity id rate) id'
        = Edges.seen lookOf edges id' := by
  have hseen : ∀ id', Edges.seen lookOf (edges.setRate Edges.capacity id rate) id'
      = Edges.seen lookOf edges id' :=
    fun id' => Edges.seen_setRate h.pooled h.size
      (fun slot slot' hlook => Prod.ext hlook.2.2.2 hlook.2.2.1) id id' rate
  exact ⟨h.congr (h.pooled.setRate id rate) fun id' => Edges.mem_slots_congr (hseen id'), hseen⟩

/-- What a refresh does to the arc of an edge. -/
theorem Roomy.refresh [Field K] [LinearOrder K] (h : Roomy edges) (id : String) (hidden : Bool)
    (rate : K) (color : Color K) (alpha : K) :
    let edges' :=
      ((edges.setHidden id hidden).setRate Edges.capacity id rate).setColor id color alpha
    Roomy edges' ∧ ∀ id', Edges.seen lookOf edges' id'
      = if id' = id then (Edges.seen lookOf edges id').map fun l => (l.1, hidden)
        else Edges.seen lookOf edges id' := by
  have h₁ : Roomy (edges.setHidden id hidden) := h.write id fun _ => ⟨rfl, rfl, rfl, rfl⟩
  obtain ⟨h₂, hseen₂⟩ := h₁.setRate id rate
  refine ⟨h₂.write id fun _ => ⟨rfl, rfl, rfl, rfl⟩, fun id' => ?_⟩
  have hseen₃ : ∀ edges : Edges K, Edges.seen lookOf (edges.setColor id color alpha) id'
      = Edges.seen lookOf edges id' := fun edges =>
    Edges.seen_write edges id id' (f := fun slot => { slot with color, alpha }) fun _ => rfl
  -- the colour and the rate are not looked at; hiding is
  rw [hseen₃, hseen₂]
  show ((edges.slots.modify id _).get? id').map lookOf = _
  rw [OrdMap.get?_modify]
  split
  · rw [Option.map_map, Edges.seen, Option.map_map]
    rfl
  · rfl

end

section

variable {K : Type*} [Field K] [LinearOrder K] (B : Browser K) (p : Page K) (c : Clock K)

/-! ## Arcs -/

/-- Whether the arc of an edge is hidden now. -/
def hides (e : EdgeState) : Bool := p.edgeHidden e (total (p.shownRate c.nowSec e))

theorem refreshEdge_writes : Loop.WritesOwn (fun r : Refresh K => Roomy r.edges)
    (fun r id => Edges.seen lookOf r.edges id) EdgeState.id
    (fun e old => old.map fun l => (l.1, p.hides c e)) (refreshEdge B p c) where
  keeps _ e h := (h.refresh e.id _ _ _ _).1
  own _ e h := ((h.refresh e.id _ _ _ _).2 e.id).trans (if_pos rfl)
  other _ e id h hne := ((h.refresh e.id _ _ _ _).2 id).trans (if_neg hne)

/-! ## Brightness -/

/-- The edge has an end at the node. -/
def Touches (e : EdgeState) (id : String) : Prop := e.src = id ∨ e.dst = id

/-- How bright the edges that are not hidden make a node. -/
def glows (l : List EdgeState) (id : String) : Set K :=
  {a | ∃ e ∈ l, p.hides c e = false ∧ Touches e id ∧ glow B (total (p.shownRate c.nowSec e)) = a}

theorem get?_raise (activity : OrdMap String K) (id id' : String) (a : K) :
    ((raise activity id a).get? id').getD 0
      = if id' = id then max ((activity.get? id').getD 0) a else (activity.get? id').getD 0 := by
  rw [raise, OrdMap.get?_set]
  split
  · next h => rw [h]; rfl
  · rfl

/-- One round makes the ends of the edge as bright as it is, if they were not brighter. -/
theorem isGreatest_refreshEdge {S : Set K} {r : Refresh K} {id : String}
    (h : IsGreatest S ((r.activity.get? id).getD 0)) (e : EdgeState) :
    IsGreatest (S ∪ p.glows B c [e] id) (((refreshEdge B p c r e).activity.get? id).getD 0) := by
  let a := glow B (total (p.shownRate c.nowSec e))
  have hone : ∀ x, x ∈ p.glows B c [e] id ↔ p.hides c e = false ∧ Touches e id ∧ a = x := by
    intro x
    simp only [glows, List.mem_singleton, exists_eq_left]
    rfl
  have hactivity : (refreshEdge B p c r e).activity = if p.hides c e then r.activity
      else raise (raise r.activity e.src a) e.dst a := rfl
  rw [hactivity]
  -- an edge that is shown raises both its ends; a hidden one raises none
  by_cases hlit : p.hides c e = false ∧ Touches e id
  · have hset : S ∪ p.glows B c [e] id = insert a S := by
      ext x
      rw [Set.mem_union, hone, Set.mem_insert_iff]
      tauto
    have hval : ((raise (raise r.activity e.src a) e.dst a).get? id).getD 0
        = max ((r.activity.get? id).getD 0) a := by
      rw [get?_raise, get?_raise]
      rcases hlit.2 with rfl | rfl
      · rw [if_pos rfl]
        split
        · rw [max_assoc, max_self]
        · rfl
      · rw [if_pos rfl]
        split
        · rw [max_assoc, max_self]
        · rfl
    rw [if_neg (by simp [hlit.1]), hval, hset, max_comm]
    exact h.insert a
  · have hset : S ∪ p.glows B c [e] id = S := by
      ext x
      rw [Set.mem_union, hone]
      tauto
    rw [hset]
    split
    · exact h
    · next hshown =>
      have hnot : ¬ Touches e id := fun ht => hlit ⟨by simpa using hshown, ht⟩
      rw [Touches, not_or] at hnot
      rw [get?_raise, get?_raise, if_neg (Ne.symm hnot.2), if_neg (Ne.symm hnot.1)]
      exact h

/-- After the loop the activity of a node is the greatest glow of its edges. -/
theorem isGreatest_foldl {S : Set K} {r : Refresh K} {id : String}
    (h : IsGreatest S ((r.activity.get? id).getD 0)) (l : List EdgeState) :
    IsGreatest (S ∪ p.glows B c l id)
      (((l.foldl (refreshEdge B p c) r).activity.get? id).getD 0) := by
  induction l generalizing S r with
  | nil =>
    have hset : S ∪ p.glows B c [] id = S := by
      ext x
      simp [glows]
    rwa [hset]
  | cons e rest ih =>
    have hset : S ∪ p.glows B c (e :: rest) id
        = (S ∪ p.glows B c [e] id) ∪ p.glows B c rest id := by
      ext x
      simp only [glows, Set.mem_union, Set.mem_ofPred_eq, List.mem_cons, List.not_mem_nil, or_false]
      constructor
      · rintro (hx | ⟨e', rfl | hin, hrest⟩)
        · exact Or.inl (Or.inl hx)
        · exact Or.inl (Or.inr ⟨e', rfl, hrest⟩)
        · exact Or.inr ⟨e', hin, hrest⟩
      · rintro ((hx | ⟨e', rfl, hrest⟩) | ⟨e', hin, hrest⟩)
        · exact Or.inl hx
        · exact Or.inr ⟨e', Or.inl rfl, hrest⟩
        · exact Or.inr ⟨e', Or.inr hin, hrest⟩
    rw [hset]
    exact ih (isGreatest_refreshEdge B p c h e)

end

/-! ## Nodes -/

section

variable {K : Type*} [Field K] (p : Page K)

/-- What a refresh makes of the look of a node. -/
def glowOf (slot : NodeSlot K) : Bool × K := (slot.hidden, slot.activity)

theorem refreshNode_writes (activity : OrdMap String K) : Loop.WritesOwn (fun _ => True)
    (fun m id => NodeMesh.seen glowOf m id) NodeState.id
    (fun n old => old.map fun _ => (p.nodeHidden n, (activity.get? n.id).getD 0))
    (refreshNode p activity) where
  keeps _ _ h := h
  own m n _ := by
    rw [refreshNode, NodeMesh.setActivity, NodeMesh.seen_write, if_pos rfl, NodeMesh.setHidden,
      NodeMesh.seen_write, if_pos rfl, NodeMesh.seen, NodeMesh.seen, Option.map_map]
    rfl
  other m n id _ hne := by
    rw [refreshNode, NodeMesh.setActivity, NodeMesh.seen_write, if_neg hne, NodeMesh.setHidden,
      NodeMesh.seen_write, if_neg hne]

/-- The refresh writes to the slots, and leaves what `g` says of them. -/
theorem foldl_refreshNode {α : Type*} {g : NodeSlot K → α}
    (hg : ∀ slot h a, g { slot with hidden := h, activity := a } = g slot)
    (activity : OrdMap String K) (l : List NodeState) (nodes : NodeMesh K) :
    (nodes.Pooled → (l.foldl (refreshNode p activity) nodes).Pooled) ∧
      ∀ id, NodeMesh.seen g (l.foldl (refreshNode p activity) nodes) id
        = NodeMesh.seen g nodes id := by
  refine Loop.foldl_keeps (J := fun m : NodeMesh K => (nodes.Pooled → m.Pooled) ∧
    ∀ id, NodeMesh.seen g m id = NodeMesh.seen g nodes id) (fun m n h => ?_)
    ⟨fun h => h, fun _ => rfl⟩
  -- a round writes whether the node is hidden and how much it glows, and nothing else
  refine ⟨fun hs => ?_, fun id => ?_⟩
  · exact ((h.1 hs).write n.id (f := fun slot => { slot with hidden := p.nodeHidden n })
      fun _ => rfl).write n.id (f := fun slot => { slot with activity := _ }) fun _ => rfl
  · refine Eq.trans ?_ (h.2 id)
    refine (NodeMesh.seen_write_of_eq _ n.id id fun slot => hg slot slot.hidden _).trans ?_
    exact NodeMesh.seen_write_of_eq m n.id id fun slot => hg slot _ slot.activity

end

/-! ## The whole refresh -/

section

variable {K : Type*} [Field K] [LinearOrder K] (B : Browser K) {p : Page K} (c : Clock K)

/-- **What a refresh shows of the arcs.** -/
theorem edges_refreshRates (hkeyed : EdgesKeyed p.state) (hroom : Roomy p.edges) :
    Roomy (p.refreshRates B c).edges ∧ ∀ id, Edges.seen lookOf (p.refreshRates B c).edges id
      = match p.state.edges.get? id with
        | none => Edges.seen lookOf p.edges id
        | some e => (Edges.seen lookOf p.edges id).map fun l => (l.1, p.hides c e) := by
  have hwrites := refreshEdge_writes B p c
  have hids : p.state.edges.values.map EdgeState.id = p.state.edges.keys :=
    OrdMap.map_values_eq_keys hkeyed
  have hstart : Roomy (Refresh.mk p.edges p.rates (∅ : OrdMap String K)).edges := hroom
  refine ⟨Loop.foldl_keeps (J := fun r : Refresh K => Roomy r.edges)
    (fun r e h => hwrites.keeps r e h) hstart, fun id => ?_⟩
  cases he : p.state.edges.get? id with
  | none =>
    refine hwrites.foldl_of_not_mem hstart ?_
    -- an arc without an edge is met in no round
    rintro e hin rfl
    refine OrdMap.not_mem_iff.2 he (OrdMap.mem_keys.1 ?_)
    exact hids ▸ List.mem_map_of_mem hin
  | some e =>
    have hid : e.id = id := hkeyed id e he
    subst hid
    exact hwrites.foldl_of_mem (hids ▸ p.state.edges.nodup) hstart (OrdMap.mem_values_of_get? he)

/-- **A node is as bright as the brightest edge** that it has, of those that are not hidden. -/
theorem nodes_refreshRates (hkeyed : Keyed p.state.nodes) {id : String} {n : NodeState}
    (hn : p.state.nodes.get? id = some n) {slot : NodeSlot K}
    (hslot : (p.refreshRates B c).nodes.slots.get? id = some slot) :
    slot.hidden = p.nodeHidden n ∧
      IsGreatest (insert 0 (p.glows B c p.state.edges.values id)) slot.activity := by
  have hids : p.state.nodes.values.map NodeState.id = p.state.nodes.keys :=
    OrdMap.map_values_eq_keys hkeyed
  have hid : n.id = id := hkeyed id n hn
  subst hid
  let r := p.state.edges.values.foldl (refreshEdge B p c) ⟨p.edges, p.rates, ∅⟩
  have hseen := (refreshNode_writes p r.activity).foldl_of_mem (hids ▸ p.state.nodes.nodup)
    (s := p.nodes) trivial (OrdMap.mem_values_of_get? hn)
  replace hseen : Option.map glowOf ((p.refreshRates B c).nodes.slots.get? n.id) = _ := hseen
  rw [hslot] at hseen
  obtain ⟨l, -, hl⟩ := Option.map_eq_some_iff.1 hseen.symm
  obtain ⟨hhidden, hactivity⟩ := Prod.ext_iff.1 hl
  -- the loop over the edges starts from nothing
  have hgreatest := isGreatest_foldl B p c (r := ⟨p.edges, p.rates, ∅⟩)
    (show IsGreatest {0} (((∅ : OrdMap String K).get? n.id).getD 0) from isGreatest_singleton)
    p.state.edges.values
  rw [Set.singleton_union] at hgreatest
  refine ⟨hhidden.symm, ?_⟩
  rw [show slot.activity = (r.activity.get? n.id).getD 0 from hactivity.symm]
  exact hgreatest

end

end Page

end Flowscape
