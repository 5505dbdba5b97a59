import Flowscape.Graph.Tick
import Mathlib.Algebra.Group.Pi.Basic

/-!
# Flowscape: what a graph has counted

A `Summary` is what flows add up to: when each node was last seen, the totals of each edge, what
is pending, and the number of unclassified flows. Adding a flow to it is one operation
(`Summary.add`), in which maxima and sums only are formed. So it does not matter which of two
flows comes first, unless they make one edge id between different ends (`Summary.add_comm`).

The graph refines it: adding a flow to a graph adds it to its summary (`summary_flowAdded`).
-/

namespace Flowscape

/-- What an edge has counted, between which nodes. -/
structure EdgeTotal where
  src : String
  dst : String
  counts : Counters
  lastSeen : Time

/-- A flow between two nodes, as far as it is counted. -/
structure Sighting where
  src : String
  dst : String
  edge : String
  time : Time
  verdict : VerdictCode
  /-- One of its sides could not be classified. -/
  unknown : Bool

/-- What flows add up to. -/
@[ext]
structure Summary where
  seen : String → Option Time
  edges : String → Option EdgeTotal
  /-- The nodes that the clients have not heard of. -/
  fresh : String → Prop
  /-- What was counted since the last tick. -/
  pending : String → Option Counters
  unknown : Nat

namespace Sighting

/-- The flow has the node as one of its ends. -/
def HasEnd (x : Sighting) (id : String) : Prop := id = x.src ∨ id = x.dst

instance (x : Sighting) (id : String) : Decidable (x.HasEnd id) :=
  inferInstanceAs (Decidable (_ ∨ _))

/-- Count the flow on what there is of its edge. -/
def count (x : Sighting) (e : Option EdgeTotal) : EdgeTotal :=
  let e := e.getD ⟨x.src, x.dst, fun _ => 0, zeroTime⟩
  { e with counts := e.counts + Pi.single x.verdict 1, lastSeen := max e.lastSeen x.time }

end Sighting

namespace Summary

/-- Count a flow. -/
def add (s : Summary) (x : Sighting) : Summary where
  seen id := if x.HasEnd id then some (max ((s.seen id).getD zeroTime) x.time) else s.seen id
  edges id := if id = x.edge then some (x.count (s.edges id)) else s.edges id
  fresh id := s.fresh id ∨ x.HasEnd id ∧ s.seen id = none
  pending id := if id = x.edge then
    some ((s.pending id).getD (fun _ => 0) + Pi.single x.verdict 1) else s.pending id
  unknown := s.unknown + if x.unknown then 1 else 0

/-- Two flows that do not make one edge id between different ends. -/
def Agree (x y : Sighting) : Prop := x.edge = y.edge → x.src = y.src ∧ x.dst = y.dst

theorem count_comm {x y : Sighting} (h : Agree x y) (hedge : x.edge = y.edge)
    (e : Option EdgeTotal) : y.count (some (x.count e)) = x.count (some (y.count e)) := by
  obtain ⟨hs, hd⟩ := h hedge
  cases e with
  | none => simp [Sighting.count, hs, hd, add_right_comm, max_right_comm]
  | some e => simp [Sighting.count, add_right_comm, max_right_comm]

/-- **The order of two flows does not matter.** -/
theorem add_comm {x y : Sighting} (h : Agree x y) (s : Summary) :
    (s.add x).add y = (s.add y).add x := by
  refine Summary.ext ?_ ?_ ?_ ?_ ?_
  · funext id
    simp only [add]
    by_cases hx : x.HasEnd id <;> by_cases hy : y.HasEnd id <;> simp [hx, hy, max_right_comm]
  · funext id
    simp only [add]
    -- an edge is counted for by both, by one of them or by none
    by_cases hx : id = x.edge
    · by_cases hy : id = y.edge
      · simp only [if_pos hx, if_pos hy, count_comm h (hx.symm.trans hy)]
      · simp only [if_pos hx, if_neg hy]
    · simp only [if_neg hx]
  · funext id
    simp only [add]
    by_cases hx : x.HasEnd id <;> by_cases hy : y.HasEnd id <;> simp [hx, hy]
  · funext id
    simp only [add]
    by_cases hx : id = x.edge
    · by_cases hy : id = y.edge
      · simp only [if_pos hx, if_pos hy, Option.getD_some, add_right_comm]
      · simp only [if_pos hx, if_neg hy]
    · simp only [if_neg hx]
  · simp only [add]
    omega

/-- Count flows one after the other. -/
def addAll (s : Summary) (l : List Sighting) : Summary := l.foldl add s

/-- Nor does the order of any number of flows. -/
theorem addAll_perm {l l' : List Sighting} (hperm : l.Perm l')
    (h : ∀ x ∈ l, ∀ y ∈ l, Agree x y) (s : Summary) : s.addAll l = s.addAll l' :=
  hperm.foldl_eq' (fun x hx y hy s => add_comm (h x hx y hy) s) s

/-! ## Edges are never younger than their ends -/

/-- Both ends of an edge were seen at least as late as the edge. -/
structure Covered (s : Summary) : Prop where
  ends : ∀ eid e, s.edges eid = some e → ∀ id t, id = e.src ∨ id = e.dst →
    s.seen id = some t → e.lastSeen ≤ t
  /-- Nothing was seen before the clock starts. -/
  start : ∀ id t, s.seen id = some t → zeroTime ≤ t

/-- A flow counted on an edge with its own ends keeps that. -/
theorem Covered.add {s : Summary} {x : Sighting} (h : s.Covered)
    (hclosed : ∀ eid e, s.edges eid = some e → ∀ id, id = e.src ∨ id = e.dst →
      s.seen id ≠ none)
    (hx : ∀ e, s.edges x.edge = some e → e.src = x.src ∧ e.dst = x.dst) :
    (s.add x).Covered := by
  constructor
  · intro eid e he id t hend ht
    simp only [Summary.add] at he ht
    -- a node that an edge ends in was seen, and is seen no earlier now
    have hold : ∀ eid e₀, s.edges eid = some e₀ → id = e₀.src ∨ id = e₀.dst → e₀.lastSeen ≤ t := by
      intro eid e₀ he₀ hend₀
      cases hseen : s.seen id with
      | none => exact absurd hseen (hclosed eid e₀ he₀ id hend₀)
      | some t₀ =>
        have hle := h.ends eid e₀ he₀ id t₀ hend₀ hseen
        rw [hseen, Option.getD_some] at ht
        split at ht
        · obtain rfl := Option.some.inj ht
          exact le_max_of_le_left hle
        · obtain rfl := Option.some.inj ht
          exact hle
    split at he
    · next heid =>
      subst heid
      obtain rfl := Option.some.inj he
      have hends : x.HasEnd id := by
        cases hedge : s.edges x.edge with
        | none => simpa [Sighting.count, hedge, Sighting.HasEnd] using hend
        | some e₀ =>
          obtain ⟨hs, hd⟩ := hx e₀ hedge
          simpa [Sighting.count, hedge, Sighting.HasEnd, hs, hd] using hend
      have htime : max zeroTime x.time ≤ t := by
        rw [if_pos hends] at ht
        obtain rfl := Option.some.inj ht
        apply max_le_max_right _
        cases hseen : s.seen id with
        | none => exact le_refl _
        | some t₀ => exact h.start id t₀ hseen
      cases hedge : s.edges x.edge with
      | none => exact htime
      | some e₀ =>
        refine max_le (hold x.edge e₀ hedge ?_) ((le_max_right _ _).trans htime)
        obtain ⟨hs, hd⟩ := hx e₀ hedge
        rw [hs, hd]
        exact hends
    · exact hold eid e he hend
  · intro id t ht
    simp only [Summary.add] at ht
    split at ht
    · obtain rfl := Option.some.inj ht
      apply le_max_of_le_left
      cases hseen : s.seen id with
      | none => exact le_refl _
      | some t₀ => exact h.start id t₀ hseen
    · exact h.start id t ht

/-! ## What is idle -/

/-- The edge was not seen since the cutoff. -/
def IdleEdge (cutoff : Time) (s : Summary) (eid : String) : Prop :=
  ∃ e, s.edges eid = some e ∧ e.lastSeen < cutoff

/-- The node was not seen since the cutoff, and is no end of an edge that was. -/
def IdleNode (cutoff : Time) (s : Summary) (id : String) : Prop :=
  (∃ t, s.seen id = some t ∧ t < cutoff) ∧
    ∀ eid e, s.edges eid = some e → cutoff ≤ e.lastSeen → ¬ (id = e.src ∨ id = e.dst)

/-- Where no node is older than its edges, the edges cannot be what keeps it. -/
theorem Covered.idleNode_iff {s : Summary} (h : s.Covered) {cutoff : Time} {id : String} :
    s.IdleNode cutoff id ↔ ∃ t, s.seen id = some t ∧ t < cutoff := by
  refine ⟨And.left, fun hseen => ⟨hseen, fun eid e he hyoung hend => ?_⟩⟩
  obtain ⟨t, ht, hold⟩ := hseen
  exact absurd hold (not_lt.2 (hyoung.trans (h.ends eid e he id t hend ht)))

end Summary

/-! ## The summary of a graph -/

/-- The totals of an edge. -/
def Edge.total (e : Edge) : EdgeTotal := ⟨e.key.src.id, e.key.dst.id, e.counts, e.lastSeen⟩

namespace Graph

/-- What a graph has counted. -/
def summary (g : Graph) : Summary where
  seen id := (g.node? id).map (·.lastSeen)
  edges id := (g.edges.get? id).map (·.total)
  fresh id := id ∈ g.newNodes
  pending id := g.dirty.get? id
  unknown := g.unknown

/-- A flow between two nodes, as far as it is counted. -/
def sighting (f : Flow) (v : VerdictCode) (src dst : NodeKey) : Sighting where
  src := src.id
  dst := dst.id
  edge := (flowKey f src dst).id
  time := f.asTime
  verdict := v
  unknown := src.namespace = "unknown" ∨ dst.namespace = "unknown"

theorem seen_eq_none_iff {g : Graph} {id : String} : g.summary.seen id = none ↔ id ∉ g.nodes := by
  rw [node?_isSome]
  cases h : g.node? id <;> simp [summary, h]

theorem lastSeen_seen (t : Time) (n : Node) : (seen t n).lastSeen = max n.lastSeen t := by
  unfold seen
  split
  · next h => exact (max_eq_right h.le).symm
  · next h => exact (max_eq_left (not_lt.1 h)).symm

theorem Touched.seen {k : NodeKey} {labels : List String} {t : Time} {fqdn : Bool}
    {g g' : Graph} {r : Ref} (h : Touched k labels t fqdn g g' r) (id : String) :
    g'.summary.seen id = if id = k.id then some (max ((g.summary.seen id).getD zeroTime) t)
      else g.summary.seen id := by
  simp only [summary, h.node?]
  split
  · cases g.node? id with
    | none => exact congrArg some (lastSeen_seen _ _)
    | some n => exact congrArg some (lastSeen_seen _ _)
  · rfl

theorem Placed.seen {machine id₀ : String} {g g' : Graph} (h : Placed machine id₀ g g') :
    g'.summary.seen = g.summary.seen := by
  funext id
  simp only [summary, h.node?]
  split
  · cases g.node? id with
    | none => rfl
    | some n =>
      rw [Option.map_some, Option.map_some, placed_frame]
      rfl
  · rfl

theorem Counted.seen {f : Flow} {t : Time} {v : VerdictCode} {ek : EdgeKey} {g g' : Graph}
    (h : Counted f t v ek g g') : g'.summary.seen = g.summary.seen := by
  funext id
  simp only [summary, node?, h.nodes]
  cases g.nodes.get? id with
  | none => rfl
  | some r =>
    simp only [Option.map_some]
    rw [h.heap r]

theorem update_eq_add_single (c : Counters) (v : VerdictCode) :
    Function.update c v (c v + 1) = c + Pi.single v 1 := by
  funext w
  by_cases h : w = v
  · subst h
    simp
  · simp [h]

theorem total_countOnEdge {f : Flow} {v : VerdictCode} {src dst : NodeKey} {e e' : Edge}
    (h : countOnEdge f f.asTime v e = some e') :
    e'.total = (sighting f v src dst).count (some e.total) := by
  obtain ⟨ring, -, rfl⟩ := Option.map_eq_some_iff.1 h
  have hlast : (if e.lastSeen < f.asTime then f.asTime else e.lastSeen)
      = max e.lastSeen f.asTime := by
    split
    · next hlt => exact (max_eq_right hlt.le).symm
    · next hlt => exact (max_eq_left (not_lt.1 hlt)).symm
  simp only [Edge.total, Sighting.count, sighting, Option.getD_some, update_eq_add_single, hlast]

/-- The edge of a flow is made with the ends of the flow. -/
theorem count_none (f : Flow) (v : VerdictCode) (src dst : NodeKey) (retention : Time) :
    (sighting f v src dst).count (some (newEdge retention (flowKey f src dst)).total)
      = (sighting f v src dst).count none := rfl

/-- **The graph refines its summary**, but for the number of unclassified flows: that is not
counted by the stages. -/
theorem summary_flowAdded {f : Flow} {v : VerdictCode} {src dst : NodeKey} {g g' : Graph}
    (h : FlowAdded f v src dst g g') :
    g'.summary = { g.summary.add (sighting f v src dst) with unknown := g'.unknown } := by
  obtain ⟨e, he, hget⟩ := h.edges
  obtain ⟨g₃, ⟨u, g₁, g₂, sn, dn, ht₁, ht₂, -, -, hsome, hnone⟩, -, -, -, hc⟩ := h
  -- placing an endpoint on a machine changes nothing that the summary reads
  have h₃ : g₃.summary.seen = g₂.summary.seen ∧ g₃.newNodes = g₂.newNodes ∧
      g₃.dirty = g₂.dirty := by
    cases hp : placedId f src dst with
    | none => rw [hnone hp]; exact ⟨rfl, rfl, rfl⟩
    | some id => exact ⟨(hsome id hp).seen, (hsome id hp).newNodes, (hsome id hp).dirty⟩
  refine Summary.ext ?_ ?_ ?_ ?_ rfl
  · funext id
    rw [hc.seen, h₃.1, ht₂.seen, ht₁.seen]
    show _ = if id = src.id ∨ id = dst.id then _ else _
    by_cases hd : id = dst.id
    · -- both ends may be one node, which is seen twice then
      rw [if_pos hd, if_pos (Or.inr hd)]
      split
      · rw [Option.getD_some, max_assoc, max_self]
        rfl
      · rfl
    · rw [if_neg hd]
      by_cases hs : id = src.id
      · rw [if_pos hs, if_pos (Or.inl hs)]
        rfl
      · rw [if_neg hs, if_neg (not_or.2 ⟨hs, hd⟩)]
        rfl
  · funext id
    have htotal : e.total = (sighting f v src dst).count
        ((g.edges.get? (flowKey f src dst).id).map (·.total)) := by
      rw [total_countOnEdge he]
      cases g.edges.get? (flowKey f src dst).id with
      | none => exact count_none f v src dst g.retention
      | some e₀ => rfl
    show (g'.edges.get? id).map _
      = if id = (flowKey f src dst).id then _ else (g.edges.get? id).map _
    rw [hget]
    split
    · next heq =>
      rw [heq, Option.map_some, htotal]
      rfl
    · rfl
  · funext id
    have hnew : id ∈ g'.newNodes ↔ (id = dst.id ∧ dst.id ∉ g₁.nodes) ∨
        (id = src.id ∧ src.id ∉ g.nodes) ∨ id ∈ g.newNodes := by
      rw [hc.newNodes, h₃.2.1, ht₂.mem_newNodes, ht₁.mem_newNodes]
    have hnodes : dst.id ∈ g₁.nodes ↔ dst.id = src.id ∨ dst.id ∈ g.nodes := ht₁.mem_nodes dst.id
    have hseen : g.summary.seen id = none ↔ id ∉ g.nodes := seen_eq_none_iff
    refine propext (hnew.trans ?_)
    show _ ↔ id ∈ g.newNodes ∨ (id = src.id ∨ id = dst.id) ∧ g.summary.seen id = none
    rw [hseen, hnodes]
    -- the destination is looked up after the source was made, which matters if they are one node
    constructor
    · rintro (⟨rfl, hout⟩ | ⟨rfl, hout⟩ | hold)
      · exact Or.inr ⟨Or.inr rfl, fun hm => hout (Or.inr hm)⟩
      · exact Or.inr ⟨Or.inl rfl, hout⟩
      · exact Or.inl hold
    · rintro (hold | ⟨rfl | rfl, hout⟩)
      · exact Or.inr (Or.inr hold)
      · exact Or.inr (Or.inl ⟨rfl, hout⟩)
      · by_cases heq : dst.id = src.id
        · exact Or.inr (Or.inl ⟨heq, heq ▸ hout⟩)
        · exact Or.inl ⟨rfl, not_or.2 ⟨heq, hout⟩⟩
  · funext id
    have hdirty : g₃.dirty = g.dirty := h₃.2.2.trans (ht₂.dirty.trans ht₁.dirty)
    show g'.dirty.get? id = if id = (flowKey f src dst).id then _ else g.dirty.get? id
    rw [hc.dirty, hdirty]
    split
    · next heq => rw [update_eq_add_single, ← heq]; rfl
    · rfl

/-! ### Unclassified flows -/

theorem unknown_touchNode (k : NodeKey) (labels : List String) (t : Time) (fqdn : Bool)
    (g : Graph) : (g.touchNode k labels t fqdn).1.unknown = g.unknown := by
  cases h : g.nodes.get? k.id <;> simp [touchNode, h, update]

theorem unknown_placeOn (r : Ref) (machine : String) (g : Graph) :
    (g.placeOn r machine).unknown = g.unknown := by
  rw [placeOn_eq]
  rfl

theorem unknown_addDegree {g g' : Graph} {id : String} {d : Int}
    (h : g.addDegree id d = some g') : g'.unknown = g.unknown := by
  obtain ⟨r, -, rfl⟩ := Option.map_eq_some_iff.1 h
  rfl

theorem unknown_countFlow {f : Flow} {t : Time} {v : VerdictCode} {ek : EdgeKey} {g g' : Graph}
    (h : g.countFlow f t v ek = some g') : g'.unknown = g.unknown := by
  obtain ⟨⟨g₁, e⟩, htouch, h⟩ := Option.bind_eq_some_iff.1 h
  obtain ⟨e', -, h⟩ := Option.bind_eq_some_iff.1 h
  obtain rfl := Option.some.inj h
  show g₁.unknown = g.unknown
  unfold touchEdge at htouch
  split at htouch
  · obtain ⟨rfl, -⟩ := Prod.mk.inj (Option.some.inj htouch)
    rfl
  · obtain ⟨g₂, h₂, htouch⟩ := Option.bind_eq_some_iff.1 htouch
    obtain ⟨g₃, h₃, htouch⟩ := Option.bind_eq_some_iff.1 htouch
    obtain ⟨rfl, -⟩ := Prod.mk.inj (Option.some.inj htouch)
    rw [unknown_addDegree h₃, unknown_addDegree h₂]

theorem unknown_staged (f : Flow) (src dst : NodeKey) (g : Graph) :
    (g.staged f src dst).unknown = g.unknown
      + if src.namespace = "unknown" ∨ dst.namespace = "unknown" then 1 else 0 := by
  have hstart : (if src.namespace = "unknown" ∨ dst.namespace = "unknown" then
      { g with unknown := g.unknown + 1 } else g : Graph).unknown
        = g.unknown + if src.namespace = "unknown" ∨ dst.namespace = "unknown" then 1 else 0 := by
    split <;> rfl
  unfold staged
  cases f.trafficDirection <;>
    simp only [unknown_placeOn, unknown_touchNode, hstart]

theorem unknown_addFlow {f : Flow} {v : VerdictCode} {src dst : NodeKey} {g g' : Graph}
    {res : Result} (h : g.addFlow f v src dst = some (g', res)) :
    g'.unknown = g.unknown
      + if src.namespace = "unknown" ∨ dst.namespace = "unknown" then 1 else 0 := by
  rw [addFlow_eq] at h
  obtain ⟨g₁, hcount, heq⟩ := Option.map_eq_some_iff.1 h
  obtain ⟨rfl, -⟩ := Prod.mk.inj heq
  rw [unknown_countFlow hcount, unknown_staged]

theorem summary_addFlow {f : Flow} {v : VerdictCode} {src dst : NodeKey} {g g' : Graph}
    {res : Result} (hinv : g.Inv) (h : g.addFlow f v src dst = some (g', res)) :
    g'.summary = g.summary.add (sighting f v src dst) := by
  rw [summary_flowAdded (addFlow_inv hinv h).2.1, unknown_addFlow h]
  refine Summary.ext rfl rfl rfl rfl ?_
  simp [Summary.add, sighting, summary]

end Graph

end Flowscape
