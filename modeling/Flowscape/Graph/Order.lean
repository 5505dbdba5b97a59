import Flowscape.Graph.Expiry

/-!
# Flowscape: the order in which flows arrive

Relay merges the streams of the agents in no fixed order. Flows without a host endpoint teach no
address, so each of them has the same keys in whatever order they come, and adds the same to the
summary of the graph. The summary does not depend on the order of what is added
(`Summary.addAll_perm`), and what a tick reports depends on the summary only (`told_tick`).
-/

namespace Flowscape

namespace Graph

/-! ## What a flow adds -/

/-- The flow as far as it is counted, if it is. -/
def sighting? (nodeIPs : OrdMap String String) (f : Flow) : Option Sighting :=
  match accept f with
  | .error _ => none
  | .ok v =>
    if sourceKey f nodeIPs = destinationKey f nodeIPs then none
    else some (sighting f v (sourceKey f nodeIPs) (destinationKey f nodeIPs))

/-- A flow from 1970 on, neither side of which is a host, between endpoints whose ids do not
contain the separator of edge ids. -/
structure Orderly (nodeIPs : OrdMap String String) (f : Flow) : Prop where
  time : 0 ≤ f.asTime
  source : isHost f.source = false
  destination : isHost f.destination = false
  sourceKey : '|' ∉ (sourceKey f nodeIPs).id.toList
  destinationKey : '|' ∉ (destinationKey f nodeIPs).id.toList

instance (nodeIPs : OrdMap String String) (f : Flow) : Decidable (Orderly nodeIPs f) :=
  decidable_of_iff (0 ≤ f.asTime ∧ isHost f.source = false ∧ isHost f.destination = false ∧
      '|' ∉ (Graph.sourceKey f nodeIPs).id.toList ∧
      '|' ∉ (Graph.destinationKey f nodeIPs).id.toList)
    ⟨fun h => ⟨h.1, h.2.1, h.2.2.1, h.2.2.2.1, h.2.2.2.2⟩, fun h => ⟨h.1, h.2, h.3, h.4, h.5⟩⟩

/-- What adding flows does not touch. -/
structure SameFrame (g g' : Graph) : Prop where
  retention : g'.retention = g.retention
  nodeIPs : g'.nodeIPs = g.nodeIPs
  goneNodes : g'.goneNodes = g.goneNodes
  goneEdges : g'.goneEdges = g.goneEdges

theorem SameFrame.refl (g : Graph) : SameFrame g g := ⟨rfl, rfl, rfl, rfl⟩

theorem SameFrame.trans {g₁ g₂ g₃ : Graph} (h₁ : SameFrame g₁ g₂) (h₂ : SameFrame g₂ g₃) :
    SameFrame g₁ g₃ where
  retention := h₂.retention.trans h₁.retention
  nodeIPs := h₂.nodeIPs.trans h₁.nodeIPs
  goneNodes := h₂.goneNodes.trans h₁.goneNodes
  goneEdges := h₂.goneEdges.trans h₁.goneEdges

theorem FlowAdded.retention {f : Flow} {v : VerdictCode} {src dst : NodeKey} {g g' : Graph}
    (h : FlowAdded f v src dst g g') : g'.retention = g.retention := by
  obtain ⟨g₃, hstaged, -, -, -, hc⟩ := h
  exact hc.retention.trans hstaged.edges.2

/-- Without a host endpoint, deriving keys leaves the graph alone. -/
theorem endpointKeys_of_not_host (ρ : RangeOrder) {f : Flow} (hsrc : isHost f.source = false)
    (hdst : isHost f.destination = false) (g : Graph) :
    g.endpointKeys ρ f = some (sourceKey f g.nodeIPs, destinationKey f g.nodeIPs, g) := by
  show (g.endpointKey (ρ 0) _ _ _ _).bind _ = _
  rw [endpointKey_eq, hsrc]
  show (g.endpointKey (ρ 1) _ _ _ _).bind _ = _
  rw [endpointKey_eq, hdst]
  simp [sourceKey, destinationKey, sourceTable, learn_of_not_host hsrc]

/-- Taking in a flow adds what it is counted as to the summary. -/
theorem ingest_summary (ρ : RangeOrder) {f : Flow} {g : Graph} (hinv : g.Inv)
    (hf : Orderly g.nodeIPs f) :
    ∃ g' res, g.ingest ρ f = some (g', res) ∧ g'.Inv ∧ SameFrame g g' ∧
      g'.summary = g.summary.addAll (sighting? g.nodeIPs f).toList := by
  -- no end is a machine's own address, so the table stays and the order does not matter for the
  -- keys
  have hkeys := endpointKeys_of_not_host ρ hf.source hf.destination g
  cases haccept : accept f with
  | error reason =>
    have hnone : sighting? g.nodeIPs f = none := by rw [sighting?, haccept]
    rw [hnone]
    refine ⟨g, { skipped := reason }, ?_, hinv, .refl g, rfl⟩
    rw [ingest, haccept]
  | ok v =>
    have hingest := ingest_eq haccept hkeys
    rw [sighting?, haccept]
    by_cases hself : sourceKey f g.nodeIPs = destinationKey f g.nodeIPs
    · rw [if_pos hself] at hingest
      simp only [if_pos hself]
      exact ⟨g, _, hingest, hinv, .refl g, rfl⟩
    · rw [if_neg hself] at hingest
      simp only [if_neg hself]
      obtain ⟨g', hadd, hinv', hadded⟩ := addFlow_spec hf.time v (sourceKey f g.nodeIPs)
        (destinationKey f g.nodeIPs) hinv
      obtain ⟨hips, hnodes, hedges⟩ := hadded.frame hinv
      exact ⟨g', _, hingest.trans hadd, hinv', ⟨hadded.retention, hips, hnodes, hedges⟩,
        summary_addFlow hinv hadd⟩

/-- Take in a flow, with the iteration orders of the call. -/
def ingestOp (call : RangeOrder × Flow) : Op := .ingest call.1 call.2

/-- Taking in flows one after the other adds them one after the other. -/
theorem run_summary {calls : List (RangeOrder × Flow)} {g : Graph} (hinv : g.Inv)
    (hcalls : ∀ c ∈ calls, Orderly g.nodeIPs c.2) :
    ∃ g', Run.run step g (calls.map ingestOp) = some g' ∧ g'.Inv ∧ SameFrame g g' ∧
      g'.summary = g.summary.addAll ((calls.map Prod.snd).filterMap (sighting? g.nodeIPs)) := by
  induction calls generalizing g with
  | nil => exact ⟨g, rfl, hinv, .refl g, rfl⟩
  | cons c rest ih =>
    obtain ⟨g₁, res, hres, hinv₁, hframe₁, hsum₁⟩ :=
      ingest_summary c.1 hinv (hcalls c List.mem_cons_self)
    -- the table stays, so the keys of the flows that follow do too
    obtain ⟨g₂, hrun, hinv₂, hframe₂, hsum₂⟩ := ih hinv₁ fun c' hc' => by
      rw [hframe₁.nodeIPs]
      exact hcalls c' (List.mem_cons_of_mem c hc')
    refine ⟨g₂, ?_, hinv₂, hframe₁.trans hframe₂, ?_⟩
    · refine Run.run_cons_eq_some.2 ⟨g₁, ?_, hrun⟩
      show (g.ingest c.1 c.2).map Prod.fst = some g₁
      rw [hres]
      rfl
    · rw [hsum₂, hsum₁, hframe₁.nodeIPs, List.map_cons, List.filterMap_cons]
      cases sighting? g.nodeIPs c.2 with
      | none => rfl
      | some x => rfl

/-- What is counted of a flow has its keys. -/
theorem sighting?_eq_some {nodeIPs : OrdMap String String} {f : Flow} {x : Sighting}
    (h : sighting? nodeIPs f = some x) :
    ∃ v, x = sighting f v (sourceKey f nodeIPs) (destinationKey f nodeIPs) := by
  unfold sighting? at h
  cases haccept : accept f with
  | error reason => simp [haccept] at h
  | ok v =>
    simp only [haccept] at h
    split at h
    · cases h
    · exact ⟨v, (Option.some.inj h).symm⟩

/-- Flows whose ids do not collide do not make one edge id between different ends. -/
theorem agree_of_orderly {nodeIPs : OrdMap String String} {f f' : Flow}
    (hf : Orderly nodeIPs f) {x y : Sighting}
    (hx : sighting? nodeIPs f = some x) (hy : sighting? nodeIPs f' = some y) :
    Summary.Agree x y := by
  obtain ⟨v, rfl⟩ := sighting?_eq_some hx
  obtain ⟨v', rfl⟩ := sighting?_eq_some hy
  intro hedge
  have hplain : (flowKey f (sourceKey f nodeIPs) (destinationKey f nodeIPs)).Plain :=
    flowKey_plain f hf.sourceKey hf.destinationKey
  obtain ⟨hs, hd⟩ := EdgeKey.ends_of_id_eq hedge.symm hplain.src hplain.dst hplain.proto
  exact ⟨hs.symm, hd.symm⟩

/-! ## What a tick tells -/

/-- A tick tells what is in a summary: the pending increments of the edges it keeps, and what is
idle, except for nodes that the clients have not heard of; and what was gone before it. -/
structure Tells (cutoff : Time) (s : Summary) (goneNodes goneEdges : List String) (t : Tick) :
    Prop where
  edges : ∀ id d, (id, d) ∈ t.edges.map (fun e => (e.id, e.counts)) ↔
    s.pending id = some d ∧ ¬ s.IdleEdge cutoff id
  goneNodes : ∀ id, id ∈ t.gone.nodes ↔
    (s.IdleNode cutoff id ∧ ¬ s.fresh id) ∨ id ∈ goneNodes
  goneEdges : ∀ id, id ∈ t.gone.edges ↔ s.IdleEdge cutoff id ∨ id ∈ goneEdges

/-- A tick depends on the summary and on what was gone before. -/
theorem told_tick {g : Graph} (hinv : g.Inv) (ρ : RangeOrder) (now : Time) :
    ∃ g' t, g.tick ρ now = some (g', t) ∧ (t.edges.map WireEdge.id).Nodup ∧
      Tells (now - g.retention) g.summary g.goneNodes g.goneEdges t := by
  obtain ⟨g₂, hres, hinv₂, g₁, hinv₁, hd, hf⟩ := tick_spec ρ now hinv
  refine ⟨_, _, hres, nodup_delta_edges hinv₂, ?_, ?_, ?_⟩
  · intro id d
    have hedges : g₂.edges = g₁.edges := hf.edges
    have hdirty : g₂.dirty = g₁.dirty := hf.dirty
    rw [← idleEdge_iff]
    constructor
    · rintro hmem
      obtain ⟨we, hwe, heq⟩ := List.mem_map.1 hmem
      obtain ⟨eid, d', e, hpend, he, rfl⟩ := mem_delta_edges.1 hwe
      obtain ⟨rfl, rfl⟩ := Prod.mk.inj heq
      rw [show (edgeJSON e d' (eid ∈ g₂.dirtyL7)).id = eid from (hinv₂.edgeNamed he).1]
      rw [hdirty] at hpend
      have hkept : ¬ g.IdleEdge (now - g.retention) eid := fun hidle => by
        rw [hd.dirty_gone hidle] at hpend
        cases hpend
      exact ⟨(hd.dirty_kept hkept).symm.trans hpend, hkept⟩
    · rintro ⟨hpend, hkept⟩
      have hpend₂ : g₂.dirty.get? id = some d := by rw [hdirty, hd.dirty_kept hkept]; exact hpend
      -- what is pending is pending for a live edge
      obtain ⟨e, he⟩ := OrdMap.mem_iff.1 (hinv₂.dirty (OrdMap.mem_of_get? hpend₂))
      refine List.mem_map.2 ⟨_, mem_delta_edges.2 ⟨id, d, e, hpend₂, he, rfl⟩, ?_⟩
      exact Prod.ext (hinv₂.edgeNamed he).1 rfl
  · intro id
    show id ∈ g₂.goneNodes ↔ _
    rw [hf.goneNodes, idleNode_iff hinv₁ hd, hd.newNodes, hd.goneNodes]
    rfl
  · intro id
    show id ∈ g₂.goneEdges ↔ _
    rw [hf.goneEdges, hd.goneEdges, idleEdge_iff]

/-! ## Two orders -/

/-- Two graphs that have counted the same. -/
structure SameCounts (g g' : Graph) : Prop where
  nodes : ∀ id, id ∈ g.nodes ↔ id ∈ g'.nodes
  lastSeen : ∀ id, (g.node? id).map (·.lastSeen) = (g'.node? id).map (·.lastSeen)
  edges : ∀ id, id ∈ g.edges ↔ id ∈ g'.edges
  counts : ∀ id, (g.edges.get? id).map (fun e => (e.counts, e.lastSeen))
    = (g'.edges.get? id).map fun e => (e.counts, e.lastSeen)
  unknown : g.unknown = g'.unknown

/-- The counts can be read off the summary. -/
theorem sameCounts_of_summary_eq {g g' : Graph} (h : g.summary = g'.summary) :
    SameCounts g g' where
  nodes id := by
    rw [← not_iff_not, ← seen_eq_none_iff, ← seen_eq_none_iff, h]
  lastSeen id := congrFun (congrArg Summary.seen h) id
  edges id := by
    have hget : (g.edges.get? id).map (·.total) = (g'.edges.get? id).map (·.total) :=
      congrFun (congrArg Summary.edges h) id
    rw [OrdMap.mem_iff_isSome, OrdMap.mem_iff_isSome, ← Option.isSome_map (f := Edge.total), hget,
      Option.isSome_map]
  counts id := by
    have hget : (g.edges.get? id).map (·.total) = (g'.edges.get? id).map (·.total) :=
      congrFun (congrArg Summary.edges h) id
    -- the counts and the time of an edge are part of its total
    have hmap := congrArg (Option.map fun t : EdgeTotal => (t.counts, t.lastSeen)) hget
    rwa [Option.map_map, Option.map_map] at hmap
  unknown := congrArg Summary.unknown h

/-- Two ticks that tell the same of what is pending and gone. -/
structure SameReport (t t' : Tick) : Prop where
  edges : (t.edges.map fun e => (e.id, e.counts)).Perm (t'.edges.map fun e => (e.id, e.counts))
  goneNodes : ∀ id, id ∈ t.gone.nodes ↔ id ∈ t'.gone.nodes
  goneEdges : ∀ id, id ∈ t.gone.edges ↔ id ∈ t'.gone.edges

/-- Two ticks that tell the same summary report the same. -/
theorem Tells.sameReport {cutoff : Time} {s : Summary} {goneNodes goneEdges : List String}
    {t t' : Tick} (h : Tells cutoff s goneNodes goneEdges t)
    (h' : Tells cutoff s goneNodes goneEdges t') (hnd : (t.edges.map WireEdge.id).Nodup)
    (hnd' : (t'.edges.map WireEdge.id).Nodup) : SameReport t t' where
  edges := by
    have hpairs : ∀ {l : List WireEdge}, (l.map WireEdge.id).Nodup →
        (l.map fun e => (e.id, e.counts)).Nodup := fun hl =>
      List.Nodup.of_map Prod.fst (by rwa [List.map_map])
    apply (List.perm_ext_iff_of_nodup (hpairs hnd) (hpairs hnd')).2
    intro p
    exact (h.edges p.1 p.2).trans (h'.edges p.1 p.2).symm
  goneNodes id := (h.goneNodes id).trans (h'.goneNodes id).symm
  goneEdges id := (h.goneEdges id).trans (h'.goneEdges id).symm

/-- **The order of arrival does not matter.** Flows without a host endpoint, whose ids do not
collide, are taken in by a graph that the calls have reached, in two orders. Both runs come to
their ends, count the same, and the next tick tells the same. -/
theorem ingest_perm {retention : Time} {g : Graph}
    (hg : Run.Reaches step (new retention) g) {calls calls' : List (RangeOrder × Flow)}
    (hcalls : ∀ c ∈ calls, Orderly g.nodeIPs c.2)
    (hperm : (calls.map Prod.snd).Perm (calls'.map Prod.snd)) :
    ∃ g₁ g₂, Run.run step g (calls.map ingestOp) = some g₁ ∧
      Run.run step g (calls'.map ingestOp) = some g₂ ∧ SameCounts g₁ g₂ ∧
      ∀ ρ ρ' now, ∃ g₁' g₂' t₁ t₂, g₁.tick ρ now = some (g₁', t₁) ∧
        g₂.tick ρ' now = some (g₂', t₂) ∧ SameReport t₁ t₂ := by
  have hinv := reaches_inv hg
  have hflows : ∀ f ∈ calls.map Prod.snd, Orderly g.nodeIPs f := by
    intro f hf
    obtain ⟨c, hc, rfl⟩ := List.mem_map.1 hf
    exact hcalls c hc
  have hcalls' : ∀ c ∈ calls', Orderly g.nodeIPs c.2 := fun c hc =>
    hflows c.2 (hperm.mem_iff.2 (List.mem_map.2 ⟨c, hc, rfl⟩))
  obtain ⟨g₁, hrun₁, hinv₁, hframe₁, hsum₁⟩ := run_summary hinv hcalls
  obtain ⟨g₂, hrun₂, hinv₂, hframe₂, hsum₂⟩ := run_summary hinv hcalls'
  -- the flows add up to one summary in any order, since two that come to the same edge agree on its
  -- ends
  have hsum : g₁.summary = g₂.summary := by
    rw [hsum₁, hsum₂]
    refine Summary.addAll_perm (hperm.filterMap _) (fun x hx y hy => ?_) _
    obtain ⟨f, hf, hfx⟩ := List.mem_filterMap.1 hx
    obtain ⟨f', -, hfy⟩ := List.mem_filterMap.1 hy
    exact agree_of_orderly (hflows f hf) hfx hfy
  refine ⟨g₁, g₂, hrun₁, hrun₂, sameCounts_of_summary_eq hsum, fun ρ ρ' now => ?_⟩
  obtain ⟨g₁', t₁, hres₁, hnd₁, htells₁⟩ := told_tick hinv₁ ρ now
  obtain ⟨g₂', t₂, hres₂, hnd₂, htells₂⟩ := told_tick hinv₂ ρ' now
  rw [hframe₁.retention, hframe₁.goneNodes, hframe₁.goneEdges] at htells₁
  rw [← hsum, hframe₂.retention, hframe₂.goneNodes, hframe₂.goneEdges] at htells₂
  exact ⟨g₁', g₂', t₁, t₂, hres₁, hres₂, htells₁.sameReport htells₂ hnd₁ hnd₂⟩

/-- A pod's answer to the machine that calls it, seen before and after the call. -/
def answerFlow : Flow :=
  { anchoredFlow with
    time := some (99 * second)
    source := anchoredFlow.destination
    destination := anchoredFlow.source
    ip := ⟨"10.1.0.7", "10.0.0.1"⟩
    trafficDirection := .egress }

set_option maxRecDepth 10000 in
/-- Two flows of one conversation, in both orders. -/
theorem ingest_perm_answer :
    ∃ g₁ g₂, Run.run step (new (300 * second))
        ([(fun _ _ => 0, answerFlow), (fun _ _ => 0, anchoredFlow)].map ingestOp) = some g₁ ∧
      Run.run step (new (300 * second))
        ([(fun _ _ => 0, anchoredFlow), (fun _ _ => 0, answerFlow)].map ingestOp) = some g₂ ∧
      SameCounts g₁ g₂ ∧
      ∀ ρ ρ' now, ∃ g₁' g₂' t₁ t₂, g₁.tick ρ now = some (g₁', t₁) ∧
        g₂.tick ρ' now = some (g₂', t₂) ∧ SameReport t₁ t₂ :=
  ingest_perm (.refl _) (by decide) (List.Perm.swap _ _ _)

end Graph

end Flowscape
