import Flowscape.Graph.Representation
import Flowscape.Graph.Summary

/-!
# Flowscape: expiry is exact

A tick forgets a node when its `edges` counter says that no edge touches it and it was not seen
since the cutoff. The counter cannot be the reason to keep a node: it counts the edges that are
left (`Graph.Inv`), these were seen since the cutoff, and a node was seen no earlier than its
edges (`Summary.Covered`). So a tick keeps exactly the edges and the nodes seen since the cutoff.

A node is as young as its edges when every flow counted on an edge touches the ends of that
edge. Edges are found by their id, so this needs that ids do not collide (`Graph.BarFree`).
-/

namespace Flowscape

/-- The parts of the id of a conversation, but for the port, are free of its separator. -/
structure EdgeKey.Plain (k : EdgeKey) : Prop where
  src : '|' ∉ k.src.id.toList
  dst : '|' ∉ k.dst.id.toList
  proto : '|' ∉ k.proto.toList

namespace Graph

/-- What of a graph a tick with the given cutoff is to keep. -/
structure KeepsSince (cutoff : Time) (g g' : Graph) : Prop where
  /-- The edges seen since the cutoff stay as they are. -/
  edges : ∀ id, g'.edges.get? id = (g.edges.get? id).filter fun e => cutoff ≤ e.lastSeen
  /-- The nodes seen since the cutoff stay, but for the counter of their edges. -/
  nodes : ∀ id, g'.node? id = ((g.node? id).filter fun n => cutoff ≤ n.lastSeen).map
    fun n => { n with edges := g'.degree id }
  /-- Both ends of every edge that stays are there. -/
  closed : ∀ id e, g'.edges.get? id = some e → e.key.src.id ∈ g'.nodes ∧ e.key.dst.id ∈ g'.nodes
  newNodes : g'.newNodes = ∅
  dirtyNode : g'.dirtyNode = ∅
  dirty : g'.dirty = ∅
  dirtyL7 : g'.dirtyL7 = ∅
  goneNodes : g'.goneNodes = []
  goneEdges : g'.goneEdges = []

/-! ## No node is older than its edges -/

/-- The edges are plain and no node is older than they are. -/
structure Dated (g : Graph) : Prop where
  plain : ∀ id e, g.edges.get? id = some e → e.key.Plain
  covered : g.summary.Covered

theorem dated_new (retention : Time) : (new retention).Dated where
  plain id e h := by simp [new] at h
  covered := {
    ends := fun eid e h => by simp [summary, new] at h
    start := fun id t h => by simp [summary, node?, new] at h }

theorem edges_summary {g : Graph} {eid : String} {t : EdgeTotal}
    (h : g.summary.edges eid = some t) : ∃ e, g.edges.get? eid = some e ∧ e.total = t :=
  Option.map_eq_some_iff.1 h

/-- Fewer edges between fewer nodes. -/
theorem Dated.mono {g g' : Graph} (h : g.Dated)
    (hedges : ∀ id e, g'.edges.get? id = some e → g.edges.get? id = some e)
    (hseen : ∀ id t, g'.summary.seen id = some t → g.summary.seen id = some t) : g'.Dated where
  plain id e he := h.plain id e (hedges id e he)
  covered := {
    ends := fun eid t he id s hend hs => by
      obtain ⟨e, hget, rfl⟩ := edges_summary he
      refine h.covered.ends eid e.total ?_ id s hend (hseen id s hs)
      exact congrArg (Option.map _) (hedges eid e hget)
    start := fun id s hs => h.covered.start id s (hseen id s hs) }

theorem Dropped.seen {p : String → Prop} {g g' : Graph} (h : Dropped p g g') :
    g'.summary.seen = g.summary.seen := by
  funext id
  simp only [summary, node?, h.nodes, Option.map_map]
  refine congrArg (fun f => Option.map f _) (funext fun r => ?_)
  rw [Function.comp_apply, h.heap r]
  rfl

theorem Dropped.edges_of_some {p : String → Prop} {g g' : Graph} (h : Dropped p g g')
    {id : String} {e : Edge} (he : g'.edges.get? id = some e) : g.edges.get? id = some e := by
  by_cases hp : p id
  · rw [h.edges_gone hp] at he
    cases he
  · exact (h.edges_kept hp).symm.trans he

theorem Forgotten.node? {p : String → Prop} {g g' : Graph} (h : Forgotten p g g')
    {id : String} (hp : ¬ p id) : g'.node? id = g.node? id := by
  rw [Graph.node?, Graph.node?, h.nodes_kept hp, h.heap]

theorem Forgotten.node?_of_some {p : String → Prop} {g g' : Graph} (h : Forgotten p g g')
    {id : String} {n : Node} (hn : g'.node? id = some n) : g.node? id = some n := by
  by_cases hp : p id
  · rw [Graph.node?, h.nodes_gone hp] at hn
    cases hn
  · exact (h.node? hp).symm.trans hn

theorem stable_dated : Stable Dated where
  nodeIPs _ h := h.mono (fun _ _ he => he) fun _ _ hs => hs
  dropped hd h := h.mono (fun _ _ he => hd.edges_of_some he) fun _ _ hs => by rwa [hd.seen] at hs
  forgotten hf h := h.mono (fun _ _ he => by rwa [hf.edges] at he) fun id t hs => by
    obtain ⟨n, hn, rfl⟩ := Option.map_eq_some_iff.1 hs
    exact congrArg (Option.map _) (hf.node?_of_some hn)

theorem flowKey_plain (f : Flow) {src dst : NodeKey} (hsrc : '|' ∉ src.id.toList)
    (hdst : '|' ∉ dst.id.toList) : (flowKey f src dst).Plain where
  src := hsrc
  dst := hdst
  proto := by cases hl4 : f.l4 <;> simp [flowKey, l4Key, hl4]

/-- The edge that a flow is counted on, found or new, is plain. -/
theorem Dated.touched {g : Graph} (h : g.Dated) {ek : EdgeKey} (hek : ek.Plain) :
    ((g.edges.get? ek.id).getD (newEdge g.retention ek)).key.Plain := by
  cases hget : g.edges.get? ek.id with
  | none => exact hek
  | some e => exact h.plain _ e hget

/-- A flow is counted on an edge with its own ends, and touches both. -/
theorem Dated.flowAdded {f : Flow} {v : VerdictCode} {src dst : NodeKey} {g g' : Graph}
    (hinv : g.Inv) (h : g.Dated) (hadd : FlowAdded f v src dst g g')
    (hsrc : '|' ∉ src.id.toList) (hdst : '|' ∉ dst.id.toList) : g'.Dated := by
  have hplain : (flowKey f src dst).Plain := flowKey_plain f hsrc hdst
  constructor
  · -- the edge of the flow is an old one, or has the ends of the flow
    obtain ⟨e, he, hget⟩ := hadd.edges
    intro id e' he'
    rw [hget] at he'
    split at he'
    · obtain rfl := Option.some.inj he'
      rw [(countOnEdge_frame he).1]
      exact h.touched hplain
    · exact h.plain id e' he'
  · have hcovered : (g.summary.add (sighting f v src dst)).Covered := by
      refine h.covered.add ?_ ?_
      · -- an edge of the graph has its ends in it, so only the flow's own edge can have new ends
        rintro eid t ht id hend hnone
        obtain ⟨e, he, rfl⟩ := edges_summary ht
        obtain ⟨hs, hd⟩ := hinv.closed he
        rw [seen_eq_none_iff] at hnone
        rcases hend with rfl | rfl
        · exact hnone hs
        · exact hnone hd
      · intro t ht
        obtain ⟨e, he, rfl⟩ := edges_summary ht
        have hid : e.key.id = (flowKey f src dst).id := (hinv.edgeNamed he).2
        obtain ⟨hs, hd⟩ := EdgeKey.ends_of_id_eq hid hplain.src hplain.dst hplain.proto
        exact ⟨hs, hd⟩
    rw [summary_flowAdded hadd]
    exact ⟨hcovered.ends, hcovered.start⟩

/-- **Every operation keeps the dates**, as long as no id has the separator in it. -/
theorem Dated.step {g g' : Graph} {op : Op} (hinv : g.Inv) (h : g.Dated) (hbar : g.BarFree op)
    (hstep : g.step op = some g') : g'.Dated := by
  refine stable_dated.step hinv hstep h ?_ ?_
  · rintro ρ f v src dst g₁ rfl - hkeys - hinv₁ h₁ hadd
    rw [BarFree, hkeys] at hbar
    exact h₁.flowAdded hinv₁ hadd hbar.1 hbar.2
  · intro g h
    exact h.mono (fun _ _ he => he) fun _ _ hs => hs

/-! ## What a tick keeps -/

/-- What is left of the edges are the ones that were seen since the cutoff. -/
theorem Dropped.edges_filter {cutoff : Time} {g g' : Graph}
    (h : Dropped (g.IdleEdge cutoff) g g') (id : String) :
    g'.edges.get? id = (g.edges.get? id).filter fun e => cutoff ≤ e.lastSeen := by
  cases he : g.edges.get? id with
  | none =>
    cases he' : g'.edges.get? id with
    | none => rfl
    | some e' => exact absurd (he.symm.trans (h.edges_of_some he')) (by simp)
  | some e =>
    -- an edge goes when it is older than the cutoff, and only then
    by_cases hold : e.lastSeen < cutoff
    · rw [h.edges_gone ⟨e, he, hold⟩, Option.filter_some, if_neg (by simpa using hold)]
    · have hyoung : ¬ g.IdleEdge cutoff id := by
        rintro ⟨e', he', hold'⟩
        obtain rfl := Option.some.inj (he.symm.trans he')
        exact hold hold'
      rw [h.edges_kept hyoung, he, Option.filter_some, if_pos (by simpa using hold)]

/-- Where no edge touches the id, no edge end has it. -/
theorem degree_le_of_not_touches {g : Graph} {id : String}
    (h : ∀ eid e, g.edges.get? eid = some e → ¬ e.key.touches id) : g.degree id ≤ 0 := by
  refine le_of_eq (List.sum_eq_zero fun x hx => ?_)
  obtain ⟨⟨eid, e⟩, hp, rfl⟩ := List.mem_map.1 hx
  obtain ⟨hs, hd⟩ := not_or.1 (h eid e (OrdMap.mem_entries.1 hp))
  show e.key.ends id = 0
  rw [EdgeKey.ends, if_neg hs, if_neg hd]
  rfl

/-- Dropping edges changes the nodes in the counter of their edges only. -/
theorem Dropped.node? {p : String → Prop} {g g' : Graph} (h : Dropped p g g') (hinv' : g'.Inv)
    (id : String) : g'.node? id = (g.node? id).map fun n => { n with edges := g'.degree id } := by
  cases hr : g.nodes.get? id with
  | none => simp [Graph.node?, h.nodes, hr]
  | some r =>
    have hr' : g'.nodes.get? id = some r := h.nodes ▸ hr
    rw [node?_eq hr', node?_eq hr, h.heap r, hinv'.counter hr']
    rfl

/-- The edges that a tick drops are the idle ones of the summary. -/
theorem idleEdge_iff {cutoff : Time} {g : Graph} {id : String} :
    g.IdleEdge cutoff id ↔ g.summary.IdleEdge cutoff id := by
  constructor
  · rintro ⟨e, he, hold⟩
    exact ⟨e.total, congrArg (Option.map _) he, hold⟩
  · rintro ⟨t, ht, hold⟩
    obtain ⟨e, he, rfl⟩ := edges_summary ht
    exact ⟨e, he, hold⟩

/-- The nodes that a tick forgets after that are the idle ones of the summary: the counter of
their edges says whether one is left. -/
theorem idleNode_iff {cutoff : Time} {g g₁ : Graph} (hinv₁ : g₁.Inv)
    (hd : Dropped (g.IdleEdge cutoff) g g₁) (id : String) :
    g₁.IdleNode cutoff id ↔ g.summary.IdleNode cutoff id := by
  -- the edges that are left are the young ones
  have hleft : ∀ eid e, g₁.edges.get? eid = some e ↔
      g.edges.get? eid = some e ∧ cutoff ≤ e.lastSeen := by
    intro eid e
    rw [hd.edges_filter, Option.filter_eq_some_iff, decide_eq_true_eq]
  constructor
  · rintro ⟨n, hn, hdegree, hold⟩
    refine ⟨⟨n.lastSeen, ?_, hold⟩, ?_⟩
    · rw [← hd.seen]
      exact congrArg (Option.map _) hn
    · intro eid t ht hyoung hend
      obtain ⟨e, he, rfl⟩ := edges_summary ht
      obtain ⟨r, hr, rfl⟩ := Option.map_eq_some_iff.1 hn
      rw [hinv₁.counter hr] at hdegree
      exact not_touches_of_degree_le hdegree ((hleft eid e).2 ⟨he, hyoung⟩)
        (hend.imp Eq.symm Eq.symm)
  · rintro ⟨⟨t, ht, hold⟩, hfree⟩
    rw [← hd.seen] at ht
    obtain ⟨n, hn, rfl⟩ := Option.map_eq_some_iff.1 ht
    obtain ⟨r, hr, rfl⟩ := Option.map_eq_some_iff.1 hn
    refine ⟨_, hn, ?_, hold⟩
    rw [hinv₁.counter hr]
    apply degree_le_of_not_touches
    intro eid e he ht
    obtain ⟨he₀, hyoung⟩ := (hleft eid e).1 he
    exact hfree eid e.total (congrArg (Option.map _) he₀) hyoung (ht.imp Eq.symm Eq.symm)

/-- Edges go first, by their own times, and then the nodes that no edge has and that are old
themselves. -/
theorem keepsSince_of_expired {cutoff : Time} {g g' : Graph} (h : g.Dated) (hinv' : g'.Inv)
    (hexp : Expired cutoff g g') : KeepsSince cutoff g g'.settle where
  edges id := by
    obtain ⟨g₁, -, hd, hf⟩ := hexp
    exact (congrArg (·.get? id) hf.edges).trans (hd.edges_filter id)
  nodes id := by
    obtain ⟨g₁, hinv₁, hd, hf⟩ := hexp
    have hdegree : g'.settle.degree id = g₁.degree id :=
      congrArg (fun m : OrdMap String Edge => m.sumOver fun e => e.key.ends id) hf.edges
    -- idle by the number of edges, as in the code, is idle by time, since the times of a node cover
    -- those of its edges
    have hidle := (idleNode_iff hinv₁ hd id).trans h.covered.idleNode_iff
    rw [hdegree]
    show g'.node? id = _
    simp only [summary] at hidle
    cases hn : g.node? id with
    | none =>
      rw [hf.node? (by simp [hidle, hn]), hd.node? hinv₁, hn]
      rfl
    | some n =>
      by_cases hold : n.lastSeen < cutoff
      · rw [Graph.node?, hf.nodes_gone (by simp [hidle, hn, hold]), Option.filter_some,
          if_neg (by simpa using hold)]
        rfl
      · rw [hf.node? (by simp [hidle, hn, hold]), hd.node? hinv₁, hn, Option.filter_some,
          if_pos (by simpa using hold)]
  closed _ _ he := hinv'.closed he
  newNodes := rfl
  dirtyNode := rfl
  dirty := rfl
  dirtyL7 := rfl
  goneNodes := rfl
  goneEdges := rfl

/-- **Expiry is exact.** In every state that the calls reach from an empty graph, provided that
no flow had an endpoint whose id contains the separator of edge ids, a tick keeps the edges and
nodes that were seen since the cutoff, and nothing else. -/
theorem tick_keepsSince {retention : Time} {ops : List Op} {g : Graph}
    (hrun : Run.run step (new retention) ops = some g)
    (hbar : Run.EveryStep step BarFree (new retention) ops) (ρ : RangeOrder) (now : Time) :
    ∃ g' t, g.tick ρ now = some (g', t) ∧ KeepsSince (now - g.retention) g g' := by
  obtain ⟨hinv, hdated⟩ : g.Inv ∧ g.Dated :=
    Run.invariant_of_everyStep (I := fun g => g.Inv ∧ g.Dated)
      (fun _ _ _ h hc hstep => ⟨step_inv h.1 hstep, h.2.step h.1 hc hstep⟩) hbar hrun
      ⟨inv_new retention, dated_new retention⟩
  obtain ⟨g₁, hres, hinv₁, hexp⟩ := tick_spec ρ now hinv
  exact ⟨_, _, hres, keepsSince_of_expired hdated hinv₁ hexp⟩

/-- The second flow is late: it is between the nodes of the first, on another port. -/
def lateCalls : List Op :=
  [.ingest (fun _ _ => 0) anchoredFlow,
    .ingest (fun _ _ => 0) { anchoredFlow with time := some (50 * second), l4 := .tcp 443 }]

set_option maxRecDepth 10000 in
/-- The edge of the late flow goes, the nodes stay. -/
theorem tick_keepsSince_late :
    ∃ g g' t, Run.run step (new (300 * second)) lateCalls = some g ∧
      g.tick (fun _ _ => 0) (400 * second) = some (g', t) ∧
      KeepsSince (400 * second - g.retention) g g' := by
  obtain ⟨g, hrun, -⟩ := Run.run_isSome (I := Graph.Inv) (D := Op.Timed)
    (fun _ _ hinv hop => step_isSome hinv hop) (inv_new (300 * second))
    (show ∀ op ∈ lateCalls, op.Timed by decide)
  obtain ⟨g', t, hres, hkeeps⟩ := tick_keepsSince hrun (by decide) (fun _ _ => 0) (400 * second)
  exact ⟨g, g', t, hrun, hres, hkeeps⟩

end Graph

end Flowscape
