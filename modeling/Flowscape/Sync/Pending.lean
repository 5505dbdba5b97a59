import Flowscape.Graph.Tick
import Flowscape.Web.Fold

/-!
# Flowscape: the graph runs ahead of the browser

Between two ticks the browser stands still while the graph moves on. What the browser lacks is
in the five pending structures and the two lists of gone ids. The relation is stated in three
parts, each of which every stage of every call keeps:

* `TotalsAhead`: the browser's totals plus the pending increments are the graph's counters;
* `DetailsAhead`: ends, times and details of an edge differ only where the edge is pending;
* `NodesAhead`: a node differs only where it is pending.

An edge or node that the clients will be told is gone must not be alive again by then
(`dead`): a tick removes after it upserts. The stages keep that as long as a flow neither
lands on an edge that is gone nor touches a node that is.
-/

namespace Flowscape

namespace Graph

/-- The increments of an edge since the last tick. -/
def pending (g : Graph) (eid : String) : Counters := (g.dirty.get? eid).getD fun _ => 0

end Graph

namespace Sync

open Flowscape.Graph GraphState

/-! ## Totals -/

/-- The browser's totals lack exactly what is pending. -/
structure TotalsAhead (g : Graph) (s : GraphState) : Prop where
  known : ∀ {id e es}, g.edges.get? id = some e → s.edgeInfo id = some es →
    ∀ v, es.totals v + g.pending id v = e.counts v
  /-- All flows of an edge that the browser does not have are pending. -/
  fresh : ∀ {id e}, g.edges.get? id = some e → s.edgeInfo id = none →
    g.dirty.get? id = some e.counts
  /-- An edge that only the browser has is reported gone. -/
  gone : ∀ {id es}, s.edgeInfo id = some es → g.edges.get? id = none → id ∈ g.goneEdges
  dead : ∀ {id}, id ∈ g.goneEdges → g.edges.get? id = none

/-- A live edge is not reported gone. -/
theorem TotalsAhead.not_gone {g : Graph} {s : GraphState} (h : TotalsAhead g s) {id : String}
    {e : Edge} (he : g.edges.get? id = some e) : id ∉ g.goneEdges := by
  intro hg
  rw [h.dead hg] at he
  cases he

/-- Calls that leave the edges and their pending entries alone. -/
theorem TotalsAhead.congr {g g' : Graph} {s : GraphState} (h : TotalsAhead g s)
    (hedges : g'.edges = g.edges) (hdirty : g'.dirty = g.dirty)
    (hgone : g'.goneEdges = g.goneEdges) : TotalsAhead g' s where
  known he hs := by
    rw [pending, hdirty]
    exact h.known (hedges ▸ he) hs
  fresh he hs := by
    rw [hdirty]
    exact h.fresh (hedges ▸ he) hs
  gone hs he := by
    rw [hgone]
    exact h.gone hs (hedges ▸ he)
  dead hid := by
    rw [hedges]
    exact h.dead (hgone ▸ hid)

/-- An edge that is dropped is pending as gone. -/
theorem TotalsAhead.dropped {p : String → Prop} {g g' : Graph} {s : GraphState}
    (hd : Dropped p g g') (h : TotalsAhead g s) : TotalsAhead g' s := by
  -- an edge that is still there was not dropped
  have hkept : ∀ {id e}, g'.edges.get? id = some e → ¬ p id := by
    intro id e he hp
    rw [hd.edges_gone hp] at he
    cases he
  exact {
    known := fun {id e es} he hs => by
      have hp := hkept he
      rw [pending, hd.dirty_kept hp]
      exact h.known (hd.edges_kept hp ▸ he) hs
    fresh := fun {id e} he hs => by
      have hp := hkept he
      rw [hd.dirty_kept hp]
      exact h.fresh (hd.edges_kept hp ▸ he) hs
    gone := fun {id es} hs he => by
      by_cases hp : p id
      · exact hd.goneEdges.2 (Or.inl hp)
      · exact hd.goneEdges.2 (Or.inr (h.gone hs (hd.edges_kept hp ▸ he)))
    dead := fun {id} hid => by
      by_cases hp : p id
      · exact hd.edges_gone hp
      · rw [hd.edges_kept hp]
        exact h.dead ((hd.goneEdges.1 hid).resolve_left hp) }

theorem stable_totalsAhead (s : GraphState) : Stable fun g => TotalsAhead g s where
  nodeIPs _ h := h.congr rfl rfl rfl
  dropped hd h := h.dropped hd
  forgotten hf h := h.congr hf.edges hf.dirty hf.goneEdges

/-- Counting a flow on an edge that is not reported gone. -/
theorem TotalsAhead.counted {f : Flow} {t : Time} {v : VerdictCode} {ek : EdgeKey}
    {g g' : Graph} {s : GraphState} (hinv : g.Inv) (hc : Counted f t v ek g g')
    (hgone : ek.id ∉ g.goneEdges) (h : TotalsAhead g s) : TotalsAhead g' s := by
  obtain ⟨e, he, hedges⟩ := hc.edge
  obtain ⟨ring, -, hupd⟩ := Option.map_eq_some_iff.1 he
  have hcounts : e.counts = Function.update
      ((g.edges.get? ek.id).getD (newEdge g.retention ek)).counts v
      (((g.edges.get? ek.id).getD (newEdge g.retention ek)).counts v + 1) := by
    rw [← hupd]
  have hpend : g'.dirty.get? ek.id
      = some (Function.update (g.pending ek.id) v (g.pending ek.id v + 1)) := by
    rw [hc.dirty, if_pos rfl]
    rfl
  have hself : g'.edges.get? ek.id = some e := by rw [hedges, if_pos rfl]
  exact {
    known := fun {id e' es} he' hs w => by
      by_cases hid : id = ek.id
      · subst hid
        obtain rfl : e = e' := Option.some.inj (hself.symm.trans he')
        rw [pending, hpend, Option.getD_some, hcounts]
        -- the browser has the edge, so the graph had it before the flow
        cases hold : g.edges.get? ek.id with
        | none => exact absurd (h.gone hs hold) hgone
        | some e₀ =>
          have hsum := h.known hold hs
          by_cases hw : w = v
          · subst hw
            have := hsum w
            simp only [Option.getD_some, Function.update_self]
            omega
          · simp only [Option.getD_some, Function.update_of_ne hw]
            exact hsum w
      · obtain ⟨h₁, h₂⟩ := hc.other hid
        rw [pending, h₂]
        exact h.known (h₁ ▸ he') hs w
    fresh := fun {id e'} he' hs => by
      by_cases hid : id = ek.id
      · subst hid
        obtain rfl : e = e' := Option.some.inj (hself.symm.trans he')
        rw [hpend, hcounts]
        cases hold : g.edges.get? ek.id with
        | none =>
          -- nothing is pending for an edge that does not exist
          have hnone : g.dirty.get? ek.id = none := OrdMap.not_mem_iff.1 fun hm =>
            OrdMap.not_mem_iff.2 hold (hinv.dirty hm)
          rw [pending, hnone]
          rfl
        | some e₀ =>
          rw [pending, h.fresh hold hs]
          rfl
      · obtain ⟨h₁, h₂⟩ := hc.other hid
        rw [h₂]
        exact h.fresh (h₁ ▸ he') hs
    gone := fun {id es} hs he' => by
      by_cases hid : id = ek.id
      · rw [hid, hself] at he'
        cases he'
      · rw [hc.goneEdges]
        exact h.gone hs ((hc.other hid).1 ▸ he')
    dead := fun {id} hid => by
      rw [hc.goneEdges] at hid
      have hne : id ≠ ek.id := fun heq => hgone (heq ▸ hid)
      rw [(hc.other hne).1]
      exact h.dead hid }

/-- Adding a flow whose edge is not reported gone. -/
theorem TotalsAhead.flowAdded {f : Flow} {v : VerdictCode} {src dst : NodeKey} {g g' : Graph}
    {s : GraphState} (hinv : g.Inv) (hadd : FlowAdded f v src dst g g')
    (hedge : (flowKey f src dst).id ∉ g.goneEdges) (h : TotalsAhead g s) : TotalsAhead g' s :=
  hadd.rule (R := fun g => TotalsAhead g s) h (fun _ h => h.congr rfl rfl rfl)
    (fun _ _ _ ht h => h.congr ht.edges ht.dirty ht.goneEdges)
    (fun _ hp h => h.congr hp.edges hp.dirty hp.goneEdges)
    (fun hinv₃ hgone hc h => h.counted hinv₃ hc (by rwa [hgone])) hinv

/-! ## Details -/

/-- An edge that the browser has, where `dirty` and `dirtyL7` say what is pending for it. A
detail that the graph does not have (the message omits it) the browser does not have either. -/
structure EdgeKnown (dirty dirtyL7 : Prop) (e : Edge) (es : EdgeState) : Prop where
  id : es.id = e.id
  src : es.src = e.key.src.id
  dst : es.dst = e.key.dst.id
  proto : es.proto = e.key.proto
  port : es.port = e.key.port
  last_le : es.last ≤ e.lastSeen.unixMilli
  last : ¬ dirty → es.last = e.lastSeen.unixMilli
  drops : ¬ dirtyL7 → es.drops = e.drops
  l7 : ¬ dirtyL7 → es.l7 = e.l7.wire
  latency : ¬ dirtyL7 → es.latencyMs = e.l7.latency
  drops_empty : e.drops = ∅ → es.drops = ∅
  l7_none : e.l7.wire = none → es.l7 = none
  latency_zero : e.l7.latency = 0 → es.latencyMs = 0

/-- An edge without details. -/
structure Plain (e : Edge) : Prop where
  drops : e.drops = ∅
  l7 : e.l7.wire = none
  latency : e.l7.latency = 0

/-- The browser's edges lack exactly what is pending. -/
structure EdgesAhead (g : Graph) (s : GraphState) : Prop extends TotalsAhead g s where
  details : ∀ {id e es}, g.edges.get? id = some e → s.edgeInfo id = some es →
    EdgeKnown (id ∈ g.dirty) (id ∈ g.dirtyL7) e es
  plain : ∀ {id e}, g.edges.get? id = some e → s.edgeInfo id = none → id ∉ g.dirtyL7 → Plain e
  /-- Details travel with counters only. -/
  dirtyL7 : ∀ {id}, id ∈ g.dirtyL7 → id ∈ g.dirty

/-- The relation is about the edges and what is pending of them only. -/
theorem EdgesAhead.congr {g g' : Graph} {s : GraphState} (h : EdgesAhead g s)
    (hedges : g'.edges = g.edges) (hdirty : g'.dirty = g.dirty)
    (hdirtyL7 : g'.dirtyL7 = g.dirtyL7) (hgone : g'.goneEdges = g.goneEdges) :
    EdgesAhead g' s where
  toTotalsAhead := h.toTotalsAhead.congr hedges hdirty hgone
  details he hs := by
    rw [hdirty, hdirtyL7]
    exact h.details (hedges ▸ he) hs
  plain he hs hl := h.plain (hedges ▸ he) hs (hdirtyL7 ▸ hl)
  dirtyL7 hl := by
    rw [hdirty]
    exact h.dirtyL7 (hdirtyL7 ▸ hl)

/-- An edge that is dropped takes its pending details with it. -/
theorem EdgesAhead.dropped {p : String → Prop} {g g' : Graph} {s : GraphState}
    (hd : Dropped p g g') (h : EdgesAhead g s) : EdgesAhead g' s := by
  -- what is left was not dropped, and is pending as before
  have hkept : ∀ {id e}, g'.edges.get? id = some e → ¬ p id := by
    intro id e he hp
    rw [hd.edges_gone hp] at he
    cases he
  have hdirty : ∀ {id}, ¬ p id → (id ∈ g'.dirty ↔ id ∈ g.dirty) :=
    fun hp => OrdMap.mem_congr (congrArg _ (hd.dirty_kept hp))
  have hl7 : ∀ {id}, ¬ p id → (id ∈ g'.dirtyL7 ↔ id ∈ g.dirtyL7) := by
    intro id hp
    rw [hd.dirtyL7, and_iff_right hp]
  exact {
    toTotalsAhead := h.toTotalsAhead.dropped hd
    details := fun {id e es} he hs => by
      have hp := hkept he
      rw [hdirty hp, hl7 hp]
      exact h.details (hd.edges_kept hp ▸ he) hs
    plain := fun {id e} he hs hl => by
      have hp := hkept he
      exact h.plain (hd.edges_kept hp ▸ he) hs fun hm => hl ((hl7 hp).2 hm)
    dirtyL7 := fun {id} hl => by
      obtain ⟨hp, hm⟩ := hd.dirtyL7.1 hl
      exact (hdirty hp).2 (h.dirtyL7 hm) }

theorem stable_edgesAhead (s : GraphState) : Stable fun g => EdgesAhead g s where
  nodeIPs _ h := h.congr rfl rfl rfl rfl
  dropped hd h := h.dropped hd
  forgotten hf h := h.congr hf.edges hf.dirty hf.dirtyL7 hf.goneEdges

/-- What counting a flow does to the time and the details of an edge. -/
structure Later (changed : Bool) (e e' : Edge) : Prop where
  id : e'.id = e.id
  key : e'.key = e.key
  lastSeen : e.lastSeen ≤ e'.lastSeen
  drops : changed = false → e'.drops = e.drops
  l7 : changed = false → e'.l7 = e.l7
  plain : (e'.drops = ∅ → e.drops = ∅) ∧ (e'.l7.wire = none → e.l7.wire = none) ∧
    (e'.l7.latency = 0 → e.l7.latency = 0)

/-- Counting a flow makes an edge later, with new details when the flow has some. -/
theorem later_countOnEdge {f : Flow} {t : Time} {v : VerdictCode} {e e' : Edge} (hs : e.Sound)
    (h : countOnEdge f t v e = some e') : Later (detailsChanged f v) e e' := by
  obtain ⟨hkey, hid⟩ := countOnEdge_frame h
  obtain ⟨ring, -, rfl⟩ := Option.map_eq_some_iff.1 h
  refine ⟨hid, hkey, ?_, ?_, ?_, ?_, ?_, ?_⟩
  · show e.lastSeen ≤ if e.lastSeen < t then t else e.lastSeen
    split
    · next hlt => exact le_of_lt hlt
    · exact le_refl _
  · intro hch
    rw [detailsChanged, Bool.or_eq_false_iff] at hch
    cases hr : dropReason f v with
    | none => rfl
    | some reason =>
      rw [hr] at hch
      cases hch.1
  · intro hch
    rw [detailsChanged, Bool.or_eq_false_iff] at hch
    cases hl : f.l7 with
    | none => rfl
    | some l7 =>
      rw [hl] at hch
      cases hch.2
  · -- details that are empty now were empty before: a counter only grows
    cases hr : dropReason f v with
    | none => exact fun h => h
    | some reason => exact fun h => absurd h (TopCounter.add_ne_empty _ _)
  · cases hl : f.l7 with
    | none => exact fun h => h
    | some l7 => exact fun h => L7Summary.observe_wire_eq_none h
  · cases hl : f.l7 with
    | none => exact fun h => h
    | some l7 => exact fun h => L7Summary.observe_latency_eq_zero hs.latency h

/-- A later state of an edge that the browser knows; it is pending now. -/
theorem EdgeKnown.later {dirty dirtyL7 : Prop} {changed : Bool} {e e' : Edge} {es : EdgeState}
    (h : EdgeKnown dirty dirtyL7 e es) (hl : Later changed e e') {dirty' dirtyL7' : Prop}
    (hd : dirty') (hc : changed = true → dirtyL7') (hk : dirtyL7 → dirtyL7') :
    EdgeKnown dirty' dirtyL7' e' es := by
  -- details that did change are pending, so the browser's need not be the same
  have hch : ¬ dirtyL7' → changed = false := by
    intro hn
    cases changed with
    | false => rfl
    | true => exact absurd (hc rfl) hn
  exact {
    id := h.id.trans hl.id.symm
    src := by rw [hl.key]; exact h.src
    dst := by rw [hl.key]; exact h.dst
    proto := by rw [hl.key]; exact h.proto
    port := by rw [hl.key]; exact h.port
    last_le := le_trans h.last_le (Time.unixMilli_mono hl.lastSeen)
    last := fun hn => absurd hd hn
    drops := fun hn => (h.drops fun hp => hn (hk hp)).trans (hl.drops (hch hn)).symm
    l7 := fun hn => by
      rw [hl.l7 (hch hn)]
      exact h.l7 fun hp => hn (hk hp)
    latency := fun hn => by
      rw [hl.l7 (hch hn)]
      exact h.latency fun hp => hn (hk hp)
    drops_empty := fun he => h.drops_empty (hl.plain.1 he)
    l7_none := fun he => h.l7_none (hl.plain.2.1 he)
    latency_zero := fun he => h.latency_zero (hl.plain.2.2 he) }

/-- A flow that is counted is pending as an increment. -/
theorem EdgesAhead.counted {f : Flow} {t : Time} {v : VerdictCode} {ek : EdgeKey}
    {g g' : Graph} {s : GraphState} (hinv : g.Inv) (hc : Counted f t v ek g g')
    (hgone : ek.id ∉ g.goneEdges) (h : EdgesAhead g s) : EdgesAhead g' s := by
  obtain ⟨e, he, hedges⟩ := hc.edge
  have hself : g'.edges.get? ek.id = some e := by rw [hedges, if_pos rfl]
  have hpend : ek.id ∈ g'.dirty := OrdMap.mem_of_get? ((hc.dirty ek.id).trans (if_pos rfl))
  have hdirty : ∀ {id}, id ≠ ek.id → (id ∈ g'.dirty ↔ id ∈ g.dirty) :=
    fun hne => OrdMap.mem_congr (congrArg _ (hc.other hne).2)
  have hl7_changed : detailsChanged f v = true → ek.id ∈ g'.dirtyL7 := fun hch =>
    hc.dirtyL7.2 (Or.inl ⟨rfl, hch⟩)
  have hl7_kept : ek.id ∈ g.dirtyL7 → ek.id ∈ g'.dirtyL7 := fun hm => hc.dirtyL7.2 (Or.inr hm)
  exact {
    toTotalsAhead := h.toTotalsAhead.counted hinv hc hgone
    details := fun {id e' es} he' hs => by
      by_cases hid : id = ek.id
      · subst hid
        obtain rfl : e = e' := Option.some.inj (hself.symm.trans he')
        cases hold : g.edges.get? ek.id with
        | none => exact absurd (h.gone hs hold) hgone
        | some e₀ =>
          rw [hold, Option.getD_some] at he
          exact (h.details hold hs).later (later_countOnEdge (hinv.edgeSound hold) he) hpend
            hl7_changed hl7_kept
      · rw [hdirty hid, hc.mem_dirtyL7_other hid]
        exact h.details ((hc.other hid).1 ▸ he') hs
    plain := fun {id e'} he' hs hn => by
      by_cases hid : id = ek.id
      · subst hid
        obtain rfl : e = e' := Option.some.inj (hself.symm.trans he')
        -- without a change of details the edge is as plain as before, and a new edge is plain
        have hch : detailsChanged f v = false := by
          cases hch : detailsChanged f v with
          | false => rfl
          | true => exact absurd (hl7_changed hch) hn
        have hplain : Plain ((g.edges.get? ek.id).getD (newEdge g.retention ek)) ∧
            ((g.edges.get? ek.id).getD (newEdge g.retention ek)).Sound := by
          cases hold : g.edges.get? ek.id with
          | none => exact ⟨⟨rfl, rfl, rfl⟩, newEdge_sound hinv ek⟩
          | some e₀ => exact ⟨h.plain hold hs fun hm => hn (hl7_kept hm), hinv.edgeSound hold⟩
        have hl := later_countOnEdge hplain.2 he
        refine ⟨(hl.drops hch).trans hplain.1.drops, ?_, ?_⟩
        · rw [hl.l7 hch]
          exact hplain.1.l7
        · rw [hl.l7 hch]
          exact hplain.1.latency
      · exact h.plain ((hc.other hid).1 ▸ he') hs fun hm => hn ((hc.mem_dirtyL7_other hid).2 hm)
    dirtyL7 := fun {id} hm => by
      by_cases hid : id = ek.id
      · rw [hid]
        exact hpend
      · exact (hdirty hid).2 (h.dirtyL7 ((hc.mem_dirtyL7_other hid).1 hm)) }

theorem EdgesAhead.flowAdded {f : Flow} {v : VerdictCode} {src dst : NodeKey} {g g' : Graph}
    {s : GraphState} (hinv : g.Inv) (hadd : FlowAdded f v src dst g g')
    (hedge : (flowKey f src dst).id ∉ g.goneEdges) (h : EdgesAhead g s) : EdgesAhead g' s :=
  hadd.rule (R := fun g => EdgesAhead g s) h (fun _ h => h.congr rfl rfl rfl rfl)
    (fun _ _ _ ht h => h.congr ht.edges ht.dirty ht.dirtyL7 ht.goneEdges)
    (fun _ hp h => h.congr hp.edges hp.dirty hp.dirtyL7 hp.goneEdges)
    (fun hinv₃ hgone hc h => h.counted hinv₃ hc (by rwa [hgone])) hinv

/-! ## Nodes -/

/-- A node that the browser has, where `dirty` says whether its machine is pending. -/
structure NodeKnown (dirty : Prop) (n : Node) (m : NodeState) : Prop where
  id : m.id = n.id
  ns : m.ns = n.key.namespace
  kind : m.kind = n.key.kind
  name : m.name = n.key.name
  fqdn : m.fqdn = n.fqdn
  labels : m.labels = n.labels
  machine : ¬ dirty → m.machine = n.machine
  machine_empty : n.machine = "" → m.machine = ""

/-- The browser's nodes lack exactly what is pending. -/
structure NodesAhead (g : Graph) (s : GraphState) : Prop where
  known : ∀ {id n ns}, g.node? id = some n → s.nodeInfo id = some ns →
    NodeKnown (id ∈ g.dirtyNode) n ns
  /-- A node that the browser has is not new. -/
  old : ∀ {id ns}, s.nodeInfo id = some ns → id ∉ g.newNodes
  fresh : ∀ {id}, id ∈ g.nodes → s.nodeInfo id = none → id ∈ g.newNodes
  gone : ∀ {id ns}, s.nodeInfo id = some ns → id ∉ g.nodes → id ∈ g.goneNodes
  dead : ∀ {id}, id ∈ g.goneNodes → id ∉ g.nodes

/-- What the graph makes of a node may differ in the `edges` counter and the time. -/
theorem NodesAhead.congr {g g' : Graph} {s : GraphState} (h : NodesAhead g s)
    (hnodes : ∀ id, g'.nodes.get? id = g.nodes.get? id)
    (hnode : ∀ {id n'}, g'.node? id = some n' → ∃ n, g.node? id = some n ∧ n'.id = n.id ∧
      n'.key = n.key ∧ n'.fqdn = n.fqdn ∧ n'.labels = n.labels ∧ n'.machine = n.machine)
    (hnew : g'.newNodes = g.newNodes) (hdirty : g'.dirtyNode = g.dirtyNode)
    (hgone : g'.goneNodes = g.goneNodes) : NodesAhead g' s := by
  -- the same ids are there, and under each a node that tells the same
  have hmem : ∀ {id}, id ∈ g'.nodes ↔ id ∈ g.nodes :=
    fun {id} => OrdMap.mem_congr (congrArg _ (hnodes id))
  exact {
    known := fun {id n' ns} hn hs => by
      obtain ⟨n, hn₀, h₁, h₂, h₃, h₄, h₅⟩ := hnode hn
      have hk := h.known hn₀ hs
      rw [hdirty]
      exact ⟨hk.id.trans h₁.symm, by rw [h₂]; exact hk.ns, by rw [h₂]; exact hk.kind,
        by rw [h₂]; exact hk.name, hk.fqdn.trans h₃.symm, hk.labels.trans h₄.symm,
        fun hd => (hk.machine hd).trans h₅.symm, fun he => hk.machine_empty (h₅ ▸ he)⟩
    old := fun hs => by
      rw [hnew]
      exact h.old hs
    fresh := fun hn hs => by
      rw [hnew]
      exact h.fresh (hmem.1 hn) hs
    gone := fun hs hn => by
      rw [hgone]
      exact h.gone hs fun hm => hn (hmem.2 hm)
    dead := fun hg hn => h.dead (hgone ▸ hg) (hmem.1 hn) }

/-- Objects that differ in the counter only, under the same ids. -/
theorem node?_of_heap {g g' : Graph} (hnodes : g'.nodes = g.nodes)
    (hheap : ∀ r, g'.heap r = { g.heap r with edges := (g'.heap r).edges }) {id : String}
    {n' : Node} (h : g'.node? id = some n') :
    ∃ n, g.node? id = some n ∧ n' = { n with edges := n'.edges } := by
  obtain ⟨r, hr, rfl⟩ := Option.map_eq_some_iff.1 h
  exact ⟨g.heap r, node?_eq (hnodes ▸ hr), hheap r⟩

/-- The list of edges of a node is not sent, so it may change. -/
theorem NodesAhead.congr_heap {g g' : Graph} {s : GraphState} (h : NodesAhead g s)
    (hnodes : g'.nodes = g.nodes)
    (hheap : ∀ r, g'.heap r = { g.heap r with edges := (g'.heap r).edges })
    (hnew : g'.newNodes = g.newNodes) (hdirty : g'.dirtyNode = g.dirtyNode)
    (hgone : g'.goneNodes = g.goneNodes) : NodesAhead g' s := by
  refine h.congr (fun id => by rw [hnodes]) (fun hn => ?_) hnew hdirty hgone
  obtain ⟨n, hn₀, heq⟩ := node?_of_heap hnodes hheap hn
  refine ⟨n, hn₀, ?_⟩
  rw [heq]
  exact ⟨rfl, rfl, rfl, rfl, rfl⟩

/-- A node that is forgotten is pending as gone. -/
theorem NodesAhead.forgotten {p : String → Prop} {g g' : Graph} {s : GraphState}
    (hf : Forgotten p g g') (h : NodesAhead g s) : NodesAhead g' s := by
  have hnew : ∀ {id}, ¬ p id → (id ∈ g'.newNodes ↔ id ∈ g.newNodes) :=
    fun hp => OrdMap.mem_congr (congrArg _ (hf.newNodes_kept hp))
  exact {
    known := fun {id n ns} hn hs => by
      have hp := (hf.mem_nodes.1 (node?_isSome.2 ⟨n, hn⟩)).1
      have hn₀ : g.node? id = some n := by
        rw [node?, hf.nodes_kept hp, hf.heap] at hn
        exact hn
      have hd : id ∈ g'.dirtyNode ↔ id ∈ g.dirtyNode :=
        OrdMap.mem_congr (congrArg _ (hf.dirtyNode_kept hp))
      rw [hd]
      exact h.known hn₀ hs
    old := fun {id ns} hs hm => by
      have hp : ¬ p id := fun hp => OrdMap.not_mem_iff.2 (hf.newNodes_gone hp) hm
      exact h.old hs ((hnew hp).1 hm)
    fresh := fun {id} hn hs => by
      obtain ⟨hp, hn₀⟩ := hf.mem_nodes.1 hn
      exact (hnew hp).2 (h.fresh hn₀ hs)
    gone := fun {id ns} hs hn => by
      by_cases hp : p id
      · -- the clients hear of a node that is not new
        exact hf.goneNodes.2 (Or.inl ⟨hp, h.old hs⟩)
      · exact hf.goneNodes.2 (Or.inr (h.gone hs fun hm => hn (hf.mem_nodes.2 ⟨hp, hm⟩)))
    dead := fun {id} hg hn => by
      obtain ⟨hp, hn₀⟩ := hf.mem_nodes.1 hn
      rcases hf.goneNodes.1 hg with hgone | hgone
      · exact hp hgone.1
      · exact h.dead hgone hn₀ }

theorem stable_nodesAhead (s : GraphState) : Stable fun g => NodesAhead g s where
  nodeIPs _ h := h.congr_heap rfl (fun _ => rfl) rfl rfl rfl
  dropped hd h := h.congr_heap hd.nodes hd.heap hd.newNodes hd.dirtyNode hd.goneNodes
  forgotten hf h := h.forgotten hf

/-- Touching a node that is not reported gone. -/
theorem NodesAhead.touched {k : NodeKey} {labels : List String} {t : Time} {fqdn : Bool}
    {g g' : Graph} {r : Ref} {s : GraphState} (ht : Touched k labels t fqdn g g' r)
    (hgone : k.id ∉ g.goneNodes) (h : NodesAhead g s) : NodesAhead g' s := by
  -- the browser does not have a node that is made now
  have hfresh : k.id ∉ g.nodes → s.nodeInfo k.id = none := by
    intro hn
    cases hs : s.nodeInfo k.id with
    | none => rfl
    | some ns => exact absurd (h.gone hs hn) hgone
  exact {
    known := fun {id n ns} hn hs => by
      rw [ht.dirtyNode]
      rw [ht.node?] at hn
      split at hn
      · next hid =>
        subst hid
        obtain rfl := Option.some.inj hn
        cases hold : g.node? k.id with
        | none =>
          have hout : k.id ∉ g.nodes := fun hm => by
            obtain ⟨n, hn⟩ := node?_isSome.1 hm
            rw [hold] at hn
            cases hn
          rw [hfresh hout] at hs
          cases hs
        | some n₀ =>
          have hk := h.known hold hs
          exact ⟨hk.id, hk.ns, hk.kind, hk.name, hk.fqdn, hk.labels, hk.machine,
            hk.machine_empty⟩
      · exact h.known hn hs
    old := fun {id ns} hs hm => by
      rcases (ht.mem_newNodes id).1 hm with ⟨rfl, hout⟩ | hm
      · rw [hfresh hout] at hs
        cases hs
      · exact h.old hs hm
    fresh := fun {id} hm hs => by
      rw [ht.mem_newNodes]
      by_cases hout : id ∈ g.nodes
      · exact Or.inr (h.fresh hout hs)
      · rcases (ht.mem_nodes id).1 hm with rfl | hm
        · exact Or.inl ⟨rfl, hout⟩
        · exact absurd hm hout
    gone := fun {id ns} hs hn => by
      rw [ht.goneNodes]
      exact h.gone hs fun hm => hn ((ht.mem_nodes id).2 (Or.inr hm))
    dead := fun {id} hg hn => by
      rw [ht.goneNodes] at hg
      rcases (ht.mem_nodes id).1 hn with rfl | hm
      · exact hgone hg
      · exact h.dead hg hm }

/-- A node that is placed on a machine is pending as dirty. -/
theorem NodesAhead.placed {machine id₀ : String} {g g' : Graph} {s : GraphState}
    (hp : Placed machine id₀ g g') (h : NodesAhead g s) : NodesAhead g' s := by
  have hmem : ∀ {id}, id ∈ g'.nodes ↔ id ∈ g.nodes := by
    intro id
    rw [hp.nodes]
  exact {
    known := fun {id n ns} hn hs => by
      rw [hp.node?] at hn
      split at hn
      · next hid =>
        subst hid
        obtain ⟨n₀, hn₀, rfl⟩ := Option.map_eq_some_iff.1 hn
        have hk := h.known hn₀ hs
        have hframe := placed_frame machine n₀
        -- the browser has the node, so it is not new and a move makes it pending
        by_cases hm : (Graph.placed machine n₀).machine = n₀.machine
        · exact ⟨by rw [hframe]; exact hk.id, by rw [hframe]; exact hk.ns,
            by rw [hframe]; exact hk.kind, by rw [hframe]; exact hk.name,
            by rw [hframe]; exact hk.fqdn, by rw [hframe]; exact hk.labels,
            fun hd => by rw [hm]; exact hk.machine fun hm' => hd (hp.dirtyNode_kept hm'),
            fun he => hk.machine_empty (hm ▸ he)⟩
        · have hd : id ∈ g'.dirtyNode := hp.dirtyNode_changed hn₀ hm (h.old hs)
          obtain ⟨heq, hne⟩ := placed_machine hm
          exact ⟨by rw [hframe]; exact hk.id, by rw [hframe]; exact hk.ns,
            by rw [hframe]; exact hk.kind, by rw [hframe]; exact hk.name,
            by rw [hframe]; exact hk.fqdn, by rw [hframe]; exact hk.labels,
            fun hn => absurd hd hn, fun he => absurd (heq.symm.trans he) hne⟩
      · have hk := h.known hn hs
        exact ⟨hk.id, hk.ns, hk.kind, hk.name, hk.fqdn, hk.labels,
          fun hd => hk.machine fun hm => hd (hp.dirtyNode_kept hm), hk.machine_empty⟩
    old := fun hs => by
      rw [hp.newNodes]
      exact h.old hs
    fresh := fun hn hs => by
      rw [hp.newNodes]
      exact h.fresh (hmem.1 hn) hs
    gone := fun hs hn => by
      rw [hp.goneNodes]
      exact h.gone hs fun hm => hn (hmem.2 hm)
    dead := fun hg hn => h.dead (hp.goneNodes ▸ hg) (hmem.1 hn) }

/-- Adding a flow whose nodes are not reported gone. -/
theorem NodesAhead.flowAdded {f : Flow} {v : VerdictCode} {src dst : NodeKey} {g g' : Graph}
    {s : GraphState} (hinv : g.Inv) (hadd : FlowAdded f v src dst g g')
    (hsrc : src.id ∉ g.goneNodes) (hdst : dst.id ∉ g.goneNodes) (h : NodesAhead g s) :
    NodesAhead g' s :=
  hadd.rule (R := fun g => NodesAhead g s) h
    (fun _ h => h.congr_heap rfl (fun _ => rfl) rfl rfl rfl)
    -- the two ends are touched, and neither is reported gone
    (fun hk _ hgone ht h => by
      apply h.touched ht
      rw [hgone]
      rcases hk with rfl | rfl
      · exact hsrc
      · exact hdst)
    (fun _ hp h => h.placed hp)
    (fun _ _ hc h => h.congr_heap hc.nodes hc.heap hc.newNodes hc.dirtyNode hc.goneNodes) hinv

end Sync

end Flowscape
