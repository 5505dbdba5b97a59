import Flowscape.Graph.Representation

/-!
# Flowscape: the anchors of machines

A machine that shows itself only as `remote-node` gets an anchor under its address; once the
address is named, the anchor goes and the machine has one under its name.

The naming happens while the keys of a flow are derived. A flow whose source is resolved to
the anchor of an address that its destination then names makes the anchor again, under a
named address. The table below is the exact condition on a call.
-/

namespace Flowscape

namespace Graph

/-- A named address has no anchor and no edge at it. -/
def NamedWithoutAnchor (g : Graph) : Prop :=
  ∀ ip ∈ g.nodeIPs, anchorId ip ∉ g.nodes ∧
    ∀ eid e, g.edges.get? eid = some e → e.key.src.id ≠ anchorId ip ∧ e.key.dst.id ≠ anchorId ip

/-- The call puts no endpoint of a flow on the anchor of an address that has a name once both
sides were looked at. -/
def AvoidsNamedAnchors (g : Graph) : Op → Prop
  | .ingest _ f =>
    match accept f with
    | .ok _ => sourceKey f g.nodeIPs ≠ destinationKey f g.nodeIPs →
        ∀ ip ∈ (flowTable f g.nodeIPs).keys,
          (sourceKey f g.nodeIPs).id ≠ anchorId ip ∧ (destinationKey f g.nodeIPs).id ≠ anchorId ip
    | .error _ => True
  | _ => True

/-- Edges have their ends among the nodes, so it is enough to look at the nodes. -/
theorem Inv.namedWithoutAnchor_iff {g : Graph} (hinv : g.Inv) :
    g.NamedWithoutAnchor ↔ ∀ ip ∈ g.nodeIPs, anchorId ip ∉ g.nodes := by
  constructor
  · exact fun h ip hip => (h ip hip).1
  · intro h ip hip
    refine ⟨h ip hip, fun eid e he => ?_⟩
    obtain ⟨hs, hd⟩ := hinv.closed he
    exact ⟨fun heq => h ip hip (heq ▸ hs), fun heq => h ip hip (heq ▸ hd)⟩

/-- No anchor of a named address is a node. -/
def NoNamedAnchor (g : Graph) : Prop := ∀ ip ∈ g.nodeIPs, anchorId ip ∉ g.nodes

/-- Learning a name retires the anchor of its address. -/
theorem NoNamedAnchor.learnStep {ip machine : String} {g g' : Graph}
    (hl : LearnStep ip machine g g') (h : g.NoNamedAnchor) : g'.NoNamedAnchor := by
  intro ip' hip'
  rw [OrdMap.mem_iff_isSome, hl.nodeIPs] at hip'
  cases hl with
  | known hk =>
    apply h ip'
    split at hip'
    · next hc =>
      obtain ⟨rfl, hne, hm⟩ := hc
      exact OrdMap.mem_of_get? ((hk.resolve_left hne).resolve_left hm)
    · exact hip'
  | news hne hm _ hret =>
    -- a node that is left was there before, and is not the anchor of the address
    have hleft : anchorId ip ∉ g'.nodes ∧ ∀ id, id ∈ g'.nodes → id ∈ g.nodes := by
      cases hret with
      | absent hout => exact ⟨hout, fun _ h => h⟩
      | retired _ _ hd hf =>
        refine ⟨fun hm => (hf.mem_nodes.1 hm).1 rfl, fun id hm => ?_⟩
        have hm₁ := (hf.mem_nodes.1 hm).2
        rw [hd.nodes] at hm₁
        exact hm₁
    split at hip'
    · next hc =>
      rw [hc.1]
      exact hleft.1
    · exact fun hm => h ip' hip' (hleft.2 _ hm)

theorem NoNamedAnchor.teaches {ep : Option Endpoint} {ip observer : String} {g g' : Graph}
    (ht : Teaches ep ip observer g g') (h : g.NoNamedAnchor) : g'.NoNamedAnchor := by
  unfold Teaches at ht
  split at ht
  · exact h.learnStep ht
  · rw [ht]
    exact h

theorem NoNamedAnchor.keysDerived {f : Flow} {src dst : NodeKey} {g g' : Graph}
    (hkeys : KeysDerived f g src dst g') (h : g.NoNamedAnchor) : g'.NoNamedAnchor := by
  obtain ⟨g₁, -, ht₁, ht₂, -, -⟩ := hkeys
  exact (h.teaches ht₁).teaches ht₂

/-- Expiry takes nodes away and names no address. -/
theorem NoNamedAnchor.expired {cutoff : Time} {g g' : Graph} (hexp : Expired cutoff g g')
    (h : g.NoNamedAnchor) : g'.NoNamedAnchor := by
  obtain ⟨g₁, -, hd, hf⟩ := hexp
  intro ip hip hm
  have hm₁ := (hf.mem_nodes.1 hm).2
  rw [hf.nodeIPs, hd.nodeIPs] at hip
  rw [hd.nodes] at hm₁
  exact h ip hip hm₁

/-- Adding a flow keeps the named addresses without anchor exactly when neither end is one. -/
theorem NoNamedAnchor.flowAdded_iff {f : Flow} {v : VerdictCode} {src dst : NodeKey}
    {g g' : Graph} (hinv : g.Inv) (hadd : FlowAdded f v src dst g g') (h : g.NoNamedAnchor) :
    g'.NoNamedAnchor ↔ ∀ ip ∈ g.nodeIPs, src.id ≠ anchorId ip ∧ dst.id ≠ anchorId ip := by
  have hips : g'.nodeIPs = g.nodeIPs := (hadd.frame hinv).1
  constructor
  -- a flow adds its two ends and nothing else, so it breaks this with one of them or not at all
  · intro h' ip hip
    have hout := h' ip (by rw [hips]; exact hip)
    rw [hadd.mem_nodes] at hout
    exact ⟨fun heq => hout (Or.inl heq.symm), fun heq => hout (Or.inr (Or.inl heq.symm))⟩
  · intro hne ip hip hm
    rw [hips] at hip
    obtain ⟨hs, hd⟩ := hne ip hip
    rcases (hadd.mem_nodes _).1 hm with heq | heq | hm
    · exact hs heq.symm
    · exact hd heq.symm
    · exact h ip hip hm

/-- A call leads from named addresses without anchor to named addresses without anchor exactly
when it meets the condition. -/
theorem noNamedAnchor_step_iff {g g' : Graph} {op : Op} (hinv : g.Inv) (h : g.NoNamedAnchor)
    (hstep : g.step op = some g') : g'.NoNamedAnchor ↔ g.AvoidsNamedAnchors op := by
  cases op with
  | ingest ρ f =>
    obtain ⟨⟨g₁, res⟩, hres, rfl⟩ := Option.map_eq_some_iff.1 hstep
    -- the flow comes last: the keys, and the naming with them, are done before it is added
    cases (ingest_inv hinv hres).2 with
    | skipped haccept =>
      apply iff_of_true h
      rw [AvoidsNamedAnchors, haccept]
      trivial
    | self haccept _ hkeys =>
      apply iff_of_true (h.keysDerived hkeys)
      obtain ⟨hsrc, hdst, -⟩ := hkeys.eq
      rw [AvoidsNamedAnchors, haccept]
      exact fun hne => absurd (hsrc.symm.trans hdst) hne
    | added haccept _ hkeys hinv₁ hne hadd =>
      rw [(h.keysDerived hkeys).flowAdded_iff hinv₁ hadd, AvoidsNamedAnchors, haccept]
      obtain ⟨rfl, rfl, htable⟩ := hkeys.eq
      simp only [OrdMap.mem_keys, OrdMap.mem_iff_isSome, htable]
      exact ⟨fun hc _ => hc, fun hc => hc hne⟩
  | learnMachines ρ addrs =>
    obtain ⟨g₁, hres, -, hr⟩ := learnMachines_rule (P := NoNamedAnchor) ρ addrs
      (fun _ _ hr _ hl => hr.learnStep hl) hinv h
    obtain rfl : g₁ = g' := Option.some.inj (hres.symm.trans hstep)
    exact iff_of_true hr trivial
  | tick ρ now =>
    obtain ⟨⟨g₁, t⟩, hres, rfl⟩ := Option.map_eq_some_iff.1 hstep
    obtain ⟨g₂, rfl, -, -, hexp⟩ := tick_inv hinv hres
    have h₂ : g₂.NoNamedAnchor := h.expired hexp
    exact iff_of_true (show g₂.settle.NoNamedAnchor from h₂) trivial
  | snapshot ρ now =>
    obtain rfl : g = g' := Option.some.inj hstep
    exact iff_of_true h trivial

/-- **A named address has no anchor, exactly on the runs that avoid it.** In every state of a
run from an empty graph, no address with a name has an anchor or an edge at it, if and only if
no flow of the run is put on the anchor of an address that is named by then. -/
theorem always_namedWithoutAnchor_iff (retention : Time) (ops : List Op) :
    Run.Always step NamedWithoutAnchor (new retention) ops ↔
      Run.EveryStep step AvoidsNamedAnchors (new retention) ops := by
  refine Run.always_iff_everyStep (J := Graph.Inv) (fun _ _ _ hinv hstep => step_inv hinv hstep)
    (fun g op g' hinv h hstep => ?_) (inv_new retention) ?_
  · rw [(step_inv hinv hstep).namedWithoutAnchor_iff]
    exact noNamedAnchor_step_iff hinv (hinv.namedWithoutAnchor_iff.1 h) hstep
  · intro ip hip
    exact absurd hip (OrdMap.not_mem_empty ip)

/-- Traffic from a machine to itself, seen by its own agent, which calls one side of it
`remote-node` and the other `host`. -/
def namedLate : Flow where
  verdict := .forwarded
  time := some (100 * second)
  nodeName := "n1"
  l4 := .tcp 4240
  ip := ⟨"10.0.0.1", "10.0.0.1"⟩
  source := some { labels := ["reserved:remote-node"] }
  destination := some { labels := ["reserved:host"] }

set_option maxRecDepth 10000 in
/-- **The destination can name the address after the source was put on its anchor.** -/
theorem not_always_namedWithoutAnchor :
    ¬ ∀ (retention : Time) (ops : List Op) (g : Graph),
      Run.run step (new retention) ops = some g → g.NamedWithoutAnchor := by
  intro h
  have heval : (Run.run step (new (300 * second)) [.ingest (fun _ _ => 0) namedLate]).map
      (fun g => (decide ("10.0.0.1" ∈ g.nodeIPs), decide (anchorId "10.0.0.1" ∈ g.nodes)))
        = some (true, true) := by
    decide
  obtain ⟨g, hg, hboth⟩ := Option.map_eq_some_iff.1 heval
  obtain ⟨hnamed, hanchor⟩ := Prod.mk.inj hboth
  exact (h _ _ g hg "10.0.0.1" (of_decide_eq_true hnamed)).1 (of_decide_eq_true hanchor)

end Graph

end Flowscape
