import Flowscape.Graph.Representation
import Flowscape.Sync.Messages

/-!
# Flowscape: a browser that applies every tick mirrors the graph

The graph and a browser run side by side: calls move the graph, and every tick message is
applied by the browser. The relation of `Flowscape.Sync.Pending` holds all along, so the browser
mirrors the graph after every tick.

The relation needs that nothing reported gone comes back before the next tick. Between two
ticks only retired anchors and their edges are reported gone (`AnchorsGone`), and a named
address is not resolved to an anchor again. What can still come back is the *id* of a retired
edge: ids are joined with `|`, so two conversations share one when a name contains a `|`.
-/

namespace Flowscape

namespace Graph

/-- What is assumed of Hubble's data: times are not negative, no flow carries one address on
both sides, no namespace is called `reserved`, and learned addresses look like addresses. -/
def Op.Plausible : Op → Prop
  | .ingest _ f => 0 ≤ f.asTime ∧ (f.ip.source ≠ "" → f.ip.source ≠ f.ip.destination) ∧
      (∀ e ∈ f.source, e.namespace ≠ reservedNamespace) ∧
      (∀ e ∈ f.destination, e.namespace ≠ reservedNamespace) ∧
      (isHost f.source = true → AddressLike f.ip.source) ∧
      (isHost f.destination = true → AddressLike f.ip.destination)
  | .learnMachines _ addrs => ∀ ip ∈ addrs.keys, AddressLike ip
  | .tick _ _ => True
  | .snapshot _ _ => True

instance : DecidablePred Op.Plausible
  | .ingest _ _ => inferInstanceAs (Decidable (_ ∧ (_ → _) ∧ _ ∧ _ ∧ (_ → _) ∧ (_ → _)))
  | .learnMachines _ addrs => inferInstanceAs (Decidable (∀ ip ∈ addrs.keys, AddressLike ip))
  | .tick _ _ => isTrue trivial
  | .snapshot _ _ => isTrue trivial

theorem Op.Plausible.timed {op : Op} (h : op.Plausible) : op.Timed := by
  cases op with
  | ingest ρ f => exact h.1
  | learnMachines => trivial
  | tick => trivial
  | snapshot => trivial

/-! ## What is reported gone between two ticks -/

/-- The address has a machine name. -/
def Learned (g : Graph) (ip : String) : Prop := ip ∈ g.nodeIPs ∧ ip ≠ "" ∧ AddressLike ip

/-- Only anchors of named addresses, and edges that touched one, are reported gone. -/
structure AnchorsGone (g : Graph) : Prop where
  node : ∀ {id}, id ∈ g.goneNodes → ∃ ip, g.Learned ip ∧ id = anchorId ip
  edge : ∀ {id}, id ∈ g.goneEdges → ∃ ip k, g.Learned ip ∧ EdgeKey.id k = id ∧
    k.touches (anchorId ip)

/-- `AnchorsGone` is about the addresses that are known and what is reported gone. -/
theorem AnchorsGone.congr {g g' : Graph} (h : AnchorsGone g)
    (hips : ∀ ip, ip ∈ g.nodeIPs → ip ∈ g'.nodeIPs) (hnodes : g'.goneNodes = g.goneNodes)
    (hedges : g'.goneEdges = g.goneEdges) : AnchorsGone g' where
  node hid := by
    obtain ⟨ip, ⟨hmem, hip⟩, heq⟩ := h.node (hnodes ▸ hid)
    exact ⟨ip, ⟨hips ip hmem, hip⟩, heq⟩
  edge hid := by
    obtain ⟨ip, k, ⟨hmem, hip⟩, heq⟩ := h.edge (hedges ▸ hid)
    exact ⟨ip, k, ⟨hips ip hmem, hip⟩, heq⟩

/-- Learning a machine reports its anonymous anchor and the edges of it. -/
theorem AnchorsGone.learnStep {ip machine : String} {g g' : Graph} (hinv : g.Inv)
    (hl : LearnStep ip machine g g') (hip : AddressLike ip) (h : AnchorsGone g) :
    AnchorsGone g' := by
  have hips : ∀ ip, ip ∈ g.nodeIPs → ip ∈ g'.nodeIPs := fun _ hmem => hl.mem_nodeIPs hmem
  have hself := hl.nodeIPs ip
  cases hl with
  | known => exact h
  | news hne hm _ hret =>
    have hlearned : g'.Learned ip := by
      rw [if_pos ⟨rfl, hne, hm⟩] at hself
      exact ⟨OrdMap.mem_of_get? hself, hne, hip⟩
    cases hret with
    | absent => exact h.congr hips rfl rfl
    | retired _ _ hd hf =>
      -- what goes with the anchor: its node, and the edges that end in it
      have hold : AnchorsGone { g' with goneNodes := g.goneNodes, goneEdges := g.goneEdges } :=
        h.congr hips rfl rfl
      exact {
        node := fun {id} hid => by
          rcases hf.goneNodes.1 hid with ⟨rfl, -⟩ | hid
          · exact ⟨ip, hlearned, rfl⟩
          · exact hold.node (hd.goneNodes ▸ hid)
        edge := fun {id} hid => by
          rw [hf.goneEdges] at hid
          rcases hd.goneEdges.1 hid with ⟨e, he, ht⟩ | hid
          · exact ⟨ip, e.key, hlearned, (hinv.edgeNamed he).2, ht⟩
          · exact hold.edge hid }

theorem AnchorsGone.teaches {ep : Option Endpoint} {ip observer : String} {g g' : Graph}
    (hinv : g.Inv) (ht : Teaches ep ip observer g g')
    (hip : isHost ep = true → AddressLike ip) (h : AnchorsGone g) : AnchorsGone g' := by
  unfold Teaches at ht
  split at ht
  · next hhost => exact h.learnStep hinv ht (hip hhost)
  · rw [ht]
    exact h

/-- A flow teaches at most the address it comes from. -/
theorem Teaches.nodeIPs_kept {ep : Option Endpoint} {ip observer : String} {g g' : Graph}
    (ht : Teaches ep ip observer g g') {ip' : String} (h : isHost ep = false ∨ ip' ≠ ip) :
    g'.nodeIPs.get? ip' = g.nodeIPs.get? ip' := by
  rw [ht.nodeIPs, if_neg]
  rintro ⟨hhost, heq, -⟩
  rcases h with h | h
  · rw [hhost] at h
    cases h
  · exact h heq

/-- A flow that no address connects with itself is not resolved to the anchor of an address
that is named when its keys are derived. -/
theorem ne_anchorId_of_learned {ρ : RangeOrder} {f : Flow} {g g' : Graph} {src dst : NodeKey}
    (hop : (Op.ingest ρ f).Plausible) (hkeys : KeysDerived f g src dst g') {ip : String}
    (hip : g'.Learned ip) : src.id ≠ anchorId ip ∧ dst.id ≠ anchorId ip := by
  obtain ⟨g₁, -, ht₁, ht₂, rfl, rfl⟩ := hkeys
  obtain ⟨-, hboth, hns₁, hns₂, -, -⟩ := hop
  obtain ⟨hmem, hne, hlike⟩ := hip
  obtain ⟨m, hm⟩ := OrdMap.mem_iff.1 hmem
  constructor
  · intro h
    obtain ⟨haddr, hnone, hhost⟩ := resolve_eq_anchor hlike hns₁ h
    -- the source taught nothing, and the destination has another address
    have hdst : ip ≠ f.ip.destination := by
      rw [← haddr] at hne ⊢
      exact hboth hne
    rw [ht₂.nodeIPs_kept (Or.inr hdst), ht₁.nodeIPs_kept (Or.inl hhost), hnone] at hm
    cases hm
  · intro h
    obtain ⟨-, hnone, hhost⟩ := resolve_eq_anchor hlike hns₂ h
    rw [ht₂.nodeIPs_kept (Or.inl hhost), hnone] at hm
    cases hm

/-- Nothing that is reported gone comes back with a plausible flow. -/
theorem not_gone_of_plausible {ρ : RangeOrder} {f : Flow} {g g' : Graph} {src dst : NodeKey}
    (hop : (Op.ingest ρ f).Plausible) (hkeys : KeysDerived f g src dst g')
    (hsrc : '|' ∉ src.id.toList) (hdst : '|' ∉ dst.id.toList) (h : AnchorsGone g') :
    src.id ∉ g'.goneNodes ∧ dst.id ∉ g'.goneNodes ∧ (flowKey f src dst).id ∉ g'.goneEdges := by
  refine ⟨fun hg => ?_, fun hg => ?_, fun hg => ?_⟩
  · obtain ⟨ip, hip, heq⟩ := h.node hg
    exact (ne_anchorId_of_learned hop hkeys hip).1 heq
  · obtain ⟨ip, hip, heq⟩ := h.node hg
    exact (ne_anchorId_of_learned hop hkeys hip).2 heq
  · obtain ⟨ip, k, hip, hid, ht⟩ := h.edge hg
    have hproto : '|' ∉ (flowKey f src dst).proto.toList := by
      show '|' ∉ (l4Key f.l4).1.toList
      cases f.l4 <;> simp [l4Key]
    -- without the separator in its parts, an id tells both ends of the edge
    obtain ⟨h₁, h₂⟩ := EdgeKey.ends_of_id_eq hid hsrc hdst hproto
    obtain ⟨hs, hd⟩ := ne_anchorId_of_learned hop hkeys hip
    rcases ht with ht | ht
    · exact hs (h₁.symm.trans ht)
    · exact hd (h₂.symm.trans ht)

end Graph

namespace Sync

open Flowscape.Graph GraphState

/-! ## Side by side -/

/-- A call on the graph; the browser applies the message of a tick. -/
def pairStep (p : Graph × GraphState) : Op → Option (Graph × GraphState)
  | .tick ρ now => (p.1.tick ρ now).map fun r => (r.1, p.2.applyTick r.2)
  | op => (p.1.step op).map fun g => (g, p.2)

/-- Only a tick moves the browser. -/
theorem pairStep_cases {g g' : Graph} {s s' : GraphState} {op : Op}
    (h : pairStep (g, s) op = some (g', s')) :
    (∃ ρ now t, op = .tick ρ now ∧ g.tick ρ now = some (g', t) ∧ s' = s.applyTick t) ∨
    ((∀ ρ now, op ≠ .tick ρ now) ∧ g.step op = some g' ∧ s' = s) := by
  cases op with
  | tick ρ now =>
    obtain ⟨⟨g₁, t⟩, hres, heq⟩ := Option.map_eq_some_iff.1 h
    obtain ⟨rfl, rfl⟩ := Prod.mk.inj heq
    exact Or.inl ⟨ρ, now, t, rfl, hres, rfl⟩
  -- the other calls leave the page alone
  | ingest ρ f =>
    obtain ⟨g₁, hres, heq⟩ := Option.map_eq_some_iff.1 h
    obtain ⟨rfl, rfl⟩ := Prod.mk.inj heq
    exact Or.inr ⟨fun _ _ h => (nomatch h), hres, rfl⟩
  | learnMachines ρ addrs =>
    obtain ⟨g₁, hres, heq⟩ := Option.map_eq_some_iff.1 h
    obtain ⟨rfl, rfl⟩ := Prod.mk.inj heq
    exact Or.inr ⟨fun _ _ h => (nomatch h), hres, rfl⟩
  | snapshot ρ now =>
    obtain ⟨rfl, rfl⟩ := Prod.mk.inj (Option.some.inj h)
    exact Or.inr ⟨fun _ _ h => (nomatch h), rfl, rfl⟩

/-- What holds of the graph and the browser between two calls. -/
structure Synced (p : Graph × GraphState) : Prop where
  inv : p.1.Inv
  edges : EdgesAhead p.1 p.2
  nodes : NodesAhead p.1 p.2
  linked : p.2.Linked
  closed : p.2.Closed
  anchors : AnchorsGone p.1

/-- Learning keeps everything in step. -/
theorem Synced.learnStep {g g' : Graph} {s : GraphState} {ip machine : String}
    (h : Synced (g, s)) (hinv : g'.Inv) (hip : AddressLike ip)
    (hl : LearnStep ip machine g g') : Synced (g', s) where
  inv := hinv
  edges := (stable_edgesAhead s).learnStep hl h.edges
  nodes := (stable_nodesAhead s).learnStep hl h.nodes
  linked := h.linked
  closed := h.closed
  anchors := h.anchors.learnStep h.inv hl hip

/-- So does deriving the keys of a plausible flow. -/
theorem Synced.keysDerived {ρ : RangeOrder} {f : Flow} {g g' : Graph} {s : GraphState}
    {src dst : NodeKey} (h : Synced (g, s)) (hop : (Op.ingest ρ f).Plausible) (hinv : g'.Inv)
    (hkeys : KeysDerived f g src dst g') : Synced (g', s) where
  inv := hinv
  edges := (stable_edgesAhead s).keysDerived hkeys h.edges
  nodes := (stable_nodesAhead s).keysDerived hkeys h.nodes
  linked := h.linked
  closed := h.closed
  anchors := by
    obtain ⟨g₁, hinv₁, ht₁, ht₂, -, -⟩ := hkeys
    exact (h.anchors.teaches h.inv ht₁ hop.2.2.2.2.1).teaches hinv₁ ht₂ hop.2.2.2.2.2

/-- And adding it, when its ids do not contain the separator. -/
theorem Synced.ingested {ρ : RangeOrder} {f : Flow} {g g' : Graph} {s : GraphState}
    {res : Result} (h : Synced (g, s)) (hop : (Op.ingest ρ f).Plausible)
    (hbar : g.BarFree (.ingest ρ f)) (hres : g.ingest ρ f = some (g', res)) : Synced (g', s) := by
  obtain ⟨hinv', hing⟩ := ingest_inv h.inv hres
  cases hing with
  | skipped => exact h
  | self _ _ hkeys => exact h.keysDerived hop hinv' hkeys
  | added haccept hkeysRes hkeys hinv₁ hne hadd =>
    have h₁ := h.keysDerived hop hinv₁ hkeys
    rw [BarFree, hkeysRes] at hbar
    -- naming an address in this very flow may have retired an anchor: not one of its own ends
    obtain ⟨hsrc, hdst, hedge⟩ :=
      not_gone_of_plausible hop hkeys hbar.1 hbar.2 h₁.anchors
    obtain ⟨hips, hnodes, hedges⟩ := hadd.frame hinv₁
    exact {
      inv := hinv'
      edges := h₁.edges.flowAdded hinv₁ hadd hedge
      nodes := h₁.nodes.flowAdded hinv₁ hadd hsrc hdst
      linked := h₁.linked
      closed := h₁.closed
      anchors := h₁.anchors.congr (fun ip hmem => by rw [hips]; exact hmem) hnodes hedges }

/-- A tick leaves a browser that mirrors the graph. -/
theorem Synced.ticked {g : Graph} {s : GraphState} (h : Synced (g, s)) (ρ : RangeOrder)
    (now : Time) : ∃ p, pairStep (g, s) (.tick ρ now) = some p ∧ Synced p ∧ Mirrors p.1 p.2 := by
  obtain ⟨g₁, hres, hinv₁, hexp⟩ := tick_spec ρ now h.inv
  -- first what expires is dropped, then the message is built and applied
  have hedges := ((stable_edgesAhead s).expired hexp h.edges).ticked hinv₁ s ρ now
  have hnodes := ((stable_nodesAhead s).expired hexp h.nodes).ticked hinv₁ s ρ now
  have hlinked := linked_applyTick h.linked h.closed (g₁.delta ρ now)
  refine ⟨(g₁.settle, s.applyTick (g₁.delta ρ now)), ?_, ?_, ?_⟩
  · show (g.tick ρ now).map _ = _
    rw [hres]
    rfl
  · exact {
      inv := hinv₁.settle
      edges := hedges
      nodes := hnodes
      linked := hlinked
      closed := closed_of_quiet hinv₁.settle hedges hnodes (quiet_settle g₁)
      anchors := { node := fun h => (nomatch h), edge := fun h => (nomatch h) } }
  · exact mirrors_of_quiet hedges hnodes hlinked (quiet_settle g₁)

/-- Every plausible call has a result on both sides. -/
theorem Synced.step_isSome {p : Graph × GraphState} {op : Op} (h : Synced p)
    (hop : op.Plausible) : ∃ p', pairStep p op = some p' := by
  obtain ⟨g', hres, -⟩ := Graph.step_isSome h.inv hop.timed
  cases op with
  | tick ρ now =>
    obtain ⟨p', hp', -⟩ := h.ticked ρ now
    exact ⟨p', hp'⟩
  | ingest ρ f => exact ⟨(g', p.2), congrArg (Option.map fun g => (g, p.2)) hres⟩
  | learnMachines ρ addrs => exact ⟨(g', p.2), congrArg (Option.map fun g => (g, p.2)) hres⟩
  | snapshot ρ now => exact ⟨(g', p.2), congrArg (Option.map fun g => (g, p.2)) hres⟩

/-- Every plausible call whose ids do not contain the separator keeps the browser in step. -/
theorem Synced.step {p p' : Graph × GraphState} {op : Op} (h : Synced p) (hop : op.Plausible)
    (hbar : p.1.BarFree op) (hstep : pairStep p op = some p') : Synced p' := by
  obtain ⟨g, s⟩ := p
  obtain ⟨g', s'⟩ := p'
  rcases pairStep_cases hstep with ⟨ρ, now, t, rfl, -, -⟩ | ⟨htick, hres, rfl⟩
  -- a tick brings them together, whatever was pending
  · obtain ⟨q, hq, hsync, -⟩ := h.ticked ρ now
    obtain rfl : (g', s') = q := Option.some.inj (hstep.symm.trans hq)
    exact hsync
  · cases op with
    | ingest ρ f =>
      -- a flow is pending on the edges and nodes that it touches
      obtain ⟨⟨g₁, res⟩, hing, rfl⟩ := Option.map_eq_some_iff.1 hres
      exact h.ingested hop hbar hing
    | learnMachines ρ addrs =>
      obtain ⟨g₁, hres', -, hsync⟩ := learnMachines_rule (P := fun g => Synced (g, s')) ρ
        addrs (fun hget _ hs hinv hl => hs.learnStep hinv
          (hop _ (OrdMap.mem_keys.2 (OrdMap.mem_of_get? hget))) hl) h.inv h
      obtain rfl : g' = g₁ := Option.some.inj (hres.symm.trans hres')
      exact hsync
    | tick ρ now => exact absurd rfl (htick ρ now)
    | snapshot ρ now =>
      obtain rfl : g = g' := Option.some.inj hres
      exact h

/-- A fresh browser that has the snapshot of a graph. -/
def join (w : Nat) (ρ : RangeOrder) (now : Time) (g : Graph) : GraphState :=
  (GraphState.new w).applySnapshot (g.snapshot ρ now)

/-- **The browser mirrors the graph.** Start from any graph right after a tick and a fresh
browser with its snapshot. After every further run of plausible calls, the last of them a
tick, the browser that applied each tick message mirrors the graph, provided that no flow of
the run has an endpoint whose id contains the separator of edge ids. -/
theorem browser_mirrors_graph {retention : Time} {g g₀ : Graph} {t : Tick}
    {ρ ρ' ρ'' : RangeOrder} {now now' now'' : Time} (w : Nat) {ops : List Op}
    (hg : Run.Reaches Graph.step (Graph.new retention) g) (ht : g.tick ρ now = some (g₀, t))
    (hops : ∀ op ∈ ops, op.Plausible)
    (hbar : Run.EveryStep pairStep (fun p op => p.1.BarFree op) (g₀, join w ρ' now' g₀) ops) :
    ∃ g' s', Run.run pairStep (g₀, join w ρ' now' g₀) (ops ++ [.tick ρ'' now'']) = some (g', s') ∧
      Mirrors g' s' := by
  obtain ⟨g₁, rfl, -, hinv₁, -⟩ := tick_inv (reaches_inv hg) ht
  have hquiet := quiet_settle g₁
  have hedges := edgesAhead_snapshot hinv₁.settle hquiet (GraphState.new w) ρ' now'
  have hnodes := nodesAhead_snapshot hinv₁.settle hquiet (GraphState.new w) ρ' now'
  -- after a tick nothing is pending, so the page that joins knows all
  have hstart : Synced (g₁.settle, join w ρ' now' g₁.settle) := {
    inv := hinv₁.settle
    edges := hedges
    nodes := hnodes
    linked := linked_applySnapshot _ _
    closed := closed_of_quiet hinv₁.settle hedges hnodes hquiet
    anchors := { node := fun h => (nomatch h), edge := fun h => (nomatch h) } }
  obtain ⟨⟨g₂, s₂⟩, hrun, hsync⟩ := Run.run_isSome_of_everyStep (I := Synced) (D := Op.Plausible)
    (fun _ _ h hop => h.step_isSome hop) (fun _ _ _ h hop hc hstep => h.step hop hc hstep)
    hstart hops hbar
  obtain ⟨⟨g₃, s₃⟩, htick, -, hmirror⟩ := hsync.ticked ρ'' now''
  exact ⟨g₃, s₃, Run.run_concat_eq_some.2 ⟨_, hrun, htick⟩, hmirror⟩

/-- A flow between two names outside the cluster. -/
def worldFlow (src dst : String) : Flow where
  verdict := .forwarded
  time := some (100 * second)
  l4 := .tcp 80
  ip := ⟨"192.0.2.1", "192.0.2.2"⟩
  source := some { labels := ["reserved:world"] }
  destination := some { labels := ["reserved:world"] }
  sourceNames := [src]
  destinationNames := [dst]

/-- Every iteration order is the order of insertion. -/
def inOrder : RangeOrder := fun _ _ => 0

set_option maxRecDepth 10000 in
/-- The machine of a pod's client is named in the interval in which a name outside the
cluster calls another. -/
theorem browser_mirrors_graph_named :
    ∃ g' s', Run.run pairStep
      ((Graph.new (300 * second)).settle,
        join 300 inOrder (101 * second) (Graph.new (300 * second)).settle)
      ([.ingest inOrder anchoredFlow, .tick inOrder (102 * second),
          .learnMachines inOrder ((∅ : OrdMap String String).set "10.0.0.1" "n1"),
          .ingest inOrder (worldFlow "a.example" "b.example"),
          .ingest inOrder anchoredFlow] ++ [.tick inOrder (103 * second)]) = some (g', s') ∧
      Mirrors g' s' :=
  browser_mirrors_graph 300 (Run.Reaches.refl _)
    (rfl : (Graph.new (300 * second)).tick inOrder (100 * second) = some (_, _))
    (by decide) (by decide)

/-- A name outside the cluster calls a machine that is only known by its address. -/
def remoteFlow (src : String) : Flow where
  verdict := .forwarded
  time := some (100 * second)
  l4 := .tcp 80
  ip := ⟨"192.0.2.1", "10.0.0.1"⟩
  source := some { labels := ["reserved:world"] }
  destination := some { labels := ["reserved:remote-node"] }
  sourceNames := [src]

/-- Two conversations with one id: the first is retired with the anchor of its machine, the
second begins before the next tick. -/
def collision : List Op :=
  [.ingest inOrder (remoteFlow "y|reserved/world/z"), .tick inOrder (102 * second),
    .learnMachines inOrder ((∅ : OrdMap String String).set "10.0.0.1" "n1"),
    .ingest inOrder (worldFlow "y" "z|reserved/remote-node/10.0.0.1")]

set_option maxRecDepth 10000 in
/-- **Without the condition on the separator the browser can lose an edge.** The tick after
the collision upserts the second conversation and then removes it under the id of the first. -/
theorem not_browser_mirrors_graph_of_plausible :
    ¬ ∀ (retention : Time) (g g₀ : Graph) (t : Tick) (ρ ρ' ρ'' : RangeOrder)
        (now now' now'' : Time) (w : Nat) (ops : List Op),
      Run.Reaches Graph.step (Graph.new retention) g → g.tick ρ now = some (g₀, t) →
      (∀ op ∈ ops, op.Plausible) →
      ∃ g' s', Run.run pairStep (g₀, join w ρ' now' g₀) (ops ++ [.tick ρ'' now'']) = some (g', s') ∧
        Mirrors g' s' := by
  intro h
  let g₀ : Graph := (Graph.new (300 * second)).settle
  obtain ⟨g', s', hrun, hmirror⟩ := h (300 * second) (Graph.new (300 * second)) g₀ _ inOrder
    inOrder inOrder (100 * second) (101 * second) (103 * second) 300 collision
    (Run.Reaches.refl _) rfl (by decide)
  let eid := "reserved/world/y|reserved/world/z|reserved/remote-node/10.0.0.1|TCP|80"
  -- the two edges have one id, and the tick that reports one gone takes the other
  have heval : (Run.run pairStep (g₀, join 300 inOrder (101 * second) g₀)
      (collision ++ [.tick inOrder (103 * second)])).map
        (fun p => (decide (eid ∈ p.1.edges), decide (eid ∈ p.2.edges))) = some (true, false) := by
    decide
  rw [hrun, Option.map_some, Option.some.injEq, Prod.mk.injEq, decide_eq_true_eq,
    decide_eq_false_iff_not] at heval
  exact heval.2 ((hmirror.edge_ids eid).2 heval.1)

end Sync

end Flowscape
