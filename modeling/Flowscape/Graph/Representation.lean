import Flowscape.Lib.Run
import Flowscape.Graph.Tick

/-!
# Flowscape: the representation invariant over whole runs

The invariant holds in every state that the calls reach from an empty graph. With it every
call has a result: no lookup `g.nodes[...].edges` runs into a missing node.
-/

namespace Flowscape

/-- The nodes of a snapshot include both ends of each of its edges. -/
def Snapshot.Closed (s : Snapshot) : Prop :=
  ∀ e ∈ s.edges, (∃ n ∈ s.nodes, n.id = e.src) ∧ ∃ n ∈ s.nodes, n.id = e.dst

namespace Graph

/-- The call does not carry a flow from before 1970. -/
def Op.Timed : Op → Prop
  | .ingest _ f => 0 ≤ f.asTime
  | _ => True

instance : DecidablePred Op.Timed
  | .ingest _ f => inferInstanceAs (Decidable (0 ≤ f.asTime))
  | .learnMachines _ _ => isTrue trivial
  | .tick _ _ => isTrue trivial
  | .snapshot _ _ => isTrue trivial

/-- The ids of the flow's endpoints do not contain the separator of edge ids. -/
def BarFree (g : Graph) : Op → Prop
  | .ingest ρ f =>
    match g.endpointKeys ρ f with
    | none => True
    | some (src, dst, _) => '|' ∉ src.id.toList ∧ '|' ∉ dst.id.toList
  | _ => True

instance (g : Graph) : DecidablePred g.BarFree
  | .ingest ρ f =>
    match h : g.endpointKeys ρ f with
    | none => isTrue (by simp [BarFree, h])
    | some (src, dst, g') =>
      decidable_of_iff ('|' ∉ src.id.toList ∧ '|' ∉ dst.id.toList) (by simp [BarFree, h])
  | .learnMachines _ _ => isTrue trivial
  | .tick _ _ => isTrue trivial
  | .snapshot _ _ => isTrue trivial

theorem learnMachines_spec (ρ : RangeOrder) (addrs : OrdMap String String) {g : Graph}
    (hinv : g.Inv) : ∃ g', g.learnMachines ρ addrs = some g' ∧ g'.Inv := by
  obtain ⟨g', hres, hinv', -⟩ := learnMachines_rule (P := fun _ => True) ρ addrs
    (fun _ _ _ _ _ => trivial) hinv trivial
  exact ⟨g', hres, hinv'⟩

/-- Whenever a call returns, the graph has kept its invariant. -/
theorem step_inv {g g' : Graph} {op : Op} (hinv : g.Inv) (h : g.step op = some g') : g'.Inv := by
  cases op with
  | ingest ρ f =>
    obtain ⟨⟨g₁, res⟩, hres, rfl⟩ := Option.map_eq_some_iff.1 h
    exact (ingest_inv hinv hres).1
  | learnMachines ρ addrs =>
    obtain ⟨g₁, hres, hinv₁⟩ := learnMachines_spec ρ addrs hinv
    obtain rfl : g₁ = g' := Option.some.inj (hres.symm.trans h)
    exact hinv₁
  -- settling empties the change lists, which the invariant wants to be about nodes that are there
  | tick ρ now =>
    obtain ⟨⟨g₁, t⟩, hres, rfl⟩ := Option.map_eq_some_iff.1 h
    obtain ⟨g₂, rfl, -, hinv₂, -⟩ := tick_inv hinv hres
    exact hinv₂.settle
  | snapshot ρ now =>
    obtain rfl : g = g' := Option.some.inj h
    exact hinv

/-- The rule for a call between two ticks: what the removals and adding a flow keep, it
keeps. -/
theorem Stable.call {R : Graph → Prop} (hR : Stable R) {g g' : Graph} {op : Op}
    (hinv : g.Inv) (htick : ∀ ρ now, op ≠ .tick ρ now) (h : g.step op = some g') (hg : R g)
    (hadd : ∀ {ρ f v src dst g₁}, op = .ingest ρ f → accept f = .ok v →
      g.endpointKeys ρ f = some (src, dst, g₁) → src ≠ dst → g₁.Inv → R g₁ →
      FlowAdded f v src dst g₁ g' → R g') : R g' := by
  -- a flow changes more than the maps, and its count is left to the caller
  cases op with
  | ingest ρ f =>
    obtain ⟨⟨g₁, res⟩, hres, rfl⟩ := Option.map_eq_some_iff.1 h
    exact hR.ingested (ingest_inv hinv hres).2 hg (hadd rfl)
  | learnMachines ρ addrs =>
    obtain ⟨g₁, hres, -, hr⟩ := learnMachines_rule (P := R) ρ addrs
      (fun _ _ hr _ hl => hR.learnStep hl hr) hinv hg
    obtain rfl : g₁ = g' := Option.some.inj (hres.symm.trans h)
    exact hr
  | tick ρ now => exact absurd rfl (htick ρ now)
  | snapshot ρ now =>
    obtain rfl : g = g' := Option.some.inj h
    exact hg

/-- The rule for any call: a tick must also keep it when it settles. -/
theorem Stable.step {R : Graph → Prop} (hR : Stable R) {g g' : Graph} {op : Op}
    (hinv : g.Inv) (h : g.step op = some g') (hg : R g)
    (hadd : ∀ {ρ f v src dst g₁}, op = .ingest ρ f → accept f = .ok v →
      g.endpointKeys ρ f = some (src, dst, g₁) → src ≠ dst → g₁.Inv → R g₁ →
      FlowAdded f v src dst g₁ g' → R g')
    (hsettle : ∀ {g}, R g → R g.settle) : R g' := by
  by_cases htick : ∃ ρ now, op = .tick ρ now
  · obtain ⟨ρ, now, rfl⟩ := htick
    obtain ⟨⟨g₁, t⟩, hres, rfl⟩ := Option.map_eq_some_iff.1 h
    obtain ⟨g₂, rfl, -, -, hexp⟩ := tick_inv hinv hres
    exact hsettle (hR.expired hexp hg)
  · exact hR.call hinv (fun ρ now heq => htick ⟨ρ, now, heq⟩) h hg hadd

/-- A call with flows of non-negative times returns. -/
theorem step_isSome {g : Graph} {op : Op} (hinv : g.Inv) (hop : op.Timed) :
    ∃ g', g.step op = some g' ∧ g'.Inv := by
  -- only a flow from before 1970 could fail
  have hres : ∃ g', g.step op = some g' := by
    cases op with
    | ingest ρ f =>
      obtain ⟨g', res, hres, -⟩ := ingest_spec ρ hop hinv
      exact ⟨g', by rw [step, hres]; rfl⟩
    | learnMachines ρ addrs =>
      obtain ⟨g', hres, -⟩ := learnMachines_spec ρ addrs hinv
      exact ⟨g', hres⟩
    | tick ρ now =>
      obtain ⟨g₁, hres, -⟩ := tick_spec ρ now hinv
      exact ⟨g₁.settle, by rw [step, hres]; rfl⟩
    | snapshot ρ now => exact ⟨g, rfl⟩
  obtain ⟨g', hres⟩ := hres
  exact ⟨g', hres, step_inv hinv hres⟩

/-- **The invariant holds in every graph that is reached.** -/
theorem reaches_inv {retention : Time} {g : Graph}
    (h : Run.Reaches step (new retention) g) : g.Inv :=
  h.invariant (fun _ _ _ hinv hstep => step_inv hinv hstep) (inv_new retention)

/-- Every edge of a snapshot has its ends in it. -/
theorem snapshot_closed {g : Graph} (hinv : g.Inv) (ρ : RangeOrder) (now : Time) :
    (g.snapshot ρ now).Closed := by
  intro we he
  obtain ⟨eid, e, hget, rfl⟩ := mem_snapshot_edges.1 he
  have hnode : ∀ {id}, id ∈ g.nodes → ∃ n ∈ (g.snapshot ρ now).nodes, n.id = id := by
    intro id hmem
    obtain ⟨r, hr⟩ := OrdMap.mem_iff.1 hmem
    exact ⟨_, mem_snapshot_nodes.2 ⟨id, r, hr, rfl⟩, (hinv.named hr).1⟩
  obtain ⟨hs, hd⟩ := hinv.closed hget
  exact ⟨hnode hs, hnode hd⟩

/-- What holds of the maps of a graph between two calls. -/
structure Sound (g : Graph) : Prop where
  /-- Both ends of every edge are nodes. -/
  closed : ∀ eid e, g.edges.get? eid = some e →
    e.key.src.id ∈ g.nodes ∧ e.key.dst.id ∈ g.nodes
  /-- The `edges` counter of a node is the number of edge ends with its id. -/
  counter : ∀ id n, g.node? id = some n → n.edges = g.degree id
  /-- A pending node is a live node, the same object. -/
  newNodes : ∀ id r, g.newNodes.get? id = some r → g.nodes.get? id = some r
  dirtyNode : ∀ id r, g.dirtyNode.get? id = some r → g.nodes.get? id = some r
  /-- A pending edge is a live edge. -/
  dirty : ∀ eid ∈ g.dirty, eid ∈ g.edges
  dirtyL7 : ∀ eid ∈ g.dirtyL7, eid ∈ g.edges
  snapshot : ∀ ρ now, (g.snapshot ρ now).Closed

/-- What the invariant of the heap says of the graph as it is read. -/
theorem Inv.sound {g : Graph} (hinv : g.Inv) : g.Sound where
  closed _ _ h := hinv.closed h
  counter id n hn := by
    obtain ⟨r, hr, rfl⟩ := Option.map_eq_some_iff.1 hn
    exact hinv.counter hr
  newNodes _ _ h := hinv.newNodes h
  dirtyNode _ _ h := hinv.dirtyNode h
  dirty _ h := hinv.dirty h
  dirtyL7 _ h := hinv.dirtyL7 h
  snapshot ρ now := snapshot_closed hinv ρ now

/-- **The representation invariant.** Every sequence of calls on an empty graph runs to its
end, so no lookup misses a node, and the maps of the graph it reaches are sound. -/
theorem run_representation (retention : Time) (ops : List Op) (hops : ∀ op ∈ ops, op.Timed) :
    ∃ g, Run.run step (new retention) ops = some g ∧ g.Sound := by
  obtain ⟨g, hrun, hinv⟩ := Run.run_isSome (I := Graph.Inv) (D := Op.Timed)
    (fun _ _ hinv hop => step_isSome hinv hop) (inv_new retention) hops
  exact ⟨g, hrun, hinv.sound⟩

/-- A pod hears from a machine that is only known by its address. -/
def anchoredFlow : Flow where
  verdict := .forwarded
  time := some (100 * second)
  nodeName := "default/n2"
  l4 := .tcp 80
  ip := ⟨"10.0.0.1", "10.1.0.7"⟩
  source := some { labels := ["reserved:remote-node"] }
  destination := some { «namespace» := "shop", podName := "cart-0" }
  trafficDirection := .ingress

/-- The machine is counted on, named (which retires its anchor), and seen again. -/
theorem run_representation_retired :
    ∃ g, Run.run step (new (300 * second))
      [.ingest (fun _ _ => 0) anchoredFlow,
        .learnMachines (fun _ _ => 0) ((∅ : OrdMap String String).set "10.0.0.1" "n1"),
        .tick (fun _ _ => 0) (101 * second), .ingest (fun _ _ => 0) anchoredFlow,
        .tick (fun _ _ => 0) (900 * second)] = some g ∧ g.Sound :=
  run_representation _ _ (by decide)

end Graph

end Flowscape
