import Flowscape.Sync.Refinement

/-!
# Flowscape: a browser that joins between two ticks

A snapshot carries totals; a tick carries the increments since the tick before it. A flow that
is ingested between that tick and the snapshot is in both, and a browser that applies the
snapshot and then the tick counts it twice.

The totals are right for good exactly when nothing is pending at the snapshot. That is a
statement about the runs in which no flow lands on an edge that is reported gone
(`AvoidsGone`): such a flow is lost to every client, whenever it joined.
-/

namespace Flowscape

namespace Graph

/-- The flow is counted on an edge that the clients are about to be told is gone. -/
def landsOnGone (ρ : RangeOrder) (f : Flow) (g : Graph) : Bool :=
  match accept f, g.endpointKeys ρ f with
  | .ok _, some (src, dst, g₁) => src ≠ dst && (flowKey f src dst).id ∈ g₁.goneEdges
  | _, _ => false

/-- The call counts no flow on an edge that is reported gone. -/
def AvoidsGone (g : Graph) : Op → Prop
  | .ingest ρ f => g.landsOnGone ρ f = false
  | _ => True

instance (g : Graph) : DecidablePred g.AvoidsGone
  | .ingest ρ f => inferInstanceAs (Decidable (g.landsOnGone ρ f = false))
  | .learnMachines _ _ => isTrue trivial
  | .tick _ _ => isTrue trivial
  | .snapshot _ _ => isTrue trivial

theorem AvoidsGone.not_mem {g g₁ : Graph} {ρ : RangeOrder} {f : Flow} {v : VerdictCode}
    {src dst : NodeKey} (h : g.AvoidsGone (.ingest ρ f)) (haccept : accept f = .ok v)
    (hkeys : g.endpointKeys ρ f = some (src, dst, g₁)) (hne : src ≠ dst) :
    (flowKey f src dst).id ∉ g₁.goneEdges := by
  rw [AvoidsGone, landsOnGone, haccept, hkeys] at h
  simpa [hne] using h

/-- The pending entries of a graph whose history avoids gone edges. -/
structure PendingSound (g : Graph) : Prop where
  dead : ∀ {id}, id ∈ g.goneEdges → g.edges.get? id = none
  /-- An entry of `dirty` has counted something. -/
  counted : ∀ {id d}, g.dirty.get? id = some d → ∃ v, d v ≠ 0

theorem PendingSound.congr {g g' : Graph} (h : PendingSound g) (hedges : g'.edges = g.edges)
    (hdirty : g'.dirty = g.dirty) (hgone : g'.goneEdges = g.goneEdges) : PendingSound g' where
  dead hid := by
    rw [hedges]
    exact h.dead (hgone ▸ hid)
  counted hd := h.counted (hdirty ▸ hd)

/-- What is forgotten or dropped leaves it. -/
theorem stable_pendingSound : Stable PendingSound where
  nodeIPs _ h := h.congr rfl rfl rfl
  dropped {p _ _} hd h := {
    dead := fun {id} hid => by
      -- an edge that is dropped is gone and no longer dirty; another one is as before
      by_cases hp : p id
      · exact hd.edges_gone hp
      · rw [hd.edges_kept hp]
        exact h.dead ((hd.goneEdges.1 hid).resolve_left hp)
    counted := fun {id d} hget => by
      by_cases hp : p id
      · rw [hd.dirty_gone hp] at hget
        cases hget
      · rw [hd.dirty_kept hp] at hget
        exact h.counted hget }
  forgotten hf h := h.congr hf.edges hf.dirty hf.goneEdges

/-- A flow that is counted leaves it, when its edge is not reported gone. -/
theorem PendingSound.flowAdded {f : Flow} {v : VerdictCode} {src dst : NodeKey} {g g' : Graph}
    (hinv : g.Inv) (hadd : FlowAdded f v src dst g g')
    (hedge : (flowKey f src dst).id ∉ g.goneEdges) (h : PendingSound g) : PendingSound g' := by
  refine hadd.rule h (fun _ h => h.congr rfl rfl rfl)
    (fun _ _ _ ht h => h.congr ht.edges ht.dirty ht.goneEdges)
    (fun _ hp h => h.congr hp.edges hp.dirty hp.goneEdges) (fun _ hgone hc h => ?_) hinv
  obtain ⟨e, -, hedges⟩ := hc.edge
  exact {
    dead := fun {id} hid => by
      rw [hc.goneEdges] at hid
      have hne : id ≠ (flowKey f src dst).id := fun heq => hedge (hgone ▸ heq ▸ hid)
      rw [hedges, if_neg hne]
      exact h.dead hid
    counted := fun {id d} hget => by
      rw [hc.dirty] at hget
      split at hget
      · obtain rfl := Option.some.inj hget
        -- the entry has counted this very flow
        exact ⟨v, by rw [Function.update_self]; exact Nat.succ_ne_zero _⟩
      · exact h.counted hget }

theorem PendingSound.step {g g' : Graph} {op : Op} (hinv : g.Inv) (h : PendingSound g)
    (hop : g.AvoidsGone op) (hstep : g.step op = some g') : PendingSound g' := by
  refine stable_pendingSound.step hinv hstep h ?_ ?_
  · rintro ρ f v src dst g₁ rfl haccept hkeys hne hinv₁ h₁ hadd
    exact h₁.flowAdded hinv₁ hadd (hop.not_mem haccept hkeys hne)
  · exact fun _ => { dead := fun hid => (nomatch hid), counted := fun hd => by cases hd }

/-- What the history of a graph gives, when it avoids gone edges. -/
theorem reaches_pendingSound {retention : Time} {g : Graph} {ops : List Op}
    (hops : Run.EveryStep step AvoidsGone (new retention) ops)
    (hrun : Run.run step (new retention) ops = some g) : g.Inv ∧ PendingSound g :=
  Run.invariant_of_everyStep (I := fun g => g.Inv ∧ PendingSound g)
    (fun _ _ _ h hop hstep => ⟨step_inv h.1 hstep, h.2.step h.1 hop hstep⟩) hops hrun
    ⟨inv_new retention, { dead := fun hid => (nomatch hid), counted := fun hd => by cases hd }⟩

end Graph

namespace Sync

open Flowscape.Graph GraphState

/-- Every edge the browser holds is an edge of the graph, with the graph's counters. -/
def TotalsAgree (g : Graph) (s : GraphState) : Prop :=
  ∀ id es, s.edges.get? id = some es → ∃ e, g.edges.get? id = some e ∧ es.totals = e.counts

/-- A browser that has just applied a snapshot lacks nothing but what is pending, unless
something is: then it has that too. -/
theorem totalsAhead_snapshot {g : Graph} (hinv : g.Inv) (hp : PendingSound g)
    (hd : g.dirty = ∅) (s : GraphState) (ρ : RangeOrder) (now : Time) :
    TotalsAhead g (s.applySnapshot (g.snapshot ρ now)) where
  known {id e es} he hs v := by
    rw [applySnapshot_edgeInfo s hinv, he] at hs
    obtain rfl := Option.some.inj hs
    -- the snapshot has the totals, and nothing is dirty, so nothing is to be added
    rw [pending, hd]
    rfl
  fresh {id e} he hs := by
    rw [applySnapshot_edgeInfo s hinv, he] at hs
    cases hs
  gone {id es} hs he := by
    rw [applySnapshot_edgeInfo s hinv, he] at hs
    cases hs
  dead := hp.dead

/-- **Graph and page step together**: what the page lacks is what is pending. -/
theorem TotalsAhead.step {g g' : Graph} {s s' : GraphState} {op : Op} (hinv : g.Inv)
    (h : TotalsAhead g s) (hop : g.AvoidsGone op) (hstep : pairStep (g, s) op = some (g', s')) :
    g'.Inv ∧ TotalsAhead g' s' := by
  rcases pairStep_cases hstep with ⟨ρ, now, t, rfl, hres, rfl⟩ | ⟨htick, hres, rfl⟩
  · obtain ⟨g₁, rfl, rfl, hinv₁, hexp⟩ := tick_inv hinv hres
    exact ⟨hinv₁.settle, ((stable_totalsAhead s).expired hexp h).ticked hinv₁ s ρ now⟩
  · refine ⟨step_inv hinv hres, (stable_totalsAhead s').call hinv htick hres h ?_⟩
    rintro ρ f v src dst g₁ rfl haccept hkeys hne hinv₁ h₁ hadd
    exact h₁.flowAdded hinv₁ hadd (hop.not_mem haccept hkeys hne)

/-- After a tick the totals agree. -/
theorem TotalsAhead.agree {g : Graph} {s : GraphState} (h : TotalsAhead g s) (hq : Quiet g) :
    TotalsAgree g s := by
  intro id es hes
  have hs := edgeInfo_of_get? hes
  cases he : g.edges.get? id with
  | none =>
    -- an edge that only the page has is reported gone, and nothing is
    have hgone := h.gone hs he
    rw [hq.goneEdges] at hgone
    cases hgone
  | some e =>
    refine ⟨e, rfl, funext fun v => ?_⟩
    have hsum := h.known he hs v
    rw [pending, hq.dirty] at hsum
    exact hsum

/-- A tick at which the edge is not idle sends what is pending for it on top of the totals
that the browser has from the snapshot. -/
theorem totals_of_pending {g : Graph} (hinv : g.Inv) (hp : PendingSound g) {id : String}
    {d : Counters} {e : Edge} (hd : g.dirty.get? id = some d) (he : g.edges.get? id = some e)
    (s : GraphState) (ρ ρ' : RangeOrder) (now : Time) :
    ∃ g' s', pairStep (g, s.applySnapshot (g.snapshot ρ now))
        (.tick ρ' (e.lastSeen + g.retention)) = some (g', s') ∧
      g'.edges.get? id = some e ∧
      ∃ es, s'.edges.get? id = some es ∧ ∀ v, es.totals v = e.counts v + d v := by
  obtain ⟨g₁, hres, hinv₁, g₂, -, hdrop, hforget⟩ :=
    tick_spec ρ' (e.lastSeen + g.retention) hinv
  -- the cutoff is the time the edge was last seen, so the edge stays
  have hkept : ¬ g.IdleEdge (e.lastSeen + g.retention - g.retention) id := by
    rintro ⟨e', he', hlt⟩
    obtain rfl : e = e' := Option.some.inj (he.symm.trans he')
    rw [Int.add_sub_cancel] at hlt
    exact lt_irrefl _ hlt
  have he₁ : g₁.edges.get? id = some e := by
    rw [hforget.edges, hdrop.edges_kept hkept, he]
  have hd₁ : g₁.dirty.get? id = some d := by
    rw [hforget.dirty, hdrop.dirty_kept hkept, hd]
  have hp₁ : PendingSound g₁ :=
    stable_pendingSound.forgotten hforget (stable_pendingSound.dropped hdrop hp)
  have hgone : id ∉ g₁.goneEdges := by
    intro hg
    rw [hp₁.dead hg] at he₁
    cases he₁
  let s₀ := s.applySnapshot (g.snapshot ρ now)
  refine ⟨g₁.settle, s₀.applyTick (g₁.delta ρ' (e.lastSeen + g.retention)), ?_, he₁, ?_⟩
  · show (g.tick ρ' _).map _ = _
    rw [hres]
    rfl
  · have hs₀ : s₀.edgeInfo id = some (snapshotInfo e) := by
      rw [applySnapshot_edgeInfo s hinv, he]
      rfl
    rcases applyTick_edgeInfo hinv₁ s₀ ρ' (e.lastSeen + g.retention) hgone with
      ⟨d', e', hd', he', hs'⟩ | ⟨hnd, -⟩
    · obtain rfl : e = e' := Option.some.inj (he₁.symm.trans he')
      obtain rfl : d = d' := Option.some.inj (hd₁.symm.trans hd')
      obtain ⟨es, hes, hinfo⟩ := Option.map_eq_some_iff.1 hs'
      refine ⟨es, hes, fun v => ?_⟩
      rw [hs₀, Option.getD_some] at hinfo
      show es.info.totals v = _
      rw [hinfo]
      rfl
    · exact absurd (OrdMap.mem_of_get? hd₁) hnd

/-- A browser that applies the snapshot of `g` and then every later tick has the graph's totals
after each of these ticks, on every run that counts no flow on an edge reported gone. -/
def CountsOnce (g : Graph) (s : GraphState) (ρ : RangeOrder) (now : Time) : Prop :=
  ∀ ops ρ' now' g' s',
    Run.EveryStep pairStep (fun p op => p.1.AvoidsGone op)
      (g, s.applySnapshot (g.snapshot ρ now)) ops →
    Run.run pairStep (g, s.applySnapshot (g.snapshot ρ now)) (ops ++ [.tick ρ' now'])
      = some (g', s') → TotalsAgree g' s'

/-- **A late joiner counts every flow once exactly when nothing is pending.** The graph is any
that a history reaches which counts no flow on an edge reported gone; the browser is any that
applies its snapshot, be it new or told to start over. -/
theorem countsOnce_iff_nothing_pending {retention : Time} {past : List Op} {g : Graph}
    (hpast : Run.EveryStep Graph.step AvoidsGone (Graph.new retention) past)
    (hrun : Run.run Graph.step (Graph.new retention) past = some g) (s : GraphState)
    (ρ : RangeOrder) (now : Time) : CountsOnce g s ρ now ↔ g.dirty = ∅ := by
  obtain ⟨hinv, hp⟩ := reaches_pendingSound hpast hrun
  constructor
  · intro h
    by_contra hne
    obtain ⟨id, hmem⟩ : ∃ id, id ∈ g.dirty := OrdMap.exists_mem_of_ne_empty hne
    obtain ⟨d, hd⟩ := OrdMap.mem_iff.1 hmem
    obtain ⟨e, he⟩ := OrdMap.mem_iff.1 (hinv.dirty hmem)
    obtain ⟨g', s', htick, he', es, hes, htotals⟩ :=
      totals_of_pending hinv hp hd he s ρ ρ now
    -- with no call in between, the next tick already counts the pending flows again
    obtain ⟨e₁, he₁, heq⟩ := h [] ρ _ g' s' trivial
      (Run.run_concat_eq_some.2 ⟨_, rfl, htick⟩) id es hes
    obtain rfl : e = e₁ := Option.some.inj (he'.symm.trans he₁)
    obtain ⟨v, hv⟩ := hp.counted hd
    have hsum := htotals v
    rw [heq] at hsum
    omega
  · -- all calls but the last keep `TotalsAhead`, and the last tick settles what is pending
    intro hd ops ρ' now' g' s' hops hr
    obtain ⟨⟨g₁, s₁⟩, hr₁, htick⟩ := Run.run_concat_eq_some.1 hr
    obtain ⟨hinv₁, h₁⟩ := Run.invariant_of_everyStep
      (I := fun p : Graph × GraphState => p.1.Inv ∧ TotalsAhead p.1 p.2)
      (fun _ _ _ h hop hstep => h.2.step h.1 hop hstep) hops hr₁
      ⟨hinv, totalsAhead_snapshot hinv hp hd s ρ now⟩
    obtain ⟨hinv', h'⟩ :=
      h₁.step hinv₁ (show g₁.AvoidsGone (.tick ρ' now') from trivial) htick
    rcases pairStep_cases htick with ⟨_, _, t, heq, hres, -⟩ | ⟨hne, -⟩
    · cases heq
      obtain ⟨g₂, rfl, -⟩ := tick_inv hinv₁ hres
      exact h'.agree (quiet_settle g₂)
    · exact absurd rfl (hne ρ' now')

set_option maxRecDepth 10000 in
/-- A flow and a tick, and then another flow: nothing is pending in between, and one flow is at
the end. -/
theorem countsOnce_iff_nothing_pending_flow :
    ∃ g, Run.run Graph.step (Graph.new (300 * second))
        [.ingest inOrder anchoredFlow, .tick inOrder (101 * second),
          .ingest inOrder anchoredFlow] = some g ∧
      (CountsOnce g (GraphState.new 300) inOrder (102 * second) ↔ g.dirty = ∅) := by
  have hsome : (Run.run Graph.step (Graph.new (300 * second))
      [.ingest inOrder anchoredFlow, .tick inOrder (101 * second),
        .ingest inOrder anchoredFlow]).isSome = true := by decide
  obtain ⟨g, hg⟩ := Option.isSome_iff_exists.1 hsome
  exact ⟨g, hg, countsOnce_iff_nothing_pending (by decide) hg _ _ _⟩

set_option maxRecDepth 10000 in
/-- **A browser that joins between a flow and the tick after it counts the flow twice.** -/
theorem not_totals_agree_after_join :
    ¬ ∀ (retention : Time) (g g' : Graph) (s s' : GraphState) (ρ ρ' : RangeOrder)
        (now now' : Time) (ops : List Op),
      Run.Reaches Graph.step (Graph.new retention) g →
      Run.run pairStep (g, s.applySnapshot (g.snapshot ρ now)) (ops ++ [.tick ρ' now'])
        = some (g', s') → TotalsAgree g' s' := by
  intro h
  let eid := "reserved/remote-node/10.0.0.1|shop/Pod/cart-0|TCP|80"
  let start : Option (Graph × GraphState) :=
    (Run.run Graph.step (Graph.new (300 * second)) [.ingest inOrder anchoredFlow]).map
      fun g => (g, join 300 inOrder (101 * second) g)
  -- the flow was dirty when the snapshot was taken, so the tick adds it a second time
  have heval : (start.bind fun p => (pairStep p (.tick inOrder (102 * second))).map fun q =>
      ((q.1.edges.get? eid).map fun e => e.counts 0,
        (q.2.edges.get? eid).map fun es => es.totals 0)) = some (some 1, some 2) := by
    decide
  obtain ⟨p, hp, hnext⟩ := Option.bind_eq_some_iff.1 heval
  obtain ⟨g, hg, rfl⟩ := Option.map_eq_some_iff.1 hp
  obtain ⟨⟨g', s'⟩, hq, hcounts⟩ := Option.map_eq_some_iff.1 hnext
  obtain ⟨hone, htwo⟩ := Prod.mk.inj hcounts
  obtain ⟨e, he, hone⟩ := Option.map_eq_some_iff.1 hone
  obtain ⟨es, hes, htwo⟩ := Option.map_eq_some_iff.1 htwo
  obtain ⟨e', he', heq⟩ := h _ g g' _ s' _ _ _ _ [] ⟨_, hg⟩
    (Run.run_concat_eq_some.2 ⟨_, rfl, hq⟩) eid es hes
  obtain rfl : e = e' := Option.some.inj (he.symm.trans he')
  rw [heq, hone] at htwo
  cases htwo

end Sync

end Flowscape
