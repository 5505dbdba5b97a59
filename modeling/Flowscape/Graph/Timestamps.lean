import Flowscape.Graph.Representation
import Flowscape.Graph.Seconds

/-!
# Flowscape: timestamps that stop the program

A flow that is neither ignored nor between two sides of one node is counted in the ring of its
edge. In every state that the calls reach, the rings are those of the retention with flows
counted in them, so they have as many slots as the retention has whole seconds. A call returns
exactly when its flow has a slot there: the time is from 1970 on, or its second lies a whole
number of ring lengths before 1970.
-/

namespace Flowscape

namespace Graph

/-- The ring of every edge is a new ring of the retention in which flows were counted. -/
def RingsCounted (g : Graph) : Prop :=
  ∀ id e, g.edges.get? id = some e →
    ∃ adds, (newRing (g.retention / second)).addAll adds = some e.ring

/-- The flow is ignored, or its second has a slot. -/
def HasSlot (g : Graph) (f : Flow) : Prop :=
  (∃ reason, accept f = .error reason) ∨ sourceKey f g.nodeIPs = destinationKey f g.nodeIPs ∨
    0 ≤ f.asTime.unix ∨ g.retention / second ∣ f.asTime.unix

/-- The condition on a call. -/
def Survives (g : Graph) : Op → Prop
  | .ingest _ f => g.HasSlot f
  | _ => True

/-! ## The rings of a graph -/

theorem ringsCounted_new (retention : Time) : (new retention).RingsCounted := by
  intro id e h
  simp [new] at h

/-- A graph with the same edges, or fewer, and the same retention. -/
theorem RingsCounted.mono {g g' : Graph} (h : g.RingsCounted)
    (hretention : g'.retention = g.retention)
    (hedges : ∀ id e, g'.edges.get? id = some e → g.edges.get? id = some e) :
    g'.RingsCounted := by
  intro id e he
  rw [hretention]
  exact h id e (hedges id e he)

/-- Whatever drops edges and nodes keeps the rings of the others. -/
theorem stable_ringsCounted : Stable RingsCounted where
  nodeIPs _ h := h
  dropped {p g g'} hd h := by
    apply h.mono hd.retention
    intro id e he
    by_cases hp : p id
    · rw [hd.edges_gone hp] at he
      cases he
    · exact (hd.edges_kept hp).symm.trans he
  forgotten hf h := h.mono hf.retention fun id e he => by rwa [hf.edges] at he

/-- The edge that a flow lands on, found or new. -/
theorem RingsCounted.touched {g : Graph} (h : g.RingsCounted) (ek : EdgeKey) :
    ∃ adds, (newRing (g.retention / second)).addAll adds
      = some ((g.edges.get? ek.id).getD (newEdge g.retention ek)).ring := by
  cases hget : g.edges.get? ek.id with
  | some e => exact h _ e hget
  | none => exact ⟨[], rfl⟩

/-- A flow is counted in the ring of its edge, which keeps its length. -/
theorem RingsCounted.counted {f : Flow} {t : Time} {v : VerdictCode} {ek : EdgeKey}
    {g g' : Graph} (hc : Counted f t v ek g g') (h : g.RingsCounted) : g'.RingsCounted := by
  obtain ⟨e, he, hedges⟩ := hc.edge
  intro id e' he'
  rw [hc.retention]
  rw [hedges] at he'
  split at he'
  · obtain rfl : e = e' := Option.some.inj he'
    obtain ⟨adds, hadds⟩ := h.touched ek
    obtain ⟨ring, hring, rfl⟩ := Option.map_eq_some_iff.1 he
    exact ⟨adds ++ [(t.unix, v)], Run.run_concat_eq_some.2 ⟨_, hadds, hring⟩⟩
  · exact h id e' he'

/-- **Every operation keeps the rings.** -/
theorem RingsCounted.step {g g' : Graph} {op : Op} (hinv : g.Inv) (h : g.RingsCounted)
    (hstep : g.step op = some g') : g'.RingsCounted :=
  stable_ringsCounted.step hinv hstep h
    (fun _ _ _ _ hinv₁ h₁ hadd => hadd.rule (R := RingsCounted) h₁ (fun _ h => h)
      (fun _ _ _ ht h => h.mono ht.retention fun _ _ he => by rwa [ht.edges] at he)
      (fun _ hp h => h.mono hp.retention fun _ _ he => by rwa [hp.edges] at he)
      (fun _ _ hc h => h.counted hc) hinv₁)
    fun h => h

/-- Flows are counted in rings of one size, the whole seconds of the retention. -/
theorem RingsCounted.length_touched {g : Graph} (h : g.RingsCounted) (ek : EdgeKey) :
    ((g.edges.get? ek.id).getD (newEdge g.retention ek)).ring.slots.length
      = (g.retention / second).toNat := by
  obtain ⟨adds, hadds⟩ := h.touched ek
  rw [((Ring.holds_newRing _).addAll hadds).1, length_newRing]

/-! ## Which flows are counted -/

/-- The slot is in the ring when the second is not negative, or is a multiple of the length: Go's
remainder has the sign of the second. -/
theorem countOnEdge_isSome_iff {f : Flow} {t : Time} {v : VerdictCode} {e : Edge} :
    (∃ e', countOnEdge f t v e = some e') ↔
      0 < e.ring.slots.length ∧ (0 ≤ t.unix ∨ (e.ring.slots.length : Int) ∣ t.unix) := by
  constructor
  · rintro ⟨e', he⟩
    obtain ⟨ring, hring, -⟩ := Option.map_eq_some_iff.1 he
    obtain ⟨hlen, hsec, -⟩ := Ring.add_eq_some_iff.1 hring
    exact ⟨hlen, hsec⟩
  · rintro ⟨hlen, hsec⟩
    exact ⟨_, by rw [countOnEdge, Ring.add_eq_some_iff.2 ⟨hlen, hsec, rfl⟩, Option.map_some]⟩

/-- A flow between two nodes is counted when its second has a slot. -/
theorem addFlow_isSome_iff (f : Flow) (v : VerdictCode) (src dst : NodeKey) {g : Graph}
    (hinv : g.Inv) (hcounted : g.RingsCounted) :
    (∃ p, g.addFlow f v src dst = some p) ↔
      0 ≤ f.asTime.unix ∨ g.retention / second ∣ f.asTime.unix := by
  obtain ⟨hstaged, hinv₃, hs, hd⟩ := staged_spec f src dst hinv
  obtain ⟨hedges, hretention⟩ := hstaged.edges
  have hlen : (((g.staged f src dst).edges.get? (flowKey f src dst).id).getD
      (newEdge (g.staged f src dst).retention (flowKey f src dst))).ring.slots.length
        = (g.retention / second).toNat := by
    rw [hedges, hretention]
    exact hcounted.length_touched _
  -- the retention is at least ten seconds, so the ring has a slot
  have hten : (10 : Int) ≤ g.retention / second := by
    rw [Int.le_ediv_iff_mul_le (by decide)]
    exact hinv.retention
  have hcast : ((g.retention / second).toNat : Int) = g.retention / second :=
    Int.toNat_of_nonneg (by omega)
  have hedge := countOnEdge_isSome_iff (f := f) (t := f.asTime) (v := v)
    (e := ((g.staged f src dst).edges.get? (flowKey f src dst).id).getD
      (newEdge (g.staged f src dst).retention (flowKey f src dst)))
  rw [hlen, hcast, and_iff_right (by omega)] at hedge
  rw [← hedge]
  constructor
  · rintro ⟨p, hp⟩
    rw [addFlow_eq] at hp
    obtain ⟨g', hcount, -⟩ := Option.map_eq_some_iff.1 hp
    exact countOnEdge_of_countFlow _ hinv₃ hs hd hcount
  · rintro ⟨e, he⟩
    obtain ⟨g', hcount, -⟩ := countFlow_spec (flowKey f src dst) hinv₃ hs hd he
    exact ⟨_, by rw [addFlow_eq, hcount, Option.map_some]⟩

/-- Deriving keys does not touch the retention. -/
theorem stable_retention (retention : Time) : Stable fun g => g.retention = retention where
  nodeIPs _ h := h
  dropped hd h := hd.retention.trans h
  forgotten hf h := hf.retention.trans h

/-- **`Ingest` returns** exactly when the flow has a slot, is not counted, or is one of a node with
itself. -/
theorem ingest_isSome_iff (ρ : RangeOrder) (f : Flow) {g : Graph} (hinv : g.Inv)
    (hcounted : g.RingsCounted) : (∃ p, g.ingest ρ f = some p) ↔ g.HasSlot f := by
  unfold HasSlot
  cases haccept : accept f with
  | error reason =>
    refine iff_of_true ⟨(g, { skipped := reason }), ?_⟩ (Or.inl ⟨reason, rfl⟩)
    rw [ingest, haccept]
  | ok v =>
    obtain ⟨src, dst, g₁, hkeys, hinv₁, hderived⟩ := endpointKeys_spec ρ f hinv
    obtain ⟨rfl, rfl, -⟩ := hderived.eq
    have hretention : g₁.retention = g.retention :=
      (stable_retention g.retention).keysDerived hderived rfl
    rw [ingest_eq haccept hkeys]
    -- a flow of a node with itself is given up before it comes to a ring
    by_cases hself : sourceKey f g.nodeIPs = destinationKey f g.nodeIPs
    · rw [if_pos hself]
      exact iff_of_true ⟨_, rfl⟩ (Or.inr (Or.inl hself))
    · rw [if_neg hself, addFlow_isSome_iff f v _ _ hinv₁
        (stable_ringsCounted.keysDerived hderived hcounted), hretention]
      simp [hself]

/-- Only `Ingest` can fail. -/
theorem step_isSome_iff {g : Graph} (op : Op) (hinv : g.Inv) (hcounted : g.RingsCounted) :
    (∃ g', g.step op = some g') ↔ g.Survives op := by
  cases op with
  | ingest ρ f =>
    show (∃ g', (g.ingest ρ f).map Prod.fst = some g') ↔ g.HasSlot f
    rw [← ingest_isSome_iff ρ f hinv hcounted]
    constructor
    · rintro ⟨g', h⟩
      obtain ⟨p, hp, -⟩ := Option.map_eq_some_iff.1 h
      exact ⟨p, hp⟩
    · rintro ⟨p, hp⟩
      exact ⟨p.1, by rw [hp]; rfl⟩
  -- only a flow can ask for a slot that is not there
  | learnMachines ρ addrs =>
    obtain ⟨g', h, -⟩ := learnMachines_spec ρ addrs hinv
    exact iff_of_true ⟨g', h⟩ trivial
  | tick ρ now =>
    obtain ⟨g₁, h, -⟩ := tick_spec ρ now hinv
    exact iff_of_true ⟨g₁.settle, by rw [step, h]; rfl⟩ trivial
  | snapshot ρ now => exact iff_of_true ⟨g, rfl⟩ trivial

/-- **Which timestamps stop the program.** The calls on an empty graph all return exactly when
every flow among them is ignored or has a slot in the state it comes to. -/
theorem run_isSome_iff_survives (retention : Time) (ops : List Op) :
    (∃ g, Run.run step (new retention) ops = some g) ↔
      Run.EveryInput step Survives (new retention) ops :=
  Run.run_isSome_iff (I := fun g => g.Inv ∧ g.RingsCounted)
    (fun _ _ _ h hstep => ⟨step_inv h.1 hstep, h.2.step h.1 hstep⟩)
    (fun _ op h => step_isSome_iff op h.1 h.2) ⟨inv_new retention, ringsCounted_new retention⟩

/-- A flow from one second before 1970. -/
def earlyFlow : Flow := { anchoredFlow with time := some (-second) }

/-- **A timestamp crashes ingestion.** The second before 1970 has no slot. -/
theorem not_ingest_isSome :
    ¬ ∀ (retention : Time) (ops : List Op) (g : Graph),
      Run.run step (new retention) ops = some g → ∀ ρ f, ∃ p, g.ingest ρ f = some p := by
  intro h
  obtain ⟨p, hp⟩ := h (300 * second) [] _ rfl (fun _ _ => 0) earlyFlow
  rcases (ingest_isSome_iff _ _ (inv_new _) (ringsCounted_new _)).1 ⟨p, hp⟩ with
    ⟨reason, hskip⟩ | hself | hlate | hdvd
  · have haccept : accept earlyFlow = .ok verdictForwarded := by decide
    rw [haccept] at hskip
    cases hskip
  · exact absurd hself (by decide)
  · exact absurd hlate (by decide)
  · exact absurd hdvd (by decide)

end Graph

end Flowscape
