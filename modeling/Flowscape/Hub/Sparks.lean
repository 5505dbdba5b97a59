import Flowscape.Graph.State
import Flowscape.Lib.Run
import Flowscape.Lib.Sample

/-!
# Flowscape: the sparks of a tick (`internal/hub/hub.go`, `cmd/flowscape-demo-wasm/main.go`)

The hub keeps a spark of every flow that is counted and sends a sample of them with the next
tick. The demo that runs in the browser has a copy of this code around the same graph.

What `math/rand` gives is an input here: a number of which `IntN` takes the remainder, and a
shuffle. The flow rate and the metrics are left out.
-/

namespace Flowscape

/-! ## Source definitions -/

/-- A spark of a verdict other than forwarded. -/
def Spark.rare (s : Spark) : Bool := s.v ≠ verdictForwarded

/-- `rand.IntN(n)` -/
def intN (n random : Nat) : Nat := random % n

namespace Hub

/-- `sparkBacklog` -/
def sparkBacklog : Nat := 4096

/-- The backlog in `Hub.Flow`. -/
def keepSpark (random : Nat) (sparks : List Spark) (s : Spark) : List Spark :=
  Sample.keep sparkBacklog Spark.rare sparks s (intN sparkBacklog random)

/-- The sampling in `Hub.tick`. -/
def sampleSparks (budget : Nat) (shuffle : Sample.Shuffle Spark) (sparks : List Spark) :
    List Spark :=
  Sample.sample budget Spark.rare shuffle sparks

end Hub

namespace Demo

/-- The backlog in `sink.Flow`. -/
def keepSpark (random : Nat) (sparks : List Spark) (s : Spark) : List Spark :=
  Sample.keep 4096 Spark.rare sparks s (intN sparks.length random)

/-- The sampling in `run`. -/
def sampleSparks (budget : Nat) (shuffle : Sample.Shuffle Spark) (sparks : List Spark) :
    List Spark :=
  Sample.sample budget Spark.rare shuffle sparks

end Demo

/-- The two programs around the graph. -/
inductive Program where
  /-- The server, `internal/hub`. -/
  | hub
  /-- The WebAssembly module, `cmd/flowscape-demo-wasm`. -/
  | demo
deriving DecidableEq

namespace Program

def keepSpark : Program → Nat → List Spark → Spark → List Spark
  | hub => Hub.keepSpark
  | demo => Demo.keepSpark

def sampleSparks : Program → Nat → Sample.Shuffle Spark → List Spark → List Spark
  | hub => Hub.sampleSparks
  | demo => Demo.sampleSparks

end Program

/-- The graph and the backlog of a sink. -/
structure Sink where
  g : Graph
  sparks : List Spark

namespace Sink

/-- `Flow` -/
def flow (p : Program) (ρ : RangeOrder) (f : Flow) (random : Nat) (s : Sink) : Option Sink :=
  (s.g.ingest ρ f).map fun (g, r) =>
    if r.skipped ≠ "" then { s with g := g }
    else { g := g, sparks := p.keepSpark random s.sparks ⟨r.edgeID, r.verdict⟩ }

/-- `Nodes`, which the demo ignores. -/
def nodes (p : Program) (ρ : RangeOrder) (addrs : OrdMap String String) (s : Sink) : Option Sink :=
  match p with
  | .hub => (s.g.learnMachines ρ addrs).map fun g => { s with g := g }
  | .demo => some s

/-- The sparks go into the message `t` that the graph has made. -/
def send (p : Program) (budget : Nat) (shuffle : Sample.Shuffle Spark) (t : Tick) (s : Sink) :
    Sink × Tick :=
  ({ s with sparks := [] }, { t with sparks := p.sampleSparks budget shuffle s.sparks })

/-- What can happen until the sparks are sent. A tick first changes the graph, and flows may
come in before it takes the sparks. -/
inductive Event where
  | flow (ρ : RangeOrder) (f : Flow) (random : Nat)
  | nodes (ρ : RangeOrder) (addrs : OrdMap String String)
  | tick (ρ : RangeOrder) (now : Time)

/-- What the program does at an event. -/
def step (p : Program) (s : Sink) : Event → Option Sink
  | .flow ρ f random => s.flow p ρ f random
  | .nodes ρ addrs => s.nodes p ρ addrs
  | .tick ρ now => (s.g.tick ρ now).map fun q => { s with g := q.1 }

/-! ## The backlog -/

/-- A flow is counted that was not forwarded. -/
def CountsRare (s : Sink) : Event → Prop
  | .flow ρ f _ => ∃ g r, s.g.ingest ρ f = some (g, r) ∧ r.skipped = "" ∧
      r.verdict ≠ verdictForwarded
  | _ => False

/-- The backlog is not too long. -/
def Bounded (s : Sink) : Prop := s.sparks.length ≤ Hub.sparkBacklog

/-- The number of sparks that are not of forwarded flows. -/
def rares (s : Sink) : Nat := s.sparks.countP Spark.rare

/-- Both programs take a spark into the backlog in the same way, at some place within it. -/
theorem keepSpark_spec (p : Program) (random : Nat) {sparks : List Spark}
    (h : sparks.length ≤ Hub.sparkBacklog) (s : Spark) :
    ∃ i < Hub.sparkBacklog, p.keepSpark random sparks s
      = Sample.keep Hub.sparkBacklog Spark.rare sparks s i := by
  cases p with
  | hub => exact ⟨_, Nat.mod_lt _ (by decide), rfl⟩
  | demo =>
    by_cases hfull : sparks.length < Hub.sparkBacklog
    · -- there is room, so the place does not matter
      refine ⟨0, by decide, ?_⟩
      show Sample.keep Hub.sparkBacklog Spark.rare sparks s _ = _
      rw [Sample.keep, if_pos hfull, Sample.keep, if_pos hfull]
    · have hlen : sparks.length = Hub.sparkBacklog := le_antisymm h (not_lt.1 hfull)
      refine ⟨intN sparks.length random, ?_, rfl⟩
      rw [hlen]
      exact Nat.mod_lt _ (by decide)

/-- What a step does to the backlog. -/
inductive Kept (p : Program) (s : Sink) : Event → Sink → Prop where
  /-- Nothing. -/
  | same {e : Event} {s' : Sink} (h : ¬ s.CountsRare e) (hsparks : s'.sparks = s.sparks) :
      Kept p s e s'
  /-- A spark is taken in. -/
  | taken {e : Event} {s' : Sink} {spark : Spark} {i : Nat} (hi : i < Hub.sparkBacklog)
      (h : s.CountsRare e ↔ spark.rare = true)
      (hsparks : s'.sparks = Sample.keep Hub.sparkBacklog Spark.rare s.sparks spark i) :
      Kept p s e s'

/-- A step keeps a spark, or leaves the backlog. -/
theorem kept_of_step {p : Program} {s s' : Sink} {e : Event} (hb : s.Bounded)
    (hstep : s.step p e = some s') : Kept p s e s' := by
  cases e with
  | nodes ρ addrs =>
    refine .same id ?_
    cases p with
    | hub =>
      obtain ⟨g, -, rfl⟩ := Option.map_eq_some_iff.1 hstep
      rfl
    | demo =>
      obtain rfl := Option.some.inj hstep
      rfl
  | tick ρ now =>
    obtain ⟨q, -, rfl⟩ := Option.map_eq_some_iff.1 hstep
    exact .same id rfl
  | flow ρ f random =>
    obtain ⟨⟨g, r⟩, hingest, rfl⟩ := Option.map_eq_some_iff.1 hstep
    have hcounts : s.CountsRare (.flow ρ f random) ↔
        r.skipped = "" ∧ r.verdict ≠ verdictForwarded := by
      constructor
      · rintro ⟨g', r', hingest', hr'⟩
        obtain ⟨-, rfl⟩ := Prod.mk.inj (Option.some.inj (hingest.symm.trans hingest'))
        exact hr'
      · exact fun hr => ⟨g, r, hingest, hr⟩
    by_cases hskip : r.skipped = ""
    · obtain ⟨i, hi, hkeep⟩ := keepSpark_spec p random hb ⟨r.edgeID, r.verdict⟩
      refine .taken hi (?_ : _ ↔ Spark.rare ⟨r.edgeID, r.verdict⟩ = true) ?_
      · rw [hcounts, and_iff_right hskip]
        simp [Spark.rare]
      · simp only [hskip, ne_eq, not_true_eq_false, if_false]
        exact hkeep
    · -- a flow that is skipped leaves no spark
      refine .same (fun h => hskip (hcounts.1 h).1) ?_
      simp only [ne_eq, hskip, not_false_eq_true, if_true]

theorem Bounded.step {p : Program} {s s' : Sink} {e : Event} (h : s.Bounded)
    (hstep : s.step p e = some s') : s'.Bounded := by
  unfold Bounded
  cases kept_of_step h hstep with
  | same _ hsparks => rw [hsparks]; exact h
  | taken _ _ hsparks => rw [hsparks]; exact Sample.length_keep_le h _ _

/-- No step loses a rare spark without taking in another. -/
theorem rares_step_le {p : Program} {s s' : Sink} {e : Event} (h : s.Bounded)
    (hstep : s.step p e = some s') : s.rares ≤ s'.rares := by
  unfold rares
  cases kept_of_step h hstep with
  | same _ hsparks => rw [hsparks]
  | @taken spark _ hi _ hsparks =>
    rw [hsparks]
    cases hrare : spark.rare with
    | true => exact (Sample.countP_keep_of_rare hrare hi).1
    | false => exact (Sample.countP_keep_of_common hrare _ _).ge

/-- A backlog without rare sparks gets one exactly when a rare one comes. -/
theorem rares_step_eq_zero_iff {p : Program} {s s' : Sink} {e : Event} (h : s.Bounded)
    (hnone : s.rares = 0) (hstep : s.step p e = some s') : s'.rares = 0 ↔ ¬ s.CountsRare e := by
  unfold rares at hnone ⊢
  cases kept_of_step h hstep with
  | same hno hsparks =>
    rw [hsparks]
    exact iff_of_true hnone hno
  -- a rare one is kept in any case; a common one takes no rare place
  | @taken spark _ hi hcounts hsparks =>
    rw [hsparks, hcounts]
    cases hrare : spark.rare with
    | true =>
      exact iff_of_false (Sample.countP_keep_of_rare hrare hi).2.ne' (fun hno => hno rfl)
    | false =>
      rw [Sample.countP_keep_of_common hrare]
      exact iff_of_true hnone nofun

/-- A backlog has no rare sparks exactly when none of the flows since the last tick was one: once
there is a rare spark, no step makes the number zero again. -/
theorem rares_run_eq_zero_iff {p : Program} {g : Graph} {es : List Event} {s : Sink}
    (hrun : Run.run (step p) ⟨g, []⟩ es = some s) :
    s.rares = 0 ↔ Run.EveryStep (step p) (fun s e => ¬ s.CountsRare e) ⟨g, []⟩ es :=
  Run.last_iff_everyStep (J := Bounded) (G := fun s => s.rares = 0)
    (fun _ _ _ h hstep => h.step hstep)
    (fun _ _ _ h hnone hstep => rares_step_eq_zero_iff h hnone hstep)
    (fun _ _ _ h hstep hnone => Nat.le_zero.1 (hnone ▸ rares_step_le h hstep)) hrun
    (Nat.zero_le _) rfl

/-! ## The sparks of a tick -/

theorem prefersRare_send (p : Program) (budget : Nat) (shuffle : Sample.Shuffle Spark) (t : Tick)
    (s : Sink) :
    Sample.PrefersRare budget Spark.rare s.sparks (s.send p budget shuffle t).2.sparks := by
  cases p <;> exact Sample.prefersRare_sample budget Spark.rare shuffle s.sparks

/-- **The sparks of a tick keep the rare verdicts.** From the last tick on, whatever happens and
whatever is drawn, the backlog stays within its bound and the number of its rare sparks never
decreases. The next tick gets as many of them as its budget allows, and one at least if any
flow was counted that was not forwarded. -/
theorem send_keepsRare {p : Program} {g : Graph} {es es' : List Event} {m s : Sink}
    (hm : Run.run (step p) ⟨g, []⟩ es = some m) (hs : Run.run (step p) m es' = some s)
    (budget : Nat) (shuffle : Sample.Shuffle Spark) (t : Tick) :
    s.sparks.length ≤ Hub.sparkBacklog ∧ m.rares ≤ s.rares ∧
      Sample.PrefersRare budget Spark.rare s.sparks (s.send p budget shuffle t).2.sparks ∧
      (1 ≤ budget →
        ¬ Run.EveryStep (step p) (fun s e => ¬ s.CountsRare e) ⟨g, []⟩ (es ++ es') →
        ∃ spark ∈ (s.send p budget shuffle t).2.sparks, spark.v ≠ verdictForwarded) := by
  have hstart : Bounded ⟨g, []⟩ := Nat.zero_le _
  have hbounded : ∀ s e s', Bounded s → step p s e = some s' → s'.Bounded :=
    fun _ _ _ h hstep => h.step hstep
  have hbm : m.Bounded := Run.invariant hbounded hm hstart
  -- the bound and the count are kept from step to step, and the sample is taken of what there is
  -- then
  have hsample := prefersRare_send p budget shuffle t s
  refine ⟨Run.invariant hbounded hs hbm, ?_, hsample, fun hbudget hsome => ?_⟩
  · exact (Run.invariant (I := fun s => s.Bounded ∧ m.rares ≤ s.rares)
      (fun _ _ _ h hstep => ⟨h.1.step hstep, h.2.trans (rares_step_le h.1 hstep)⟩) hs
      ⟨hbm, le_refl _⟩).2
  · have hrun : Run.run (step p) ⟨g, []⟩ (es ++ es') = some s :=
      Run.run_append_eq_some.2 ⟨m, hm, hs⟩
    obtain ⟨spark, hmem, hrare⟩ :=
      hsample.exists_rare hbudget (Nat.pos_of_ne_zero (mt (rares_run_eq_zero_iff hrun).1 hsome))
    exact ⟨spark, hmem, by simpa [Spark.rare] using hrare⟩

/-- A call that goes through. -/
def passedFlow : Flow where
  verdict := .forwarded
  time := some second
  l4 := .tcp 80
  source := some { «namespace» := "shop", podName := "web" }
  destination := some { «namespace» := "shop", podName := "cart" }

/-- A call that a policy has stopped. -/
def stoppedFlow : Flow := { passedFlow with verdict := .dropped }

/-- A stopped call among others. -/
def busy : List Event :=
  [.flow (fun _ _ => 0) passedFlow 3, .flow (fun _ _ => 0) passedFlow 9,
    .flow (fun _ _ => 0) stoppedFlow 7, .flow (fun _ _ => 0) passedFlow 4]

set_option maxRecDepth 10000 in
/-- With a budget of two sparks out of four, the stopped call is one of the two. -/
theorem send_keepsRare_busy :
    ∃ s, Run.run (step .hub) ⟨Graph.new (300 * second), []⟩ busy = some s ∧
      s.sparks.map Spark.v
        = [verdictForwarded, verdictForwarded, verdictDropped, verdictForwarded] ∧
      (s.send .hub 2 ⟨List.reverse, List.reverse_perm⟩ ⟨0, [], [], ⟨[], []⟩, []⟩).2.sparks.length
        = 2 ∧
      ∃ spark ∈ (s.send .hub 2 ⟨List.reverse, List.reverse_perm⟩
          ⟨0, [], [], ⟨[], []⟩, []⟩).2.sparks, spark.v ≠ verdictForwarded := by
  have hverdicts : (Run.run (step .hub) ⟨Graph.new (300 * second), []⟩ busy).map
      (fun s => s.sparks.map Spark.v)
      = some [verdictForwarded, verdictForwarded, verdictDropped, verdictForwarded] := by decide
  obtain ⟨s, hs, hsparks⟩ := Option.map_eq_some_iff.1 hverdicts
  obtain ⟨-, -, hsample, hrare⟩ := @send_keepsRare .hub _ [] _ _ _ rfl hs 2
    ⟨List.reverse, List.reverse_perm⟩ ⟨0, [], [], ⟨[], []⟩, []⟩
  refine ⟨s, hs, hsparks, ?_, hrare (by decide) fun hnone => ?_⟩
  · have hlength : s.sparks.length = 4 := by
      rw [← List.length_map (f := Spark.v), hsparks]
      rfl
    rw [hsample.length, hlength]
    rfl
  · -- the third call counts
    have hzero : s.rares = 0 := (rares_run_eq_zero_iff hs).2 hnone
    have hmem : verdictDropped ∈ s.sparks.map Spark.v := by
      rw [hsparks]
      decide
    obtain ⟨spark, hspark, hdropped⟩ := List.mem_map.1 hmem
    have hno := List.countP_eq_zero.1 hzero spark hspark
    rw [Spark.rare, hdropped] at hno
    exact hno (by decide)

end Sink

end Flowscape
