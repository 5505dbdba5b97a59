import Flowscape.Graph.State
import Flowscape.Relay.Client

/-!
# Flowscape: flows that reconnecting hands over again

The point the client resumes from is the timestamp of a flow that it has seen, and Relay serves
from that point on, the point included. So a stream is asked for flows that were handed over
before: those with that very timestamp. Within a stream nothing comes twice.

Here Relay serves every stream in the order of the timestamps. Then nothing is lost between two
streams, and a run hands over what one stream would that is never cut, each flow once, exactly
when no stream brings a flow of that timestamp again.
-/

namespace Flowscape

namespace Relay

namespace Link

/-! ## Counting what is handed over -/

/-- The counts of the edges when `sink.Flow` ingests the flows into an empty graph. -/
def edgeCounts (retention : Time) (ρ : Nat → RangeOrder) (handed : List Stored) :
    Option (String → Option Counters) :=
  (Run.run Graph.step (Graph.new retention) (handed.mapIdx fun n f => .ingest (ρ n) f.flow)).map
    fun g id => (g.edges.get? id).map (·.counts)

/-- Relay serves in the order of the timestamps. A flow that reaches it later is not older than
what it has served before: a stream that is never cut could not bring it in order. -/
def InOrder (since₀ : Time) (l : Link) : Event → Prop
  | .received i => ∀ st ∈ l.stream, ∀ f ∈ st.pending[i]?, ∀ g ∈ st.pending, f.time ≤ g.time
  | .recorded f => since₀ ≤ f.asTime → ∀ g ∈ l.handed, g.time ≤ f.asTime
  | _ => True

/-- No stream brings again a flow with the very timestamp that it was asked to start from. -/
def PastBoundary (l : Link) : Event → Prop
  | .received i => ∀ st ∈ l.stream, ∀ f ∈ st.pending[i]?, f.time = st.request.since → f ∉ l.handed
  | _ => True

instance (since₀ : Time) (l : Link) : (e : Event) → Decidable (InOrder since₀ l e)
  | .received i => inferInstanceAs (Decidable
      (∀ st ∈ l.stream, ∀ f ∈ st.pending[i]?, ∀ g ∈ st.pending, f.time ≤ g.time))
  | .recorded f => inferInstanceAs (Decidable
      (since₀ ≤ f.asTime → ∀ g ∈ l.handed, g.time ≤ f.asTime))
  | .opened => isTrue trivial
  | .cut _ => isTrue trivial

instance (l : Link) : (e : Event) → Decidable (l.PastBoundary e)
  | .received i => inferInstanceAs (Decidable
      (∀ st ∈ l.stream, ∀ f ∈ st.pending[i]?, f.time = st.request.since → f ∉ l.handed))
  | .opened => isTrue trivial
  | .cut _ => isTrue trivial
  | .recorded _ => isTrue trivial

/-- A client before its first stream, with the given flows at Relay. -/
def startWith (c : Client) (since : Time) (held : List Stored) : Link :=
  { start c since [] with held := held }

/-- One stream, served in order to its end and never cut, leads to `u`. -/
def Uninterrupted (c : Client) (since₀ : Time) (held : List Stored) (u : Link) : Prop :=
  ∃ is : List Nat,
    Run.run step (startWith c since₀ held) (.opened :: is.map .received) = some u ∧
      Run.EveryStep step (InOrder since₀) (startWith c since₀ held)
        (.opened :: is.map .received) ∧ u.RunToEnd

/-- Reconnecting has not shown in what was handed over. -/
structure CountsOnce (c : Client) (since₀ : Time) (l : Link) : Prop where
  nodup : l.handed.Nodup
  /-- Whichever stream that is never cut hands over the same flows. -/
  perm : l.RunToEnd → ∀ u, Uninterrupted c since₀ l.held u → u.handed.Perm l.handed
  /-- One of them counts the same on every edge. -/
  counts : l.RunToEnd → ∃ u, Uninterrupted c since₀ l.held u ∧
    ∀ retention ρ, edgeCounts retention ρ u.handed = edgeCounts retention ρ l.handed

/-! ## What can come twice -/

/-- What an open stream has yet to deliver and was handed over before has the timestamp that the
stream was asked to start from. -/
structure Distinct (l : Link) : Prop where
  held : l.held.Nodup
  pending : ∀ st, l.stream = some st → st.pending.Nodup
  boundary : ∀ st, l.stream = some st → ∀ f ∈ st.pending, f ∈ l.handed →
    f.time = st.request.since

/-- No flow is there twice at the start. -/
theorem distinct_start (c : Client) (since₀ : Time) (flows : List Flow) :
    Distinct (start c since₀ flows) where
  held := by
    refine List.Nodup.map (fun f g h => ?_) (List.Nodup.of_map Prod.snd ?_)
    · obtain ⟨h₁, h₂⟩ := Stored.mk.inj h
      exact Prod.ext h₂ h₁
    · rw [List.zipIdx_map_snd]
      exact List.nodup_range'
  pending := fun _ hst => nomatch hst
  boundary := fun _ hst => nomatch hst

theorem cons_eraseIdx_perm {α : Type*} {xs : List α} {i : Nat} {x : α} (hi : xs[i]? = some x) :
    (x :: xs.eraseIdx i).Perm xs := by
  obtain ⟨hlt, rfl⟩ := List.getElem?_eq_some_iff.1 hi
  exact List.getElem_cons_eraseIdx_perm hlt

/-- A new stream has each flow once. -/
theorem Distinct.connect {since₀ : Time} {l : Link} (hl : Invariant since₀ l) (h : Distinct l) :
    Distinct l.connect where
  held := h.held
  pending := by
    rintro st ⟨⟩
    exact h.held.filter _
  boundary := by
    rintro st ⟨⟩ f hf hhanded
    -- what was handed over is not newer than the resume point
    exact le_antisymm (hl.resumes.handed_le f hhanded) (of_decide_eq_true (List.mem_filter.1 hf).2)

theorem Distinct.receive {l : Link} (h : Distinct l) {st : Stream} {i : Nat} {f : Stored}
    (hst : l.stream = some st) (hf : st.pending[i]? = some f) : Distinct (l.receive st i f) where
  held := h.held
  pending := by
    rintro st' ⟨⟩
    exact (h.pending st hst).eraseIdx i
  boundary := by
    rintro st' ⟨⟩ g hg hhanded
    rcases List.mem_append.1 hhanded with hhanded | hhanded
    · exact h.boundary st hst g (List.mem_of_mem_eraseIdx hg) hhanded
    · rw [List.mem_singleton.1 hhanded] at hg
      have hnd := (cons_eraseIdx_perm hf).nodup_iff.2 (h.pending st hst)
      exact absurd hg (List.nodup_cons.1 hnd).1

/-- A flow that comes to Relay is a new one. -/
theorem Distinct.record {since₀ : Time} {l : Link} (hl : Invariant since₀ l) (h : Distinct l)
    (f : Flow) : Distinct (l.record f) := by
  -- its number is one that no flow has yet
  have hnew : ∀ {g : Stored}, g ∈ l.held → g ≠ ⟨l.held.length, f⟩ := by
    rintro g hg rfl
    exact absurd (hl.numbered _ hg) (lt_irrefl _)
  constructor
  · apply List.Nodup.append h.held (List.nodup_singleton _)
    intro g hg hg'
    exact hnew hg (List.mem_singleton.1 hg')
  · intro st' hst'
    obtain ⟨st, hst, rfl⟩ := Option.map_eq_some_iff.1 hst'
    unfold Stream.follow
    split
    · apply List.Nodup.append (h.pending st hst) (List.nodup_singleton _)
      intro g hg hg'
      exact hnew ((hl.serves st hst).pending_held g hg) (List.mem_singleton.1 hg')
    · exact h.pending st hst
  · intro st' hst' g hg hhanded
    obtain ⟨st, hst, rfl⟩ := Option.map_eq_some_iff.1 hst'
    rw [request_follow]
    rcases mem_pending_follow.1 hg with hg | ⟨rfl, -⟩
    · exact h.boundary st hst g hg hhanded
    · exact absurd rfl (hnew (hl.handed_held _ hhanded))

/-- Every event keeps the flows apart. -/
theorem Distinct.step {since₀ : Time} {l l' : Link} {e : Event} (hl : Invariant since₀ l)
    (h : Distinct l) (hstep : step l e = some l') : Distinct l' := by
  obtain ⟨rfl, -, rfl⟩ | ⟨i, st, f, rfl, hst, hf, rfl⟩ | ⟨err, st, rfl, -, rfl⟩ | ⟨f, rfl, rfl⟩ :=
    step_eq_some hstep
  · exact h.connect hl
  · exact h.receive hst hf
  · exact ⟨h.held, fun _ hst => (nomatch hst), fun _ hst => (nomatch hst)⟩
  · exact h.record hl f

/-- From a state in which nothing was handed over twice, a step hands a flow over again exactly
when a stream brings one of the timestamp it starts from again. -/
theorem nodup_step_iff {l l' : Link} {e : Event} (h : Distinct l) (hnd : l.handed.Nodup)
    (hstep : step l e = some l') : l'.handed.Nodup ↔ l.PastBoundary e := by
  obtain ⟨rfl, -, rfl⟩ | ⟨i, st, f, rfl, hst, hf, rfl⟩ | ⟨err, st, rfl, -, rfl⟩ | ⟨f, rfl, rfl⟩ :=
    step_eq_some hstep
  · exact iff_of_true hnd trivial
  -- only a flow that is brought is handed on
  · have happend : (l.receive st i f).handed.Nodup ↔ f ∉ l.handed := by
      show (l.handed ++ [f]).Nodup ↔ _
      rw [List.nodup_append_comm]
      exact List.nodup_cons.trans (and_iff_left hnd)
    rw [happend]
    constructor
    · intro hnew st' hst' f' hf' _
      obtain rfl : st = st' := Option.some.inj (hst.symm.trans hst')
      obtain rfl : f = f' := Option.some.inj (hf.symm.trans hf')
      exact hnew
    · intro hpast hhanded
      -- one that was handed on before and is brought again is at the boundary of the request
      exact hpast st hst f hf (h.boundary st hst f (List.mem_of_getElem? hf) hhanded) hhanded
  · exact iff_of_true hnd trivial
  · exact iff_of_true hnd trivial

/-! ## Streams in order -/

/-- What is still to come is not older than what has come. -/
structure Ordered (since₀ : Time) (l : Link) : Prop where
  ahead : ∀ st, l.stream = some st → ∀ f ∈ st.pending, l.since ≤ f.time
  sorted : l.handed.Pairwise fun f g => f.time ≤ g.time
  initial_le : ∀ f ∈ l.handed, since₀ ≤ f.time

theorem ordered_start (c : Client) (since₀ : Time) (flows : List Flow) :
    Ordered since₀ (start c since₀ flows) where
  ahead := fun _ hst => nomatch hst
  sorted := List.Pairwise.nil
  initial_le := fun _ hf => absurd hf List.not_mem_nil

/-- Flows that come in order are handed on in order. -/
theorem Ordered.step {since₀ : Time} {l l' : Link} {e : Event} (hl : Invariant since₀ l)
    (h : Ordered since₀ l) (horder : InOrder since₀ l e) (hstep : step l e = some l') :
    Ordered since₀ l' := by
  obtain ⟨rfl, -, rfl⟩ | ⟨i, st, f, rfl, hst, hf, rfl⟩ | ⟨err, st, rfl, -, rfl⟩ | ⟨f, rfl, rfl⟩ :=
    step_eq_some hstep
  · refine ⟨?_, h.sorted, h.initial_le⟩
    rintro st ⟨⟩ f hf
    exact of_decide_eq_true (List.mem_filter.1 hf).2
  · have hsince : l.since ≤ f.time := h.ahead st hst f (List.mem_of_getElem? hf)
    refine ⟨?_, ?_, ?_⟩
    · -- the oldest of what is owed is handed over, so the rest is not older than the resume point
      rintro st' ⟨⟩ g hg
      have hmem : g ∈ st.pending := List.mem_of_mem_eraseIdx hg
      show advance l.since f.time ≤ g.time
      rw [advance_eq_max]
      exact max_le (h.ahead st hst g hmem) (horder st hst f hf g hmem)
    · refine List.pairwise_append.2 ⟨h.sorted, List.pairwise_singleton _ _, ?_⟩
      intro g hg g' hg'
      rw [List.mem_singleton.1 hg']
      exact (hl.resumes.handed_le g hg).trans hsince
    · intro g hg
      rcases List.mem_append.1 hg with hg | hg
      · exact h.initial_le g hg
      · rw [List.mem_singleton.1 hg]
        exact hl.resumes.initial_le.trans hsince
  · exact ⟨fun _ hst => (nomatch hst), h.sorted, h.initial_le⟩
  · refine ⟨?_, h.sorted, h.initial_le⟩
    intro st' hst' g hg
    obtain ⟨st, hst, rfl⟩ := Option.map_eq_some_iff.1 hst'
    rcases mem_pending_follow.1 hg with hg | ⟨rfl, hask⟩
    · exact h.ahead st hst g hg
    · have hinitial : since₀ ≤ f.asTime := (hl.serves st hst).initial_le.trans hask
      exact (hl.resumes.since_le_iff f.asTime).2 ⟨hinitial, horder hinitial⟩

/-- Served in order, no flow is overtaken. -/
theorem inTurn_of_inOrder {since₀ : Time} {l : Link} {e : Event} (hl : Invariant since₀ l)
    (h : Ordered since₀ l) (horder : InOrder since₀ l e) : InTurn since₀ l e := by
  cases e with
  | opened => trivial
  | received i => trivial
  | cut err =>
    intro st hst f hf _ g hg
    exact (hl.resumes.handed_le g hg).trans (h.ahead st hst f hf)
  | recorded f => exact fun hle => .inr (horder hle)

/-- What holds along a run whose streams are served in order. -/
structure Served (since₀ : Time) (l : Link) : Prop where
  invariant : Invariant since₀ l
  distinct : Distinct l
  ordered : Ordered since₀ l
  nothingLost : NothingLost since₀ l

theorem served_start (c : Client) (since₀ : Time) (flows : List Flow) :
    Served since₀ (start c since₀ flows) where
  invariant := invariant_start c since₀ flows
  distinct := distinct_start c since₀ flows
  ordered := ordered_start c since₀ flows
  nothingLost := fun _ _ hle => .inr (.inr hle)

theorem Served.step {since₀ : Time} {l l' : Link} {e : Event} (h : Served since₀ l)
    (horder : InOrder since₀ l e) (hstep : step l e = some l') : Served since₀ l' where
  invariant := h.invariant.step hstep
  distinct := h.distinct.step h.invariant hstep
  ordered := h.ordered.step h.invariant horder hstep
  nothingLost := (nothingLost_step_iff h.invariant h.nothingLost hstep).2
    (inTurn_of_inOrder h.invariant h.ordered horder)

/-- The flows at Relay from the initial resume point on. -/
def due (since₀ : Time) (held : List Stored) : List Stored :=
  held.filter fun f => since₀ ≤ f.time

/-- When a stream has run to its end and nothing came twice, each flow that is due has come. -/
theorem Served.perm_due {since₀ : Time} {l : Link} (h : Served since₀ l) (hend : l.RunToEnd)
    (hnd : l.handed.Nodup) : l.handed.Perm (due since₀ l.held) := by
  apply (List.perm_ext_iff_of_nodup hnd (h.distinct.held.filter _)).2
  intro f
  have hall : AllHanded since₀ l :=
    (allHanded_iff_nothingLost h.invariant hend).2 h.nothingLost
  simp only [List.mem_filter, decide_eq_true_eq]
  exact ⟨fun hf => ⟨h.invariant.handed_held f hf, h.ordered.initial_le f hf⟩,
    fun hf => hall f hf.1 hf.2⟩

/-! ## One stream that is never cut -/

/-- A stream that is never cut has delivered what it does not owe. -/
theorem run_received_perm {is : List Nat} {l u : Link} {st : Stream} (hst : l.stream = some st)
    (hr : Run.run step l (is.map .received) = some u) :
    ∃ st', u.stream = some st' ∧ (u.handed ++ st'.pending).Perm (l.handed ++ st.pending) := by
  induction is generalizing l st with
  | nil =>
    obtain rfl := Option.some.inj hr
    exact ⟨st, hst, .refl _⟩
  | cons i is ih =>
    obtain ⟨l₁, hstep, hr⟩ := Run.run_cons_eq_some.1 hr
    obtain ⟨h, -⟩ | ⟨j, st₁, f, heq, hst₁, hf, rfl⟩ | ⟨_, _, h, -⟩ | ⟨_, h, -⟩ :=
      step_eq_some hstep
    · cases h
    · cases heq
      obtain rfl : st = st₁ := Option.some.inj (hst.symm.trans hst₁)
      obtain ⟨st', hst', hperm⟩ := ih rfl hr
      -- what this event took from the pending ones is what it handed on
      refine ⟨st', hst', hperm.trans ?_⟩
      show ((l.handed ++ [f]) ++ st.pending.eraseIdx i).Perm _
      rw [List.append_assoc]
      exact (cons_eraseIdx_perm hf).append_left _
    · cases h
    · cases h

/-- **A run without a break hands on what is due**, each flow once. -/
theorem Uninterrupted.perm_due {c : Client} {since₀ : Time} {held : List Stored} {u : Link}
    (h : Uninterrupted c since₀ held u) : u.handed.Perm (due since₀ held) := by
  obtain ⟨is, hr, -, st, hst, hempty⟩ := h
  obtain ⟨l₁, hopen, hr⟩ := Run.run_cons_eq_some.1 hr
  obtain rfl : (startWith c since₀ held).connect = l₁ := Option.some.inj hopen
  obtain ⟨st', hst', hperm⟩ := run_received_perm rfl hr
  obtain rfl : st' = st := Option.some.inj (hst'.symm.trans hst)
  rw [hempty, List.append_nil] at hperm
  exact hperm

/-- A stream can deliver what it owes in any order of the timestamps. -/
theorem exists_run_received (since₀ : Time) {xs : List Stored}
    (hsorted : xs.Pairwise fun f g => f.time ≤ g.time) {l : Link} {st : Stream}
    (hst : l.stream = some st) (hperm : xs.Perm st.pending) :
    ∃ (is : List Nat) (u : Link), Run.run step l (is.map .received) = some u ∧
      Run.EveryStep step (InOrder since₀) l (is.map .received) ∧ u.RunToEnd ∧
      u.handed = l.handed ++ xs := by
  induction xs generalizing l st with
  | nil => exact ⟨[], l, rfl, trivial, ⟨st, hst, hperm.nil_eq.symm⟩, (List.append_nil _).symm⟩
  | cons f xs ih =>
    rw [List.pairwise_cons] at hsorted
    obtain ⟨i, hi⟩ := List.mem_iff_getElem?.1 (hperm.mem_iff.1 List.mem_cons_self)
    have hrest : xs.Perm (st.pending.eraseIdx i) :=
      (hperm.trans (cons_eraseIdx_perm hi).symm).cons_inv
    obtain ⟨is, u, hr, horder, hend, hhanded⟩ := ih hsorted.2 (l := l.receive st i f) rfl hrest
    have hstep : step l (.received i) = some (l.receive st i f) := by
      simp only [step, hst, Option.bind_some, hi, Option.map_some]
    refine ⟨i :: is, u, Run.run_cons_eq_some.2 ⟨_, hstep, hr⟩, ?_, hend, ?_⟩
    · -- the first of a sorted list is the oldest one that the stream owes
      intro l' hl'
      obtain rfl : l.receive st i f = l' := Option.some.inj (hstep.symm.trans hl')
      refine ⟨?_, horder⟩
      intro st' hst' f' hf' g hg
      obtain rfl : st = st' := Option.some.inj (hst.symm.trans hst')
      obtain rfl : f = f' := Option.some.inj (hi.symm.trans hf')
      rcases List.mem_cons.1 (hperm.mem_iff.2 hg) with rfl | hg
      · exact le_refl _
      · exact hsorted.1 g hg
    · rw [hhanded]
      exact List.append_assoc _ _ _

/-- Every sorted order of what is due is one that such a run hands on. -/
theorem exists_uninterrupted (c : Client) (since₀ : Time) {held xs : List Stored}
    (hsorted : xs.Pairwise fun f g => f.time ≤ g.time) (hperm : xs.Perm (due since₀ held)) :
    ∃ u, Uninterrupted c since₀ held u ∧ u.handed = xs := by
  obtain ⟨is, u, hr, horder, hend, hhanded⟩ := exists_run_received since₀ hsorted
    (l := (startWith c since₀ held).connect) rfl hperm
  refine ⟨u, ⟨is, Run.run_cons_eq_some.2 ⟨_, rfl, hr⟩, ?_, hend⟩, hhanded⟩
  intro l' hl'
  obtain rfl : (startWith c since₀ held).connect = l' := Option.some.inj hl'
  exact ⟨trivial, horder⟩

/-! ## Whole runs -/

/-- Where nothing came twice, reconnecting has not shown. -/
theorem Served.countsOnce (c : Client) {since₀ : Time} {l : Link} (h : Served since₀ l)
    (hnd : l.handed.Nodup) : CountsOnce c since₀ l where
  nodup := hnd
  perm hend _ hu := hu.perm_due.trans (h.perm_due hend hnd).symm
  counts hend := by
    obtain ⟨u, hu, hhanded⟩ :=
      exists_uninterrupted c since₀ h.ordered.sorted (h.perm_due hend hnd)
    exact ⟨u, hu, fun retention ρ => by rw [hhanded]⟩

/-- **When reconnecting counts no flow twice.** Relay serves every stream in the order of the
timestamps. What a run has handed over is what one stream would have that is never cut, each
flow once, exactly when no stream has brought again a flow with the timestamp it was asked to
start from. -/
theorem countsOnce_iff_everyStep_pastBoundary (c : Client) (since₀ : Time) (flows : List Flow)
    (es : List Event) {l : Link} (hr : Run.run step (start c since₀ flows) es = some l)
    (horder : Run.EveryStep step (InOrder since₀) (start c since₀ flows) es) :
    CountsOnce c since₀ l ↔ Run.EveryStep step PastBoundary (start c since₀ flows) es := by
  have hl : Served since₀ l := Run.invariant_of_everyStep (I := Served since₀)
    (fun _ _ _ h hc hstep => h.step hc hstep) horder hr (served_start c since₀ flows)
  have hiff : l.handed.Nodup ↔ Run.EveryStep step PastBoundary (start c since₀ flows) es := by
    refine Run.last_iff_everyStep (J := fun l => Invariant since₀ l ∧ Distinct l)
      (G := fun l => l.handed.Nodup) ?_ (fun _ _ _ h => nodup_step_iff h.2) ?_ hr
      ⟨invariant_start c since₀ flows, distinct_start c since₀ flows⟩ List.nodup_nil
    · exact fun _ _ _ h hstep => ⟨h.1.step hstep, h.2.step h.1 hstep⟩
    · -- the sink forgets nothing
      intro l e l' _ hstep hnd
      obtain ⟨rfl, -, rfl⟩ | ⟨i, st, f, rfl, -, -, rfl⟩ | ⟨err, st, rfl, -, rfl⟩ | ⟨f, rfl, rfl⟩ :=
        step_eq_some hstep
      · exact hnd
      · exact (List.nodup_append.1 hnd).1
      · exact hnd
      · exact hnd
  exact ⟨fun h => hiff.1 h.nodup, fun h => hl.countsOnce c (hiff.2 h)⟩

/-- A call from one pod to another. -/
def callAt (t : Time) : Flow where
  verdict := .forwarded
  time := some t
  l4 := .tcp 80
  source := some { «namespace» := "shop", podName := "web" }
  destination := some { «namespace» := "shop", podName := "cart" }

/-- A stream that is refused for its field mask, and one that brings everything. -/
theorem countsOnce_refused :
    CountsOnce ⟨[], false⟩ 0
      { client := ⟨[], false⟩
        since := 2
        held := [⟨0, callAt 1⟩, ⟨1, callAt 2⟩]
        stream := some ⟨Client.request ⟨[], false⟩ 0, []⟩
        handed := [⟨0, callAt 1⟩, ⟨1, callAt 2⟩] } :=
  (countsOnce_iff_everyStep_pastBoundary ⟨[], false⟩ 0 [callAt 1, callAt 2]
    [.opened, .cut .invalidArgument, .opened, .received 0, .received 0] (by rfl) (by decide)).2
    (by decide)

/-- One flow, brought by a stream that breaks then; the next stream is asked for it again. -/
theorem not_countsOnce_after_cut :
    ¬ ∀ (c : Client) (since₀ : Time) (flows : List Flow) (es : List Event) (l : Link),
      Run.run step (start c since₀ flows) es = some l →
      Run.EveryStep step (InOrder since₀) (start c since₀ flows) es → CountsOnce c since₀ l := by
  intro h
  have honce := h ⟨[], false⟩ 0 [callAt 1]
    [.opened, .received 0, .cut .other, .opened, .received 0]
    { client := ⟨[], true⟩
      since := 1
      held := [⟨0, callAt 1⟩]
      stream := some ⟨Client.request ⟨[], true⟩ 1, []⟩
      handed := [⟨0, callAt 1⟩, ⟨0, callAt 1⟩] } (by rfl) (by decide)
  exact absurd honce.nodup (by decide)

set_option maxRecDepth 10000 in
/-- The edge of that flow has counted it twice. -/
example : (edgeCounts (300 * second) (fun _ _ _ => 0) [⟨0, callAt 1⟩, ⟨0, callAt 1⟩]).map
    (fun counts => (counts "shop/Pod/web|shop/Pod/cart|TCP|80").map (· verdictForwarded))
      = some (some 2) := by
  decide

end Link

end Relay

end Flowscape
