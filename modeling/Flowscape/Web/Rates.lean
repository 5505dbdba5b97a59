import Flowscape.Web.Fold
import Mathlib.Algebra.BigOperators.Field
import Mathlib.Algebra.BigOperators.Fin
import Mathlib.Algebra.Order.BigOperators.Group.Finset
import Mathlib.Data.Nat.Cast.Basic

/-!
# Flowscape: the rates that the browser shows

The ring of an edge in the browser is a ring of seconds too: `setBucket` puts, `addBucket` adds.
What it holds after a snapshot and any ticks is what they wrote, as long as the seconds that
are read are not a whole ring older than the last one written. `series` then lists the sums over
the window second by second, exactly, and `rate` is their sum divided by the length of the window,
rounded as the browser rounds a quotient.
-/

namespace Flowscape

namespace GraphState

/-! ## Slots -/

/-- With a window that is not empty the index is the remainder. -/
theorem slot_eq {n : Nat} (hn : 0 < n) (sec : Int) : slot n sec = some (sec % n).toNat := by
  have hlt : -(n : Int) < sec.tmod n := by
    have := Int.tmod_lt_of_pos (-sec) (b := (n : Int)) (by omega)
    rw [Int.neg_tmod] at this
    omega
  have hmod : sec.tmod n % n = sec % n := by
    conv_rhs => rw [← Int.mul_tdiv_add_tmod sec n, Int.mul_add_emod_self_left]
  rw [slot, if_neg (by omega), Int.tmod_eq_emod_of_nonneg (by omega), Int.add_emod_right, hmod]

/-- What is written into a slot is read from it, modulo the width of the counters. -/
theorem readSlot_writeSlot {n i j : Nat} {ring : List UInt32} (hlen : ring.length = n * 4)
    (hi : i < n) (c : Counters) (v : VerdictCode) :
    readSlot (writeSlot ring i c) j v = if j = i then c v % 2 ^ 32 else readSlot ring j v := by
  unfold readSlot writeSlot
  simp only [List.getD_eq_getElem?_getD, List.getElem?_set, List.length_set, hlen]
  by_cases hj : j = i
  · subst hj
    have h₀ : j * 4 < n * 4 := by omega
    have h₁ : j * 4 + 1 < n * 4 := by omega
    have h₂ : j * 4 + 2 < n * 4 := by omega
    have h₃ : j * 4 + 3 < n * 4 := by omega
    match v with
    | 0 => simp [h₀, verdictForwarded]
    | 1 => simp [h₁, verdictDropped]
    | 2 => simp [h₂, verdictAudit]
    | 3 => simp [h₃, verdictError]
  · -- the four places of another slot
    rw [if_neg (by omega), if_neg (by omega), if_neg (by omega), if_neg (by omega), if_neg hj]

theorem length_writeSlot (ring : List UInt32) (i : Nat) (c : Counters) :
    (writeSlot ring i c).length = ring.length := by simp [writeSlot]

/-! ## What a ring holds -/

/-- What the ring of an edge holds for a second, with a window of `n` seconds. -/
def held (n : Nat) (e : EdgeState) (sec : Int) : Counters := fun v =>
  match slot n sec with
  | none => 0
  | some i => if e.epochs[i]? = some sec then readSlot e.ring i v else 0

/-- The ring holds the counters that `h` has for each second, as far as they fit. -/
structure Holds (n : Nat) (e : EdgeState) (h : Int → Counters) : Prop where
  ring : e.ring.length = n * 4
  epochs : e.epochs.length = n
  held : ∀ sec v, held n e sec v = h sec v % 2 ^ 32

/-- Two edges with the same arrays hold the same. -/
theorem Holds.congr {n : Nat} {e e' : EdgeState} {h : Int → Counters} (hold : Holds n e h)
    (hring : e'.ring = e.ring) (hepochs : e'.epochs = e.epochs) : Holds n e' h where
  ring := by rw [hring, hold.ring]
  epochs := by rw [hepochs, hold.epochs]
  held sec v := by
    rw [← hold.held]
    unfold GraphState.held
    rw [hring, hepochs]

/-- A new ring is empty: its epochs are before any second that flows are counted in, and where
they are not, its counters are zero. -/
theorem holds_freshEdge {n : Nat} (hn : 0 < n) (e : WireEdge) :
    Holds n (freshEdge n e) fun _ => 0 where
  ring := List.length_replicate
  epochs := List.length_replicate
  held sec v := by
    rw [GraphState.held, slot_eq hn]
    have hread : readSlot (freshEdge n e).ring (sec % n).toNat v = 0 := by
      simp [readSlot, freshEdge, List.getD_eq_getElem?_getD, List.getElem?_replicate]
      split <;> rfl
    simp only [hread, ite_self]
    rfl

theorem toNat_emod_lt {n : Nat} (hn : 0 < n) (sec : Int) : (sec % n).toNat < n := by
  have h₁ : 0 ≤ sec % (n : Int) := Int.emod_nonneg _ (by omega)
  have h₂ : sec % (n : Int) < n := Int.emod_lt_of_pos _ (by omega)
  omega

theorem toNat_emod_eq_iff {n : Nat} (hn : 0 < n) {t u : Int} :
    (t % n).toNat = (u % n).toNat ↔ u % n = t % n := by
  have h₁ : 0 ≤ t % (n : Int) := Int.emod_nonneg _ (by omega)
  have h₂ : 0 ≤ u % (n : Int) := Int.emod_nonneg _ (by omega)
  omega

/-- Writing the slot of a second takes it over from any other second. -/
theorem Holds.write {n : Nat} (hn : 0 < n) {e e' : EdgeState} {h : Int → Counters}
    (hold : Holds n e h) {sec : Int} {c : Counters}
    (hepochs : e'.epochs = e.epochs.set (sec % n).toNat sec)
    (hlen : e'.ring.length = e.ring.length)
    (hread : ∀ j v, readSlot e'.ring j v
      = if j = (sec % n).toNat then c v % 2 ^ 32 else readSlot e.ring j v) :
    Holds n e' (SecondRing.set n h sec c) where
  ring := by rw [hlen, hold.ring]
  epochs := by rw [hepochs, List.length_set, hold.epochs]
  held t v := by
    have hlt := toNat_emod_lt hn sec
    have ht := hold.held t v
    rw [GraphState.held, slot_eq hn] at ht ⊢
    simp only at ht ⊢
    rw [hepochs, hread, List.getElem?_set, hold.epochs]
    unfold SecondRing.set
    -- a second of the same slot is read as gone, and any other one as before
    by_cases hmod : sec % n = t % (n : Int)
    · rw [if_pos ((toNat_emod_eq_iff hn).2 hmod.symm), if_pos hlt,
        if_pos ((toNat_emod_eq_iff hn).2 hmod)]
      by_cases heq : sec = t
      · rw [if_pos (by rw [heq]), if_pos heq]
      · rw [if_neg (by simpa using heq), if_neg heq, if_pos hmod]
        rfl
    · have hne : ¬ sec = t := fun heq => hmod (by rw [heq])
      rw [if_neg fun hi => hmod ((toNat_emod_eq_iff hn).1 hi).symm,
        if_neg fun hi => hmod ((toNat_emod_eq_iff hn).1 hi), if_neg hne, if_neg hmod]
      exact ht

theorem Holds.setBucket {n : Nat} (hn : 0 < n) {e : EdgeState} {h : Int → Counters}
    (hold : Holds n e h) (b : Bucket) :
    Holds n (setBucket n e b) (SecondRing.set n h b.sec b.counts) := by
  unfold GraphState.setBucket
  rw [slot_eq hn]
  exact hold.write hn rfl (length_writeSlot _ _ _)
    fun j v => readSlot_writeSlot hold.ring (toNat_emod_lt hn _) _ _

/-- `addBucket` puts what is held and the increment together. -/
theorem Holds.addBucket_eq {n : Nat} (hn : 0 < n) {e : EdgeState} {h : Int → Counters}
    (hold : Holds n e h) (sec : Int) (c : Counters) :
    Holds n (addBucket n e sec c)
      (SecondRing.set n h sec fun v => GraphState.held n e sec v + c v) := by
  have hlt := toNat_emod_lt hn sec
  have hheld : ∀ v, GraphState.held n e sec v
      = if e.epochs[(sec % n).toNat]? = some sec then readSlot e.ring (sec % n).toNat v else 0 := by
    intro v
    rw [GraphState.held, slot_eq hn]
  unfold addBucket
  rw [slot_eq hn]
  by_cases hepoch : e.epochs[(sec % n).toNat]? = some sec
  · simp only [hepoch, ne_eq, not_true_eq_false, if_false]
    refine hold.write hn ?_ ?_ fun j v => ?_
    · -- the epoch is already there
      obtain ⟨hi, hget⟩ := List.getElem?_eq_some_iff.1 hepoch
      have hset := List.set_getElem_self hi
      rw [hget] at hset
      exact hset.symm
    · exact length_writeSlot e.ring (sec % n).toNat fun v => readSlot e.ring (sec % n).toNat v + c v
    · rw [readSlot_writeSlot hold.ring hlt, hheld, if_pos hepoch]
  · -- the slot has another second, and is emptied before it is counted on
    simp only [ne_eq, hepoch, not_false_eq_true, if_true]
    refine hold.write hn rfl ?_ fun j v => ?_
    · rw [length_writeSlot, length_writeSlot]
    · have hlen : (writeSlot e.ring (sec % n).toNat fun _ => 0).length = n * 4 := by
        rw [length_writeSlot, hold.ring]
      rw [readSlot_writeSlot hlen hlt, readSlot_writeSlot hold.ring hlt,
        readSlot_writeSlot hold.ring hlt, hheld, if_neg hepoch, if_pos rfl]
      split <;> rfl

theorem Holds.addBucket {n : Nat} (hn : 0 < n) {e : EdgeState} {h : Int → Counters}
    (hold : Holds n e h) (sec : Int) (c : Counters) :
    Holds n (addBucket n e sec c) (SecondRing.add n h sec c) := by
  obtain ⟨hring, hepochs, hheld⟩ := hold.addBucket_eq hn sec c
  refine ⟨hring, hepochs, fun t v => (hheld t v).trans ?_⟩
  unfold SecondRing.set SecondRing.add
  by_cases heq : sec = t
  · subst heq
    rw [if_pos rfl, if_pos rfl, hold.held, Nat.mod_add_mod]
    rfl
  · rw [if_neg heq, if_neg heq]

/-! ## Histories

The writes of a snapshot and of the ticks after it into the ring of one edge. An edge that goes
takes its ring along. -/

/-- What was written into the ring of an edge since it was made. -/
structure History where
  buckets : List Bucket := []
  increments : List (Int × Counters) := []

namespace History

/-- The writes in their order. -/
def writes (h : History) : List (Int × Counters) :=
  (h.buckets.map fun b => (b.sec, b.counts)) ++ h.increments

/-- The ring that the writes leave. -/
def ring (n : Nat) (h : History) : Int → Counters :=
  SecondRing.addAll n
    (SecondRing.setAll n (fun _ => 0) (h.buckets.map fun b => (b.sec, b.counts))) h.increments

/-- The writes of a snapshot for an id. -/
def ofSnapshot (id : String) (m : Snapshot) : History where
  buckets := (m.edges.filter fun e => e.id = id).flatMap (·.buckets)

/-- With the writes of a tick for the id. -/
def tick (id : String) (h : History) (t : Tick) : History :=
  if id ∈ t.gone.edges then {}
  else { h with increments := h.increments ++
    (t.edges.filter fun e => e.id = id).map fun e => (t.ts / 1000, e.counts) }

end History

/-- The history of an id after a snapshot and ticks. -/
def history (id : String) (m : Snapshot) (ticks : List Tick) : History :=
  ticks.foldl (History.tick id) (.ofSnapshot id m)

/-- The ring of the edge under the id is the one its history leaves; an edge that is not there
has none. -/
structure Records (n : Nat) (id : String) (h : History) (s : GraphState) : Prop where
  retention : s.retention = n
  absent : s.edges.get? id = none → h = {}
  present : ∀ e, s.edges.get? id = some e → Holds n e (h.ring n)

/-- The edge that is upserted, found or new, has the ring of its history. -/
theorem Records.upserted {n : Nat} (hn : 0 < n) {h : History} {s : GraphState} {e : WireEdge}
    (hs : Records n e.id h s) :
    Holds n ((s.edges.get? e.id).getD (freshEdge n e)) (h.ring n) := by
  cases hget : s.edges.get? e.id with
  | some es => exact hs.present es hget
  | none =>
    rw [hs.absent hget]
    exact holds_freshEdge hn e

/-- The edge after `upsertEdge`: the one that was there, or a fresh one. -/
theorem upsertEdge_edges (s : GraphState) (e : WireEdge) (id : String) :
    (s.upsertEdge e).edges.get? id
      = if id = e.id then some ((s.edges.get? e.id).getD (freshEdge s.retention e))
        else s.edges.get? id := by
  unfold upsertEdge
  split
  · next h =>
    obtain ⟨es, hes⟩ := OrdMap.mem_iff.1 h
    split
    · next heq => rw [heq, hes, Option.getD_some]
    · rfl
  · next h =>
    show (s.edges.set e.id _).get? id = _
    rw [OrdMap.get?_set, OrdMap.not_mem_iff.1 h, Option.getD_none]

@[simp] theorem upsertEdge_retention (s : GraphState) (e : WireEdge) :
    (s.upsertEdge e).retention = s.retention := by
  unfold upsertEdge
  split <;> rfl

/-- A write to the edge that was just upserted. -/
theorem Records.modify {n : Nat} (hn : 0 < n) {id : String} {h h' : History} {s s' : GraphState}
    {e : WireEdge} {f : EdgeState → EdgeState} (hs : Records n id h s)
    (hretention : s'.retention = s.retention)
    (hedges : s'.edges = (s.upsertEdge e).edges.modify e.id f)
    (hother : e.id ≠ id → h' = h)
    (hown : e.id = id → ∀ es, Holds n es (h.ring n) → Holds n (f es) (h'.ring n)) :
    Records n id h' s' := by
  -- the edge of the message is made if it is new, and then changed; the others stay
  have hget : s'.edges.get? id
      = if id = e.id then some (f ((s.edges.get? e.id).getD (freshEdge n e)))
        else s.edges.get? id := by
    rw [hedges, OrdMap.get?_modify, upsertEdge_edges, hs.retention]
    split <;> rfl
  by_cases heq : id = e.id
  · subst heq
    rw [if_pos rfl] at hget
    refine ⟨hretention.trans hs.retention, fun hnone => ?_, fun es hes => ?_⟩
    · rw [hget] at hnone
      cases hnone
    · obtain rfl : f _ = es := Option.some.inj (hget.symm.trans hes)
      exact hown rfl _ (hs.upserted hn)
  · rw [if_neg heq] at hget
    rw [hother (Ne.symm heq)]
    refine ⟨hretention.trans hs.retention, fun hnone => ?_, fun es hes => ?_⟩
    · exact hs.absent (hget ▸ hnone)
    · exact hs.present es (hget ▸ hes)

theorem History.ring_buckets (n : Nat) (bs bs' : List Bucket) :
    ({ buckets := bs ++ bs' } : History).ring n
      = SecondRing.setAll n (({ buckets := bs } : History).ring n)
          (bs'.map fun b => (b.sec, b.counts)) := by
  show SecondRing.setAll n _ ((bs ++ bs').map _) = _
  rw [List.map_append]
  exact List.foldl_append

/-- A snapshot sets the seconds that it brings. -/
theorem holds_resetEdge {n : Nat} (hn : 0 < n) {es : EdgeState} {h : Int → Counters}
    (hold : Holds n es h) (e : WireEdge) :
    Holds n (resetEdge n e es)
      (SecondRing.setAll n h (e.buckets.map fun b => (b.sec, b.counts))) := by
  unfold resetEdge
  rw [SecondRing.setAll, List.foldl_map]
  exact Loop.foldl_rel (R := fun es h => Holds n es h)
    (fun es h b hold => hold.setBucket hn b) (hold.congr rfl rfl)

/-- The edge loop of a snapshot writes the buckets of the id. -/
theorem Records.snapshotEdges {n : Nat} (hn : 0 < n) {id : String} {l : List WireEdge}
    {bs : List Bucket} {s : GraphState} (hs : Records n id { buckets := bs } s) :
    Records n id { buckets := bs ++ (l.filter fun e => e.id = id).flatMap (·.buckets) }
      (l.foldl snapshotEdge s) := by
  induction l generalizing s bs with
  | nil => simpa using hs
  | cons e rest ih =>
    by_cases heq : e.id = id
    -- the seconds of this edge are set after those before
    · have hstep : Records n id { buckets := bs ++ e.buckets } (snapshotEdge s e) := by
        refine hs.modify hn (upsertEdge_retention s e) rfl (fun hne => absurd heq hne)
          fun _ es hold => ?_
        rw [upsertEdge_retention, hs.retention, History.ring_buckets]
        exact holds_resetEdge hn hold e
      have := ih hstep
      rw [List.filter_cons_of_pos (by simpa using heq), List.flatMap_cons, ← List.append_assoc]
      exact this
    · rw [List.filter_cons_of_neg (by simpa using heq)]
      exact ih (hs.modify hn (upsertEdge_retention s e) rfl (fun _ => rfl)
        fun h => absurd h heq)

theorem holds_countEdge {n : Nat} (hn : 0 < n) {es : EdgeState} {h : Int → Counters}
    (hold : Holds n es h) (sec : Int) (e : WireEdge) :
    Holds n (countEdge n sec e es) (SecondRing.add n h sec e.counts) := by
  have htotals : Holds n { es with totals := fun v => es.totals v + e.counts v } h :=
    hold.congr rfl rfl
  exact (htotals.addBucket hn sec e.counts).congr rfl rfl

/-- The edge loop of a tick writes the increments of the id. -/
theorem Records.tickEdges {n : Nat} (hn : 0 < n) {id : String} (sec : Int) (l : List WireEdge)
    {h : History} {s : GraphState} (hs : Records n id h s) :
    Records n id { h with increments := h.increments ++
        (l.filter fun e => e.id = id).map fun e => (sec, e.counts) }
      (l.foldl (tickEdge sec) s) := by
  induction l generalizing s h with
  | nil => simpa using hs
  | cons e rest ih =>
    by_cases heq : e.id = id
    -- the increment of this edge is added after those before
    · have hstep : Records n id { h with increments := h.increments ++ [(sec, e.counts)] }
          (tickEdge sec s e) := by
        refine hs.modify hn (upsertEdge_retention s e) rfl (fun hne => absurd heq hne)
          fun _ es hold => ?_
        rw [upsertEdge_retention, hs.retention]
        have hring : ({ h with increments := h.increments ++ [(sec, e.counts)] } : History).ring n
            = SecondRing.add n (h.ring n) sec e.counts := SecondRing.addAll_append _ _
        rw [hring]
        exact holds_countEdge hn hold sec e
      have := ih hstep
      rw [List.filter_cons_of_pos (by simpa using heq), List.map_cons,
        ← List.singleton_append, ← List.append_assoc]
      exact this
    · rw [List.filter_cons_of_neg (by simpa using heq)]
      exact ih (hs.modify hn (upsertEdge_retention s e) rfl (fun _ => rfl)
        fun h => absurd h heq)

/-- Nodes and removals do not touch the rings that stay. -/
theorem Records.congr {n : Nat} {id : String} {h : History} {s s' : GraphState}
    (hs : Records n id h s) (hretention : s'.retention = s.retention)
    (hedges : s'.edges.get? id = s.edges.get? id) : Records n id h s' where
  retention := hretention.trans hs.retention
  absent hnone := hs.absent (hedges ▸ hnone)
  present es hes := hs.present es (hedges ▸ hes)

@[simp] theorem upsertNode_retention (s : GraphState) (m : WireNode) :
    (s.upsertNode m).retention = s.retention := by
  unfold upsertNode
  split <;> rfl

@[simp] theorem removeEdge_retention (s : GraphState) (id : String) :
    (s.removeEdge id).retention = s.retention := by
  unfold removeEdge
  split <;> rfl

@[simp] theorem removeNode_retention (s : GraphState) (id : String) :
    (s.removeNode id).retention = s.retention := by
  unfold removeNode
  split <;> rfl

theorem Records.upsertNodes {n : Nat} {id : String} {h : History} {s : GraphState}
    (hs : Records n id h s) (l : List WireNode) : Records n id h (l.foldl upsertNode s) :=
  hs.congr (Loop.foldl_const (g := fun s : GraphState => s.retention) upsertNode_retention)
    (by rw [foldl_upsertNode_edges])

theorem Records.removeNodes {n : Nat} {id : String} {h : History} {s : GraphState}
    (hs : Records n id h s) (l : List String) : Records n id h (l.foldl removeNode s) :=
  hs.congr (Loop.foldl_const (g := fun s : GraphState => s.retention) removeNode_retention)
    (by rw [Loop.foldl_const (g := fun s : GraphState => s.edges) removeNode_edges])

/-- The ring of an edge that is reported gone goes with it. -/
theorem Records.removeEdges {n : Nat} {id : String} {h : History} {s : GraphState}
    (hs : Records n id h s) (l : List String) :
    Records n id (if id ∈ l then {} else h) (l.foldl removeEdge s) := by
  induction l generalizing s h with
  | nil => simpa using hs
  | cons eid rest ih =>
    have hget := removeEdge_edges s eid id
    by_cases heq : id = eid
    · subst heq
      rw [if_pos rfl] at hget
      -- an edge that goes takes its seconds with it, and starts anew if it comes back
      have hgone : Records n id {} (s.removeEdge id) := by
        refine ⟨(removeEdge_retention s id).trans hs.retention, fun _ => rfl, fun es hes => ?_⟩
        rw [hget] at hes
        cases hes
      have := ih hgone
      rw [ite_self] at this
      rw [if_pos List.mem_cons_self]
      exact this
    · rw [if_neg heq] at hget
      have := ih (hs.congr (removeEdge_retention s eid) hget)
      simp only [List.mem_cons, heq, false_or]
      exact this

/-- **After a snapshot an edge holds the seconds that were sent.** -/
theorem Records.applySnapshot {n : Nat} (hn : 0 < n) {s : GraphState} (hs : s.retention = n)
    (id : String) (m : Snapshot) : Records n id (.ofSnapshot id m) (s.applySnapshot m) := by
  have hclear : Records n id {} s.clear := by
    refine ⟨hs, fun _ => rfl, fun es hes => ?_⟩
    rw [show s.clear.edges = ∅ from rfl, OrdMap.get?_empty] at hes
    cases hes
  have hloops := (hclear.upsertNodes m.nodes).snapshotEdges hn (l := m.edges)
  exact hloops.congr rfl rfl

/-- **After a tick it holds what was added, too.** -/
theorem Records.applyTick {n : Nat} (hn : 0 < n) {id : String} {h : History} {s : GraphState}
    (hs : Records n id h s) (t : Tick) : Records n id (h.tick id t) (s.applyTick t) := by
  have hloops := (((hs.upsertNodes t.nodes).tickEdges hn (t.ts / 1000)
    t.edges).removeEdges t.gone.edges).removeNodes t.gone.nodes
  exact hloops.congr rfl rfl

/-- **The ring of an edge.** After a snapshot and any ticks it is what its history leaves. -/
theorem records_history {n : Nat} (hn : 0 < n) {s : GraphState} (hs : s.retention = n)
    (id : String) (m : Snapshot) (ticks : List Tick) :
    Records n id (history id m ticks) (ticks.foldl applyTick (s.applySnapshot m)) :=
  Loop.foldl_rel (R := fun s h => Records n id h s) (fun _ _ t hs => hs.applyTick hn t)
    (Records.applySnapshot hn hs id m)

/-! ## Reading windows -/

theorem foldl_add_eq_sum {l : List Int} {f : Int → Counters} {g : Counters → Int → Counters}
    (hg : ∀ out sec, g out sec = out + f sec) (out : Counters) :
    l.foldl g out = out + (l.map f).sum := by
  induction l generalizing out with
  | nil => exact (add_zero out).symm
  | cons t rest ih => rw [List.foldl_cons, ih, hg, List.map_cons, List.sum_cons, add_assoc]

/-- `rate` divides the sum of what the ring holds for the window. -/
theorem rate_eq (s : GraphState) (e : EdgeState) {w : Nat} (hw : w ≤ s.retention) (nowSec : Int) :
    s.rate e w nowSec = fun v => Rounding.binary64.round
      (((SecondRing.window w nowSec).map (held s.retention e)).sum v / (w : Rat)) := by
  unfold rate
  simp only [Nat.min_eq_left hw]
  rw [foldl_add_eq_sum (f := held s.retention e)]
  · rw [show (fun _ => 0 : Counters) = 0 from rfl, zero_add]
  · intro out sec
    funext v
    rw [Pi.add_apply, held]
    cases slot s.retention sec with
    | none => rfl
    | some i => by_cases h : e.epochs[i]? = some sec <;> simp [h]

/-- `series` lists what the ring holds for the seconds of the window. -/
theorem series_eq (s : GraphState) (e : EdgeState) {w : Nat} (hw : w ≤ s.retention)
    (nowSec : Int) :
    s.series e w nowSec
      = (SecondRing.window w nowSec).map fun sec => ∑ v, held s.retention e sec v := by
  unfold series
  simp only [Nat.min_eq_left hw]
  apply List.map_congr_left
  intro sec _
  -- a slot of another second counts as nothing, as `held` has it
  rw [Fin.sum_univ_four]
  unfold held
  cases slot s.retention sec with
  | none => rfl
  | some i => by_cases h : e.epochs[i]? = some sec <;> simp [h, verdictForwarded, verdictDropped,
      verdictAudit, verdictError]

/-! ## What a rate is -/

/-- A rate is what was counted in `w` seconds divided by `w`, rounded. `w` times the rate is the
count again exactly when the quotient is a number of the format, and next to it otherwise. -/
structure IsRate (count : Counters) (w : Nat) (rate : VerdictCode → Rat) : Prop where
  rounded : ∀ v, rate v = Rounding.binary64.round (count v / w)
  exact_iff : ∀ v, w * rate v = count v ↔ Rounding.binary64.Has (count v / w)
  near : w ≤ 2 ^ 53 → ∀ v, |w * rate v - count v| ≤ count v / 2 ^ 53

/-- One rounding is an error of at most half of the last of 53 digits: a quotient by a number of
seconds is not so small that it has fewer. -/
theorem abs_mul_round_sub_le {count w : Nat} (hw : 1 ≤ w) (hle : w ≤ 2 ^ 53) :
    |w * Rounding.binary64.round (count / w) - count| ≤ (count : Rat) / 2 ^ 53 := by
  have hpos : (0 : Rat) < w := Nat.cast_pos.2 hw
  rcases Nat.eq_zero_or_pos count with rfl | hcount
  · have hzero : Rounding.binary64.round ((0 : Nat) / w : Rat) = 0 :=
      ((Rounding.Format.round_eq_self_iff (by decide)).2
        ⟨0, 0, by decide, by decide, by simp⟩).trans (by simp)
    rw [hzero]
    simp
  -- the quotient is at least one part in `2 ^ 53`, far from where doubles lose digits
  have hnormal : (2 : Rat) ^ (Rounding.binary64.least + Rounding.binary64.precision - 1)
      ≤ |(count : Rat) / w| := by
    have hone : (1 : Rat) ≤ count := by exact_mod_cast hcount
    have hwle : (w : Rat) ≤ 2 ^ 53 := by exact_mod_cast hle
    rw [abs_of_pos (div_pos (by linarith) hpos), le_div_iff₀ hpos]
    calc (2 : Rat) ^ (Rounding.binary64.least + Rounding.binary64.precision - 1) * w
        ≤ 2 ^ (-53 : Int) * 2 ^ 53 :=
          mul_le_mul (zpow_le_zpow_right₀ one_le_two (by decide)) hwle hpos.le (by positivity)
      _ = 1 := by norm_num
      _ ≤ count := hone
  have herr := Rounding.Format.abs_round_sub_le hnormal
  have hquot : (w : Rat) * (count / w) = count := mul_div_cancel₀ _ hpos.ne'
  have heq : w * Rounding.binary64.round (count / w) - (count : Rat)
      = w * (Rounding.binary64.round (count / w) - count / w) := by rw [mul_sub, hquot]
  rw [heq, abs_mul, abs_of_pos hpos]
  calc (w : Rat) * |Rounding.binary64.round (count / w) - count / w|
      ≤ w * (|(count : Rat) / w| / 2 ^ 53) := mul_le_mul_of_nonneg_left herr hpos.le
    _ = count / 2 ^ 53 := by
        rw [abs_of_nonneg (div_nonneg (Nat.cast_nonneg count) hpos.le), ← mul_div_assoc, hquot]

/-- The quotient, rounded once, is the rate. -/
theorem isRate {count : Counters} {w : Nat} {rate : VerdictCode → Rat} (hw : 1 ≤ w)
    (h : ∀ v, rate v = Rounding.binary64.round (count v / w)) : IsRate count w rate where
  rounded := h
  exact_iff v := by
    have hne : (w : Rat) ≠ 0 := Nat.cast_ne_zero.2 (by omega)
    rw [← Rounding.Format.round_eq_self_iff (by decide), h, eq_div_iff hne, mul_comm]
  near hle v := by
    rw [h]
    exact abs_mul_round_sub_le hw hle

theorem IsRate.near_sum {count : Counters} {w : Nat} {rate : VerdictCode → Rat}
    (h : IsRate count w rate) (hle : w ≤ 2 ^ 53) :
    |w * ∑ v, rate v - ((∑ v, count v : Nat) : Rat)| ≤ ((∑ v, count v : Nat) : Rat) / 2 ^ 53 := by
  rw [Nat.cast_sum, Finset.mul_sum, ← Finset.sum_sub_distrib, Finset.sum_div]
  exact (Finset.abs_sum_le_sum_abs _ _).trans (Finset.sum_le_sum fun v _ => h.near hle v)

/-! ## Histories and their rates -/

/-- What was written for the seconds in `(lo, hi]`. -/
def History.between (h : History) (lo hi : Int) : Counters :=
  ((h.writes.filter fun p => lo < p.1 ∧ p.1 ≤ hi).map Prod.snd).sum

/-- The conditions on a history: buckets in increasing seconds, then ticks that go forward and
not before them, and nothing that does not fit in a counter. -/
structure History.Proper (h : History) : Prop where
  buckets : h.buckets.Pairwise fun a b => a.sec < b.sec
  forward : h.writes.Pairwise fun p q => p.1 ≤ q.1
  fits : ∀ t v, SecondRing.total h.writes t v < 2 ^ 32

/-- The writes of such a history are additions. -/
theorem History.Proper.ring_eq {h : History} (hp : h.Proper) (n : Nat) :
    h.ring n = SecondRing.addAll n (fun _ => 0) h.writes := by
  rw [History.ring, History.writes, SecondRing.addAll_append, SecondRing.setAll_eq_addAll]
  · exact fun _ _ => rfl
  · exact List.pairwise_map.2 (hp.buckets.imp fun hlt => ne_of_lt hlt)

/-- No write is later than the last. -/
theorem History.Proper.le_last {h : History} (hp : h.Proper) {last : Int × Counters}
    (hlast : h.writes.getLast? = some last) : ∀ p ∈ h.writes, p.1 ≤ last.1 := by
  obtain ⟨init, hinit⟩ := List.getLast?_eq_some_iff.1 hlast
  have hsorted := hp.forward
  rw [hinit] at hsorted ⊢
  intro p hmem
  rcases List.mem_append.1 hmem with hin | hin
  · exact (List.pairwise_append.1 hsorted).2.2 p hin last List.mem_cons_self
  · rw [List.mem_singleton.1 hin]

/-- In the window, the ring holds everything that was written. -/
theorem History.Proper.held {n : Nat} {h : History} (hp : h.Proper) {e : EdgeState}
    (hold : Holds n e (h.ring n)) {t : Int} (hlast : ∀ p ∈ h.writes, p.1 < t + n) :
    GraphState.held n e t = SecondRing.total h.writes t := by
  funext v
  rw [hold.held, hp.ring_eq, SecondRing.addAll_of_kept rfl
    (SecondRing.kept_of_sorted hp.forward hlast), Nat.mod_eq_of_lt (hp.fits t v)]

/-- The window sums of the totals, summed up over the verdicts too. -/
theorem sum_map_sum (l : List Int) (f : Int → Counters) :
    (l.map fun t => ∑ v, f t v).sum = ∑ v, (l.map f).sum v := by
  induction l with
  | nil => simp
  | cons t rest ih =>
    simp only [List.map_cons, List.sum_cons, Pi.add_apply, Finset.sum_add_distrib, ih]

/-- **The rates of an edge.** After a snapshot and ticks, its rate is that of what was written for
it in `(nowSec - w, nowSec]`, and the series lists what was written second by second, without any
rounding. -/
theorem rate_written {s : GraphState} {m : Snapshot} {ticks : List Tick} {id : String}
    {e : EdgeState}
    (he : (ticks.foldl applyTick (s.applySnapshot m)).edges.get? id = some e)
    (hproper : (history id m ticks).Proper) {w : Nat} (hw : 1 ≤ w) (hwn : w ≤ s.retention)
    {nowSec : Int}
    (hlast : ∀ last ∈ (history id m ticks).writes.getLast?,
      last.1 ≤ nowSec + (s.retention - w)) :
    IsRate ((history id m ticks).between (nowSec - w) nowSec) w
      ((ticks.foldl applyTick (s.applySnapshot m)).rate e w nowSec) ∧
    (ticks.foldl applyTick (s.applySnapshot m)).series e w nowSec
      = (SecondRing.window w nowSec).map (fun t =>
          ∑ v, SecondRing.total (history id m ticks).writes t v) ∧
    ((ticks.foldl applyTick (s.applySnapshot m)).series e w nowSec).sum
      = ∑ v, (history id m ticks).between (nowSec - w) nowSec v ∧
    (w ≤ 2 ^ 53 →
      |w * ∑ v, (ticks.foldl applyTick (s.applySnapshot m)).rate e w nowSec v
          - ((ticks.foldl applyTick (s.applySnapshot m)).series e w nowSec).sum|
        ≤ (((ticks.foldl applyTick (s.applySnapshot m)).series e w nowSec).sum : Rat) / 2 ^ 53) := by
  have hn : 0 < s.retention := by omega
  obtain ⟨hretention, -, hpresent⟩ := records_history hn rfl id m ticks
  have hold := hpresent e he
  generalize ticks.foldl applyTick (s.applySnapshot m) = s' at *
  generalize history id m ticks = h at *
  -- within the window no second has lost its slot to a later one
  have hheld : (SecondRing.window w nowSec).map (held s'.retention e)
      = (SecondRing.window w nowSec).map (SecondRing.total h.writes) := by
    apply List.map_congr_left
    intro t ht
    obtain ⟨hlow, -⟩ := SecondRing.mem_window.1 ht
    rw [hretention]
    apply hproper.held hold
    intro p hp
    cases hget : h.writes.getLast? with
    | none =>
      rw [List.getLast?_eq_none_iff.1 hget] at hp
      cases hp
    | some last =>
      have h₁ := hproper.le_last hget p hp
      have h₂ := hlast last hget
      omega
  have hsum : ((SecondRing.window w nowSec).map (held s'.retention e)).sum
      = h.between (nowSec - w) nowSec := by
    rw [hheld, SecondRing.sum_map_total (SecondRing.nodup_window w nowSec), History.between]
    simp only [SecondRing.mem_window]
  have hrate : IsRate (h.between (nowSec - w) nowSec) w (s'.rate e w nowSec) :=
    isRate hw fun v => by rw [rate_eq s' e (hretention ▸ hwn), hsum]
  have hseries := series_eq s' e (hretention ▸ hwn) nowSec
  have htotal : (s'.series e w nowSec).sum = ∑ v, h.between (nowSec - w) nowSec v := by
    rw [hseries, sum_map_sum, hsum]
  refine ⟨hrate, ?_, htotal, fun hle => ?_⟩
  · rw [hseries]
    apply List.map_congr_left
    intro t ht
    rw [List.map_inj_left.1 hheld t ht]
  · rw [htotal]
    exact hrate.near_sum hle

/-- A conversation with some counts in a message. -/
def countedEdge (forwarded : Nat) (buckets : List Bucket) : WireEdge where
  id := "a|b|TCP|80"
  src := "a"
  dst := "b"
  proto := "TCP"
  port := 80
  counts := Pi.single verdictForwarded forwarded
  last := 0
  latencyMs := 0
  l7 := none
  drops := ∅
  buckets := buckets

/-- A snapshot with a bucket for second 3. -/
def countedSnapshot : Snapshot :=
  ⟨3000, [], [countedEdge 7 [⟨3, Pi.single verdictForwarded 7⟩]]⟩

/-- Ticks in the seconds 5 and 13; the second one takes the slot of second 3 over. -/
def countedTicks : List Tick :=
  [⟨5000, [], [countedEdge 2 []], ⟨[], []⟩, []⟩, ⟨13500, [], [countedEdge 1 []], ⟨[], []⟩, []⟩]

theorem history_counted : history "a|b|TCP|80" countedSnapshot countedTicks =
    { buckets := [⟨3, Pi.single verdictForwarded 7⟩],
      increments := [(5, Pi.single verdictForwarded 2), (13, Pi.single verdictForwarded 1)] } := by
  simp [history, countedTicks, History.tick, History.ofSnapshot, countedSnapshot, countedEdge]

/-- A full window, just after its oldest slot was reused. -/
theorem rate_written_counted :
    ∃ e, (countedTicks.foldl applyTick ((new 10).applySnapshot countedSnapshot)).edges.get?
        "a|b|TCP|80" = some e ∧
      IsRate ((history "a|b|TCP|80" countedSnapshot countedTicks).between (13 - (10 : Nat)) 13) 10
        ((countedTicks.foldl applyTick
          ((new 10).applySnapshot countedSnapshot)).rate e 10 13) := by
  obtain ⟨e, he⟩ := OrdMap.mem_iff.1 (show "a|b|TCP|80" ∈
    (countedTicks.foldl applyTick ((new 10).applySnapshot countedSnapshot)).edges by decide)
  refine ⟨e, he, (rate_written he ?_ (by decide) (by decide) ?_).1⟩
  · rw [history_counted]
    refine ⟨by simp, by simp [History.writes], fun t v => ?_⟩
    -- the counts are small, far from the width of a counter
    have hsingle : ∀ k : Nat, k < 8 → (Pi.single verdictForwarded k : Counters) v < 2 ^ 32 := by
      intro k hk
      rw [Pi.single_apply]
      split <;> omega
    rcases eq_or_ne t 3 with rfl | h₃
    · simpa [SecondRing.total, History.writes] using hsingle 7 (by decide)
    rcases eq_or_ne t 5 with rfl | h₅
    · simpa [SecondRing.total, History.writes] using hsingle 2 (by decide)
    rcases eq_or_ne t 13 with rfl | h₁₃
    · simpa [SecondRing.total, History.writes] using hsingle 1 (by decide)
    · simp [SecondRing.total, History.writes, h₃.symm, h₅.symm, h₁₃.symm]
  · rw [history_counted]
    simp [History.writes, new]

/-- No binary fraction is `1 / 49`. -/
theorem not_has_one_div : ¬ Rounding.binary64.Has (1 / 49) := by
  intro h
  obtain ⟨k, hk⟩ := h.exists_den
  have hden : 49 = 2 ^ k := by rwa [one_div, Rat.inv_ofNat_den] at hk
  cases k with
  | zero => cases hden
  | succ k =>
    rw [pow_succ] at hden
    omega

/-- A snapshot with one flow. -/
def oneFlow : Snapshot := ⟨3000, [], [countedEdge 1 [⟨3, Pi.single verdictForwarded 1⟩]]⟩

theorem history_oneFlow : history "a|b|TCP|80" oneFlow [] =
    { buckets := [⟨3, Pi.single verdictForwarded 1⟩] } := by
  simp [history, History.ofSnapshot, oneFlow, countedEdge]

/-- **`w` times a rate need not be the count.** One flow in a window of 49 seconds is a rate of
`1 / 49`, which the browser rounds. -/
theorem not_rate_exact : ¬ ∀ (s : GraphState) (m : Snapshot) (ticks : List Tick) (id : String)
    (e : EdgeState), (ticks.foldl applyTick (s.applySnapshot m)).edges.get? id = some e →
    (history id m ticks).Proper → ∀ w : Nat, 1 ≤ w → w ≤ s.retention → ∀ nowSec : Int,
    (∀ last ∈ (history id m ticks).writes.getLast?, last.1 ≤ nowSec + (s.retention - w)) →
    ∀ v, w * (ticks.foldl applyTick (s.applySnapshot m)).rate e w nowSec v
      = (history id m ticks).between (nowSec - w) nowSec v := by
  intro h
  obtain ⟨e, he⟩ := OrdMap.mem_iff.1 (show "a|b|TCP|80" ∈
    (List.foldl applyTick ((new 49).applySnapshot oneFlow) []).edges by decide)
  have hproper : (history "a|b|TCP|80" oneFlow []).Proper := by
    rw [history_oneFlow]
    refine ⟨by simp, by simp [History.writes], fun t v => ?_⟩
    rcases eq_or_ne t 3 with rfl | hne
    · simp only [SecondRing.total, History.writes, List.map_cons, List.map_nil, List.append_nil,
        List.filter_cons, decide_true, if_true, List.filter_nil, List.sum_cons, List.sum_nil,
        add_zero, Pi.single_apply]
      split <;> decide
    · simp [SecondRing.total, History.writes, hne.symm]
  have hlast : ∀ last ∈ (history "a|b|TCP|80" oneFlow []).writes.getLast?,
      last.1 ≤ 3 + (((new 49).retention : Int) - (49 : Nat)) := by
    rw [history_oneFlow]
    simp [History.writes, new]
  have hexact := h (new 49) oneFlow [] _ e he hproper 49 (by decide) (by decide) 3 hlast
    verdictForwarded
  have hrate : ((List.foldl applyTick ((new 49).applySnapshot oneFlow) []).edges.get?
      "a|b|TCP|80").map (fun e => (List.foldl applyTick ((new 49).applySnapshot oneFlow) []).rate e
        49 3 verdictForwarded) = some (Rounding.binary64.round (1 / 49)) := by decide +kernel
  have hcount : (history "a|b|TCP|80" oneFlow []).between (3 - (49 : Nat)) 3 verdictForwarded = 1 :=
    by decide +kernel
  rw [he, Option.map_some, Option.some.injEq] at hrate
  rw [hrate, hcount, Nat.cast_one, Nat.cast_ofNat] at hexact
  -- the rounded quotient would be the quotient
  have hround : Rounding.binary64.round (1 / 49) = 1 / 49 := by linarith
  exact not_has_one_div ((Rounding.Format.round_eq_self_iff (by decide)).1 hround)

/-- Nor is the product 1 when the browser takes it, and rounds it too. -/
example : Rounding.binary64.round (49 * Rounding.binary64.round (1 / 49)) ≠ 1 := by decide +kernel

end GraphState

end Flowscape
