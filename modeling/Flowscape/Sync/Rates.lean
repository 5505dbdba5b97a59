import Flowscape.Graph.Timestamps
import Flowscape.Web.Rates

/-!
# Flowscape: the rates of a snapshot

A snapshot carries what the rings of the server hold, and the browser puts it into rings of its
own. Both rings hold the same for every second of the window: the cut-off of the snapshot is
not later than the first second of the longest window, and no two buckets share a slot. So the
browser's rate is the quotient of the server's counts, rounded once.
-/

namespace Flowscape

open GraphState

/-- The browser's ring after a snapshot holds what the server's ring held. -/
theorem held_of_snapshot {r : Ring} (hr : r.Fits) {n : Nat} (hn : n = r.slots.length)
    {since : Int} {es : EdgeState}
    (hold : Holds n es (({ buckets := r.sparse since } : History).ring n)) {t : Int}
    (ht : since < t) : held n es t = r.held t := by
  have hdistinct : (r.sparse since).Pairwise fun a b => a.sec ≠ b.sec :=
    (hr.sparse_increasing since).imp fun hlt => ne_of_lt hlt
  have hring : ({ buckets := r.sparse since } : History).ring n
      = SecondRing.addAll n (fun _ => 0) ((r.sparse since).map fun b => (b.sec, b.counts)) :=
    SecondRing.setAll_eq_addAll (fun _ _ => rfl) (List.pairwise_map.2 hdistinct)
  -- the slots of the server keep the buckets apart
  have hkept : SecondRing.Kept n t ((r.sparse since).map fun b => (b.sec, b.counts)) := by
    refine List.pairwise_map.2 (hdistinct.imp_of_mem ?_)
    rintro a b ha hb - rfl ⟨hne, hmod⟩
    have hplace : r.place b.sec = r.place a.sec := by
      rw [Ring.place, Ring.place, ← hn, hmod]
    exact hne (Ring.eq_of_place_eq (hr.mem_sparse.1 hb).2.1 (hr.mem_sparse.1 ha).2.1 hplace)
  funext v
  rw [hold.held, hring, SecondRing.addAll_of_kept rfl hkept, hr.total_sparse ht,
    Nat.mod_eq_of_lt (r.held_lt t v)]

/-- The one element with a key. -/
theorem filter_key_eq {β : Type} {f : β → String} {l : List β} (hnd : (l.map f).Nodup) {b : β}
    (hb : b ∈ l) : l.filter (fun x => f x = f b) = [b] := by
  induction l with
  | nil => cases hb
  | cons a rest ih =>
    rw [List.map_cons, List.nodup_cons] at hnd
    rcases List.mem_cons.1 hb with rfl | hb
    · rw [List.filter_cons_of_pos (by simp), List.filter_eq_nil_iff.2]
      intro x hx
      have hne : f x ≠ f b := fun heq => hnd.1 (heq ▸ List.mem_map.2 ⟨x, hx, rfl⟩)
      simpa using hne
    · have hne : f a ≠ f b := fun heq => hnd.1 (heq ▸ List.mem_map.2 ⟨b, hb, rfl⟩)
      rw [List.filter_cons_of_neg (by simpa using hne), ih hnd.2 hb]

/-- A snapshot has one entry for an edge, with the buckets of its ring. -/
theorem exists_wireEdge {g : Graph} (hinv : g.Inv) {id : String} {e : Edge}
    (he : g.edges.get? id = some e) (ρ : RangeOrder) (now : Time) :
    ∃ we ∈ (g.snapshot ρ now).edges, we.id = id ∧
      we.buckets = e.ring.sparse (now - g.retention).unix :=
  ⟨_, Graph.mem_snapshot_edges.2 ⟨id, e, he, rfl⟩, (hinv.edgeNamed he).1, rfl⟩

theorem ofSnapshot_snapshot {g : Graph} (hinv : g.Inv) {id : String} {e : Edge}
    (he : g.edges.get? id = some e) (ρ : RangeOrder) (now : Time) :
    History.ofSnapshot id (g.snapshot ρ now)
      = { buckets := e.ring.sparse (now - g.retention).unix } := by
  obtain ⟨we, hmem, rfl, hbuckets⟩ := exists_wireEdge hinv he ρ now
  rw [History.ofSnapshot, filter_key_eq (Graph.nodup_snapshot_edges hinv) hmem, ← hbuckets]
  simp

/-- The cut-off of a snapshot is not later than the start of the longest window. -/
theorem cutoff_le (now retention : Time) :
    (now - retention).unix ≤ now.unix - retention / second := by
  unfold Time.unix second
  omega

/-- **Both rings agree.** After a snapshot, the rate of an edge is that of the sum of the slots that
the server's ring has for `(now - w, now]`. -/
theorem rate_snapshot {g : Graph} (hinv : g.Inv) {id : String} {e : Edge}
    (he : g.edges.get? id = some e) {adds : List (Int × VerdictCode)}
    (hring : (newRing (g.retention / second)).addAll adds = some e.ring) (ρ : RangeOrder)
    (now : Time) {s : GraphState} (hs : s.retention = e.ring.slots.length) {w : Nat} (hw : 1 ≤ w)
    (hwn : w ≤ s.retention) :
    ∃ es, (s.applySnapshot (g.snapshot ρ now)).edges.get? id = some es ∧
      IsRate (e.ring.between (now.unix - w) now.unix) w
        ((s.applySnapshot (g.snapshot ρ now)).rate es w now.unix) := by
  obtain ⟨hlen, hholds⟩ := (Ring.holds_newRing (g.retention / second)).addAll hring
  obtain ⟨we, hmem, hid, -⟩ := exists_wireEdge hinv he ρ now
  have hsent := applySnapshot_edgeInfo_sent s (Graph.nodup_snapshot_edges hinv) hmem
  rw [hid] at hsent
  obtain ⟨es, hes, -⟩ := Option.map_eq_some_iff.1 hsent
  refine ⟨es, hes, isRate hw fun v => ?_⟩
  have hrecords := Records.applySnapshot (by omega) rfl id (g.snapshot ρ now) (s := s)
  rw [ofSnapshot_snapshot hinv he] at hrecords
  have hold := hrecords.present es hes
  have hretention := hrecords.retention
  generalize s.applySnapshot (g.snapshot ρ now) = s' at *
  rw [length_newRing, ← hs] at hlen
  have hcutoff := cutoff_le now g.retention
  -- within the window the page holds, second by second, what the ring has
  have hheld : (SecondRing.window w now.unix).map (held s'.retention es)
      = (SecondRing.window w now.unix).map (SecondRing.total e.ring.entries) := by
    apply List.map_congr_left
    intro t ht
    obtain ⟨hlow, -⟩ := SecondRing.mem_window.1 ht
    rw [hretention, hholds.fits.total_entries]
    exact held_of_snapshot hholds.fits hs hold (by omega)
  rw [rate_eq s' es (hretention ▸ hwn), hheld,
    SecondRing.sum_map_total (SecondRing.nodup_window w now.unix), Ring.between]
  simp only [SecondRing.mem_window]

/-- A browser that was told the retention. -/
def joined (retention : Nat) : GraphState := { GraphState.new 300 with retention := retention }

/-- A pod that hears from a machine, in a graph that keeps twelve and a half seconds. -/
theorem rate_snapshot_anchored :
    ∃ g id e es, Run.run Graph.step (Graph.new (12500 * 10 ^ 6))
        [.ingest (fun _ _ => 0) Graph.anchoredFlow] = some g ∧ g.edges.get? id = some e ∧
      ((joined e.ring.slots.length).applySnapshot
        (g.snapshot (fun _ _ => 0) (101 * second))).edges.get? id = some es ∧
      IsRate (e.ring.between ((101 * second : Time).unix - (5 : Nat)) (101 * second : Time).unix) 5
        (((joined e.ring.slots.length).applySnapshot
          (g.snapshot (fun _ _ => 0) (101 * second))).rate es 5 (101 * second : Time).unix) := by
  obtain ⟨g, hstep, hinv⟩ := Graph.step_isSome (Graph.inv_new (12500 * 10 ^ 6))
    (show Graph.Op.Timed (.ingest (fun _ _ => 0) Graph.anchoredFlow) by decide)
  have hcounted := (Graph.ringsCounted_new _).step (Graph.inv_new (12500 * 10 ^ 6)) hstep
  -- the edge that the flow makes
  have hkeys : ((Graph.new (12500 * 10 ^ 6)).step
      (.ingest (fun _ _ => 0) Graph.anchoredFlow)).map (fun g => (g.retention, g.edges.keys))
        = some (12500 * 10 ^ 6, ["reserved/remote-node/10.0.0.1|shop/Pod/cart-0|TCP|80"]) := by
    decide
  rw [hstep, Option.map_some, Option.some.injEq, Prod.mk.injEq] at hkeys
  obtain ⟨hretention, hkeys⟩ := hkeys
  have hmem : "reserved/remote-node/10.0.0.1|shop/Pod/cart-0|TCP|80" ∈ g.edges.keys := by
    rw [hkeys]
    exact List.mem_cons_self
  obtain ⟨e, he⟩ := OrdMap.mem_iff.1 (OrdMap.mem_keys.1 hmem)
  obtain ⟨adds, hadds⟩ := hcounted _ e he
  have hlen : e.ring.slots.length = 12 := by
    rw [((Ring.holds_newRing _).addAll hadds).1, length_newRing, hretention]
    rfl
  obtain ⟨es, hes, hrate⟩ := rate_snapshot hinv he hadds (fun _ _ => 0) (101 * second)
    (s := joined e.ring.slots.length) rfl (w := 5) (by decide) (by rw [joined, hlen]; decide)
  exact ⟨g, _, e, es, Run.run_cons_eq_some.2 ⟨g, hstep, rfl⟩, he, hes, hrate⟩

/-- **`w` times the rate need not be the sum of the slots.** One flow in a window of 49 seconds. -/
theorem not_rate_snapshot : ¬ ∀ (g : Graph) (id : String) (e : Edge)
    (adds : List (Int × VerdictCode)) (ρ : RangeOrder) (now : Time) (s : GraphState) (w : Nat),
    g.Inv → g.edges.get? id = some e → (∀ p ∈ adds, 0 ≤ p.1) →
    (newRing (g.retention / second)).addAll adds = some e.ring → 0 ≤ now →
    s.retention = e.ring.slots.length → 1 ≤ w → w ≤ s.retention →
    ∃ es, (s.applySnapshot (g.snapshot ρ now)).edges.get? id = some es ∧
      ∀ v, w * (s.applySnapshot (g.snapshot ρ now)).rate es w now.unix v
        = e.ring.between (now.unix - w) now.unix v := by
  intro h
  let id := "reserved/remote-node/10.0.0.1|shop/Pod/cart-0|TCP|80"
  let browser (g : Graph) := (joined 49).applySnapshot (g.snapshot (fun _ _ => 0) (101 * second))
  obtain ⟨g, hstep, hinv⟩ := Graph.step_isSome (Graph.inv_new (49 * second))
    (show Graph.Op.Timed (.ingest (fun _ _ => 0) Graph.anchoredFlow) by decide)
  -- one flow in a ring of 49 seconds, and what the page shows for it
  have hvalues : ((Graph.new (49 * second)).step
      (.ingest (fun _ _ => 0) Graph.anchoredFlow)).map (fun g =>
        (g.retention, (g.edges.get? id).map (·.ring),
          ((browser g).edges.get? id).map fun es => (browser g).rate es 49 101 verdictForwarded))
        = some (49 * second, (newRing 49).addAll [(100, verdictForwarded)],
          some (Rounding.binary64.round (1 / 49))) := by decide +kernel
  obtain ⟨r, hr⟩ : ∃ r, (newRing 49).addAll [(100, verdictForwarded)] = some r :=
    Ring.addAll_isSome (by decide) (by decide)
  have hsum : r.between (101 - (49 : Nat)) 101 verdictForwarded = 1 ∧ r.slots.length = 49 := by
    obtain rfl := (Option.some.inj hr).symm
    decide +kernel
  rw [hstep, hr, Option.map_some, Option.some.injEq, Prod.mk.injEq, Prod.mk.injEq] at hvalues
  obtain ⟨hretention, hserver, hrate⟩ := hvalues
  obtain ⟨e, he, rfl⟩ := Option.map_eq_some_iff.1 hserver
  obtain ⟨es, hes, hexact⟩ := h g id e [(100, verdictForwarded)] (fun _ _ => 0) (101 * second)
    (joined 49) 49 hinv he (by decide) (by rw [hretention]; exact hr) (by decide) hsum.2.symm
    (by decide) (by decide)
  replace hes : (browser g).edges.get? id = some es := hes
  rw [hes, Option.map_some, Option.some.injEq] at hrate
  replace hexact : ((49 : Nat) : Rat) * (browser g).rate es 49 101 verdictForwarded
      = e.ring.between (101 - (49 : Nat)) 101 verdictForwarded := hexact verdictForwarded
  rw [hrate, hsum.1, Nat.cast_one, Nat.cast_ofNat] at hexact
  -- a 49th is no double, so rounding changes it
  have hround : Rounding.binary64.round (1 / 49) = 1 / 49 := by linarith
  exact not_has_one_div ((Rounding.Format.round_eq_self_iff (by decide)).1 hround)

end Flowscape
