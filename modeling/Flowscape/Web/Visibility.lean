import Flowscape.Web.PageRuns

/-!
# Flowscape: what is shown of the graph

A refresh decides for the arcs from the ids of their ends and from the machines in the slots, and
for the nodes from the graph. The two come to the same: an arc is shown when its conversation has
traffic of a kind that is shown, over a protocol that is shown, and both its ends are shown. A node
is as bright as the brightest of the arcs at it.
-/

namespace Flowscape

open GraphState

namespace Page

/-! ## What a refresh reads -/

section

variable {K : Type*} {p q : Page K}

/-- The two pages decide alike what is shown. -/
structure Reads (p q : Page K) : Prop where
  state : q.state = p.state
  panel : q.panel = p.panel
  filters : q.filters = p.filters
  machineOf : ∀ id, q.nodes.machineOf id = p.nodes.machineOf id

theorem Reads.machineAnchorHidden (h : p.Reads q) (id : String) :
    q.machineAnchorHidden id = p.machineAnchorHidden id := by
  rw [Page.machineAnchorHidden, Page.machineAnchorHidden, h.state, h.panel]

theorem Reads.nodeHidden (h : p.Reads q) (n : NodeState) : q.nodeHidden n = p.nodeHidden n := by
  unfold Page.nodeHidden
  rw [h.panel, h.filters, h.machineAnchorHidden]

theorem machineOf_eq (nodes : NodeMesh K) (id : String) :
    nodes.machineOf id = (NodeMesh.seen NodeSlot.machine nodes id).getD "" := rfl

/-- Every id of the graph starts with its namespace, no machine without a name is switched off,
and the slots agree with the graph about which nodes are on a machine that is. -/
structure Plain (q : Page K) : Prop where
  prefixed : ∀ id n, q.state.nodes.get? id = some n → firstPart id = n.ns
  named : "" ∉ q.panel.machines
  machines : ∀ id n, q.state.nodes.get? id = some n →
    (q.nodes.machineOf id ∈ q.panel.machines ↔ n.machine ∈ q.panel.machines)

/-- The part of `edgeHidden` that is about one end. -/
def endHidden (q : Page K) (id : String) : Prop :=
  firstPart id ∈ q.panel.namespaces ∨ q.nodes.machineOf id ∈ q.panel.machines ∨
    q.machineAnchorHidden id = true ∨ (q.filters.hideReserved = true ∧ firstPart id = "reserved")

/-- **The two ways to decide agree** on the end of an arc. -/
theorem Plain.endHidden_iff (h : q.Plain) {id : String} {n : NodeState}
    (hkeyed : Keyed q.state.nodes) (hn : q.state.nodes.get? id = some n) :
    q.endHidden id ↔ q.nodeHidden n = true := by
  have hid : n.id = id := hkeyed id n hn
  have hmachine : n.machine ∈ q.panel.machines ↔ n.machine ≠ "" ∧ n.machine ∈ q.panel.machines :=
    ⟨fun hin => ⟨fun hempty => h.named (hempty ▸ hin), hin⟩, fun hin => hin.2⟩
  simp only [endHidden, nodeHidden, h.prefixed id n hn, h.machines id n hn, hid,
    Bool.or_eq_true, Bool.and_eq_true, decide_eq_true_eq]
  rw [hmachine]
  tauto

end

section

variable {K : Type*} [Field K] {p q : Page K}

theorem Reads.shownRate (h : p.Reads q) (nowSec : Int) (e : EdgeState) :
    q.shownRate nowSec e = p.shownRate nowSec e := by
  unfold Page.shownRate
  rw [h.state, h.filters]

end

section

variable {K : Type*} [Field K] [LinearOrder K] {B : Browser K} {p q : Page K} {c : Clock K}

theorem Reads.hides (h : p.Reads q) (c : Clock K) (e : EdgeState) : q.hides c e = p.hides c e := by
  unfold Page.hides Page.edgeHidden
  rw [h.shownRate, h.panel, h.filters, h.machineOf, h.machineOf, h.machineAnchorHidden,
    h.machineAnchorHidden]

theorem reads_refreshRates (p : Page K) (c : Clock K) : p.Reads (p.refreshRates B c) where
  state := rfl
  panel := rfl
  filters := rfl
  machineOf id := by
    rw [machineOf_eq, machineOf_eq]
    exact congrArg (Option.getD · "") ((foldl_refreshNode p (fun _ _ _ => rfl) _ _ p.nodes).2 id)

/-! ## After a frame -/

/-- What a refresh leaves of the slots. -/
structure Refreshed (B : Browser K) (c : Clock K) (q : Page K) : Prop where
  edges : ∀ id e slot, q.state.edges.get? id = some e → q.edges.slots.get? id = some slot →
    slot.hidden = q.hides c e
  nodes : ∀ id n slot, q.state.nodes.get? id = some n → q.nodes.slots.get? id = some slot →
    slot.hidden = q.nodeHidden n ∧
      IsGreatest (insert 0 (q.glows B c q.state.edges.values id)) slot.activity

/-- **After a refresh arcs and nodes are as the filters say.** -/
theorem refreshed_refreshRates (hedges : EdgesKeyed p.state) (hroom : Roomy p.edges)
    (hnodes : Keyed p.state.nodes) : Refreshed B c (p.refreshRates B c) := by
  have hreads : p.Reads (p.refreshRates B c) := reads_refreshRates p c
  constructor
  case edges =>
    intro id e slot he hslot
    replace he : p.state.edges.get? id = some e := he
    have hlook := (edges_refreshRates B c hedges hroom).2 id
    rw [he, Edges.seen, hslot] at hlook
    obtain ⟨l, -, hl⟩ := Option.map_eq_some_iff.1 hlook.symm
    rw [hreads.hides]
    exact (congrArg Prod.snd hl).symm
  case nodes =>
    intro id n slot hn hslot
    obtain ⟨hhidden, hgreatest⟩ := nodes_refreshRates B c hnodes hn hslot
    -- the refresh does not change what it reads, so the glow of before is the glow of now
    have hglows : (p.refreshRates B c).glows B c p.state.edges.values id
        = p.glows B c p.state.edges.values id := by
      unfold glows
      simp only [hreads.hides, hreads.shownRate]
    rw [hreads.nodeHidden]
    refine ⟨hhidden, ?_⟩
    show IsGreatest (insert 0 ((p.refreshRates B c).glows B c p.state.edges.values id)) _
    rw [hglows]
    exact hgreatest

variable {ends : String → String × String}

/-- After a frame that refreshes arcs and nodes are as the filters say. -/
theorem Keeps.refreshed_frame (h : p.Keeps B ends) (hfits : p.Fits) (hdue : c.due = true) :
    Refreshed B c (p.frame B c) := by
  obtain ⟨hshows, hrest⟩ := h.tracks.shows_applyChanges hfits h.drawn_of_calm
  have hnodes : Keyed (p.applyChanges B).state.nodes := by
    rw [hrest.state]
    exact h.tracks.keyed
  have hedges : EdgesKeyed (p.applyChanges B).state := by
    rw [hrest.state]
    exact fun id e he => (h.tracks.named.edge he).1
  have hsize : (p.applyChanges B).state.edges.size ≤ Edges.capacity := by
    rw [hrest.state]
    exact hfits.2
  -- the edges fit, so every arc finds a place in its batch
  have hroom : Roomy (p.applyChanges B).edges :=
    ⟨hshows.pooled.edges, (OrdMap.size_congr hshows.edges).trans_le hsize⟩
  have hrefreshed := refreshed_refreshRates (B := B) (c := c) hedges hroom hnodes
  have hframe : p.frame B c = { (p.applyChanges B).refreshRates B c with
      nodes := ((p.applyChanges B).refreshRates B c).nodes.update c.dt
      edges := ((p.applyChanges B).refreshRates B c).edges.update B.math
        ((p.applyChanges B).refreshRates B c).state.edges
        (((p.applyChanges B).refreshRates B c).nodes.update c.dt).positionOf c.moving } := by
    rw [Page.frame, if_pos hdue]
  rw [hframe]
  constructor
  case edges =>
    intro id e slot he hslot
    replace hslot : OrdMap.get? (Edges.slots _) id = some slot := hslot
    rw [(Edges.update_frame _ _ _ _ _).1] at hslot
    exact hrefreshed.edges id e slot he hslot
  case nodes => exact hrefreshed.nodes

/-! ## Arcs between nodes -/

/-- When an edge is hidden. -/
theorem hides_iff (q : Page K) (c : Clock K) (e : EdgeState) : q.hides c e = true ↔
    q.endHidden e.src ∨ q.endHidden e.dst ∨ e.proto ∈ q.filters.protocols ∨
      total (q.shownRate c.nowSec e) = 0 := by
  -- an anchor is hidden by a machine that is switched off, so there is one
  have hsize : ∀ id, q.machineAnchorHidden id = true → 0 < q.panel.machines.size := by
    intro id h
    unfold machineAnchorHidden at h
    split at h
    · cases h
    · next n _ =>
      have hmem : n.name ∈ q.panel.machines := (of_decide_eq_true h).2.2
      apply Nat.pos_of_ne_zero
      intro hzero
      rw [OrdMap.size_eq_zero_iff.1 hzero] at hmem
      exact OrdMap.not_mem_empty _ hmem
  have hsrc := hsize e.src
  have hdst := hsize e.dst
  simp only [hides, edgeHidden, endHidden, Bool.or_eq_true, Bool.and_eq_true, decide_eq_true_eq]
  constructor
  · rintro (((((((h | h) | h) | h) | ⟨-, h | h⟩) | h) | ⟨hr, h | h⟩) | h)
    · exact Or.inl (Or.inl h)
    · exact Or.inr (Or.inl (Or.inl h))
    · exact Or.inl (Or.inr (Or.inl h))
    · exact Or.inr (Or.inl (Or.inr (Or.inl h)))
    · exact Or.inl (Or.inr (Or.inr (Or.inl h)))
    · exact Or.inr (Or.inl (Or.inr (Or.inr (Or.inl h))))
    · exact Or.inr (Or.inr (Or.inl h))
    · exact Or.inl (Or.inr (Or.inr (Or.inr ⟨hr, h⟩)))
    · exact Or.inr (Or.inl (Or.inr (Or.inr (Or.inr ⟨hr, h⟩))))
    · exact Or.inr (Or.inr (Or.inr h))
  · rintro ((h | h | h | ⟨hr, h⟩) | (h | h | h | ⟨hr, h⟩) | h | h)
    · simp [h]
    · simp [h]
    · simp [h, hsrc h]
    · simp [h, hr]
    · simp [h]
    · simp [h]
    · simp [h, hdst h]
    · simp [h, hr]
    · simp [h]
    · simp [h]

/-- **An arc is shown exactly when** its ends are, its protocol is, and it has traffic of a kind
that is shown. -/
theorem arc_shown_iff_of_run {inputs : List (Input K)}
    (hfair : Run.EveryStep (Page.step B) (Fair ends) start inputs)
    (hrun : Run.run (Page.step B) start inputs = some p) (hfits : p.Fits) (hdue : c.due = true)
    (hplain : (p.frame B c).Plain) {id : String} {e : EdgeState} {arc : EdgeSlot K}
    (he : (p.frame B c).state.edges.get? id = some e)
    (harc : (p.frame B c).edges.slots.get? id = some arc) {a b : NodeState} {sa sb : NodeSlot K}
    (ha : (p.frame B c).state.nodes.get? e.src = some a)
    (hb : (p.frame B c).state.nodes.get? e.dst = some b)
    (hsa : (p.frame B c).nodes.slots.get? e.src = some sa)
    (hsb : (p.frame B c).nodes.slots.get? e.dst = some sb) :
    arc.hidden = false ↔ sa.hidden = false ∧ sb.hidden = false ∧
      e.proto ∉ (p.frame B c).filters.protocols ∧
      total ((p.frame B c).shownRate c.nowSec e) ≠ 0 := by
  have hkeeps := keeps_of_run hfair hrun
  have hkeyed : Keyed (p.frame B c).state.nodes := (hkeeps.frame hfits c).2.1.tracks.keyed
  have hrefreshed := hkeeps.refreshed_frame hfits hdue
  -- the arc is hidden by its ends, and each end is hidden as its node is
  rw [hrefreshed.edges id e arc he harc, (hrefreshed.nodes _ a sa ha hsa).1,
    (hrefreshed.nodes _ b sb hb hsb).1, ← Bool.not_eq_true, hides_iff,
    hplain.endHidden_iff hkeyed ha, hplain.endHidden_iff hkeyed hb]
  simp only [not_or, Bool.not_eq_true]

/-- How bright the arcs that are shown make a node. -/
def shownGlows (B : Browser K) (q : Page K) (c : Clock K) (id : String) : Set K :=
  {x | ∃ eid e arc, q.state.edges.get? eid = some e ∧ q.edges.slots.get? eid = some arc ∧
    arc.hidden = false ∧ Touches e id ∧ glow B (total (q.shownRate c.nowSec e)) = x}

/-- What glows is what is shown. -/
theorem Refreshed.glows_eq (h : Refreshed B c q) (hshows : q.Shows B ends) (id : String) :
    q.glows B c q.state.edges.values id = shownGlows B q c id := by
  ext x
  constructor
  · rintro ⟨e, hin, hshown, ht, rfl⟩
    obtain ⟨eid, he⟩ := OrdMap.mem_values.1 hin
    obtain ⟨arc, harc⟩ := OrdMap.mem_iff.1 ((hshows.edges eid).2 (OrdMap.mem_of_get? he))
    exact ⟨eid, e, arc, he, harc, (h.edges eid e arc he harc).trans hshown, ht, rfl⟩
  · rintro ⟨eid, e, arc, he, harc, hshown, ht, rfl⟩
    exact ⟨e, OrdMap.mem_values_of_get? he, (h.edges eid e arc he harc).symm.trans hshown, ht, rfl⟩

end

/-! ## Brightness -/

section

variable {p q : Page ℝ} {c : Clock ℝ} {B : Browser ℝ} {ends : String → String × String}

/-- No rate is negative. -/
theorem zero_le_total_shownRate (q : Page ℝ) (nowSec : Int) (e : EdgeState) :
    0 ≤ total (q.shownRate nowSec e) := by
  have hrate : ∀ v, 0 ≤ q.shownRate nowSec e v := by
    intro v
    unfold shownRate
    split
    · have hpos : 0 ≤ q.state.rate e q.filters.windowSec nowSec v :=
        Rounding.Format.round_nonneg (div_nonneg (Nat.cast_nonneg _) (Nat.cast_nonneg _))
      exact_mod_cast hpos
    · exact le_refl (0 : ℝ)
  exact add_nonneg (add_nonneg (add_nonneg (hrate _) (hrate _)) (hrate _)) (hrate _)

/-- **A node is as bright as the brightest of its arcs that are shown**, from 0 to 1, and dark only
without any. -/
theorem activity_of_run (hlog : ∀ x, B.log1p x = Real.log (1 + x)) {inputs : List (Input ℝ)}
    (hfair : Run.EveryStep (Page.step B) (Fair ends) start inputs)
    (hrun : Run.run (Page.step B) start inputs = some p) (hfits : p.Fits) (hdue : c.due = true)
    {id : String} {n : NodeState} {slot : NodeSlot ℝ}
    (hn : (p.frame B c).state.nodes.get? id = some n)
    (hslot : (p.frame B c).nodes.slots.get? id = some slot) :
    IsGreatest (insert 0 (shownGlows B (p.frame B c) c id)) slot.activity ∧
      slot.activity ∈ Set.Icc 0 1 ∧
      (0 < slot.activity ↔ (shownGlows B (p.frame B c) c id).Nonempty) := by
  have hkeeps := keeps_of_run hfair hrun
  have hrefreshed := hkeeps.refreshed_frame hfits hdue
  have hgreatest := (hrefreshed.nodes id n slot hn hslot).2
  rw [hrefreshed.glows_eq (hkeeps.frame hfits c).1] at hgreatest
  -- an arc that is shown has traffic
  have hglow : ∀ x ∈ shownGlows B (p.frame B c) c id, 0 < x ∧ x ≤ 1 := by
    rintro x ⟨eid, e, arc, he, harc, hshown, -, rfl⟩
    have hne : total ((p.frame B c).shownRate c.nowSec e) ≠ 0 := by
      intro hzero
      have hhides := (hides_iff (p.frame B c) c e).2 (Or.inr (Or.inr (Or.inr hzero)))
      rw [← hrefreshed.edges eid e arc he harc, hshown] at hhides
      cases hhides
    have hpos := (zero_le_total_shownRate (p.frame B c) c.nowSec e).lt_of_ne' hne
    refine ⟨lt_min one_pos (div_pos ?_ (by norm_num)), min_le_left 1 _⟩
    rw [hlog]
    exact Real.log_pos (lt_add_of_pos_right 1 hpos)
  refine ⟨hgreatest, ⟨hgreatest.2 (Set.mem_insert 0 _), ?_⟩, fun hpos => ?_, ?_⟩
  · rcases hgreatest.1 with hzero | hin
    · rw [hzero]
      exact zero_le_one
    · exact (hglow _ hin).2
  · rcases hgreatest.1 with hzero | hin
    · exact absurd hzero hpos.ne'
    · exact ⟨_, hin⟩
  · rintro ⟨x, hx⟩
    exact (hglow x hx).1.trans_le (hgreatest.2 (Set.mem_insert_of_mem 0 hx))

end

/-! ### A run -/

/-- A frame leaves the machines that are switched off. -/
theorem machines_frame {K : Type*} [Field K] [LinearOrder K] (B : Browser K) (p : Page K)
    (c : Clock K) : (p.frame B c).panel.machines = p.panel.machines := by
  have happly : (p.applyChanges B).panel.machines = p.panel.machines := by
    have hshrunk : p.shrunk.panel.machines = p.panel.machines :=
      congrArg FiltersPanel.machines p.shrunk_rest.2.2.2.1
    rw [applyChanges_eq, settled]
    split
    · exact hshrunk
    · exact hshrunk
  rw [Page.frame]
  split
  · exact happly
  · exact happly

set_option maxRecDepth 10000 in
/-- In the example each slot has the machine of its node. -/
theorem plain_talking : (talking.frame white now).Plain where
  prefixed id n hn := by
    have hall : ((GraphState.new 300).applySnapshot talk).consume.2.nodes.entries.all
        (fun e => firstPart e.1 = e.2.ns) = true := by decide
    rw [state_talking] at hn
    exact of_decide_eq_true (List.all_eq_true.1 hall (id, n) (OrdMap.mem_entries.2 hn))
  named := by
    rw [machines_frame]
    exact OrdMap.not_mem_empty ""
  machines id n _ := by
    rw [machines_frame]
    exact iff_of_false (OrdMap.not_mem_empty _) (OrdMap.not_mem_empty _)

set_option maxRecDepth 10000 in
/-- The nodes of the conversation and the conversation. -/
theorem get?_talking : ∃ e a b, e.src = "shop/Pod/cart" ∧ e.dst = "bank/Pod/till" ∧
    (talking.frame white now).state.edges.get? "shop/Pod/cart|bank/Pod/till|TCP|443" = some e ∧
    (talking.frame white now).state.nodes.get? "shop/Pod/cart" = some a ∧
    (talking.frame white now).state.nodes.get? "bank/Pod/till" = some b := by
  let s := ((GraphState.new 300).applySnapshot talk).consume.2
  -- the snapshot has one edge and its two ends
  have hends : (s.edges.get? "shop/Pod/cart|bank/Pod/till|TCP|443").map (fun e => (e.src, e.dst))
      = some ("shop/Pod/cart", "bank/Pod/till") := by decide
  have hcart : "shop/Pod/cart" ∈ s.nodes := by decide
  have htill : "bank/Pod/till" ∈ s.nodes := by decide
  obtain ⟨e, he, hed⟩ := Option.map_eq_some_iff.1 hends
  obtain ⟨a, ha⟩ := OrdMap.mem_iff.1 hcart
  obtain ⟨b, hb⟩ := OrdMap.mem_iff.1 htill
  rw [state_talking]
  exact ⟨e, a, b, congrArg Prod.fst hed, congrArg Prod.snd hed, he, ha, hb⟩

/-- The arc of the example is hidden with its source. -/
theorem arc_shown_iff_of_run_talk : ∃ arc, (talking.frame white now).edges.slots.get?
      "shop/Pod/cart|bank/Pod/till|TCP|443" = some arc ∧
    (arc.hidden = false → ∃ sa, (talking.frame white now).nodes.slots.get? "shop/Pod/cart"
      = some sa ∧ sa.hidden = false) := by
  obtain ⟨e, a, b, hsrc, hdst, he, ha, hb⟩ := get?_talking
  obtain ⟨hshows, hkeeps, -⟩ := (keeps_of_run fair_talk run_talk).frame fits_talking now
  have hnodes := hshows.drawn.mem_nodes hkeeps.tracks.keyed
  obtain ⟨arc, harc⟩ := OrdMap.mem_iff.1 ((hshows.edges _).2 (OrdMap.mem_of_get? he))
  obtain ⟨sa, hsa⟩ := OrdMap.mem_iff.1 ((hnodes _).2 (OrdMap.mem_of_get? ha))
  obtain ⟨sb, hsb⟩ := OrdMap.mem_iff.1 ((hnodes _).2 (OrdMap.mem_of_get? hb))
  refine ⟨arc, harc, fun hshown => ⟨sa, hsa, ?_⟩⟩
  exact ((arc_shown_iff_of_run fair_talk run_talk fits_talking rfl plain_talking he harc
    (hsrc ▸ ha) (hdst ▸ hb) (hsrc ▸ hsa) (hdst ▸ hsb)).1 hshown).1

/-- The source of the example glows between nothing and all. -/
theorem activity_of_run_talk : ∃ slot, (talking.frame white now).nodes.slots.get?
    "shop/Pod/cart" = some slot ∧ slot.activity ∈ Set.Icc (0 : ℝ) 1 := by
  obtain ⟨-, a, -, -, -, -, ha, -⟩ := get?_talking
  obtain ⟨hshows, hkeeps, -⟩ := (keeps_of_run fair_talk run_talk).frame fits_talking now
  obtain ⟨slot, hslot⟩ := OrdMap.mem_iff.1
    ((hshows.drawn.mem_nodes hkeeps.tracks.keyed _).2 (OrdMap.mem_of_get? ha))
  exact ⟨slot, hslot, (activity_of_run (fun _ => rfl) fair_talk run_talk fits_talking rfl ha
    hslot).2.1⟩

end Page

end Flowscape
