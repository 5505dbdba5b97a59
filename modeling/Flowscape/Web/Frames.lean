import Flowscape.Web.Drawn
import Flowscape.Web.Refresh

/-!
# Flowscape: the page over a whole run

Messages in any order, frames, and controls. As long as the graph fits into the meshes at every
frame, and no tick reports an id gone that came back after the last frame, every frame leaves the
page as it would be drawn from scratch.
-/

namespace Flowscape

open GraphState

namespace Page

/-! ## The parts of `applyChanges` -/

section

variable {K : Type*} {p : Page K} {ends : String → String × String}

/-- The page after the loops over what has gone and what was touched. -/
def shrunk (p : Page K) : Page K :=
  let c := p.state.consume.1
  let q := trim c { p with state := p.state.consume.2 }
  { q with nodes := c.touchedNodes.foldl (showMachine p.state.consume.2) q.nodes }

theorem shrunk_rest (p : Page K) : p.shrunk.state = p.state.consume.2 ∧
    p.shrunk.layout = p.layout ∧ p.shrunk.platforms = p.platforms ∧
    p.shrunk.panel = p.panel ∧ p.shrunk.filters = p.filters ∧
    p.shrunk.membershipDirty = p.membershipDirty := by
  simp only [shrunk, trim]
  split <;> exact ⟨rfl, rfl, rfl, rfl, rfl, rfl⟩

/-- No change calls for another layout. -/
theorem of_not_callsForLayout (h : p.callsForLayout p.state.consume.1 = false) :
    p.membershipDirty = false ∧ (∀ id, id ∉ p.state.addedNodes) ∧
      (∀ id, id ∉ p.state.removedNodes) ∧ p.state.reset = false ∧
      (p.layout.groupBy = .machine → ∀ id, id ∉ p.state.touchedNodes) := by
  -- a list of changes that is empty has none
  have hnone : ∀ s : OrdSet String, s.keys.isEmpty = true → ∀ id, id ∉ s := by
    intro s hs id hid
    have hkeys : id ∈ s.keys := OrdMap.mem_keys.2 hid
    rw [List.isEmpty_iff.1 hs] at hkeys
    cases hkeys
  simp only [callsForLayout, Bool.or_eq_false_iff, Bool.not_eq_false', Bool.and_eq_false_iff,
    decide_eq_false_iff_not] at h
  obtain ⟨⟨⟨⟨hdirty, hadded⟩, hremoved⟩, hreset⟩, htouched⟩ := h
  refine ⟨hdirty, hnone _ hadded, hnone _ hremoved, hreset, fun hmode => ?_⟩
  exact hnone _ (htouched.resolve_right fun hne => hne hmode)

/-- What holds of the page in every state. -/
structure Tracks (ends : String → String × String) (p : Page K) : Prop where
  pooled : p.Pooled
  sound : p.scene.Sound
  inStep : p.scene.InStep
  state : Screen.Sound p.state
  named : Named ends p.state

/-- The graph fits into the meshes. -/
def Fits (p : Page K) : Prop :=
  p.state.nodes.size ≤ CAPACITY ∧ p.state.edges.size ≤ Edges.capacity

theorem Tracks.keyed (h : p.Tracks ends) : Keyed p.state.nodes := by
  intro id n hn
  exact h.state.named id n.info (congrArg (Option.map NodeState.info) hn)

theorem Tracks.nodes_iff (h : p.Tracks ends) (id : String) :
    (id ∈ p.nodes.slots ∧ id ∉ p.state.removedNodes) ∨ id ∈ p.state.addedNodes ↔
      id ∈ p.state.nodes := ChangeLog.inStep_iff.1 (Scene.inStep_iff.1 h.inStep).1 id

theorem Tracks.edges_iff (h : p.Tracks ends) (id : String) :
    (id ∈ p.edges.slots ∧ id ∉ p.state.removedEdges) ∨ id ∈ p.state.addedEdges ↔
      id ∈ p.state.edges := ChangeLog.inStep_iff.1 (Scene.inStep_iff.1 h.inStep).2 id

theorem seen_shrunk {α : Type*} {g : EdgeSlot K → α} (id : String) :
    Edges.seen g p.shrunk.edges id
      = if id ∈ p.state.removedEdges then none else Edges.seen g p.edges id := by
  refine (seen_trim _ _ id).trans ?_
  simp only [GraphState.consume, OrdMap.mem_keys]

theorem nodes_shrunk {α : Type*} {g : NodeSlot K → α}
    (hg : ∀ slot m, g { slot with machine := m } = g slot) (id : String) :
    NodeMesh.seen g p.shrunk.nodes id
      = if id ∈ p.state.removedNodes then none else NodeMesh.seen g p.nodes id := by
  refine ((foldl_showMachine hg _ _ _).2 id).trans ((nodes_trim _ _ id).trans ?_)
  simp only [GraphState.consume, OrdMap.mem_keys]

end

section

variable {K : Type*} [Field K] [LinearOrder K] {p : Page K} {ends : String → String × String}

/-- The pools stay sound when something goes. -/
theorem Pooled.removeGone (h : p.Pooled) (c : Changes) : (p.removeGone c).Pooled where
  edges := Loop.foldl_keeps (fun _ id hs => hs.remove id) h.edges
  nodes := Loop.foldl_keeps (fun _ id hs => hs.remove id) h.nodes

theorem Pooled.trim (h : p.Pooled) (c : Changes) : (p.trim c).Pooled := by
  unfold Page.trim
  split
  · exact (h.removeGone c).removeGone c
  · exact h.removeGone c

theorem Pooled.shrunk (h : p.Pooled) : p.shrunk.Pooled := by
  have htrim : (Page.trim p.state.consume.1 { p with state := p.state.consume.2 }).Pooled :=
    Pooled.trim (p := { p with state := p.state.consume.2 }) ⟨h.edges, h.nodes⟩ _
  exact ⟨htrim.edges, (foldl_showMachine (g := fun _ => ()) (fun _ _ => rfl) _ _ _).1 htrim.nodes⟩

/-- What the removals leave of the nodes is in the graph, -/
theorem Tracks.within (h : p.Tracks ends) : Within p.state p.shrunk.nodes where
  pooled := h.pooled.shrunk.nodes
  known id hid := by
    rw [NodeMesh.mem_slots_iff_seen (g := fun _ => ()), nodes_shrunk fun _ _ => rfl] at hid
    split at hid
    · cases hid
    · next hnot => exact (h.nodes_iff id).1 (Or.inl ⟨NodeMesh.mem_slots_iff_seen.2 hid, hnot⟩)

/-- and so is what they leave of the edges. -/
theorem Tracks.covers (h : p.Tracks ends) : Covers p.state p.shrunk.edges where
  pooled := h.pooled.shrunk.edges
  known id hid := by
    rw [Edges.mem_slots_iff_seen (g := fun _ => ()), seen_shrunk] at hid
    split at hid
    · cases hid
    · next hnot => exact (h.edges_iff id).1 (Or.inl ⟨Edges.mem_slots_iff_seen.2 hid, hnot⟩)

/-! ## A layout -/

variable (B : Browser K)

/-- The places and the platforms after a rebuild. -/
theorem rebuild_rebuild (L : Layout K) (nodes : OrdMap String NodeState) :
    (L.rebuild B.math B.localeCompare nodes).rebuild B.math B.localeCompare nodes
      = L.rebuild B.math B.localeCompare nodes :=
  Layout.rebuild_congr B.math B.localeCompare rfl rfl nodes

theorem group_rebuild (L : Layout K) (nodes : OrdMap String NodeState) {g : String}
    {q : Platform K} (h : (L.rebuild B.math B.localeCompare nodes).platforms.get? g = some q) :
    q.group = g := by
  obtain ⟨i, -, rfl⟩ := (Layout.get?_platforms_rebuild B.math B.localeCompare L).1 h
  rfl

/-- **Another layout draws the graph from scratch.** -/
theorem drawn_relayout (hkeyed : Keyed p.state.nodes) (hnamed : Named ends p.state)
    (hsize : p.state.nodes.size ≤ CAPACITY) (hnodes : Within p.state p.nodes)
    (hedges : Covers p.state p.edges) : Drawn B ends p.state.nodes (p.relayout B) ∧
      (p.relayout B).Pooled ∧ ∀ id, id ∈ (p.relayout B).edges.slots ↔ id ∈ p.edges.slots := by
  have htargets : ∀ id, id ∈ (p.layout.rebuild B.math B.localeCompare p.state.nodes).targets
      ↔ id ∈ p.state.nodes :=
    fun _ => Layout.mem_targets_rebuild B.math B.localeCompare p.layout hkeyed
  have hplaced := seen_placeAll hkeyed hsize htargets hnodes
  refine ⟨?_, ⟨hedges.pooled.setSame _ _, hplaced.1⟩, fun id => Edges.mem_setSame _ _ hedges.pooled⟩
  constructor
  case targets => exact congrArg Layout.targets (rebuild_rebuild B _ _).symm
  case platforms => exact congrArg Layout.platforms (rebuild_rebuild B _ _).symm
  case discs => exact Platforms.shows_sync _ fun g q hq => group_rebuild B _ _ hq
  case aims => exact hplaced.2
  -- each arc is labelled by the nodes of the page
  case same =>
    intro id same hsame
    replace hsame : Option.map EdgeSlot.same ((p.edges.setSame _ _).slots.get? id)
      = some same := hsame
    rw [Edges.get?_setSame _ _ hedges.pooled, Option.map_map] at hsame
    obtain ⟨slot, hslot, rfl⟩ := Option.map_eq_some_iff.1 hsame
    obtain ⟨e, he⟩ := OrdMap.mem_iff.1 (hedges.known id (OrdMap.mem_of_get? hslot))
    rw [he, (hnamed.edge he).2]
    rfl
  -- the chips are synced with the namespaces of the page
  case chips =>
    intro ns
    show ns ∈ (Chips.sync _ _).on ↔ _
    rw [OrdMap.mem_iff_isSome, Chips.on_sync]
    split
    · next hin => exact iff_of_true rfl hin
    · next hout => exact iff_of_false Bool.noConfusion hout

/-! ## A frame's changes -/

/-- The page before the loop over the added edges. -/
def settled (p : Page K) : Page K :=
  if p.callsForLayout p.state.consume.1 then p.shrunk.relayout B else p.shrunk

theorem applyChanges_eq (p : Page K) : p.applyChanges B =
    { p.settled B with
      edges := p.state.consume.1.addedEdges.foldl
        (addArc (p.settled B).layout.groupBy p.state.consume.2) (p.settled B).edges } := rfl

/-- What does not depend on the changes. -/
structure Rest (p q : Page K) : Prop where
  state : q.state = p.state.consume.2
  mode : q.layout.groupBy = p.layout.groupBy
  filters : q.filters = p.filters
  clean : q.membershipDirty = false

/-- Settling changes only what is drawn. -/
theorem rest_settled (p : Page K) : p.Rest (p.settled B) := by
  obtain ⟨hstate, hlayout, -, -, hfilters, hdirty⟩ := p.shrunk_rest
  have hmode : p.shrunk.layout.groupBy = p.layout.groupBy := congrArg Layout.groupBy hlayout
  unfold settled
  split
  · exact ⟨hstate, hmode, hfilters, rfl⟩
  · next h =>
    refine ⟨hstate, hmode, hfilters, hdirty.trans ?_⟩
    exact (of_not_callsForLayout (Bool.not_eq_true _ ▸ h)).1

variable {B}

/-- **With or without another layout**, the graph is drawn as from scratch. -/
theorem Tracks.drawn_settled (h : p.Tracks ends) (hsize : p.state.nodes.size ≤ CAPACITY)
    (hkeep : p.callsForLayout p.state.consume.1 = false → p.Drawn B ends p.state.nodes) :
    Drawn B ends p.state.nodes (p.settled B) ∧ (p.settled B).Pooled ∧
      ∀ id, id ∈ (p.settled B).edges.slots ↔ id ∈ p.shrunk.edges.slots := by
  obtain ⟨hstate, hlayout, hdiscs, hpanel, -, -⟩ := p.shrunk_rest
  unfold settled
  split
  · have hnodes : p.shrunk.state.nodes = p.state.nodes := by rw [hstate]; rfl
    have hnamed : Named ends p.shrunk.state := by rw [hstate]; exact h.named.congr rfl
    have hwithin : Within p.shrunk.state p.shrunk.nodes := by
      rw [hstate]
      exact ⟨h.within.pooled, h.within.known⟩
    have hcovers : Covers p.shrunk.state p.shrunk.edges := by
      rw [hstate]
      exact ⟨h.covers.pooled, h.covers.known⟩
    rw [← hnodes]
    rw [← hnodes] at hsize
    exact drawn_relayout B (hnodes ▸ h.keyed) hnamed hsize hwithin hcovers
  -- without a new layout nothing came or went, so what was drawn before is right
  · next hcalls =>
    have hcalls : p.callsForLayout p.state.consume.1 = false := Bool.not_eq_true _ ▸ hcalls
    have hold := hkeep hcalls
    refine ⟨?_, h.pooled.shrunk, fun _ => Iff.rfl⟩
    constructor
    case targets => rw [hlayout]; exact hold.targets
    case platforms => rw [hlayout]; exact hold.platforms
    case discs => rw [hlayout, hdiscs]; exact hold.discs
    case aims =>
      intro id
      rw [nodes_shrunk (fun _ _ => rfl), hlayout,
        if_neg ((of_not_callsForLayout hcalls).2.2.1 id)]
      exact hold.aims id
    case same =>
      intro id same hsame
      rw [seen_shrunk] at hsame
      rw [hlayout]
      split at hsame
      · cases hsame
      · exact hold.same id same hsame
    case chips => rw [hpanel]; exact hold.chips

/-- The arcs of the edges that came. -/
theorem Tracks.arcs_applyChanges (h : p.Tracks ends) (hfits : p.Fits)
    (hkeep : p.callsForLayout p.state.consume.1 = false → p.Drawn B ends p.state.nodes) :
    Covers p.state (p.applyChanges B).edges ∧
      ∀ id, Edges.seen EdgeSlot.same (p.applyChanges B).edges id
        = if id ∈ p.state.addedEdges then
            flagOf (p.settled B).layout.groupBy p.state id
              (Edges.seen EdgeSlot.same (p.settled B).edges id)
          else Edges.seen EdgeSlot.same (p.settled B).edges id := by
  obtain ⟨-, hpool, hsame⟩ := h.drawn_settled hfits.1 hkeep
  -- after the first part the arcs are edges of the page
  have hcovers : Covers p.state.consume.2 (p.settled B).edges :=
    ⟨hpool.edges, fun id hid => h.covers.known id ((hsame id).1 hid)⟩
  have hkeyed : EdgesKeyed p.state.consume.2 := fun id e he => (h.named.edge he).1
  obtain ⟨hcov, hseen⟩ := covers_addArcs (p.settled B).layout.groupBy hkeyed hfits.2
    (l := p.state.addedEdges.keys) p.state.addedEdges.nodup hcovers
  simp only [OrdMap.mem_keys] at hseen
  exact ⟨⟨hcov.pooled, hcov.known⟩, hseen⟩

/-- **After a frame's changes the page is as drawn from scratch**, and has an arc for every edge
of the graph, and no others. -/
theorem Tracks.drawn_applyChanges (h : p.Tracks ends) (hfits : p.Fits)
    (hkeep : p.callsForLayout p.state.consume.1 = false → p.Drawn B ends p.state.nodes) :
    Drawn B ends p.state.nodes (p.applyChanges B) ∧ (p.applyChanges B).Pooled ∧
      ∀ id, id ∈ (p.applyChanges B).edges.slots ↔ id ∈ p.state.edges := by
  obtain ⟨hdrawn, hpool, hmem⟩ := h.drawn_settled hfits.1 hkeep
  obtain ⟨hcov, hseen⟩ := h.arcs_applyChanges hfits hkeep
  refine ⟨?_, ⟨hcov.pooled, hpool.nodes⟩, fun id => ⟨hcov.known id, fun hid => ?_⟩⟩
  · constructor
    case targets => exact hdrawn.targets
    case platforms => exact hdrawn.platforms
    case discs => exact hdrawn.discs
    case aims => exact hdrawn.aims
    case same =>
      intro id same hsame
      rw [hseen] at hsame
      split at hsame
      · unfold flagOf at hsame
        split at hsame
        · exact hdrawn.same id same hsame
        · next e he =>
          -- an arc that was there keeps its flag, which is right
          obtain rfl := Option.some.inj hsame
          cases hold : Edges.seen EdgeSlot.same (p.settled B).edges id with
          | none =>
            show samePlatform _ _ e.src e.dst = _
            rw [(h.named.edge he).2]
            rfl
          | some same => exact hdrawn.same id same hold
      · exact hdrawn.same id same hsame
    case chips => exact hdrawn.chips
  · rw [Edges.mem_slots_iff_seen (g := EdgeSlot.same), hseen]
    split
    · obtain ⟨e, he⟩ := OrdMap.mem_iff.1 hid
      rw [flagOf, he]
      rfl
    · next hadded =>
      have hold := ((h.edges_iff id).2 hid).resolve_right hadded
      rw [← Edges.mem_slots_iff_seen, hmem, Edges.mem_slots_iff_seen (g := EdgeSlot.same),
        seen_shrunk, if_neg hold.2, ← Edges.mem_slots_iff_seen]
      exact hold.1

/-! ## Refreshing and moving -/

/-- A refresh leaves what is drawn. -/
theorem Drawn.refreshRates {nodes : OrdMap String NodeState} (h : p.Drawn B ends nodes)
    (hkeyed : EdgesKeyed p.state) (hroom : Roomy p.edges) (c : Clock K) :
    (p.refreshRates B c).Drawn B ends nodes ∧
      (∀ id, id ∈ (p.refreshRates B c).edges.slots ↔ id ∈ p.edges.slots) := by
  -- a refresh keeps the label of every arc
  have hsame : ∀ id, Edges.seen EdgeSlot.same (p.refreshRates B c).edges id
      = Edges.seen EdgeSlot.same p.edges id := by
    intro id
    have hfst : ∀ edges : Edges K, Edges.seen EdgeSlot.same edges id
        = (Edges.seen lookOf edges id).map Prod.fst := fun edges => by
      rw [Edges.seen, Edges.seen, Option.map_map]
      rfl
    rw [hfst, hfst, (edges_refreshRates B c hkeyed hroom).2 id]
    split
    · rfl
    · rw [Option.map_map]
      rfl
  refine ⟨?_, fun id => Edges.mem_slots_congr (hsame id)⟩
  constructor
  case targets => exact h.targets
  case platforms => exact h.platforms
  case discs =>
    exact Loop.foldl_keeps (J := fun items => Platforms.Shows items p.layout)
      (fun items q hs => Platforms.shows_setDimmed.2 hs) h.discs
  case aims =>
    intro id
    exact ((foldl_refreshNode p (fun _ _ _ => rfl) _ _ p.nodes).2 id).trans (h.aims id)
  case same =>
    intro id same
    rw [hsame]
    exact h.same id same
  case chips => exact h.chips

/-- What is drawn does not depend on where the nodes are on their way. -/
theorem Drawn.update {nodes : OrdMap String NodeState} (h : p.Drawn B ends nodes)
    (M : Math K) (dt : K) (positionOf : String → Option (Vec3 K)) (moving : Bool) :
    Drawn B ends nodes { p with
      nodes := p.nodes.update dt
      edges := p.edges.update M p.state.edges positionOf moving } where
  targets := h.targets
  platforms := h.platforms
  discs := h.discs
  aims := h.aims
  same id same := by
    rw [Edges.seen, (Edges.update_frame M p.state.edges positionOf moving p.edges).1]
    exact h.same id same
  chips := h.chips

/-! ## Every state of a run -/

/-- What holds of the page in every state: what is drawn is what would be drawn of the nodes of
the last frame, and the changes since then are known. -/
structure Keeps (B : Browser K) (ends : String → String × String) (p : Page K) : Prop where
  tracks : p.Tracks ends
  clean : p.membershipDirty = false
  mode : p.layout.groupBy = p.filters.groupBy
  size : p.edges.slots.size ≤ Edges.capacity
  last : ∃ old, (∀ id, id ∈ p.nodes.slots ↔ id ∈ old) ∧ p.Drawn B ends old ∧
    (p.state.reset = true ∨ (Steady old p.state ∧ InOrder old p.state))

/-- What a frame leaves: the page shows its graph. -/
structure Shows (B : Browser K) (ends : String → String × String) (p : Page K) : Prop where
  drawn : p.Drawn B ends p.state.nodes
  pooled : p.Pooled
  edges : ∀ id, id ∈ p.edges.slots ↔ id ∈ p.state.edges

theorem Drawn.mem_nodes {nodes : OrdMap String NodeState} (h : p.Drawn B ends nodes)
    (hkeyed : Keyed nodes) (id : String) : id ∈ p.nodes.slots ↔ id ∈ nodes := by
  rw [NodeMesh.mem_slots_iff_seen (g := NodeSlot.target), h.aims, h.targets]
  exact Layout.mem_targets_rebuild B.math B.localeCompare p.layout hkeyed

/-- **No change that calls for no layout changes what is to be drawn.** -/
theorem Keeps.drawn_of_calm (h : p.Keeps B ends)
    (hcalm : p.callsForLayout p.state.consume.1 = false) : p.Drawn B ends p.state.nodes := by
  obtain ⟨-, hadded, hremoved, hreset, htouched⟩ := of_not_callsForLayout hcalm
  obtain ⟨old, hold, hdrawn, hlast⟩ := h.last
  obtain ⟨hsteady, horder⟩ := hlast.resolve_left (by simp [hreset])
  have hids : ∀ id, id ∈ p.state.nodes ↔ id ∈ old := by
    intro id
    rw [← h.tracks.nodes_iff, ← hold]
    exact (or_iff_left (hadded id)).trans (and_iff_left (hremoved id))
  exact hdrawn.alike (hsteady.alike horder hids hadded htouched)

/-- Right after its changes were handed out, a page that shows its graph keeps up with it. -/
theorem Shows.keeps (h : p.Shows B ends) {s : GraphState} (hstate : p.state = s.consume.2)
    (hs : Screen.Sound s) (hnamed : Named ends s) (hfits : s.edges.size ≤ Edges.capacity)
    (hclean : p.membershipDirty = false) (hmode : p.layout.groupBy = p.filters.groupBy) :
    p.Keeps B ends := by
  have hkeyed : Keyed p.state.nodes := by
    rw [hstate]
    exact fun id n hn => hs.named id n.info (congrArg (Option.map NodeState.info) hn)
  have hnodes := h.drawn.mem_nodes hkeyed
  constructor
  case tracks =>
    constructor
    case pooled => exact h.pooled
    case sound =>
      show ChangeLog.Sound p.state.nodesLog ∧ ChangeLog.Sound p.state.edgesLog
      rw [hstate, consume_nodesLog, consume_edgesLog]
      exact ⟨.consumed _, .consumed _⟩
    -- after a frame nothing is noted, so in step means the same ids
    case inStep =>
      rw [Scene.inStep_iff]
      have hset : p.scene.nodes = {id | id ∈ p.state.nodes} := Set.ext hnodes
      have hset' : p.scene.edges = {id | id ∈ p.state.edges} := Set.ext h.edges
      rw [hset, hset']
      show ChangeLog.InStep p.state.nodesLog _ ∧ ChangeLog.InStep p.state.edgesLog _
      rw [hstate, consume_nodesLog, consume_edgesLog]
      exact ⟨ChangeLog.inStep_consumed _, ChangeLog.inStep_consumed _⟩
    case state => rw [hstate]; exact hs.consume
    case named => rw [hstate]; exact hnamed.congr rfl
  case clean => exact hclean
  case mode => exact hmode
  case size =>
    rw [OrdMap.size_congr h.edges, hstate]
    exact hfits
  case last =>
    refine ⟨p.state.nodes, hnodes, h.drawn, Or.inr ?_⟩
    rw [hstate]
    exact ⟨steady_consume s, inOrder_consume s⟩

end

end Page

end Flowscape
