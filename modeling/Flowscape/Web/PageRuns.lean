import Flowscape.Web.Frames

/-!
# Flowscape: the page after any run

What every message, every frame and every control keeps, and what a frame at the end of any run
leaves.
-/

namespace Flowscape

open GraphState

namespace Page

/-! ## Messages -/

section

variable {K : Type*} {ends : String → String × String} {p q : Page K}

/-- The page with the same graph and the same slots. -/
theorem Tracks.congr (h : p.Tracks ends) (hstate : q.state = p.state) (hpool : q.Pooled)
    (hnodes : ∀ id, id ∈ q.nodes.slots ↔ id ∈ p.nodes.slots)
    (hedges : ∀ id, id ∈ q.edges.slots ↔ id ∈ p.edges.slots) : q.Tracks ends := by
  -- the scene has the same ids, so it is the same
  have hscene : q.scene = p.scene := by
    rw [scene, scene, hstate]
    congr 1
    · exact Set.ext hnodes
    · exact Set.ext hedges
  constructor
  case pooled => exact hpool
  case sound => rw [hscene]; exact h.sound
  case inStep => rw [hscene]; exact h.inStep
  case state => rw [hstate]; exact h.state
  case named => rw [hstate]; exact h.named

/-- What is seen besides the red stays when anchors turn red. -/
theorem seen_setUnavailable {α : Type*} {g : NodeSlot K → α}
    (hg : ∀ slot u, g { slot with unavailable := u } = g slot) (nodes : NodeMesh K)
    (names : List String) (id : String) :
    NodeMesh.seen g (nodes.setUnavailable names) id = NodeMesh.seen g nodes id := by
  show ((nodes.slots.map _).get? id).map g = _
  rw [OrdMap.get?_map, Option.map_map]
  congr 1
  funext slot
  simp only [Function.comp_apply]
  split
  · exact hg slot _
  · rfl

end

section

variable {K : Type*} [Field K] [LinearOrder K] {B : Browser K}
  {ends : String → String × String} {p : Page K}

/-- A greeting leaves what was drawn. -/
theorem Keeps.onHello (h : p.Keeps B ends) (m : Hello) : (p.onHello m).Keeps B ends where
  tracks :=
    { pooled := ⟨h.tracks.pooled.edges, h.tracks.pooled.nodes⟩
      sound := h.tracks.sound
      inStep := h.tracks.inStep
      state := ⟨h.tracks.state.touched, h.tracks.state.named⟩
      named := h.tracks.named }
  clean := h.clean
  mode := h.mode
  size := h.size
  last := by
    obtain ⟨old, hold, hdrawn, hlast⟩ := h.last
    refine ⟨old, hold, ⟨hdrawn.targets, hdrawn.platforms, hdrawn.discs, hdrawn.aims, hdrawn.same,
      hdrawn.chips⟩, hlast⟩

/-- After a snapshot everything is laid out again. -/
theorem Keeps.onSnapshot (h : p.Keeps B ends) {m : Snapshot}
    (hm : ∀ e ∈ m.edges, ends e.id = (e.src, e.dst)) : (p.onSnapshot m).Keeps B ends where
  tracks :=
    { pooled := ⟨h.tracks.pooled.edges, h.tracks.pooled.nodes⟩
      sound := Scene.sound_step (i := .snapshot m) h.tracks.sound rfl
      inStep := (Scene.inStep_step_iff (i := .snapshot m) h.tracks.sound h.tracks.inStep rfl).2
        trivial
      state := .applySnapshot p.state m
      named := named_applySnapshot hm }
  clean := h.clean
  mode := h.mode
  size := h.size
  last := by
    obtain ⟨old, hold, hdrawn, -⟩ := h.last
    -- what was drawn stays until the next frame, which makes a new layout after a reset
    exact ⟨old, hold, ⟨hdrawn.targets, hdrawn.platforms, hdrawn.discs, hdrawn.aims, hdrawn.same,
      hdrawn.chips⟩, Or.inl rfl⟩

theorem Keeps.onTick (h : p.Keeps B ends) {t : Tick} (unavailable : List String)
    (ht : ∀ e ∈ t.edges, ends e.id = (e.src, e.dst)) (htrack : p.scene.KeepsTrack (.tick t)) :
    (p.onTick t unavailable).Keeps B ends := by
  have hnodes : ∀ id, id ∈ (p.onTick t unavailable).nodes.slots ↔ id ∈ p.nodes.slots :=
    fun _ => NodeMesh.mem_setUnavailable
  -- the slots are untouched, so the scene makes the step of the tick
  have hstep : p.scene.step (.tick t) = some (p.onTick t unavailable).scene := by
    apply congrArg some
    rw [scene, scene]
    congr 1
    exact (Set.ext hnodes).symm
  constructor
  case tracks =>
    constructor
    case pooled => exact ⟨h.tracks.pooled.edges, h.tracks.pooled.nodes.setUnavailable unavailable⟩
    case sound => exact Scene.sound_step h.tracks.sound hstep
    case inStep =>
      exact (Scene.inStep_step_iff h.tracks.sound h.tracks.inStep hstep).2 htrack
    case state => exact h.tracks.state.applyTick t
    case named => exact h.tracks.named.applyTick ht
  case clean => exact h.clean
  case mode => exact h.mode
  case size => exact h.size
  case last =>
    obtain ⟨old, hold, hdrawn, hlast⟩ := h.last
    refine ⟨old, fun id => (hnodes id).trans (hold id), ?_, ?_⟩
    · constructor
      case targets => exact hdrawn.targets
      case platforms => exact hdrawn.platforms
      case discs => exact hdrawn.discs
      case aims =>
        exact fun id => (seen_setUnavailable (fun _ _ => rfl) _ _ id).trans (hdrawn.aims id)
      case same => exact hdrawn.same
      case chips =>
        intro ns
        rw [← hdrawn.chips, Page.onTick]
        split <;> rfl
    · refine hlast.imp (fun hreset => ?_) fun hold => ⟨hold.1.applyTick t, hold.2.applyTick t⟩
      exact (reset_applyTick p.state t).trans hreset

/-! ## Frames -/

/-- After the changes are applied the page shows its nodes and edges. -/
theorem Tracks.shows_applyChanges (h : p.Tracks ends) (hfits : p.Fits)
    (hkeep : p.callsForLayout p.state.consume.1 = false → p.Drawn B ends p.state.nodes) :
    (p.applyChanges B).Shows B ends ∧ p.Rest (p.applyChanges B) := by
  obtain ⟨hdrawn, hpool, hmem⟩ := h.drawn_applyChanges hfits hkeep
  have hrest : p.Rest (p.applyChanges B) := by
    obtain ⟨hstate, hmode, hfilters, hclean⟩ := rest_settled B p
    exact ⟨hstate, hmode, hfilters, hclean⟩
  have hnodes : (p.applyChanges B).state.nodes = p.state.nodes := by rw [hrest.state]; rfl
  have hedges : (p.applyChanges B).state.edges = p.state.edges := by rw [hrest.state]; rfl
  exact ⟨⟨hnodes ▸ hdrawn, hpool, hedges ▸ hmem⟩, hrest⟩

theorem Pooled.refreshRates (h : p.Pooled) (hkeyed : EdgesKeyed p.state) (hroom : Roomy p.edges)
    (c : Clock K) : (p.refreshRates B c).Pooled where
  edges := (edges_refreshRates B c hkeyed hroom).1.pooled
  nodes := (foldl_refreshNode (g := fun _ => ()) p (fun _ _ _ => rfl) _ _ p.nodes).1 h.nodes

theorem Shows.refreshRates (h : p.Shows B ends) (hkeyed : EdgesKeyed p.state)
    (hfits : p.state.edges.size ≤ Edges.capacity) (c : Clock K) :
    (p.refreshRates B c).Shows B ends := by
  have hroom : Roomy p.edges := ⟨h.pooled.edges, (OrdMap.size_congr h.edges).trans_le hfits⟩
  obtain ⟨hdrawn, hmem⟩ := h.drawn.refreshRates hkeyed hroom c
  exact ⟨hdrawn, h.pooled.refreshRates hkeyed hroom c, fun id => (hmem id).trans (h.edges id)⟩

/-- Moving and drawing keep what is shown. -/
theorem Shows.update (h : p.Shows B ends) (M : Math K) (dt : K)
    (positionOf : String → Option (Vec3 K)) (moving : Bool) :
    Shows B ends { p with
      nodes := p.nodes.update dt
      edges := p.edges.update M p.state.edges positionOf moving } := by
  obtain ⟨hslots, hby, hfree⟩ := Edges.update_frame M p.state.edges positionOf moving p.edges
  exact ⟨h.drawn.update M dt positionOf moving, ⟨h.pooled.edges.congr hslots hby hfree,
    h.pooled.nodes⟩, fun id => by rw [hslots]; exact h.edges id⟩

/-- The page before a frame moves the nodes. -/
def prepared (B : Browser K) (p : Page K) (c : Clock K) : Page K :=
  if c.due then (p.applyChanges B).refreshRates B c else p.applyChanges B

/-- A page that keeps track, prepared for a frame, shows its nodes and edges. -/
theorem Keeps.prepared (h : p.Keeps B ends) (hfits : p.Fits) (c : Clock K) :
    (p.prepared B c).Shows B ends ∧ p.Rest (p.prepared B c) := by
  obtain ⟨hshows, hrest⟩ := h.tracks.shows_applyChanges hfits h.drawn_of_calm
  unfold Page.prepared
  split
  · refine ⟨hshows.refreshRates ?_ ?_ c, ⟨hrest.state, hrest.mode, hrest.filters, hrest.clean⟩⟩
    · rw [hrest.state]
      exact fun id e he => (h.tracks.named.edge he).1
    · rw [hrest.state]
      exact hfits.2
  · exact ⟨hshows, hrest⟩

/-- **A frame shows the graph**, and its changes are known from then on. -/
theorem Keeps.frame (h : p.Keeps B ends) (hfits : p.Fits) (c : Clock K) :
    (p.frame B c).Shows B ends ∧ (p.frame B c).Keeps B ends ∧
      (p.frame B c).state = p.state.consume.2 := by
  obtain ⟨hshows, hrest⟩ := h.prepared hfits c
  have hframe : (p.frame B c).Shows B ends := hshows.update B.math c.dt _ c.moving
  refine ⟨hframe, ?_, hrest.state⟩
  apply hframe.keeps hrest.state h.tracks.state h.tracks.named hfits.2 hrest.clean
  show (p.prepared B c).layout.groupBy = (p.prepared B c).filters.groupBy
  rw [hrest.mode, hrest.filters]
  exact h.mode

end

/-! ## Controls -/

section

variable {K : Type*} {p : Page K}

/-- A control touches the filters and the classes of the chips. -/
structure Touched (p q : Page K) : Prop where
  state : q.state = p.state
  layout : q.layout = p.layout
  platforms : q.platforms = p.platforms
  nodes : q.nodes = p.nodes
  edges : q.edges = p.edges
  dirty : q.membershipDirty = p.membershipDirty
  chips : ∀ ns, ns ∈ q.panel.chips.on ↔ ns ∈ p.panel.chips.on

theorem mem_clickNamespace (f : FiltersPanel) (ns : String) (alt : Bool) (n : String) :
    n ∈ (f.clickNamespace ns alt).chips.on ↔ n ∈ f.chips.on := by
  show ((f.chips.on.keys.foldl (Chips.toggle _) f.chips).on.get? n).isSome = true ↔ _
  rw [Chips.on_foldl_toggle]
  split
  · next h => exact iff_of_true rfl (OrdMap.mem_keys.1 h)
  · exact OrdMap.mem_iff_isSome.symm

/-- A control changes the filters and the panel only. -/
theorem touched_use {u : Control} {q : Page K} (h : p.use u = some q) : p.Touched q := by
  cases u with
  | groupBy mode =>
    cases h
    exact ⟨rfl, rfl, rfl, rfl, rfl, rfl, fun _ => Iff.rfl⟩
  | «namespace» ns alt =>
    obtain ⟨panel, hpanel, rfl⟩ := Option.map_eq_some_iff.1 h
    refine ⟨rfl, rfl, rfl, rfl, rfl, rfl, fun n => ?_⟩
    simp only [FiltersPanel.step] at hpanel
    split at hpanel
    · cases hpanel
      exact mem_clickNamespace p.panel ns alt n
    · cases hpanel
  | machine name =>
    obtain ⟨panel, hpanel, rfl⟩ := Option.map_eq_some_iff.1 h
    refine ⟨rfl, rfl, rfl, rfl, rfl, rfl, fun n => ?_⟩
    simp only [FiltersPanel.step] at hpanel
    split at hpanel
    · cases hpanel
      exact Iff.rfl
    · cases hpanel
  | verdict v =>
    cases h
    exact ⟨rfl, rfl, rfl, rfl, rfl, rfl, fun _ => Iff.rfl⟩
  | protocol proto =>
    cases h
    exact ⟨rfl, rfl, rfl, rfl, rfl, rfl, fun _ => Iff.rfl⟩
  | reserved checked =>
    cases h
    exact ⟨rfl, rfl, rfl, rfl, rfl, rfl, fun _ => Iff.rfl⟩
  | window seconds =>
    cases h
    exact ⟨rfl, rfl, rfl, rfl, rfl, rfl, fun _ => Iff.rfl⟩
  | pause =>
    cases h
    exact ⟨rfl, rfl, rfl, rfl, rfl, rfl, fun _ => Iff.rfl⟩

end

section

variable {K : Type*} [Field K] [LinearOrder K] {B : Browser K}
  {ends : String → String × String} {p : Page K}

/-- A refresh between two frames. -/
theorem Keeps.refreshRates (h : p.Keeps B ends) (c : Clock K) :
    (p.refreshRates B c).Keeps B ends := by
  have hkeyed : EdgesKeyed p.state := fun id e he => (h.tracks.named.edge he).1
  have hroom : Roomy p.edges := ⟨h.tracks.pooled.edges, h.size⟩
  obtain ⟨old, hold, hdrawn, hlast⟩ := h.last
  obtain ⟨hdrawn', hmem⟩ := hdrawn.refreshRates hkeyed hroom c
  -- a refresh makes and removes no slots
  have hnodes : ∀ id, id ∈ (p.refreshRates B c).nodes.slots ↔ id ∈ p.nodes.slots := by
    intro id
    rw [NodeMesh.mem_slots_iff_seen (g := NodeSlot.target), hdrawn'.aims,
      NodeMesh.mem_slots_iff_seen (g := NodeSlot.target), hdrawn.aims]
    exact Iff.rfl
  exact
    { tracks := h.tracks.congr rfl (h.tracks.pooled.refreshRates hkeyed hroom c) hnodes hmem
      clean := h.clean
      mode := h.mode
      size := (OrdMap.size_congr hmem).trans_le h.size
      last := ⟨old, fun id => (hnodes id).trans (hold id), hdrawn', hlast⟩ }

/-- A control leaves the page in step. -/
theorem Keeps.control (h : p.Keeps B ends) (hfits : p.Fits) {u : Control} {q : Page K}
    (huse : p.use u = some q) (c : Clock K) : (q.onChange B c).Keeps B ends := by
  obtain ⟨hstate, hlayout, hplatforms, hnodes, hedges, hdirty, hchips⟩ := touched_use huse
  have htracks : q.Tracks ends := h.tracks.congr hstate
    ⟨hedges ▸ h.tracks.pooled.edges, hnodes ▸ h.tracks.pooled.nodes⟩ (fun id => by rw [hnodes])
    fun id => by rw [hedges]
  have hqfits : q.Fits := by rw [Fits, hstate]; exact hfits
  unfold onChange
  split
  · -- another grouping: everything is laid out again
    let r : Page K := { q with
      layout := { q.layout with groupBy := q.filters.groupBy }, membershipDirty := true }
    obtain ⟨hshows, hrest⟩ := Tracks.shows_applyChanges (B := B) (p := r)
      (htracks.congr rfl ⟨htracks.pooled.edges, htracks.pooled.nodes⟩ (fun _ => Iff.rfl)
        fun _ => Iff.rfl) hqfits
      (fun hcalm => absurd (of_not_callsForLayout hcalm).1 Bool.noConfusion)
    have hkeyed : EdgesKeyed (r.applyChanges B).state := by
      rw [hrest.state]
      exact fun id e he => (htracks.named.edge he).1
    have hsize : (r.applyChanges B).state.edges.size ≤ Edges.capacity := by
      rw [hrest.state]
      exact hqfits.2
    refine (hshows.refreshRates hkeyed hsize c).keeps hrest.state htracks.state htracks.named
      hqfits.2 hrest.clean ?_
    show (r.applyChanges B).layout.groupBy = (r.applyChanges B).filters.groupBy
    rw [hrest.mode, hrest.filters]
  · next hmode =>
    have hkeeps : q.Keeps B ends := by
      obtain ⟨old, hold, hdrawn, hlast⟩ := h.last
      refine ⟨htracks, hdirty.trans h.clean, not_not.1 hmode, hedges ▸ h.size, old, ?_, ?_, ?_⟩
      · intro id
        rw [hnodes]
        exact hold id
      · constructor
        case targets => rw [hlayout]; exact hdrawn.targets
        case platforms => rw [hlayout]; exact hdrawn.platforms
        case discs => rw [hlayout, hplatforms]; exact hdrawn.discs
        case aims => rw [hlayout, hnodes]; exact hdrawn.aims
        case same => rw [hlayout, hedges]; exact hdrawn.same
        case chips => exact fun ns => (hchips ns).trans (hdrawn.chips ns)
      · rw [hstate]
        exact hlast
    exact hkeeps.refreshRates c

/-- A control leaves the graph, or hands out its changes. -/
theorem state_onChange (B : Browser K) (q : Page K) (c : Clock K) :
    (q.onChange B c).state = q.state ∨ (q.onChange B c).state = q.state.consume.2 := by
  unfold onChange
  split
  · exact Or.inr (rest_settled B _).state
  · exact Or.inl rfl

/-! ## Runs -/

/-- What a step has to meet: an id of an edge names its ends, no tick reports an id gone that came
back after the last frame, and at a frame the graph fits into the meshes. -/
def Fair (ends : String → String × String) (p : Page K) : Input K → Prop
  | .hello _ => True
  | .snapshot m => ∀ e ∈ m.edges, ends e.id = (e.src, e.dst)
  | .tick t _ => (∀ e ∈ t.edges, ends e.id = (e.src, e.dst)) ∧ p.scene.KeepsTrack (.tick t)
  | .frame _ => p.Fits
  | .control _ _ => p.Fits

/-- **Every fair input leaves the page in step.** -/
theorem Keeps.step (h : p.Keeps B ends) {i : Input K} (hfair : p.Fair ends i) {q : Page K}
    (hstep : p.step B i = some q) : q.Keeps B ends := by
  cases i with
  | hello m =>
    cases hstep
    exact h.onHello m
  -- each case is the lemma about its handler
  | snapshot m =>
    cases hstep
    exact h.onSnapshot hfair
  | tick t unavailable =>
    cases hstep
    exact h.onTick unavailable hfair.1 hfair.2
  | frame c =>
    cases hstep
    exact (h.frame hfair c).2.1
  | control u c =>
    obtain ⟨p', huse, rfl⟩ := Option.map_eq_some_iff.1 hstep
    exact h.control hfair huse c

/-- An empty page is in step. -/
theorem keeps_start (B : Browser K) (ends : String → String × String) :
    (start : Page K).Keeps B ends := by
  have hnone : ∀ id, id ∉ (∅ : OrdMap String NodeState) := OrdMap.not_mem_empty
  have hnodes : (GraphState.new 300).nodesLog = (GraphState.new 300).nodesLog.consumed :=
    consume_nodesLog (GraphState.new 300)
  have hedges : (GraphState.new 300).edgesLog = (GraphState.new 300).edgesLog.consumed :=
    consume_edgesLog (GraphState.new 300)
  constructor
  case tracks =>
    constructor
    case pooled => exact ⟨Edges.pooled_new, NodeMesh.pooled_new⟩
    case sound => exact ⟨hnodes ▸ .consumed _, hedges ▸ .consumed _⟩
    -- nothing is noted and nothing is drawn
    case inStep =>
      rw [Scene.inStep_iff]
      show ChangeLog.InStep (GraphState.new 300).nodesLog _ ∧
        ChangeLog.InStep (GraphState.new 300).edgesLog _
      rw [hnodes, hedges]
      exact ⟨ChangeLog.inStep_consumed _, ChangeLog.inStep_consumed _⟩
    case state => exact ⟨fun id _ => hnone id, fun id n hn => nomatch hn⟩
    case named => exact fun id e he => nomatch he
  case clean => rfl
  case mode => rfl
  case size => exact Nat.zero_le _
  -- the empty layout is that of no nodes
  case last =>
    refine ⟨∅, fun id => Iff.rfl, ?_, Or.inr ⟨fun id n n' hn => (nomatch hn), rfl⟩⟩
    constructor
    case targets => rfl
    case platforms => rfl
    case discs => exact fun g => rfl
    case aims => exact fun id => rfl
    case same => exact fun id same h => nomatch h
    case chips => exact fun ns => ⟨nofun, nofun⟩

theorem keeps_of_run {inputs : List (Input K)}
    (hfair : Run.EveryStep (Page.step B) (Fair ends) start inputs)
    (hrun : Run.run (Page.step B) start inputs = some p) : p.Keeps B ends :=
  Run.invariant_of_everyStep (I := Keeps B ends) (fun _ _ _ h hf hs => h.step hf hs) hfair hrun
    (keeps_start B ends)

/-! ## What a frame leaves -/

/-- **Every node has a slot and every edge an arc**, and nothing else has. -/
theorem slots_frame_of_run {inputs : List (Input K)}
    (hfair : Run.EveryStep (Page.step B) (Fair ends) start inputs)
    (hrun : Run.run (Page.step B) start inputs = some p) (hfits : p.Fits) (c : Clock K) :
    let q := p.frame B c
    (∀ id, id ∈ q.nodes.slots ↔ id ∈ q.state.nodes) ∧
      ∀ id, id ∈ q.edges.slots ↔ id ∈ q.state.edges := by
  obtain ⟨hshows, hkeeps, -⟩ := (keeps_of_run hfair hrun).frame hfits c
  exact ⟨hshows.drawn.mem_nodes hkeeps.tracks.keyed, hshows.edges⟩

/-- **The layout is the one of a rebuild**, though a frame rebuilds only when it has to: the
places, the platforms and their discs, the ways of the nodes, and the chips of the namespaces. -/
theorem layout_frame_of_run {inputs : List (Input K)}
    (hfair : Run.EveryStep (Page.step B) (Fair ends) start inputs)
    (hrun : Run.run (Page.step B) start inputs = some p) (hfits : p.Fits) (c : Clock K) :
    let q := p.frame B c
    let L := q.layout.rebuild B.math B.localeCompare q.state.nodes
    q.layout.targets = L.targets ∧ q.layout.platforms = L.platforms ∧
      (∀ g, (q.platforms.get? g).map Platforms.disc = (L.platforms.get? g).map Platforms.outline) ∧
      (∀ id, (q.nodes.slots.get? id).map NodeSlot.target = L.targets.get? id) ∧
      ∀ ns, ns ∈ q.panel.chips.on ↔
        ∃ id n, q.state.nodes.get? id = some n ∧ n.ns ≠ "reserved" ∧ n.ns = ns := by
  obtain ⟨hshows, -, -⟩ := (keeps_of_run hfair hrun).frame hfits c
  have h := hshows.drawn
  -- the layout is that of the nodes; discs, slots and chips follow it
  refine ⟨h.targets, h.platforms, fun g => ?_, fun id => ?_, fun ns => ?_⟩
  · rw [← h.platforms]
    exact h.discs g
  · rw [← h.targets]
    exact h.aims id
  · rw [h.chips]
    simp only [namespacesOf, List.mem_map, List.mem_filter, OrdMap.mem_values, decide_eq_true_eq]
    constructor
    · rintro ⟨n, ⟨⟨id, hn⟩, hns⟩, rfl⟩
      exact ⟨id, n, hn, hns, rfl⟩
    · rintro ⟨id, n, hn, hns, rfl⟩
      exact ⟨n, ⟨⟨id, hn⟩, hns⟩, rfl⟩

/-- **An arc knows whether its ends share a platform**, however long it has been there. -/
theorem same_frame_of_run {inputs : List (Input K)}
    (hfair : Run.EveryStep (Page.step B) (Fair ends) start inputs)
    (hrun : Run.run (Page.step B) start inputs = some p) (hfits : p.Fits) (c : Clock K)
    {id : String} {e : EdgeState} {slot : EdgeSlot K}
    (he : (p.frame B c).state.edges.get? id = some e)
    (hslot : (p.frame B c).edges.slots.get? id = some slot) :
    slot.same
      = samePlatform (p.frame B c).layout.groupBy (p.frame B c).state.nodes e.src e.dst := by
  obtain ⟨hshows, hkeeps, -⟩ := (keeps_of_run hfair hrun).frame hfits c
  have hsame := hshows.drawn.same id slot.same (congrArg (Option.map EdgeSlot.same) hslot)
  rw [(hkeeps.tracks.named.edge he).2] at hsame
  exact hsame

end

/-! ### A run -/

/-- Two workloads in two namespaces, and a conversation between them. -/
def talk : Snapshot where
  ts := 10000
  nodes := [("shop/Pod/cart", "shop", "cart"), ("bank/Pod/till", "bank", "till")].map fun n =>
    { id := n.1
      ns := n.2.1
      kind := "Pod"
      name := n.2.2
      fqdn := ""
      machine := ""
      labels := ∅
      first := 0
      last := 0 }
  edges := [{
    id := "shop/Pod/cart|bank/Pod/till|TCP|443"
    src := "shop/Pod/cart"
    dst := "bank/Pod/till"
    proto := "TCP"
    port := 443
    counts := fun _ => 5
    last := 0
    latencyMs := 0
    l7 := none
    drops := ∅
    buckets := [] }]

/-- A browser with white arcs. -/
noncomputable def white : Browser ℝ :=
  Browser.real CodeUnits.cmp ⟨1, 1, 1⟩ ⟨1, 1, 1⟩ ⟨1, 1, 1⟩ ⟨1, 1, 1⟩

/-- The page that has heard of them. -/
noncomputable def talking : Page ℝ := (start : Page ℝ).onSnapshot talk

/-- A frame in the second in which they talk. -/
noncomputable def now : Clock ℝ := ⟨10, 10000, 0, true, false⟩

theorem fair_talk : Run.EveryStep (Page.step white)
    (Fair fun _ => ("shop/Pod/cart", "bank/Pod/till")) start [.snapshot talk] := by
  intro p _
  refine ⟨fun e he => ?_, trivial⟩
  obtain rfl := List.mem_singleton.1 he
  rfl

theorem run_talk : Run.run (Page.step white) start [.snapshot talk] = some talking := rfl

set_option maxRecDepth 10000 in
theorem fits_talking : talking.Fits := by
  have hsizes : ((GraphState.new 300).applySnapshot talk).nodes.size ≤ CAPACITY ∧
      ((GraphState.new 300).applySnapshot talk).edges.size ≤ Edges.capacity := by decide
  exact hsizes

theorem state_talking : (talking.frame white now).state = talking.state.consume.2 :=
  ((keeps_of_run fair_talk run_talk).frame fits_talking now).2.2

set_option maxRecDepth 10000 in
/-- The edge of the example is drawn. -/
theorem slots_frame_of_run_talk :
    "shop/Pod/cart|bank/Pod/till|TCP|443" ∈ (talking.frame white now).edges.slots := by
  have hmem : "shop/Pod/cart|bank/Pod/till|TCP|443" ∈
      ((GraphState.new 300).applySnapshot talk).consume.2.edges := by decide
  apply ((slots_frame_of_run fair_talk run_talk fits_talking now).2 _).2
  rw [state_talking]
  exact hmem

set_option maxRecDepth 10000 in
/-- its namespace has a chip. -/
theorem layout_frame_of_run_talk : "shop" ∈ (talking.frame white now).panel.chips.on := by
  have hns : (((GraphState.new 300).applySnapshot talk).consume.2.nodes.get?
      "shop/Pod/cart").map (·.ns) = some "shop" := by decide
  obtain ⟨n, hn, hshop⟩ := Option.map_eq_some_iff.1 hns
  apply ((layout_frame_of_run fair_talk run_talk fits_talking now).2.2.2.2 _).2
  rw [state_talking]
  refine ⟨_, n, hn, ?_, hshop⟩
  rw [hshop]
  decide

set_option maxRecDepth 10000 in
/-- and its arc has the right label. -/
theorem same_frame_of_run_talk : ∃ slot, (talking.frame white now).edges.slots.get?
      "shop/Pod/cart|bank/Pod/till|TCP|443" = some slot ∧
    slot.same = samePlatform (talking.frame white now).layout.groupBy
      (talking.frame white now).state.nodes "shop/Pod/cart" "bank/Pod/till" := by
  have hends : (((GraphState.new 300).applySnapshot talk).consume.2.edges.get?
      "shop/Pod/cart|bank/Pod/till|TCP|443").map (fun e => (e.src, e.dst))
        = some ("shop/Pod/cart", "bank/Pod/till") := by decide
  obtain ⟨e, he, hed⟩ := Option.map_eq_some_iff.1 hends
  replace he : (talking.frame white now).state.edges.get?
      "shop/Pod/cart|bank/Pod/till|TCP|443" = some e := state_talking ▸ he
  have hshows := ((keeps_of_run fair_talk run_talk).frame fits_talking now).1
  obtain ⟨slot, hslot⟩ := OrdMap.mem_iff.1 ((hshows.edges _).2 (OrdMap.mem_of_get? he))
  refine ⟨slot, hslot, ?_⟩
  have hsame := same_frame_of_run fair_talk run_talk fits_talking now he hslot
  obtain ⟨hsrc, hdst⟩ := Prod.ext_iff.1 hed
  rwa [show e.src = "shop/Pod/cart" from hsrc, show e.dst = "bank/Pod/till" from hdst] at hsame

end Page

end Flowscape
