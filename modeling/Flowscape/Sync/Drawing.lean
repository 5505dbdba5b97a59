import Flowscape.Graph.Expiry
import Flowscape.Sync.Refinement
import Flowscape.Web.PageRuns

/-!
# Flowscape: what the page draws is what the graph has counted

The graph of the server and the page of a browser, side by side: calls move the graph, the
message of every tick goes to the page, and in between the page draws frames and its reader uses
the controls. The browser's state mirrors the graph (`Flowscape.Sync.Refinement`) and a frame
draws that state (`Flowscape.Web.PageRuns`), so the meshes hold the ids of the graph.
-/

namespace Flowscape

namespace Sync

open Flowscape.Graph GraphState

/-! ## Side by side -/

/-- What happens to the graph or to the page. -/
inductive Event (K : Type*) where
  | call (op : Op)
  | tick (ρ : RangeOrder) (now : Time) (unavailable : List String)
  | frame (c : Clock K)
  | control (u : Control) (c : Clock K)

/-- A frame or a control. -/
def Event.Looks {K : Type*} : Event K → Prop
  | .call _ => False
  | .tick _ _ _ => False
  | .frame _ => True
  | .control _ _ => True

section

variable {K : Type*} [Field K] [LinearOrder K] (B : Browser K)

/-- Only a tick moves both. -/
def drawStep (s : Graph × Page K) : Event K → Option (Graph × Page K)
  | .call op => (s.1.step op).map fun g => (g, s.2)
  | .tick ρ now unavailable => (s.1.tick ρ now).map fun r => (r.1, s.2.onTick r.2 unavailable)
  | .frame c => some (s.1, s.2.frame B c)
  | .control u c => (s.2.use u).map fun p => (s.1, p.onChange B c)

end

section

variable {K : Type*}

/-- The page of a browser that has just connected. -/
def opened [Field K] (m : Hello) (ρ : RangeOrder) (now : Time) (g : Graph) : Page K :=
  ((Page.start : Page K).onHello m).onSnapshot (g.snapshot ρ now)

/-- What is assumed of a step: Hubble's data is plausible, no id of an endpoint contains the
separator of edge ids, no tick takes back what came since the last frame, and at a frame the
graph fits into the meshes. -/
def Meets (s : Graph × Page K) : Event K → Prop
  | .call op => op.Plausible ∧ s.1.BarFree op ∧ ∀ ρ now, op ≠ .tick ρ now
  | .tick ρ now _ => ∀ g t, s.1.tick ρ now = some (g, t) → s.2.scene.KeepsTrack (.tick t)
  | .frame _ => s.2.Fits
  | .control _ _ => s.2.Fits

/-- The page draws the graph: the browser mirrors it, and there is a slot for every node, an arc
for every edge, and nothing else. -/
structure Draws (g : Graph) (p : Page K) : Prop where
  mirrors : Mirrors g p.state
  nodes : ∀ id, id ∈ p.nodes.slots ↔ id ∈ g.nodes
  edges : ∀ id, id ∈ p.edges.slots ↔ id ∈ g.edges

end

/-! ## Ids name the ends of their edge -/

/-- The ids of plain conversations name their ends. -/
theorem exists_ends : ∃ ends : String → String × String,
    ∀ k : EdgeKey, k.Plain → ends k.id = (k.src.id, k.dst.id) := by
  let id (k : {k : EdgeKey // k.Plain}) : String := k.1.id
  let pair (k : {k : EdgeKey // k.Plain}) : String × String := (k.1.src.id, k.1.dst.id)
  have hfactors : pair.FactorsThrough id := by
    intro k k' h
    obtain ⟨hsrc, hdst⟩ := EdgeKey.ends_of_id_eq h k'.2.src k'.2.dst k'.2.proto
    exact Prod.ext hsrc hdst
  exact ⟨Function.extend id pair fun _ => ("", ""),
    fun k hk => hfactors.extend_apply (fun _ => ("", "")) ⟨k, hk⟩⟩

section

variable {ends : String → String × String} {g : Graph}

/-- The edges of a snapshot end where their ids say. -/
theorem ends_snapshot (hends : ∀ k : EdgeKey, k.Plain → ends k.id = (k.src.id, k.dst.id))
    (hinv : g.Inv) (hplain : ∀ id e, g.edges.get? id = some e → e.key.Plain) (ρ : RangeOrder)
    (now : Time) : ∀ e ∈ (g.snapshot ρ now).edges, ends e.id = (e.src, e.dst) := by
  intro we hwe
  obtain ⟨id, e, he, rfl⟩ := mem_snapshot_edges.1 hwe
  show ends e.id = (e.key.src.id, e.key.dst.id)
  obtain ⟨hid, hkey⟩ := hinv.edgeNamed he
  rw [hid, ← hkey]
  exact hends e.key (hplain id e he)

theorem ends_delta (hends : ∀ k : EdgeKey, k.Plain → ends k.id = (k.src.id, k.dst.id))
    (hinv : g.Inv) (hplain : ∀ id e, g.edges.get? id = some e → e.key.Plain) (ρ : RangeOrder)
    (now : Time) : ∀ e ∈ (g.delta ρ now).edges, ends e.id = (e.src, e.dst) := by
  intro we hwe
  obtain ⟨id, d, e, -, he, rfl⟩ := mem_delta_edges.1 hwe
  show ends e.id = (e.key.src.id, e.key.dst.id)
  obtain ⟨hid, hkey⟩ := hinv.edgeNamed he
  rw [hid, ← hkey]
  exact hends e.key (hplain id e he)

end

/-! ## Between two steps -/

/-- Handing out the changes does not touch what the browser knows. -/
theorem EdgesAhead.consume {g : Graph} {s : GraphState} (h : EdgesAhead g s) :
    EdgesAhead g s.consume.2 where
  known := h.known
  fresh := h.fresh
  gone := h.gone
  dead := h.dead
  details := h.details
  plain := h.plain
  dirtyL7 := h.dirtyL7

theorem NodesAhead.consume {g : Graph} {s : GraphState} (h : NodesAhead g s) :
    NodesAhead g s.consume.2 where
  known := h.known
  old := h.old
  fresh := h.fresh
  gone := h.gone
  dead := h.dead

theorem Synced.consume {g : Graph} {s : GraphState} (h : Synced (g, s)) :
    Synced (g, s.consume.2) where
  inv := h.inv
  edges := h.edges.consume
  nodes := h.nodes.consume
  linked := h.linked
  closed := h.closed
  anchors := h.anchors

theorem Mirrors.consume {g : Graph} {s : GraphState} (h : Mirrors g s) : Mirrors g s.consume.2 :=
  ⟨h.node_ids, h.node, h.edge_ids, h.edge, h.incident⟩

section

variable {K : Type*} [Field K] [LinearOrder K] {B : Browser K}
  {ends : String → String × String}

/-- What holds between two steps: the browser is in step with the graph, and the page with the
browser. -/
structure InTouch (B : Browser K) (ends : String → String × String) (s : Graph × Page K) :
    Prop where
  synced : Synced (s.1, s.2.state)
  dated : s.1.Dated
  keeps : s.2.Keeps B ends

/-- **A tick brings the page up to date**, and keeps it in touch. -/
theorem InTouch.tick {g g' : Graph} {p : Page K} {t : Tick} {ρ : RangeOrder} {now : Time}
    (hends : ∀ k : EdgeKey, k.Plain → ends k.id = (k.src.id, k.dst.id))
    (h : InTouch B ends (g, p)) (hres : g.tick ρ now = some (g', t)) (unavailable : List String)
    (htrack : p.scene.KeepsTrack (.tick t)) :
    InTouch B ends (g', p.onTick t unavailable) ∧ Mirrors g' (p.onTick t unavailable).state := by
  obtain ⟨⟨g₁, s₁⟩, hpair, hsync, hmirrors⟩ := h.synced.ticked ρ now
  obtain ⟨⟨g₂, t₂⟩, hres', heq⟩ := Option.map_eq_some_iff.1 hpair
  obtain ⟨rfl, rfl⟩ := Prod.mk.inj (Option.some.inj (hres'.symm.trans hres))
  obtain ⟨rfl, rfl⟩ := Prod.mk.inj heq
  have hdated : g₂.Dated := h.dated.step h.synced.inv (show g.BarFree (.tick ρ now) from trivial)
    (congrArg (Option.map Prod.fst) hres)
  -- the message lists edges of the graph that the tick leaves
  obtain ⟨g₃, rfl, rfl, hinv₃, -⟩ := tick_inv h.synced.inv hres
  refine ⟨⟨hsync, hdated, ?_⟩, hmirrors⟩
  exact h.keeps.onTick unavailable (ends_delta hends hinv₃ hdated.plain ρ now) htrack

/-- **Every event keeps the page in touch with the graph.** -/
theorem InTouch.step {s s' : Graph × Page K} {i : Event K}
    (hends : ∀ k : EdgeKey, k.Plain → ends k.id = (k.src.id, k.dst.id))
    (h : InTouch B ends s) (hi : Meets s i) (hstep : drawStep B s i = some s') :
    InTouch B ends s' := by
  obtain ⟨g, p⟩ := s
  cases i with
  -- a call of the graph: the page hears nothing of it until the next tick
  | call op =>
    obtain ⟨g', hres, rfl⟩ := Option.map_eq_some_iff.1 hstep
    obtain ⟨hop, hbar, htick⟩ := hi
    refine ⟨h.synced.step hop hbar ?_, h.dated.step h.synced.inv hbar hres, h.keeps⟩
    cases op with
    | tick ρ now => exact absurd rfl (htick ρ now)
    | ingest ρ f => exact congrArg (Option.map _) hres
    | learnMachines ρ addrs => exact congrArg (Option.map _) hres
    | snapshot ρ now =>
      obtain rfl := Option.some.inj hres
      rfl
  | tick ρ now unavailable =>
    obtain ⟨⟨g', t⟩, hres, rfl⟩ := Option.map_eq_some_iff.1 hstep
    exact (h.tick hends hres unavailable (hi g' t hres)).1
  -- a frame draws what the page knows and consumes its changes
  | frame c =>
    cases hstep
    obtain ⟨-, hkeeps, hstate⟩ := h.keeps.frame hi c
    refine ⟨?_, h.dated, hkeeps⟩
    rw [hstate]
    exact h.synced.consume
  | control u c =>
    obtain ⟨q, huse, rfl⟩ := Option.map_eq_some_iff.1 hstep
    refine ⟨?_, h.dated, h.keeps.control hi huse c⟩
    have hsync : Synced (g, q.state) := by
      rw [(Page.touched_use huse).state]
      exact h.synced
    -- a control may draw at once, which consumes the changes
    rcases q.state_onChange B c with hstate | hstate
    · rw [hstate]
      exact hsync
    · rw [hstate]
      exact hsync.consume

/-- Right after a tick, a browser that connects is in touch. -/
theorem inTouch_opened {g : Graph} (hends : ∀ k : EdgeKey, k.Plain → ends k.id = (k.src.id, k.dst.id))
    (hinv : g.Inv) (hdated : g.Dated) (hquiet : Quiet g) (hgone : AnchorsGone g) (m : Hello)
    (ρ : RangeOrder) (now : Time) : InTouch B ends (g, opened m ρ now g) := by
  let s : GraphState := ((Page.start : Page K).onHello m).state
  have hedges : EdgesAhead g (s.applySnapshot (g.snapshot ρ now)) :=
    edgesAhead_snapshot hinv hquiet s ρ now
  have hnodes : NodesAhead g (s.applySnapshot (g.snapshot ρ now)) :=
    nodesAhead_snapshot hinv hquiet s ρ now
  constructor
  case synced =>
    exact {
      inv := hinv
      edges := hedges
      nodes := hnodes
      linked := linked_applySnapshot _ _
      closed := closed_of_quiet hinv hedges hnodes hquiet
      anchors := hgone }
  case dated => exact hdated
  -- an empty page that gets a greeting and a snapshot
  case keeps =>
    exact ((Page.keeps_start B ends).onHello m).onSnapshot
      (ends_snapshot hends hinv hdated.plain ρ now)

/-! ## Frames after a tick -/

/-- A frame after a tick draws the graph of the tick. -/
theorem InTouch.draws {g : Graph} {p : Page K} (h : InTouch B ends (g, p))
    (hmirrors : Mirrors g p.state) (hfits : p.Fits) (c : Clock K) : Draws g (p.frame B c) := by
  obtain ⟨hshows, hkeeps, hstate⟩ := h.keeps.frame hfits c
  have hm : Mirrors g (p.frame B c).state := by
    rw [hstate]
    exact hmirrors.consume
  constructor
  case mirrors => exact hm
  case nodes =>
    -- a node is drawn when the page has it, and the page has it when the graph does
    intro id
    rw [hshows.drawn.mem_nodes hkeeps.tracks.keyed, hm.node_ids]
  case edges =>
    intro id
    rw [hshows.edges, hm.edge_ids]

/-- Until the next call the browser mirrors the graph. -/
theorem InTouch.look {s s' : Graph × Page K} {i : Event K}
    (h : InTouch B ends s) (hmirrors : Mirrors s.1 s.2.state) (hlook : i.Looks)
    (hi : Meets s i) (hstep : drawStep B s i = some s') : Mirrors s'.1 s'.2.state := by
  obtain ⟨g, p⟩ := s
  cases i with
  -- neither a call nor a tick is a look
  | call op => exact hlook.elim
  | tick ρ now unavailable => exact hlook.elim
  | frame c =>
    cases hstep
    obtain ⟨-, -, hstate⟩ := h.keeps.frame hi c
    rw [hstate]
    exact hmirrors.consume
  | control u c =>
    obtain ⟨q, huse, rfl⟩ := Option.map_eq_some_iff.1 hstep
    have hq : Mirrors g q.state := by
      rw [(Page.touched_use huse).state]
      exact hmirrors
    rcases q.state_onChange B c with hstate | hstate
    · rw [hstate]
      exact hq
    · rw [hstate]
      exact hq.consume

/-- **The page draws the graph.** Start from a graph right after a tick and a browser that has
just connected. After every further run of calls, ticks, frames and controls, every frame
between a tick and the next call leaves a slot for every node of the graph and an arc for every
edge, and no others. -/
theorem page_draws_graph {retention : Time} {past : List Op} {g g₀ : Graph} {t : Tick}
    {ρ ρ' ρ'' : RangeOrder} {now now' now'' : Time} {m : Hello} {events looks : List (Event K)}
    {unavailable : List String} {c : Clock K} {s : Graph × Page K}
    (hpast : Run.run Graph.step (Graph.new retention) past = some g)
    (hbar : Run.EveryStep Graph.step BarFree (Graph.new retention) past)
    (ht : g.tick ρ now = some (g₀, t)) (hlooks : ∀ i ∈ looks, i.Looks)
    (hmeets : Run.EveryStep (drawStep B) Meets (g₀, opened m ρ' now' g₀)
      (events ++ .tick ρ'' now'' unavailable :: (looks ++ [.frame c])))
    (hrun : Run.run (drawStep B) (g₀, opened m ρ' now' g₀)
      (events ++ .tick ρ'' now'' unavailable :: (looks ++ [.frame c])) = some s) :
    Draws s.1 s.2 := by
  obtain ⟨ends, hends⟩ := exists_ends
  obtain ⟨hinv, hdated⟩ : g.Inv ∧ g.Dated :=
    Run.invariant_of_everyStep (I := fun g => g.Inv ∧ g.Dated)
      (fun _ _ _ h hc hstep => ⟨step_inv h.1 hstep, h.2.step h.1 hc hstep⟩) hbar hpast
      ⟨inv_new retention, dated_new retention⟩
  have hdated₀ : g₀.Dated := hdated.step hinv (show g.BarFree (.tick ρ now) from trivial)
    (congrArg (Option.map Prod.fst) ht)
  obtain ⟨g₁, rfl, -, hinv₁, -⟩ := tick_inv hinv ht
  have hstart := inTouch_opened (B := B) hends hinv₁.settle hdated₀ (quiet_settle g₁)
    { node := fun h => (nomatch h), edge := fun h => (nomatch h) } m ρ' now'
  obtain ⟨hmeets₁, hmeets₂⟩ := Run.everyStep_append.1 hmeets
  obtain ⟨s₁, hrun₁, hrun₂⟩ := Run.run_append_eq_some.1 hrun
  have htouch₁ : InTouch B ends s₁ :=
    Run.invariant_of_everyStep (fun _ _ _ h hi hs => h.step hends hi hs) hmeets₁ hrun₁ hstart
  -- the last tick
  obtain ⟨s₂, htick, hrun₃⟩ := Run.run_cons_eq_some.1 hrun₂
  obtain ⟨hi, hmeets₃⟩ := hmeets₂ s₁ hrun₁ s₂ htick
  obtain ⟨⟨g₂, t₂⟩, hres, rfl⟩ := Option.map_eq_some_iff.1 htick
  have htouch₂ := htouch₁.tick hends hres unavailable (hi g₂ t₂ hres)
  -- the frames and controls after it
  obtain ⟨hmeets₄, hmeets₅⟩ := Run.everyStep_append.1 hmeets₃
  obtain ⟨s₃, hrun₄, hlast⟩ := Run.run_append_eq_some.1 hrun₃
  have htouch₃ : InTouch B ends s₃ ∧ Mirrors s₃.1 s₃.2.state :=
    Run.invariant_of_everyStep (I := fun s => InTouch B ends s ∧ Mirrors s.1 s.2.state)
      (fun _ _ _ h hi hs => ⟨h.1.step hends hi.1 hs, h.1.look h.2 hi.2 hi.1 hs⟩)
      (hmeets₄.and_forall hlooks) hrun₄ htouch₂
  obtain rfl : (s₃.1, s₃.2.frame B c) = s := Option.some.inj hlast
  exact htouch₃.1.draws htouch₃.2 (hmeets₅ s₃ hrun₄ _ rfl).1 c

end

/-! ### A run -/

/-- A graph with nothing in it. -/
def nothing : Graph := (Graph.new (300 * second)).settle

/-- One name outside the cluster calls another. -/
def oneCall : Op := .ingest inOrder (worldFlow "a.example" "b.example")

/-- The browser that has its snapshot. -/
def seesNothing : GraphState :=
  (GraphState.new 300).applySnapshot (nothing.snapshot inOrder (101 * second))

set_option maxRecDepth 10000 in
/-- One flow and the tick after it: two nodes and an edge. -/
theorem tick_oneCall : ∃ g g' t, nothing.step oneCall = some g ∧
    g.tick inOrder (102 * second) = some (g', t) ∧ t.gone.nodes = [] ∧ t.gone.edges = [] ∧
    (seesNothing.applyTick t).nodes.size = 2 ∧ (seesNothing.applyTick t).edges.size = 1 ∧
    "reserved/world/a.example|reserved/world/b.example|TCP|80" ∈ g'.edges := by
  have h : ((nothing.step oneCall).bind fun g => (g.tick inOrder (102 * second)).map fun r =>
      (r.2.gone.nodes, r.2.gone.edges, (seesNothing.applyTick r.2).nodes.size,
        (seesNothing.applyTick r.2).edges.size,
        decide ("reserved/world/a.example|reserved/world/b.example|TCP|80" ∈ r.1.edges)))
      = some ([], [], 2, 1, true) := by decide
  obtain ⟨g, hg, h⟩ := Option.bind_eq_some_iff.1 h
  obtain ⟨⟨g', t⟩, ht, h⟩ := Option.map_eq_some_iff.1 h
  simp only [Prod.mk.injEq, decide_eq_true_eq] at h
  exact ⟨g, g', t, hg, ht, h⟩

/-- The greeting of the server. -/
def greeting : Hello where
  version := "dev"
  source := "demo"
  retentionS := 300
  windowS := 60
  tickMs := 1000
  serverTime := 101

section

variable {K : Type*} [Field K] [LinearOrder K] {B : Browser K} {g g' g'' : Graph} {p : Page K}
  {op : Op} {t : Tick} {ρ : RangeOrder} {now : Time}

/-- A call, the tick after it, and a frame. -/
theorem run_callTickFrame (hcall : g.step op = some g') (htick : g'.tick ρ now = some (g'', t))
    (c : Clock K) : Run.run (drawStep B) (g, p) [.call op, .tick ρ now [], .frame c]
      = some (g'', (p.onTick t []).frame B c) := by
  have hfirst : drawStep B (g, p) (.call op) = some (g', p) :=
    congrArg (Option.map fun g => (g, p)) hcall
  have hsecond : drawStep B (g', p) (.tick ρ now []) = some (g'', p.onTick t []) :=
    congrArg (Option.map fun r : Graph × Tick => (r.1, p.onTick r.2 [])) htick
  exact Run.run_cons_eq_some.2 ⟨_, hfirst, Run.run_cons_eq_some.2 ⟨_, hsecond, rfl⟩⟩

/-- When nothing goes, the tick keeps track. -/
theorem meets_callTickFrame (hcall : g.step op = some g') (htick : g'.tick ρ now = some (g'', t))
    (hop : op.Plausible) (hbar : g.BarFree op) (hkind : ∀ ρ now, op ≠ .tick ρ now)
    (hnodes : t.gone.nodes = []) (hedges : t.gone.edges = [])
    (hfits : (p.onTick t []).Fits) (c : Clock K) :
    Run.EveryStep (drawStep B) Meets (g, p) [.call op, .tick ρ now [], .frame c] := by
  intro s hs
  obtain rfl : (g', p) = s := by
    rw [drawStep, hcall] at hs
    exact Option.some.inj hs
  -- the call, then the tick, which reports nothing gone, then the frame, which fits
  refine ⟨⟨hop, hbar, hkind⟩, fun s hs => ?_⟩
  obtain rfl : (g'', p.onTick t []) = s := by
    rw [drawStep, htick] at hs
    exact Option.some.inj hs
  refine ⟨fun g₂ t₂ htick₂ => ?_, fun s₃ _ => ⟨hfits, trivial⟩⟩
  obtain ⟨-, rfl⟩ := Prod.mk.inj (Option.some.inj (htick.symm.trans htick₂))
  refine ⟨fun id hid => ?_, fun id hid => ?_⟩
  · rw [hnodes] at hid
    cases hid
  · rw [hedges] at hid
    cases hid

end

set_option maxRecDepth 10000 in
/-- The edge of one flow is drawn after the tick. -/
theorem page_draws_graph_oneCall : ∃ s,
    Run.run (drawStep Page.white)
      (nothing, opened greeting inOrder (101 * second) nothing)
      [.call oneCall, .tick inOrder (102 * second) [], .frame Page.now] = some s ∧
      "reserved/world/a.example|reserved/world/b.example|TCP|80" ∈ s.2.edges.slots := by
  obtain ⟨g, g', t, hcall, htick, hnodes, hedges, hsize, hsize', hmem⟩ := tick_oneCall
  have hstart : (Graph.new (300 * second)).tick inOrder (100 * second)
      = some (nothing, (Graph.new (300 * second)).delta inOrder (100 * second)) := rfl
  have hfits : ((opened greeting inOrder (101 * second) nothing).onTick t [] : Page ℝ).Fits := by
    show (seesNothing.applyTick t).nodes.size ≤ _ ∧ (seesNothing.applyTick t).edges.size ≤ _
    rw [hsize, hsize']
    decide
  have hrun := run_callTickFrame (B := Page.white)
    (p := opened greeting inOrder (101 * second) nothing) hcall htick Page.now
  have hmeets := meets_callTickFrame (B := Page.white) hcall htick (by decide) (by decide)
    (fun _ _ => nofun) hnodes hedges hfits Page.now
  have hnew : Run.run Graph.step (Graph.new (300 * second)) [] = some _ := rfl
  have hquiet : ∀ i ∈ ([] : List (Event ℝ)), i.Looks := List.forall_mem_nil _
  have hdraws := page_draws_graph hnew trivial hstart hquiet
    (show Run.EveryStep (drawStep Page.white) Meets
        (nothing, opened greeting inOrder (101 * second) nothing)
        ([.call oneCall] ++ .tick inOrder (102 * second) [] :: ([] ++ [.frame Page.now]))
      from hmeets) hrun
  exact ⟨_, hrun, (hdraws.edges _).2 hmem⟩

end Sync

end Flowscape
