import Flowscape.Web.Canvas

/-!
# Flowscape: what is on the screen (`web/src/main.ts`)

The page, what is selected and the arrays of the arcs, together. The page says which calls its
arcs get, and in which order; the arrays follow them call by call, and are brought to the screen
at the end of a frame. So an arc is on the screen as it would be if every frame drew everything
again.

* Selecting something refreshes the rates at once, hovering does not.
* The particles are left out.
-/

namespace Flowscape

/-! ## Source definitions -/

namespace Page

section

variable {K : Type*} [Field K] [LinearOrder K]

/-- The calls that `applyChanges` makes on the arcs. -/
def changeCalls (p : Page K) : List (Edges.Call K) :=
  let (c, s) := p.state.consume
  let same := samePlatform p.layout.groupBy s.nodes
  let gone := c.removedEdges.map Edges.Call.remove
  (if c.reset then gone ++ gone else gone) ++
    (if p.callsForLayout c then [.setSame same s.edges] else []) ++
    c.addedEdges.filterMap fun id =>
      (s.edges.get? id).map fun e => .add e.id (same e.src e.dst)

/-- The calls that `refreshRates` makes for one edge. -/
def rateCalls (B : Browser K) (p : Page K) (c : Clock K) (e : EdgeState) : List (Edges.Call K) :=
  let v := p.shownRate c.nowSec e
  let idle : K := max 0 (((c.nowMs - e.last : Int) : K) / 1000.0)
  Canvas.refreshCalls e.id (p.edgeHidden e (total v)) (total v) (verdictColor B v)
    (0.18 + 0.82 * B.exp (-idle / 25.0))

end

end Page

/-- The page with what the pointer is on and what is on the screen. -/
structure Display (K : Type*) where
  page : Page K
  focus : Focus
  canvas : Canvas K

namespace Display

section

variable {K : Type*} [Field K] [LinearOrder K]

/-- The display before the first message. -/
def start : Display K where
  page := Page.start
  focus := Focus.start
  canvas := Canvas.new

/-- The page applies its changes, and the canvas follows its calls. -/
def applyChanges (B : Browser K) (s : Display K) : Display K :=
  { s with
    page := s.page.applyChanges B
    canvas := s.page.changeCalls.foldl Canvas.call s.canvas }

/-- `refreshRates`, up to its panel. -/
def refreshRates (B : Browser K) (s : Display K) (c : Clock K) : Display K :=
  { s with
    page := s.page.refreshRates B c
    canvas := (s.page.state.edges.values.flatMap (s.page.rateCalls B c)).foldl Canvas.call
      s.canvas }

/-- `panel.refresh` -/
def refreshPanel (s : Display K) : Display K :=
  { s with focus := s.focus.refresh s.page.state }

/-- What a frame has done before it moves the nodes. -/
def prepared (B : Browser K) (s : Display K) (c : Clock K) : Display K :=
  let s := s.applyChanges B
  if c.due then (s.refreshRates B c).refreshPanel else s

/-- `frame`, with the canvas drawn. -/
def frame (B : Browser K) (s : Display K) (c : Clock K) : Display K :=
  let s := s.prepared B c
  let nodes := s.page.nodes.update c.dt
  let canvas := s.canvas.update B.math s.focus s.page.state.edges nodes.positionOf c.moving
  { page := { s.page with nodes := nodes, edges := canvas.toEdges }
    focus := { s.focus with colDirty := false }
    canvas := canvas }

/-- `filters.onChange` -/
def onChange (B : Browser K) (s : Display K) (c : Clock K) : Display K :=
  let s := if s.page.layout.groupBy ≠ s.page.filters.groupBy then
      applyChanges B { s with page := { s.page with
        layout := { s.page.layout with groupBy := s.page.filters.groupBy }
        membershipDirty := true } }
    else s
  (s.refreshRates B c).refreshPanel

/-- What the reader does with the pointer and the panel. -/
inductive Gesture where
  | click (p : Option Pick)
  | navigate (p : Pick)
  | close
  | hover (p : Option Pick)

/-- What a gesture does to the focus. -/
def Gesture.act : Gesture → Focus.Act
  | .click p => .click p
  | .navigate p => .navigate p
  | .close => .close
  | .hover p => .hover p

/-- Whether a gesture has selected something. -/
def Gesture.selects (f : Focus) : Gesture → Bool
  | .hover _ => false
  | _ => f.selected.isSome

/-- What happens to the display. -/
inductive Input (K : Type*) where
  | message (m : Message) (unavailable : List String)
  | frame (c : Clock K)
  | control (u : Control) (c : Clock K)
  | gesture (g : Gesture) (c : Clock K)

/-- `onMessage` -/
def onMessage (p : Page K) (unavailable : List String) : Message → Page K
  | .hello m => p.onHello m
  | .snapshot m => p.onSnapshot m
  | .tick t => p.onTick t unavailable

/-- One input of the display. -/
def step (B : Browser K) (s : Display K) : Input K → Option (Display K)
  | .message m unavailable => some { s with page := onMessage s.page unavailable m }
  | .frame c => some (s.frame B c)
  | .control u c => (s.page.use u).map fun p => onChange B { s with page := p } c
  | .gesture g c => (s.focus.step (s.page.state, g.act)).map fun f =>
    let s := { s with focus := f }
    if g.selects f then s.refreshRates B c else s

end

end Display

/-! ## The calls of the page -/

namespace Page

/-- No change of a frame moves an arc. -/
theorem changeCalls_stay {K : Type*} (p : Page K) {c : Edges.Call K} (hc : c ∈ p.changeCalls)
    (id : String) (rate : K) : c ≠ .setRate id rate := by
  rintro rfl
  simp only [changeCalls, List.mem_append, List.mem_filterMap, Option.map_eq_some_iff] at hc
  rcases hc with (hc | hc) | ⟨_, -, _, -, hc⟩
  · split at hc
    · simp at hc
    · simp at hc
  · split at hc
    · simp at hc
    · simp at hc
  · cases hc

section

variable {K : Type*} [Field K] [LinearOrder K] (B : Browser K) (p : Page K)

/-- The changes of a frame are the calls of `changeCalls`, one after the other. -/
theorem edges_changeCalls : (p.applyChanges B).edges
    = p.changeCalls.foldl (Edges.call Edges.capacity) p.edges := by
  let c := p.state.consume.1
  let s := p.state.consume.2
  -- the gone arcs, once more when the snapshot reset the page
  have hgone : ∀ t : Edges K,
      (c.removedEdges.map Edges.Call.remove).foldl (Edges.call Edges.capacity) t
        = c.removedEdges.foldl Edges.remove t := fun t => List.foldl_map
  have hshrunk : p.shrunk.edges = (if c.reset then c.removedEdges.map Edges.Call.remove ++
      c.removedEdges.map Edges.Call.remove else c.removedEdges.map Edges.Call.remove).foldl
        (Edges.call Edges.capacity) p.edges := by
    simp only [shrunk, trim]
    split
    · rw [List.foldl_append, hgone, hgone]
      rfl
    · rw [hgone]
      rfl
  obtain ⟨hstate, hlayout, -, -, -, -⟩ := p.shrunk_rest
  -- then `setSame`, when the layout is made anew
  have hsettled : (p.settled B).edges = (if p.callsForLayout c then
      [Edges.Call.setSame (samePlatform p.layout.groupBy s.nodes) s.edges] else []).foldl
        (Edges.call Edges.capacity) p.shrunk.edges := by
    unfold settled
    split
    · show p.shrunk.edges.setSame (samePlatform p.shrunk.layout.groupBy p.shrunk.state.nodes)
        p.shrunk.state.edges = _
      rw [hstate, hlayout]
      rfl
    · rfl
  -- and last the new arcs
  have hadded : ∀ t : Edges K, c.addedEdges.foldl (addArc p.layout.groupBy s) t
      = (c.addedEdges.filterMap fun id => (s.edges.get? id).map fun e =>
          Edges.Call.add e.id (samePlatform p.layout.groupBy s.nodes e.src e.dst)).foldl
        (Edges.call Edges.capacity) t := by
    intro t
    rw [List.foldl_filterMap]
    congr 1
    funext t id
    unfold addArc
    cases s.edges.get? id <;> rfl
  rw [applyChanges_eq]
  show c.addedEdges.foldl (addArc (p.settled B).layout.groupBy s) (p.settled B).edges = _
  rw [(rest_settled B p).mode, hadded, hsettled, hshrunk, ← List.foldl_append,
    ← List.foldl_append, ← List.append_assoc]
  rfl

/-- So is a refresh those of `rateCalls`. -/
theorem edges_rateCalls (c : Clock K) : (p.refreshRates B c).edges
    = (p.state.edges.values.flatMap (p.rateCalls B c)).foldl (Edges.call Edges.capacity)
      p.edges := by
  rw [List.foldl_flatMap]
  exact Loop.foldl_rel (R := fun (r : Refresh K) t => r.edges = t)
    (fun r t e h => h ▸ rfl) rfl

end

end Page

namespace Canvas

section

variable {K : Type*} [Field K] [LinearOrder K] {s : Canvas K} {f : Focus}

theorem toEdges_foldl_call (cs : List (Edges.Call K)) (s : Canvas K) :
    (cs.foldl Canvas.call s).toEdges = cs.foldl (Edges.call Edges.capacity) s.toEdges :=
  Loop.foldl_rel (R := fun (s : Canvas K) t => s.toEdges = t) (fun _ _ _ h => h ▸ rfl) rfl

theorem Sharp.foldl_call (hs : s.Sharp) (cs : List (Edges.Call K)) :
    (cs.foldl Canvas.call s).Sharp := Loop.foldl_keeps (J := Sharp) (fun _ c h => h.call c) hs

/-- The arrays and the colours go with the slots. -/
def Kept (f : Focus) (s : Canvas K) : Prop := s.Sharp ∧ ∀ id, s.Inked f id

theorem Kept.changes (h : s.Kept f) {cs : List (Edges.Call K)}
    (hstay : ∀ c ∈ cs, ∀ id rate, c ≠ .setRate id rate) : Kept f (cs.foldl Canvas.call s) := by
  refine List.foldlRecOn cs Canvas.call (motive := fun t => Kept f t) h fun t ht c hc => ?_
  exact ⟨ht.1.call c, fun id => (ht.2 id).call ht.1 (hstay c hc id)⟩

variable (B : Browser K) (p : Page K) (c : Clock K)

theorem Kept.rates (h : s.Kept f) (l : List EdgeState) :
    Kept f ((l.flatMap (p.rateCalls B c)).foldl Canvas.call s) := by
  rw [List.foldl_flatMap]
  refine Loop.foldl_keeps (J := fun t => Kept f t) (fun t e ht => ?_) h
  exact ⟨ht.1.foldl_call _, Inked.refresh ht.1 ht.2 e.id _ _ _ _⟩

/-- **A refresh has every arc written again.** -/
theorem fresh_rates (hs : s.Sharp) {l : List EdgeState} {e : EdgeState} (he : e ∈ l) :
    Fresh ((l.flatMap (p.rateCalls B c)).foldl Canvas.call s) e.id := by
  obtain ⟨before, after, rfl⟩ := List.append_of_mem he
  rw [List.foldl_flatMap, List.foldl_append, List.foldl_cons]
  refine (Loop.foldl_keeps (J := fun t : Canvas K => t.Sharp ∧ t.Fresh e.id) ?_ ⟨?_, ?_⟩).2
  · exact fun t e' ht => ⟨ht.1.foldl_call _, ht.2.refresh ht.1 e'.id _ _ _ _⟩
  · refine Sharp.foldl_call ?_ _
    exact Loop.foldl_keeps (J := Sharp) (fun t e' ht => ht.foldl_call _) hs
  · exact fresh_setColor _ e.id _ _

end

end Canvas

/-- Both ends of every edge are nodes of the graph. -/
def GraphState.EndsKnown (s : GraphState) : Prop :=
  ∀ id e, s.edges.get? id = some e → e.src ∈ s.nodes ∧ e.dst ∈ s.nodes

namespace Page

variable {K : Type*} [Field K] [LinearOrder K] {B : Browser K}
  {ends : String → String × String} {p : Page K}

/-- When the arcs are drawn, the ends of each have a place. -/
theorem Keeps.placed (h : p.Keeps B ends) (hfits : p.Fits) (hknown : p.state.EndsKnown)
    (c : Clock K) : ∀ id ∈ (p.prepared B c).edges.slots,
      Edges.Placed (p.prepared B c).state.edges
        ((p.prepared B c).nodes.update c.dt).positionOf id := by
  obtain ⟨hshows, hrest⟩ := h.prepared hfits c
  have hkeyed : Keyed (p.prepared B c).state.nodes := by
    rw [hrest.state]
    exact h.tracks.keyed
  -- a node of the page is drawn, so it has a position
  have hplaced : ∀ id ∈ (p.prepared B c).state.nodes,
      ((p.prepared B c).nodes.update c.dt).positionOf id ≠ none := by
    intro id hid
    obtain ⟨slot, hslot⟩ := OrdMap.mem_iff.1 ((hshows.drawn.mem_nodes hkeyed id).2 hid)
    have hsame : ((p.prepared B c).nodes.update c.dt).slots.get? id = some slot := hslot
    rw [NodeMesh.positionOf, hsame]
    exact Option.some_ne_none _
  intro id hid
  obtain ⟨e, he⟩ := OrdMap.mem_iff.1 ((hshows.edges id).1 hid)
  have hold : p.state.edges.get? id = some e := by
    rw [hrest.state] at he
    exact he
  obtain ⟨hsrc, hdst⟩ := hknown id e hold
  refine ⟨e, he, hplaced e.src ?_, hplaced e.dst ?_⟩
  · rw [hrest.state]
    exact hsrc
  · rw [hrest.state]
    exact hdst

end Page

namespace Display

section

variable {K : Type*} [Field K] [LinearOrder K] {B : Browser K} {s : Display K}

/-- The arrays are those of the arcs of the page. -/
def Synced (s : Display K) : Prop := s.canvas.toEdges = s.page.edges

/-! ### The page goes its own way -/

theorem Synced.applyChanges (h : s.Synced) (B : Browser K) : (s.applyChanges B).Synced := by
  show (s.page.changeCalls.foldl Canvas.call s.canvas).toEdges = (s.page.applyChanges B).edges
  rw [Canvas.toEdges_foldl_call, Page.edges_changeCalls, h]

theorem Synced.refreshRates (h : s.Synced) (B : Browser K) (c : Clock K) :
    (s.refreshRates B c).Synced := by
  show (((s.page.state.edges.values.flatMap (s.page.rateCalls B c)).foldl Canvas.call
    s.canvas).toEdges) = (s.page.refreshRates B c).edges
  rw [Canvas.toEdges_foldl_call, Page.edges_rateCalls, h]

theorem page_prepared (B : Browser K) (s : Display K) (c : Clock K) :
    (s.prepared B c).page = s.page.prepared B c := by
  unfold prepared Page.prepared
  dsimp only
  split <;> rfl

theorem Synced.prepared (h : s.Synced) (B : Browser K) (c : Clock K) :
    (s.prepared B c).Synced := by
  unfold Display.prepared
  dsimp only
  split
  · exact (h.applyChanges B).refreshRates B c
  · exact h.applyChanges B

/-- **The frame of the display is the frame of the page.** -/
theorem page_frame (h : s.Synced) (B : Browser K) (c : Clock K) :
    (s.frame B c).page = s.page.frame B c := by
  have hsync := h.prepared B c
  have hpage := page_prepared B s c
  rw [Page.frame_eq, ← hpage]
  show { (s.prepared B c).page with
      nodes := (s.prepared B c).page.nodes.update c.dt
      edges := ((s.prepared B c).canvas.update B.math (s.prepared B c).focus
        (s.prepared B c).page.state.edges
        ((s.prepared B c).page.nodes.update c.dt).positionOf c.moving).toEdges } = _
  rw [Canvas.toEdges_update, hsync]

theorem page_onChange (B : Browser K) (s : Display K) (c : Clock K) :
    (s.onChange B c).page = s.page.onChange B c := by
  unfold onChange Page.onChange
  split <;> rfl

theorem Synced.onChange (h : s.Synced) (B : Browser K) (c : Clock K) :
    (s.onChange B c).Synced := by
  have hrefresh : ∀ t : Display K, t.Synced → (t.refreshRates B c).refreshPanel.Synced :=
    fun t ht => ht.refreshRates B c
  unfold Display.onChange
  split
  · refine hrefresh _ (Synced.applyChanges ?_ B)
    exact h
  · exact hrefresh s h

/-! ### The arrays are kept -/

theorem kept_applyChanges (h : s.canvas.Kept s.focus) (B : Browser K) :
    (s.applyChanges B).canvas.Kept s.focus :=
  h.changes fun _ hc id rate => s.page.changeCalls_stay hc id rate

theorem kept_refreshRates (h : s.canvas.Kept s.focus) (B : Browser K) (c : Clock K) :
    (s.refreshRates B c).canvas.Kept s.focus := h.rates B s.page c _

omit [LinearOrder K] in
/-- The colours are right for another focus, too, as long as no emphasis goes without a flag. -/
theorem Canvas.Kept.focus {s : Canvas K} {f f' : Focus} (h : s.Kept f)
    (hwet : (f.colDirty || f.anyEmphasis) = true → (f'.colDirty || f'.anyEmphasis) = true) :
    s.Kept f' := by
  refine ⟨h.1, fun id slot hslot => (h.2 id slot hslot).imp_left fun hold => ?_⟩
  unfold Canvas.wet at hold ⊢
  rw [Bool.or_assoc, Bool.or_eq_true_iff] at hold ⊢
  exact hold.imp_right hwet

/-! ### Runs -/

variable {ends : String → String × String}

/-- What holds between two steps. -/
structure Holds (B : Browser K) (ends : String → String × String) (s : Display K) : Prop where
  page : s.page.Keeps B ends
  synced : s.Synced
  marks : s.focus.Marks
  kept : s.canvas.Kept s.focus

/-- A step meets the conditions of the page, and at a frame the graph knows the ends of its
edges. -/
def Fair (ends : String → String × String) (s : Display K) : Input K → Prop
  | .message (.hello _) _ => True
  | .message (.snapshot m) _ => s.page.Fair ends (.snapshot m)
  | .message (.tick t) unavailable => s.page.Fair ends (.tick t unavailable)
  | .frame _ => s.page.Fits ∧ s.page.state.EndsKnown
  | .control _ _ => s.page.Fits
  | .gesture _ _ => True

/-- What a refresh of the panel does not touch. -/
theorem wet_refresh (f : Focus) (g : GraphState) :
    ((f.refresh g).colDirty || (f.refresh g).anyEmphasis) = (f.colDirty || f.anyEmphasis) := by
  rw [Focus.refresh_eq]
  rfl

omit [LinearOrder K] in
theorem kept_refreshPanel (h : s.canvas.Kept s.focus) :
    s.refreshPanel.canvas.Kept s.refreshPanel.focus :=
  Canvas.Kept.focus h fun hwet => (wet_refresh s.focus s.page.state).trans hwet

theorem kept_prepared (h : s.canvas.Kept s.focus) (B : Browser K) (c : Clock K) :
    (s.prepared B c).canvas.Kept (s.prepared B c).focus := by
  have hchanges := kept_applyChanges h B
  unfold prepared
  dsimp only
  split
  · exact kept_refreshPanel (kept_refreshRates (s := s.applyChanges B) hchanges B c)
  · exact hchanges

theorem marks_prepared (h : s.focus.Marks) (B : Browser K) (c : Clock K) :
    (s.prepared B c).focus.Marks := by
  unfold prepared
  dsimp only
  split
  · exact h.refresh _
  · exact h

/-- A frame keeps the display as it should be. -/
theorem Holds.frame (h : s.Holds B ends) (hfits : s.page.Fits) (hknown : s.page.state.EndsKnown)
    (c : Clock K) : (s.frame B c).Holds B ends := by
  have hsync := h.synced.prepared B c
  obtain ⟨hsharp, hinked⟩ := kept_prepared h.kept B c
  have hplaced := h.page.placed hfits hknown c
  rw [← page_prepared, ← hsync] at hplaced
  refine ⟨?_, rfl, ?_, (hsharp.update B.math _ _ _ c.moving).1, fun id => ?_⟩
  · rw [page_frame h.synced]
    exact (h.page.frame hfits c).2.1
  · exact (marks_prepared h.marks B c).step (i := (s.page.state, .draw)) rfl
  · exact (hinked id).dried B.math c.moving hsharp hplaced

theorem Holds.step (h : s.Holds B ends) {i : Input K} (hfair : s.Fair ends i) {s' : Display K}
    (hstep : s.step B i = some s') : s'.Holds B ends := by
  cases i with
  -- a message changes the state of the page and none of its arcs
  | message m unavailable =>
    cases hstep
    have hedges : (onMessage s.page unavailable m).edges = s.page.edges := by
      cases m <;> rfl
    refine ⟨?_, h.synced.trans hedges.symm, h.marks, h.kept⟩
    cases m with
    | hello m => exact h.page.onHello m
    | snapshot m => exact h.page.onSnapshot hfair
    | tick t => exact h.page.onTick unavailable hfair.1 hfair.2
  | frame c =>
    cases hstep
    exact h.frame hfair.1 hfair.2 c
  | control u c =>
    obtain ⟨p, huse, rfl⟩ := Option.map_eq_some_iff.1 hstep
    have hedges : p.edges = s.page.edges := (Page.touched_use huse).edges
    refine ⟨?_, ?_, ?_, ?_⟩
    · rw [page_onChange]
      exact h.page.control hfair huse c
    · refine Synced.onChange ?_ B c
      exact h.synced.trans hedges.symm
    · unfold onChange
      dsimp only
      split <;> exact h.marks.refresh _
    -- both ways of a change end in a refresh of the rates and the panel
    · have hrefresh : ∀ t : Display K, t.canvas.Kept t.focus →
          (t.refreshRates B c).refreshPanel.canvas.Kept
            (t.refreshRates B c).refreshPanel.focus := fun t ht =>
        kept_refreshPanel (s := t.refreshRates B c) (kept_refreshRates ht B c)
      unfold onChange
      dsimp only
      split
      · refine hrefresh _ (kept_applyChanges (s := { s with page := _ }) ?_ B)
        exact h.kept
      · refine hrefresh { s with page := p } ?_
        exact h.kept
  | gesture g c =>
    obtain ⟨f, hfocus, rfl⟩ := Option.map_eq_some_iff.1 hstep
    have hmarks : f.Marks := h.marks.step hfocus
    -- no gesture draws
    have hact : g.act ≠ .draw := by cases g <;> exact nofun
    have hkept : s.canvas.Kept f := Canvas.Kept.focus h.kept (h.marks.flagged hfocus hact)
    split
    · refine ⟨h.page.refreshRates c, ?_, hmarks, ?_⟩
      · refine Synced.refreshRates ?_ B c
        exact h.synced
      · exact kept_refreshRates (s := { s with focus := f }) hkept B c
    · exact ⟨h.page, h.synced, hmarks, hkept⟩

theorem holds_start (B : Browser K) (ends : String → String × String) :
    (start : Display K).Holds B ends where
  page := Page.keeps_start B ends
  synced := rfl
  marks := Focus.marks_start
  kept := ⟨Canvas.sharp_new, fun _ _ h => nomatch h⟩

theorem holds_of_run {inputs : List (Input K)}
    (hfair : Run.EveryStep (step B) (Fair ends) start inputs)
    (hrun : Run.run (step B) start inputs = some s) : s.Holds B ends :=
  Run.invariant_of_everyStep (I := Holds B ends) (fun _ _ _ h hf hs => h.step hf hs) hfair hrun
    (holds_start B ends)

/-! ### What a frame leaves on the screen -/

/-- What the loop over the arcs finds. -/
structure Drawable (s : Display K) (c : Clock K) : Prop where
  sharp : s.canvas.Sharp
  inked : ∀ id, s.canvas.Inked s.focus id
  placed : ∀ id ∈ s.canvas.slots,
    Edges.Placed s.page.state.edges (s.page.nodes.update c.dt).positionOf id
  /-- After a refresh every arc is written again. -/
  fresh : c.due = true → ∀ id ∈ s.page.state.edges, s.canvas.Fresh id

/-- A display that holds can be drawn. -/
theorem Holds.drawable (h : s.Holds B ends) (hfits : s.page.Fits)
    (hknown : s.page.state.EndsKnown) (c : Clock K) : (s.prepared B c).Drawable c := by
  obtain ⟨hsharp, hinked⟩ := kept_prepared h.kept B c
  refine ⟨hsharp, hinked, ?_, fun hdue id hid => ?_⟩
  · have hplaced := h.page.placed hfits hknown c
    rwa [← page_prepared, ← h.synced.prepared B c] at hplaced
  -- when the rates are due, each edge of the page was refreshed
  · have hprepared : s.prepared B c = ((s.applyChanges B).refreshRates B c).refreshPanel :=
      if_pos hdue
    rw [hprepared] at hid ⊢
    obtain ⟨e, he⟩ := OrdMap.mem_iff.1 hid
    replace he : (s.page.applyChanges B).state.edges.get? id = some e := he
    have hold : s.page.state.edges.get? id = some e := by
      have hstate : (s.page.applyChanges B).state = s.page.state.consume.2 :=
        (Page.rest_settled B s.page).state
      rw [hstate] at he
      exact he
    obtain rfl : e.id = id := (h.page.tracks.named.edge hold).1
    exact Canvas.fresh_rates B (s.page.applyChanges B) c (kept_applyChanges h.kept B).1
      (OrdMap.mem_values_of_get? he)

/-- The slots are those from before the loop. -/
theorem slots_frame (B : Browser K) (s : Display K) (c : Clock K) :
    (s.frame B c).page.edges.slots = (s.prepared B c).canvas.slots := by
  show ((s.prepared B c).canvas.update B.math _ _ _ c.moving).toEdges.slots = _
  rw [Canvas.toEdges_update]
  exact (Edges.update_frame B.math _ _ c.moving _).1

/-- **What is drawn after a frame**: nothing where there is no arc, and each edge along its curve.
-/
theorem Holds.segments (h : s.Holds B ends) (hfits : s.page.Fits)
    (hknown : s.page.state.EndsKnown) (c : Clock K) :
    let q := s.frame B c
    (∀ cp, q.page.edges.bySlot cp = none →
      q.canvas.drawnPos cp = Canvas.noPos ∧ q.canvas.drawnCol cp = Canvas.noCol) ∧
    ∀ id ∈ q.page.state.edges, ∃ slot, q.page.edges.slots.get? id = some slot ∧
      q.page.edges.cpValid slot.cp = true ∧
      q.canvas.drawnPos slot.cp = Canvas.segments (q.page.edges.controlPoints slot.cp) := by
  have hdraw := h.drawable hfits hknown c
  obtain ⟨hsharp, hpos, hcol⟩ := hdraw.sharp.update B.math (s.prepared B c).focus
    (s.prepared B c).page.state.edges ((s.prepared B c).page.nodes.update c.dt).positionOf c.moving
  replace hpos : (s.frame B c).canvas.drawnPos = (s.frame B c).canvas.pos := hpos
  replace hcol : (s.frame B c).canvas.drawnCol = (s.frame B c).canvas.col := hcol
  refine ⟨fun cp hcp => ?_, fun id hid => ?_⟩
  · rw [hpos, hcol]
    exact hsharp.blank cp hcp
  · have hmem : id ∈ (s.frame B c).page.edges.slots := by
      rw [page_frame h.synced] at hid ⊢
      exact ((h.page.frame hfits c).1.edges id).2 hid
    obtain ⟨slot, hslot⟩ := OrdMap.mem_iff.1 hmem
    obtain ⟨e, he⟩ := OrdMap.mem_iff.1 hid
    obtain ⟨hvalid, -⟩ := Canvas.col_update B.math (s.prepared B c).focus c.moving hdraw.sharp
      hdraw.placed (slots_frame B s c ▸ hslot) he
    refine ⟨slot, hslot, hvalid, ?_⟩
    rw [hpos]
    exact hsharp.arcs slot.cp hvalid

/-- **The screen has the arcs and nothing else**: the segments of every edge of the graph go along
its control points, and a place that no edge has is blank, whoever had it before. -/
theorem segments_frame_of_run {inputs : List (Input K)}
    (hfair : Run.EveryStep (step B) (Fair ends) start inputs)
    (hrun : Run.run (step B) start inputs = some s) (hfits : s.page.Fits)
    (hknown : s.page.state.EndsKnown) (c : Clock K) :
    let q := s.frame B c
    (∀ cp, q.page.edges.bySlot cp = none →
      q.canvas.drawnPos cp = Canvas.noPos ∧ q.canvas.drawnCol cp = Canvas.noCol) ∧
    ∀ id ∈ q.page.state.edges, ∃ slot, q.page.edges.slots.get? id = some slot ∧
      q.page.edges.cpValid slot.cp = true ∧
      q.canvas.drawnPos slot.cp = Canvas.segments (q.page.edges.controlPoints slot.cp) :=
  (holds_of_run hfair hrun).segments hfits hknown c

/-- What the pointer can be on: a node that has an instance there, or an edge that has a segment
there, drawn along its control points. -/
def Seen (q : Display K) (hits : List (Option Nat)) (lines : List (Fin 3 × Option Nat)) :
    Pick → Prop
  | .node id => id ∈ q.page.state.nodes ∧
    ∃ slot, q.page.nodes.slots.get? id = some slot ∧ some slot.index ∈ hits
  | .edge id => id ∈ q.page.state.edges ∧
    ∃ slot segment, q.page.edges.slots.get? id = some slot ∧ (slot.batch, some segment) ∈ lines ∧
      segment / SEGMENTS = slot.index ∧
      q.canvas.drawnPos slot.cp = Canvas.segments (q.page.edges.controlPoints slot.cp)

/-- **What is picked is what is drawn there**: the places of the meshes are handed on from edge to
edge, and the ray only knows the number of a segment. -/
theorem pick_frame_of_run {inputs : List (Input K)}
    (hfair : Run.EveryStep (step B) (Fair ends) start inputs)
    (hrun : Run.run (step B) start inputs = some s) (hfits : s.page.Fits)
    (hknown : s.page.state.EndsKnown) (c : Clock K) {hits : List (Option Nat)}
    {lines : List (Fin 3 × Option Nat)}
    (hlines : ∀ h ∈ lines, ∀ segment, h.2 = some segment → segment < Edges.capacity * SEGMENTS)
    {x : Pick} (hpick : pick Edges.capacity (s.frame B c).page.nodes.toSlots
      (s.frame B c).page.edges hits lines = some x) :
    (s.frame B c).Seen hits lines x := by
  have h := holds_of_run hfair hrun
  obtain ⟨-, hsegments⟩ := h.segments hfits hknown c
  obtain ⟨hshows, hkeeps, -⟩ := h.page.frame hfits c
  rw [← page_frame h.synced] at hshows hkeeps
  cases x with
  -- the spheres are hit by their slots, which are those of the nodes
  | node id =>
    obtain ⟨slot, hslot, hhit⟩ := pick_node hshows.pooled.nodes hpick
    obtain ⟨slot', hslot', rfl⟩ := Option.map_eq_some_iff.1
      ((OrdMap.get?_map NodeMesh.render _ id).symm.trans hslot)
    refine ⟨?_, slot', hslot', hhit⟩
    exact (hshows.drawn.mem_nodes hkeeps.tracks.keyed id).1 (OrdMap.mem_of_get? hslot')
  -- a line is hit by a segment, and the segments of a slot lie one after the other
  | edge id =>
    obtain ⟨slot, segment, hslot, hline, hle, hlt⟩ := pick_edge hshows.pooled.edges hlines hpick
    have hmem : id ∈ (s.frame B c).page.state.edges :=
      (hshows.edges id).1 (OrdMap.mem_of_get? hslot)
    obtain ⟨slot', hslot', -, hpos⟩ := hsegments id hmem
    obtain rfl : slot = slot' := Option.some.inj (hslot.symm.trans hslot')
    exact ⟨hmem, slot, segment, hslot, hline, Nat.div_eq_of_lt_le hle hlt, hpos⟩

/-- **An arc has the colours that a redraw of everything would give it**, although a frame writes
only those of the meshes that are dirty. In a frame without a refresh an arc may be dark as long as
no refresh has come to it. -/
theorem colours_frame_of_run {inputs : List (Input K)}
    (hfair : Run.EveryStep (step B) (Fair ends) start inputs)
    (hrun : Run.run (step B) start inputs = some s) (hfits : s.page.Fits)
    (hknown : s.page.state.EndsKnown) (c : Clock K) {id : String} {e : EdgeState}
    {slot : EdgeSlot K} (he : (s.frame B c).page.state.edges.get? id = some e)
    (hslot : (s.frame B c).page.edges.slots.get? id = some slot) :
    (s.frame B c).canvas.drawnCol slot.cp
        = Canvas.colours (s.frame B c).focus.anyEmphasis
          (Canvas.emphasises (s.frame B c).focus e id) slot ∨
      c.due = false ∧ Canvas.Untouched slot ∧
        (s.frame B c).canvas.drawnCol slot.cp = Canvas.noCol := by
  have hdraw := (holds_of_run hfair hrun).drawable hfits hknown c
  obtain ⟨-, -, hcol⟩ := hdraw.sharp.update B.math (s.prepared B c).focus
    (s.prepared B c).page.state.edges ((s.prepared B c).page.nodes.update c.dt).positionOf c.moving
  replace hcol : (s.frame B c).canvas.drawnCol = (s.frame B c).canvas.col := hcol
  replace hslot : (s.prepared B c).canvas.slots.get? id = some slot := slots_frame B s c ▸ hslot
  rw [hcol]
  rcases (hdraw.inked id).update B.math c.moving hdraw.sharp hdraw.placed hslot he
    with hfull | ⟨hdry, hnew, hdark⟩
  · exact Or.inl hfull
  -- an arc that is still dark was added since the last refresh, so none is due
  · refine Or.inr ⟨?_, hnew, hdark⟩
    cases hdue : c.due with
    | false => rfl
    | true =>
      have hflag := hdraw.fresh hdue id (OrdMap.mem_of_get? he) slot hslot
      rw [Canvas.wet_of_colDirty hflag] at hdry
      cases hdry

end

/-! ### A run -/

/-- The display that has heard of the two, with the pointer on the arc between them. -/
noncomputable def pointing : Display ℝ where
  page := Page.talking
  focus := Focus.start.hover Page.talking.state (some (.edge "shop/Pod/cart|bank/Pod/till|TCP|443"))
  canvas := Canvas.new

/-- What has happened by then. -/
noncomputable def pointed : List (Input ℝ) :=
  [.message (.snapshot Page.talk) [],
    .gesture (.hover (some (.edge "shop/Pod/cart|bank/Pod/till|TCP|443"))) Page.now]

theorem run_pointed : Run.run (step Page.white) start pointed = some pointing := rfl

theorem fair_pointed : Run.EveryStep (step Page.white)
    (Fair fun _ => ("shop/Pod/cart", "bank/Pod/till")) start pointed := by
  intro s _
  refine ⟨fun e he => ?_, fun s' _ => ⟨trivial, trivial⟩⟩
  obtain rfl := List.mem_singleton.1 he
  rfl

set_option maxRecDepth 10000 in
theorem endsKnown_talking : Page.talking.state.EndsKnown := by
  have hvalues : ∀ e ∈ ((GraphState.new 300).applySnapshot Page.talk).edges.values,
      e.src ∈ ((GraphState.new 300).applySnapshot Page.talk).nodes ∧
        e.dst ∈ ((GraphState.new 300).applySnapshot Page.talk).nodes := by decide
  exact fun id e he => hvalues e (OrdMap.mem_values_of_get? he)

set_option maxRecDepth 10000 in
theorem edge_pointing : "shop/Pod/cart|bank/Pod/till|TCP|443" ∈
    (pointing.frame Page.white Page.now).page.state.edges := by
  have hmem : "shop/Pod/cart|bank/Pod/till|TCP|443" ∈
      ((GraphState.new 300).applySnapshot Page.talk).consume.2.edges := by decide
  have hpage : (pointing.frame Page.white Page.now).page = Page.talking.frame Page.white Page.now :=
    page_frame (holds_of_run fair_pointed run_pointed).synced Page.white Page.now
  rw [hpage, Page.state_talking]
  exact hmem

theorem slot_pointing : ∃ slot, (pointing.frame Page.white Page.now).page.edges.slots.get?
    "shop/Pod/cart|bank/Pod/till|TCP|443" = some slot := by
  have h := holds_of_run fair_pointed run_pointed
  have hmem := edge_pointing
  rw [page_frame h.synced] at hmem ⊢
  exact OrdMap.mem_iff.1 (((h.page.frame Page.fits_talking Page.now).1.edges _).2 hmem)

theorem segments_frame_of_run_talk : ∃ slot,
    (pointing.frame Page.white Page.now).page.edges.slots.get?
      "shop/Pod/cart|bank/Pod/till|TCP|443" = some slot ∧
    (pointing.frame Page.white Page.now).canvas.drawnPos slot.cp
      = Canvas.segments ((pointing.frame Page.white Page.now).page.edges.controlPoints slot.cp) := by
  obtain ⟨-, hdrawn⟩ := segments_frame_of_run fair_pointed run_pointed Page.fits_talking
    endsKnown_talking Page.now
  obtain ⟨slot, hslot, -, hpos⟩ := hdrawn _ edge_pointing
  exact ⟨slot, hslot, hpos⟩

/-- The arc under the pointer is emphasised. -/
theorem colours_frame_of_run_talk : ∃ slot,
    (pointing.frame Page.white Page.now).page.edges.slots.get?
      "shop/Pod/cart|bank/Pod/till|TCP|443" = some slot ∧
    (pointing.frame Page.white Page.now).canvas.drawnCol slot.cp
      = Canvas.colours true true slot := by
  obtain ⟨slot, hslot⟩ := slot_pointing
  obtain ⟨e, he⟩ := OrdMap.mem_iff.1 edge_pointing
  have hhovered : (pointing.frame Page.white Page.now).focus.edgeHovered
      = some "shop/Pod/cart|bank/Pod/till|TCP|443" := rfl
  rcases colours_frame_of_run fair_pointed run_pointed Page.fits_talking endsKnown_talking
    Page.now he hslot with hfull | ⟨hdue, -⟩
  · simp only [Focus.anyEmphasis, Canvas.emphasises, hhovered, Option.isSome_some, Bool.or_true,
      Bool.true_or, decide_true] at hfull
    exact ⟨slot, hslot, hfull⟩
  · cases hdue

theorem idAt_first {K : Type*} {s : Edges K} (hs : s.Sound Edges.capacity) {id : String}
    {slot : EdgeSlot K} (h : s.slots.get? id = some slot) :
    s.idAt Edges.capacity slot.batch (slot.index * SEGMENTS) = some id := by
  have hby := hs.bySlot_cp h
  rw [(hs.slot id slot h).2] at hby
  rw [Edges.idAt, Nat.mul_div_cancel _ (by decide)]
  exact hby

/-- The pointer finds the arc on its first segment. -/
theorem pick_frame_of_run_talk : ∃ slot,
    (pointing.frame Page.white Page.now).page.edges.slots.get?
      "shop/Pod/cart|bank/Pod/till|TCP|443" = some slot ∧
    (pointing.frame Page.white Page.now).Seen [] [(slot.batch, some (slot.index * SEGMENTS))]
      (.edge "shop/Pod/cart|bank/Pod/till|TCP|443") := by
  obtain ⟨slot, hslot⟩ := slot_pointing
  have h := (holds_of_run fair_pointed run_pointed).frame Page.fits_talking endsKnown_talking
    Page.now
  have hsync : (pointing.frame Page.white Page.now).canvas.toEdges
      = (pointing.frame Page.white Page.now).page.edges := h.synced
  have hsound : (pointing.frame Page.white Page.now).page.edges.Sound Edges.capacity :=
    hsync ▸ h.kept.1.consistent.toSound
  -- the first segment of the slot leads back to the edge
  have hat := idAt_first hsound hslot
  have hpick : pick Edges.capacity (pointing.frame Page.white Page.now).page.nodes.toSlots
      (pointing.frame Page.white Page.now).page.edges []
      [(slot.batch, some (slot.index * SEGMENTS))]
        = some (.edge "shop/Pod/cart|bank/Pod/till|TCP|443") := by
    simp [pick, hat]
  refine ⟨slot, hslot, pick_frame_of_run fair_pointed run_pointed Page.fits_talking
    endsKnown_talking Page.now ?_ hpick⟩
  rintro l hl segment hseg
  obtain rfl := List.mem_singleton.1 hl
  obtain rfl : slot.index * SEGMENTS = segment := Option.some.inj hseg
  exact Nat.mul_lt_mul_of_pos_right (hsound.index_lt hslot) (by decide)

end Display

end Flowscape
