import Flowscape.Lib.Run
import Flowscape.Web.Slots

/-!
# Flowscape: what is selected and what the pointer is on (`web/src/main.ts`, `web/src/picking.ts`)

A click, a link of the panel or the Escape key select; the pointer hovers. Both leave marks in the
nodes, the arcs, the panel and the line of help, each of which keeps its own copy.

* What the pointer is on comes from `pick`, and is an input.
* Of the panel (`web/src/panel.ts`) there is what it shows, or nothing when it is hidden: a panel
  that finds its node or edge gone hides itself.
* `colDirty` is kept for all three meshes at once; `emphasiseNode` sets it for all of them.
-/

namespace Flowscape

deriving instance DecidableEq for Pick

/-! ## Source definitions -/

namespace Pick

/-- `p?.kind === "node" ? p.id : null` -/
def nodeId : Option Pick → Option String
  | some (.node id) => some id
  | _ => none

/-- `p?.kind === "edge" ? p.id : null` -/
def edgeId : Option Pick → Option String
  | some (.edge id) => some id
  | _ => none

/-- The node or the edge is in the graph. -/
def known (s : GraphState) : Pick → Bool
  | .node id => id ∈ s.nodes
  | .edge id => id ∈ s.edges

/-- What a panel finds of what it is to show. -/
def find (s : GraphState) : Option Pick → Option Pick
  | none => none
  | some p => if p.known s then some p else none

end Pick

/-- What the pointer is on and what is selected, as each part of the page keeps it. -/
structure Focus where
  selected : Option Pick
  /-- `picking.hovered` -/
  hovered : Option Pick
  /-- `nodes.selected` and `nodes.hovered` -/
  nodeSelected : Option String
  nodeHovered : Option String
  /-- `edges.selected` and `edges.hovered` -/
  edgeSelected : Option String
  edgeHovered : Option String
  /-- `edges.emphasisedNode` -/
  emphasised : Option String
  /-- `colDirty` of the meshes of the arcs. -/
  colDirty : Bool
  /-- `panel.current` -/
  current : Option Pick
  help : String

namespace Focus

/-- The line of help when the pointer is on nothing. -/
def idleHelp : String := "drag to orbit · scroll to zoom · click a node or arc"

/-- Nothing is selected or pointed at. -/
def start : Focus where
  selected := none
  hovered := none
  nodeSelected := none
  nodeHovered := none
  edgeSelected := none
  edgeHovered := none
  emphasised := none
  colDirty := false
  current := none
  help := idleHelp

/-- `edges.emphasiseNode` -/
def emphasiseNode (f : Focus) (id : Option String) : Focus :=
  { f with emphasised := id, colDirty := true }

/-- `panel.show`: a panel that cannot find what it is to show shows nothing. -/
def showPanel (s : GraphState) (f : Focus) (p : Option Pick) : Focus :=
  match p with
  | none => { f with current := none }
  | some p => if p.known s then { f with current := some p } else { f with current := none }

/-- `panel.refresh` -/
def refresh (s : GraphState) (f : Focus) : Focus :=
  match f.current with
  | none => f
  | some p => if p.known s then f else f.showPanel s none

/-- `select` -/
def select (s : GraphState) (f : Focus) (p : Option Pick) : Focus :=
  let f := { f with
    selected := p
    nodeSelected := Pick.nodeId p
    edgeSelected := Pick.edgeId p }
  let f := (f.emphasiseNode (Pick.nodeId p)).showPanel s p
  -- `refreshRates(true)`, which refreshes the panel
  if p.isSome then f.refresh s else f

/-- What the canvas does when it is clicked. -/
def click (s : GraphState) (f : Focus) (p : Option Pick) : Focus :=
  f.select s (if p = f.selected then none else p)

/-- The line of help for what the pointer is on; it stays when the graph does not have it. -/
def helpFor (s : GraphState) (old : String) : Option Pick → String
  | some (.edge id) =>
    match s.edges.get? id with
    | none => old
    | some e =>
      let name (id : String) : String := ((s.nodes.get? id).map (·.name)).getD id
      name e.src ++ " → " ++ name e.dst ++ " " ++ e.proto ++ ":" ++ toString e.port
  | some (.node id) =>
    match s.nodes.get? id with
    | none => old
    | some n => n.ns ++ " / " ++ n.kind ++ " " ++ n.name
  | none => idleHelp

/-- `setHovered`, with what `main.ts` does about it. -/
def hover (s : GraphState) (f : Focus) (p : Option Pick) : Focus :=
  if p = f.hovered then f
  else
    let f := { f with
      hovered := p
      nodeHovered := Pick.nodeId p
      edgeHovered := Pick.edgeId p }
    let f := match p with
      | some (.node id) => if f.selected.isNone then f.emphasiseNode (some id) else f
      | some (.edge _) => f
      | none => if f.selected.isNone then f.emphasiseNode none else f
    { f with help := helpFor s f.help p }

/-- What happens to the focus. -/
inductive Act where
  | click (p : Option Pick)
  /-- A link of the panel. -/
  | navigate (p : Pick)
  /-- The Escape key, or the button of the panel. -/
  | close
  | hover (p : Option Pick)
  /-- The rates are refreshed, and the panel with them. -/
  | refresh
  /-- The colours of the arcs are written. -/
  | draw

/-- An act, with the graph as it is by then. -/
def step (f : Focus) : GraphState × Act → Option Focus
  | (s, .click p) => some (f.click s p)
  | (s, .navigate p) => some (f.select s (some p))
  | (s, .close) => some (f.select s none)
  | (s, .hover p) => some (f.hover s p)
  | (s, .refresh) => some (f.refresh s)
  | (_, .draw) => some { f with colDirty := false }

/-- `anyEmphasis` of `edges.update` -/
def anyEmphasis (f : Focus) : Bool :=
  f.edgeSelected.isSome || f.edgeHovered.isSome || f.emphasised.isSome

/-! ## The marks go together -/

/-- The copies agree with what is selected and hovered. -/
structure Marks (f : Focus) : Prop where
  nodeSelected : f.nodeSelected = Pick.nodeId f.selected
  edgeSelected : f.edgeSelected = Pick.edgeId f.selected
  nodeHovered : f.nodeHovered = Pick.nodeId f.hovered
  edgeHovered : f.edgeHovered = Pick.edgeId f.hovered
  /-- What is selected decides which node is emphasised. -/
  emphasised : f.selected ≠ none → f.emphasised = Pick.nodeId f.selected
  /-- With nothing selected, none is once the pointer is on nothing. -/
  idle : f.selected = none → f.hovered = none → f.emphasised = none
  panel : f.current = none ∨ f.current = f.selected

theorem marks_start : start.Marks := ⟨rfl, rfl, rfl, rfl, fun _ => rfl, fun _ _ => rfl, Or.inl rfl⟩

/-- Selecting, in one piece: the panel shows what is selected if the graph has it. -/
theorem select_eq (s : GraphState) (f : Focus) (p : Option Pick) : f.select s p = { f with
    selected := p
    nodeSelected := Pick.nodeId p
    edgeSelected := Pick.edgeId p
    emphasised := Pick.nodeId p
    colDirty := true
    current := Pick.find s p } := by
  cases p with
  | none => rfl
  | some p =>
    by_cases h : p.known s = true
    · simp [select, emphasiseNode, showPanel, refresh, Pick.find, h]
    · simp [select, emphasiseNode, showPanel, refresh, Pick.find, h]

/-- A refresh looks up what the panel shows. -/
theorem refresh_eq (s : GraphState) (f : Focus) :
    f.refresh s = { f with current := Pick.find s f.current } := by
  obtain ⟨_, _, _, _, _, _, _, _, current, _⟩ := f
  cases current with
  | none => rfl
  | some p =>
    by_cases h : p.known s = true
    · simp [refresh, Pick.find, h]
    · simp [refresh, showPanel, Pick.find, h]

theorem find_eq (s : GraphState) (p : Option Pick) : Pick.find s p = none ∨ Pick.find s p = p := by
  cases p with
  | none => exact Or.inl rfl
  | some p =>
    by_cases h : p.known s = true
    · exact Or.inr (if_pos h)
    · exact Or.inl (if_neg h)

/-- The panel finds all of what it is to show. -/
theorem find_eq_iff {s : GraphState} {p : Option Pick} :
    Pick.find s p = p ↔ ∀ x, p = some x → x.known s = true := by
  cases p with
  | none => simp [Pick.find]
  | some p => simp [Pick.find]

theorem Marks.select {f : Focus} (h : f.Marks) (s : GraphState) (p : Option Pick) :
    (f.select s p).Marks := by
  rw [select_eq]
  refine ⟨rfl, rfl, h.nodeHovered, h.edgeHovered, fun _ => rfl, ?_, find_eq s p⟩
  rintro rfl -
  rfl

theorem Marks.refresh {f : Focus} (h : f.Marks) (s : GraphState) : (f.refresh s).Marks := by
  rw [refresh_eq]
  refine ⟨h.nodeSelected, h.edgeSelected, h.nodeHovered, h.edgeHovered, h.emphasised, h.idle, ?_⟩
  rcases find_eq s f.current with hnone | hsame
  · exact Or.inl hnone
  · exact h.panel.imp hsame.trans hsame.trans

/-- The node whose arcs are emphasised once the pointer is on `p`: with something selected the
pointer makes no difference, and on an arc it leaves the node that it came from. -/
def trail (f : Focus) (p : Option Pick) : Option String :=
  match f.selected, p with
  | none, some (.node id) => some id
  | none, none => none
  | _, _ => f.emphasised

/-- Whether the pointer has the arcs written again. -/
def stirs (f : Focus) (p : Option Pick) : Bool := f.selected.isNone && (Pick.edgeId p).isNone

/-- What a hover does, when the pointer is on something else than before. -/
theorem hover_eq (s : GraphState) (f : Focus) {p : Option Pick} (hp : p ≠ f.hovered) :
    f.hover s p = { f with
      hovered := p
      nodeHovered := Pick.nodeId p
      edgeHovered := Pick.edgeId p
      emphasised := f.trail p
      colDirty := f.stirs p || f.colDirty
      help := helpFor s f.help p } := by
  unfold hover
  rw [if_neg hp]
  obtain ⟨selected, _, _, _, _, _, _, _, _, _⟩ := f
  cases selected with
  | none => rcases p with - | ⟨id⟩ | ⟨id⟩ <;> rfl
  | some q => rcases p with - | ⟨id⟩ | ⟨id⟩ <;> rfl

theorem trail_of_selected {f : Focus} (h : f.selected ≠ none) (p : Option Pick) :
    f.trail p = f.emphasised := by
  unfold trail
  split
  · next hnone => exact absurd hnone h
  · next hnone => exact absurd hnone h
  · rfl

/-- A hover marks what it is on. -/
theorem Marks.hover {f : Focus} (h : f.Marks) (s : GraphState) (p : Option Pick) :
    (f.hover s p).Marks := by
  by_cases hp : p = f.hovered
  · rw [Focus.hover, if_pos hp]
    exact h
  · rw [hover_eq s f hp]
    -- the marks of the selection stay; the emphasis follows the pointer only when nothing is
    -- selected
    refine ⟨h.nodeSelected, h.edgeSelected, rfl, rfl, fun hsel => ?_, ?_, h.panel⟩
    · replace hsel : f.selected ≠ none := hsel
      show f.trail p = Pick.nodeId f.selected
      exact (trail_of_selected hsel p).trans (h.emphasised hsel)
    · rintro hsel rfl
      replace hsel : f.selected = none := hsel
      show f.trail none = none
      simp only [trail, hsel]

/-- **Every act keeps the marks of all parts alike.** -/
theorem Marks.step {f f' : Focus} (h : f.Marks) {i : GraphState × Act}
    (hstep : f.step i = some f') : f'.Marks := by
  obtain ⟨s, act⟩ := i
  cases act with
  | click p => cases hstep; exact h.select s _
  | navigate p => cases hstep; exact h.select s _
  | close => cases hstep; exact h.select s none
  | hover p => cases hstep; exact h.hover s p
  | refresh => cases hstep; exact h.refresh s
  | draw =>
    cases hstep
    exact ⟨h.nodeSelected, h.edgeSelected, h.nodeHovered, h.edgeHovered, h.emphasised, h.idle,
      h.panel⟩

/-- **No emphasis goes without a flag**: arcs that were to be written again still are. -/
theorem Marks.flagged {f f' : Focus} (h : f.Marks) {s : GraphState} {act : Act}
    (hstep : f.step (s, act) = some f') (hdraw : act ≠ .draw)
    (hwet : (f.colDirty || f.anyEmphasis) = true) : (f'.colDirty || f'.anyEmphasis) = true := by
  have hselect : ∀ p, ((f.select s p).colDirty || (f.select s p).anyEmphasis) = true := by
    intro p
    rw [select_eq]
    rfl
  cases act with
  | click p => cases hstep; exact hselect _
  | navigate p => cases hstep; exact hselect _
  | close => cases hstep; exact hselect none
  | refresh =>
    cases hstep
    rw [refresh_eq]
    exact hwet
  | draw => exact absurd rfl hdraw
  | hover p =>
    cases hstep
    by_cases hp : p = f.hovered
    · rw [Focus.hover, if_pos hp]
      exact hwet
    · rw [hover_eq s f hp]
      show ((f.stirs p || f.colDirty) || (f.edgeSelected.isSome || (Pick.edgeId p).isSome ||
        (f.trail p).isSome)) = true
      by_cases hsel : f.selected = none
      · -- the pointer is on an arc, or has the arcs written again
        cases hedge : Pick.edgeId p with
        | none => simp [stirs, hsel, hedge]
        | some id => simp
      · -- what is selected stays emphasised
        have hmark : f.edgeSelected.isSome = true ∨ f.emphasised.isSome = true := by
          rw [h.edgeSelected, h.emphasised hsel]
          rcases hq : f.selected with - | ⟨id⟩ | ⟨id⟩
          · exact absurd hq hsel
          · exact Or.inr rfl
          · exact Or.inl rfl
        rw [trail_of_selected hsel]
        rcases hmark with hmark | hmark <;> simp [hmark]

/-! ## The panel -/

/-- What a panel looks for is in the graph. -/
def Finds (f : Focus) : GraphState × Act → Prop
  | (s, .click p) => p ≠ f.selected → ∀ x, p = some x → x.known s = true
  | (s, .navigate p) => p.known s = true
  | (s, .refresh) => ∀ x, f.current = some x → x.known s = true
  | _ => True

/-- **After an act the panel shows what is selected just when it is found.** -/
theorem panel_step_iff {f f' : Focus} (h : f.current = f.selected) {i : GraphState × Act}
    (hstep : f.step i = some f') : f'.current = f'.selected ↔ f.Finds i := by
  obtain ⟨s, act⟩ := i
  cases act with
  | click p =>
    cases hstep
    rw [click, select_eq]
    refine find_eq_iff.trans ?_
    unfold Finds
    split
    · next hp => exact iff_of_true nofun fun hne => absurd hp hne
    · next hp => exact ⟨fun hall _ => hall, fun hall => hall hp⟩
  -- a link selects what it names, known or not
  | navigate p =>
    cases hstep
    rw [select_eq]
    exact find_eq_iff.trans ⟨fun hall => hall p rfl, fun hk x hx => Option.some.inj hx ▸ hk⟩
  | close =>
    cases hstep
    exact iff_of_true rfl trivial
  | hover p =>
    cases hstep
    refine iff_of_true ?_ trivial
    by_cases hp : p = f.hovered
    · rw [Focus.hover, if_pos hp]
      exact h
    · rw [hover_eq s f hp]
      exact h
  -- a refresh looks up what the panel shows, which is what is selected
  | refresh =>
    cases hstep
    rw [refresh_eq]
    show Pick.find s f.current = f.selected ↔ _
    rw [← h]
    exact find_eq_iff
  | draw =>
    cases hstep
    exact iff_of_true h trivial

/-- **The panel shows what is selected exactly as long as the graph has it** when the panel looks:
a selection whose node or edge has gone outlives its panel, and keeps its emphasis. -/
theorem always_panel_iff (inputs : List (GraphState × Act)) :
    Run.Always step (fun f => f.current = f.selected) start inputs ↔
      Run.EveryStep step Finds start inputs :=
  Run.always_iff_everyStep (J := fun _ => True) (fun _ _ _ _ _ => trivial)
    (fun _ _ _ _ h hstep => panel_step_iff h hstep) trivial rfl

end Focus

end Flowscape
