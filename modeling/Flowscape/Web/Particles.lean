import Flowscape.Lib.Run
import Flowscape.Lib.Sweep
import Flowscape.Web.Edges

/-!
# Flowscape: the sparks on the arcs (`web/src/particles.ts`, the frames of `web/src/main.ts`)

A spark remembers the slot of the edge that it was spawned for, and rides its control points. A
slot that is given back is not valid any more, and a spark that finds its slot so is over. When a
slot is handed out again within the frame, `Edges.update` makes it valid before the sparks are
looked at: the sparks of the edge that had it go on along the arc of the one that has it now.

* `edge` is the edge a spark was spawned for. The source does not keep it.
* Sizes and colours are left out.
* The calls of a frame come before its end, in any order. `applyChanges` and `refreshRates` make
  them in one.
-/

namespace Flowscape

/-! ## Source definitions -/

/-- A particle with the edge that it is for. -/
structure Particle (K : Type*) where
  t : K
  speed : K
  cp : Nat
  verdict : VerdictCode
  pos : Vec3 K
  edge : String

/-- The arcs, and the sparks that are alive. -/
structure SparkScene (K : Type*) where
  edges : Edges K
  particles : List (Particle K)

/-- What the end of a frame reads. -/
structure SparkScene.Frame (K : Type*) where
  edges : OrdMap String EdgeState
  positionOf : String → Option (Vec3 K)
  moving : Bool
  /-- The sparks that `synthesise` makes, with a random number each. -/
  synth : List (String × VerdictCode × K)
  dt : K

namespace Particles

/-- `CAPACITY` -/
def capacity : Nat := 16384

section

variable {K : Type*} [Field K] [LinearOrder K]

/-- `spawn`, on the slot of an edge. -/
def spawn (edges : Edges K) (particles : List (Particle K)) (edge : String) (cpSlot : Nat)
    (verdict : VerdictCode) (random : K) : List (Particle K) :=
  if particles.length ≥ capacity ∨ edges.cpValid cpSlot = false then particles
  else
    let base : K := if verdict = verdictAudit then 0.55 else 0.8
    particles ++ [{
      t := 0
      speed := base * (0.85 + random * 0.3)
      cp := cpSlot
      verdict := verdict
      pos := ⟨0, 0, 0⟩
      edge := edge }]

/-- How far a spark has come after `dt`, unless it is over: a dropped one stops short and bursts. -/
def travel (dt : K) (p : Particle K) : Option K :=
  let t := p.t + p.speed * dt
  -- the burst takes 0.14 of the way
  if p.verdict = verdictDropped then
    if 0.72 < t then if 1 ≤ (t - 0.72) / 0.14 then none else some (min t (0.72 + 0.14))
    else some t
  else if 1 ≤ t then none
  else some t

/-- The point of an arc at `t`. -/
def pointAt (a : Arc K) (t : K) : Vec3 K :=
  let u := 1 - t
  let w0 := u * u
  let w1 := 2.0 * u * t
  let w2 := t * t
  { x := w0 * a.p0.x + w1 * a.c.x + w2 * a.p1.x
    y := w0 * a.p0.y + w1 * a.c.y + w2 * a.p1.y
    z := w0 * a.p0.z + w1 * a.c.z + w2 * a.p1.z }

/-- What `update` makes of a spark, if it goes on. -/
def advance (edges : Edges K) (dt : K) (p : Particle K) : Option (Particle K) :=
  if edges.cpValid p.cp = false then none
  else (travel dt p).map fun t => { p with t, pos := pointAt (edges.controlPoints p.cp) t }

/-- `update` -/
def update (edges : Edges K) (dt : K) (particles : List (Particle K)) : List (Particle K) :=
  Sweep.pass (advance edges dt) particles

end

end Particles

namespace SparkScene

section

variable {K : Type*} [Field K] [LinearOrder K]

/-- No arcs and no particles. -/
def new : SparkScene K := ⟨Edges.new Edges.capacity, []⟩

/-- A spark for an edge that is drawn. -/
def spawn (s : SparkScene K) (id : String) (verdict : VerdictCode) (random : K) : SparkScene K :=
  match s.edges.slots.get? id with
  | none => s
  | some slot =>
    if slot.hidden then s
    else { s with particles := Particles.spawn s.edges s.particles id slot.cp verdict random }

/-- The end of a frame up to `Particles.update`. -/
def beforeMove (M : Math K) (s : SparkScene K) (f : Frame K) : SparkScene K :=
  f.synth.foldl (fun s x => s.spawn x.1 x.2.1 x.2.2)
    -- a slot that was handed out in this frame is made valid here
    { s with edges := s.edges.update M f.edges f.positionOf f.moving }

/-- The end of a frame: `Edges.update`, `synthesise` and `Particles.update`. -/
def endFrame (M : Math K) (s : SparkScene K) (f : Frame K) : SparkScene K :=
  let s := s.beforeMove M f
  { s with particles := Particles.update s.edges f.dt s.particles }

/-- What happens to arcs and particles. -/
inductive Step (K : Type*) where
  | call (c : Edges.Call K)
  | spawn (id : String) (verdict : VerdictCode) (random : K)
  | endFrame (f : Frame K)

/-- One step. An update of the arcs and one of the particles end a frame. -/
def step (M : Math K) (s : SparkScene K) : Step K → Option (SparkScene K)
  | .call c => some { s with edges := s.edges.call Edges.capacity c }
  | .spawn id verdict random => some (s.spawn id verdict random)
  | .endFrame f => some (s.endFrame M f)

/-! ## Runs -/

/-- Every spark that is moved rides a slot of its own edge. -/
def OnOwnArc (M : Math K) (s : SparkScene K) : Step K → Prop
  | .call _ => True
  | .spawn _ _ _ => True
  | .endFrame f => ∀ p ∈ (s.beforeMove M f).particles,
      Particles.advance (s.beforeMove M f).edges f.dt p ≠ none →
        (s.beforeMove M f).edges.bySlot p.cp = some p.edge

/-- No slot that a spark with way left remembers is about to be made valid for another edge. -/
def NotTakenOver (s : SparkScene K) : Step K → Prop
  | .call _ => True
  | .spawn _ _ _ => True
  | .endFrame f => ∀ p ∈ s.particles, Particles.travel f.dt p ≠ none →
      s.edges.cpValid p.cp = false → ∀ id, s.edges.bySlot p.cp = some id →
        Edges.Placed f.edges f.positionOf id → id = p.edge

/-- The slot of a spark belongs to its edge, or the spark is over. -/
structure Inv (s : SparkScene K) : Prop where
  edges : s.edges.Consistent Edges.capacity
  own : ∀ p ∈ s.particles, s.edges.cpValid p.cp = true → s.edges.bySlot p.cp = some p.edge

end

section

variable {K : Type*} [Field K]

theorem edges_spawn (s : SparkScene K) (id : String) (verdict : VerdictCode) (random : K) :
    (s.spawn id verdict random).edges = s.edges := by
  unfold spawn
  split
  · rfl
  · split <;> rfl

/-- A spark is spawned on the slot of its edge. -/
theorem mem_spawn {s : SparkScene K} (hs : s.edges.Sound Edges.capacity) {id : String}
    {verdict : VerdictCode} {random : K} {p : Particle K}
    (h : p ∈ (s.spawn id verdict random).particles) :
    p ∈ s.particles ∨ s.edges.bySlot p.cp = some p.edge := by
  unfold spawn at h
  split at h
  · exact Or.inl h
  · next slot hget =>
    split at h
    · exact Or.inl h
    · replace h : p ∈ Particles.spawn s.edges s.particles id slot.cp verdict random := h
      unfold Particles.spawn at h
      split at h
      · exact Or.inl h
      · rcases List.mem_append.1 h with h | h
        · exact Or.inl h
        -- the new one is on the arc of its edge
        · obtain rfl := List.mem_singleton.1 h
          exact Or.inr (hs.bySlot_cp hget)

/-- An arc that is drawn gets a spark, unless there are too many. -/
theorem mem_spawn_self {s : SparkScene K} {id : String} {slot : EdgeSlot K}
    (h : s.edges.slots.get? id = some slot) (hshown : slot.hidden = false)
    (hvalid : s.edges.cpValid slot.cp = true) (hroom : s.particles.length < Particles.capacity)
    (verdict : VerdictCode) (random : K) :
    { t := 0
      speed := (if verdict = verdictAudit then 0.55 else 0.8) * (0.85 + random * 0.3)
      cp := slot.cp
      verdict := verdict
      pos := ⟨0, 0, 0⟩
      edge := id : Particle K } ∈ (s.spawn id verdict random).particles := by
  -- there is room and a line, so the particle comes
  have hspawn : ¬ (s.particles.length ≥ Particles.capacity ∨ s.edges.cpValid slot.cp = false) := by
    rw [hvalid]
    simp only [ge_iff_le, not_or, Nat.not_le, Bool.true_eq_false, not_false_eq_true, and_true]
    exact hroom
  simp only [spawn, h, hshown, Bool.false_eq_true, if_false, Particles.spawn, if_neg hspawn]
  exact List.mem_append_right _ (List.mem_singleton_self _)

/-- A spark takes no particle away. -/
theorem mem_spawn_of_mem {s : SparkScene K} {p : Particle K} (h : p ∈ s.particles) (id : String)
    (verdict : VerdictCode) (random : K) : p ∈ (s.spawn id verdict random).particles := by
  unfold spawn
  split
  · exact h
  · split
    · exact h
    · show p ∈ Particles.spawn _ _ _ _ _ _
      unfold Particles.spawn
      split
      · exact h
      · exact List.mem_append_left _ h

/-- A spark comes on the arc of its edge. -/
theorem inv_spawn {s : SparkScene K} (hs : s.Inv) (id : String) (verdict : VerdictCode)
    (random : K) : (s.spawn id verdict random).Inv := by
  have hedges := edges_spawn s id verdict random
  refine ⟨hedges ▸ hs.edges, fun p hp hv => ?_⟩
  rw [hedges] at hv ⊢
  rcases mem_spawn hs.edges.toSound hp with hp | hby
  · exact hs.own p hp hv
  · exact hby

theorem inv_new : (new : SparkScene K).Inv :=
  ⟨Edges.consistent_new, fun _ hp => absurd hp List.not_mem_nil⟩

/-! ### The end of a frame -/

variable (M : Math K) (s : SparkScene K) (f : Frame K)

theorem edges_beforeMove :
    (s.beforeMove M f).edges = s.edges.update M f.edges f.positionOf f.moving := by
  unfold beforeMove
  refine (Loop.foldl_const (g := SparkScene.edges) ?_).trans rfl
  exact fun s' x => edges_spawn s' x.1 x.2.1 x.2.2

theorem mem_beforeMove_of_mem {p : Particle K} (h : p ∈ s.particles) :
    p ∈ (s.beforeMove M f).particles :=
  Loop.foldl_keeps (J := fun s' : SparkScene K => p ∈ s'.particles)
    (fun _ x h => mem_spawn_of_mem h x.1 x.2.1 x.2.2) h

/-- What is moved was there before, or has been spawned on its own slot. -/
theorem mem_beforeMove {s : SparkScene K} (hs : s.edges.Sound Edges.capacity) {p : Particle K}
    (h : p ∈ (s.beforeMove M f).particles) :
    p ∈ s.particles ∨ s.edges.bySlot p.cp = some p.edge := by
  obtain ⟨hslots, hby, hfree⟩ := Edges.update_frame M f.edges f.positionOf f.moving s.edges
  have hfold : (s.beforeMove M f).edges = s.edges.update M f.edges f.positionOf f.moving ∧
      ∀ p ∈ (s.beforeMove M f).particles,
        p ∈ s.particles ∨ s.edges.bySlot p.cp = some p.edge := by
    refine Loop.foldl_keeps (J := fun s' : SparkScene K =>
      s'.edges = s.edges.update M f.edges f.positionOf f.moving ∧
        ∀ p ∈ s'.particles, p ∈ s.particles ∨ s.edges.bySlot p.cp = some p.edge)
      (fun s' x h => ?_) ⟨rfl, fun p hp => Or.inl hp⟩
    -- the slots in use are the ones before the update
    refine ⟨(edges_spawn s' _ _ _).trans h.1, fun p hp => ?_⟩
    have hsound : s'.edges.Sound Edges.capacity := h.1 ▸ hs.congr hslots hby hfree
    rcases mem_spawn hsound hp with hp | hown
    · exact h.2 p hp
    · rw [h.1, hby] at hown
      exact Or.inr hown
  exact hfold.2 p h

variable [LinearOrder K]

theorem advance_ne_none {edges : Edges K} {dt : K} {p : Particle K} :
    Particles.advance edges dt p ≠ none ↔
      edges.cpValid p.cp = true ∧ Particles.travel dt p ≠ none := by
  unfold Particles.advance
  cases hv : edges.cpValid p.cp <;> simp

theorem advance_eq_some {edges : Edges K} {dt : K} {p p' : Particle K}
    (h : Particles.advance edges dt p = some p') : p'.cp = p.cp ∧ p'.edge = p.edge := by
  unfold Particles.advance at h
  split at h
  · cases h
  · obtain ⟨t, -, rfl⟩ := Option.map_eq_some_iff.1 h
    exact ⟨rfl, rfl⟩

/-- **A frame moves sparks on their own arcs** exactly when none of their slots is taken over. -/
theorem onOwnArc_endFrame_iff {s : SparkScene K} (hs : s.Inv) :
    OnOwnArc M s (.endFrame f) ↔ NotTakenOver s (.endFrame f) := by
  have hedges := edges_beforeMove M s f
  obtain ⟨-, hby, -⟩ := Edges.update_frame M f.edges f.positionOf f.moving s.edges
  constructor
  · intro hown p hp htravel hv id hid hplaced
    -- the update makes the slot valid, so the spark is moved and has to be the holder's
    have hvalid : (s.beforeMove M f).edges.cpValid p.cp = true := by
      rw [hedges]
      exact (Edges.cpValid_update M f.edges f.positionOf f.moving hs.edges.toSound p.cp).2
        (Or.inr ⟨id, hid, hplaced⟩)
    have hmoved := hown p (mem_beforeMove_of_mem M s f hp) (advance_ne_none.2 ⟨hvalid, htravel⟩)
    rw [hedges, hby, hid] at hmoved
    exact Option.some.inj hmoved
  · intro hnot p hp hmoved
    obtain ⟨hvalid, htravel⟩ := advance_ne_none.1 hmoved
    rw [hedges] at hvalid
    rw [hedges, hby]
    rcases mem_beforeMove M f hs.edges.toSound hp with hp | hown
    · -- a slot that was valid has its sparks from before
      cases hv : s.edges.cpValid p.cp with
      | true => exact hs.own p hp hv
      | false =>
        rcases (Edges.cpValid_update M f.edges f.positionOf f.moving hs.edges.toSound p.cp).1
          hvalid with htrue | ⟨id, hid, hplaced⟩
        · rw [hv] at htrue
          cases htrue
        · rw [hid, hnot p hp htravel hv id hid hplaced]
    · exact hown

theorem edges_endFrame : (s.endFrame M f).edges
    = s.edges.update M f.edges f.positionOf f.moving := edges_beforeMove M s f

/-- What is left after the frame has been moved in it. -/
theorem inv_endFrame {s : SparkScene K} (hs : s.Inv) (hown : OnOwnArc M s (.endFrame f)) :
    (s.endFrame M f).Inv := by
  constructor
  case edges =>
    rw [edges_endFrame]
    exact hs.edges.update M f.edges f.positionOf f.moving
  case own =>
    intro p' hp' _
    obtain ⟨p, hp, hadvance⟩ := Sweep.mem_pass.1 hp'
    obtain ⟨hcp, hedge⟩ := advance_eq_some hadvance
    rw [hcp, hedge]
    exact hown p hp (by rw [hadvance]; exact Option.some_ne_none p')

theorem inv_call {s : SparkScene K} (hs : s.Inv) (c : Edges.Call K) :
    Inv { s with edges := s.edges.call Edges.capacity c } := by
  obtain ⟨hkeeps, hcons⟩ := Edges.keeps_call hs.edges c
  refine ⟨hcons, fun p hp hv => ?_⟩
  obtain ⟨hv, hby⟩ := hkeeps p.cp hv
  exact hby.trans (hs.own p hp hv)

/-- **A step keeps every particle on its arc, unless a place is taken over.** -/
theorem inv_step {s s' : SparkScene K} {i : Step K} (hs : s.Inv) (hnot : NotTakenOver s i)
    (hstep : step M s i = some s') : s'.Inv := by
  cases i with
  | call c =>
    cases hstep
    exact inv_call hs c
  | spawn id verdict random =>
    cases hstep
    exact inv_spawn hs id verdict random
  | endFrame f =>
    cases hstep
    exact inv_endFrame M f hs ((onOwnArc_endFrame_iff M f hs).2 hnot)

/-- **Sparks stay on their conversation** in a run exactly when no frame of it makes a slot valid
for another edge than the one of a spark that still rides it. -/
theorem onOwnArc_iff (steps : List (Step K)) :
    Run.EveryStep (step M) (OnOwnArc M) new steps ↔
      Run.EveryStep (step M) NotTakenOver new steps := by
  refine Run.everyStep_iff_everyStep (J := Inv) (fun s i s' hs hnot hstep =>
    inv_step M hs hnot hstep) (fun s i s' hs _ => ?_) inv_new
  cases i with
  | call c => exact Iff.rfl
  | spawn id verdict random => exact Iff.rfl
  | endFrame f => exact onOwnArc_endFrame_iff M f hs

/-- A spark rides on along the arc of a new edge that gets the slot of its own within a frame. -/
theorem not_onOwnArc_of_remove_add {s : SparkScene K} (hs : s.Inv) {p : Particle K}
    (hp : p ∈ s.particles) {slot : EdgeSlot K} (h : s.edges.slots.get? p.edge = some slot)
    (hcp : slot.cp = p.cp) (hbatch : slot.batch = 0) {id : String} (hnew : id ∉ s.edges.slots)
    (same : Bool) (hplaced : Edges.Placed f.edges f.positionOf id)
    (htravel : Particles.travel f.dt p ≠ none) :
    ¬ OnOwnArc M { s with edges := (s.edges.remove p.edge).add Edges.capacity id same }
      (.endFrame f) := by
  intro hown
  have hinv : Inv { s with edges := (s.edges.remove p.edge).add Edges.capacity id same } :=
    inv_call (inv_call hs (.remove p.edge)) (.add id same)
  obtain ⟨hby, hvalid⟩ := Edges.add_remove hs.edges.toSound h hbatch hnew same
  rw [hcp] at hby hvalid
  -- the new edge has the slot, and the update is about to make it valid
  have hsame : id = p.edge :=
    (onOwnArc_endFrame_iff M f hinv).1 hown p hp htravel hvalid id hby hplaced
  exact hnew (hsame ▸ OrdMap.mem_of_get? h)

end

/-- An edge from `x` to `y`. -/
def edgeXY (id : String) : EdgeState where
  id := id
  src := "x"
  dst := "y"
  proto := "TCP"
  port := 80
  totals := fun _ => 0
  last := 0
  latencyMs := 0
  l7 := none
  drops := ∅
  ring := []
  epochs := []

/-- A frame with this edge only, whose nodes stand apart. -/
noncomputable def frameXY (id : String) : Frame ℝ where
  edges := OrdMap.set ∅ id (edgeXY id)
  positionOf := fun n => some ⟨if n = "x" then 0 else 1, 0, 0⟩
  moving := false
  synth := []
  dt := 0.016

theorem placed_frameXY (id : String) : Edges.Placed (frameXY id).edges (frameXY id).positionOf id :=
  ⟨edgeXY id, OrdMap.get?_set_self _ _ _, Option.some_ne_none _, Option.some_ne_none _⟩

/-- An edge is drawn for a frame, and gets a spark. -/
noncomputable def ridden (edges : Edges ℝ) (id : String) : SparkScene ℝ :=
  (SparkScene.endFrame Math.real ⟨edges, []⟩ (frameXY id)).spawn id verdictDropped 0

/-- The spark. -/
noncomputable def redSpark (id : String) (cp : Nat) : Particle ℝ where
  t := 0
  speed := 0.8 * (0.85 + 0 * 0.3)
  cp := cp
  verdict := verdictDropped
  pos := ⟨0, 0, 0⟩
  edge := id

theorem travel_redSpark (id : String) (cp : Nat) :
    Particles.travel 0.016 (redSpark id cp) ≠ none := by
  have hshort : ¬ ((0.72 : ℝ) < 0 + 0.8 * (0.85 + 0 * 0.3) * 0.016) := by
    norm_num
  have hdropped : (redSpark id cp).verdict = verdictDropped := rfl
  rw [Particles.travel, if_pos hdropped, redSpark, if_neg hshort]
  exact Option.some_ne_none _

theorem slots_ridden (edges : Edges ℝ) (id : String) :
    (ridden edges id).edges.slots = edges.slots := by
  rw [ridden, edges_spawn, edges_endFrame]
  exact (Edges.update_frame _ _ _ _ _).1

section

variable {edges : Edges ℝ} (hs : edges.Consistent Edges.capacity)
include hs

theorem inv_ridden (id : String) : (ridden edges id).Inv := by
  have hinv : Inv ⟨edges, ([] : List (Particle ℝ))⟩ :=
    ⟨hs, fun p hp => absurd hp List.not_mem_nil⟩
  refine inv_spawn (inv_endFrame Math.real (frameXY id) hinv ?_) id verdictDropped 0
  intro p hp
  exact absurd hp List.not_mem_nil

theorem mem_ridden {id : String} {slot : EdgeSlot ℝ} (h : edges.slots.get? id = some slot)
    (hshown : slot.hidden = false) : redSpark id slot.cp ∈ (ridden edges id).particles := by
  have hnotAudit : ¬ verdictDropped = verdictAudit := by decide
  have hget : (SparkScene.endFrame Math.real ⟨edges, []⟩ (frameXY id)).edges.slots.get? id
      = some slot := by
    rw [edges_endFrame, (Edges.update_frame _ _ _ _ _).1]
    exact h
  -- the frame draws the arc, so the spark has a line to ride on
  have hvalid : (SparkScene.endFrame Math.real ⟨edges, []⟩ (frameXY id)).edges.cpValid slot.cp
      = true := by
    rw [edges_endFrame]
    exact (Edges.cpValid_update _ _ _ _ hs.toSound _).2
      (Or.inr ⟨id, hs.bySlot_cp h, placed_frameXY id⟩)
  have hroom : (SparkScene.endFrame Math.real ⟨edges, []⟩ (frameXY id)).particles.length
      < Particles.capacity := by
    show 0 < Particles.capacity
    decide
  have hspark := mem_spawn_self hget hshown hvalid hroom verdictDropped 0
  rw [if_neg hnotAudit] at hspark
  exact hspark

end

/-- The edge goes and another one comes before the next frame. -/
theorem not_onOwnArc : ¬ ∀ steps : List (Step ℝ),
    Run.EveryStep (step Math.real) (OnOwnArc Math.real) new steps := by
  intro h
  obtain ⟨edges, hedges⟩ : ∃ edges : Edges ℝ,
      edges = (Edges.new Edges.capacity).add Edges.capacity "a" false := ⟨_, rfl⟩
  obtain ⟨rest, hrange⟩ := Edges.exists_range_capacity
  have hfirst : (Edges.new Edges.capacity : Edges ℝ).free 0 = 0 :: rest :=
    (Edges.free_new 0).trans hrange
  have hadd : (Edges.new Edges.capacity : Edges ℝ).add Edges.capacity "a" false = _ :=
    Edges.add_of_cons (OrdMap.not_mem_empty "a") hfirst false
  have hs : edges.Consistent Edges.capacity :=
    hedges ▸ (Edges.keeps_call Edges.consistent_new (.add "a" false)).2
  have hget : edges.slots.get? "a" = some (Edges.freshSlot Edges.capacity "a" 0 0 false) := by
    rw [hedges, hadd, OrdMap.get?_set_self]
  have hnew : "b" ∉ edges.slots := by
    rw [hedges, hadd, OrdMap.mem_set]
    simp
  have hrun : Run.run (step Math.real) new [.call (.add "a" false), .endFrame (frameXY "a"),
      .spawn "a" verdictDropped 0, .call (.remove "a"), .call (.add "b" false)]
      = some { ridden edges "a" with
          edges := ((ridden edges "a").edges.remove "a").add Edges.capacity "b" false } := by
    have hadded : step Math.real new (.call (.add "a" false)) = some ⟨edges, []⟩ := by
      rw [hedges]
      rfl
    exact Run.run_cons_eq_some.2 ⟨_, hadded, rfl⟩
  -- the next frame moves it along the arc of the edge that has taken the place over
  have hown := (h _).last hrun (i := .endFrame (frameXY "b")) rfl
  refine not_onOwnArc_of_remove_add Math.real (frameXY "b") (inv_ridden hs "a")
    (mem_ridden hs hget rfl) ?_ rfl rfl ?_ false (placed_frameXY "b") (travel_redSpark _ _) hown
  · rw [slots_ridden]
    exact hget
  · rw [slots_ridden]
    exact hnew

end SparkScene

end Flowscape
