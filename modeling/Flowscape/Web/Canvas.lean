import Flowscape.Web.Focus
import Flowscape.Web.Motion

/-!
# Flowscape: what the arcs put on the screen (`web/src/edges.ts`)

An arc is a row of segments in the mesh of its width. The arrays of a mesh are written in place:
the positions when the arc gets its control points, the colours when something about an arc of the
mesh has changed, which `colDirty` says, or while a node or an arc is emphasised. What is dirty by
the end of the frame goes to the graphics card.

* The arrays of the three meshes are one: the place of an arc is its `cp`.
* `emphasiseNode` belongs to `Focus`, and so does the flag that it sets for all three meshes.
* The width of a line and what the shader makes of it are left out.
-/

namespace Flowscape

/-! ## Source definitions -/

/-- Both ends of every segment of an arc. -/
abbrev Strip (α : Type*) := Fin SEGMENTS → α × α

/-- `Edges` with the arrays of its meshes. -/
structure Canvas (K : Type*) extends Edges K where
  pos : Nat → Strip (Vec3 K)
  col : Nat → Strip (Color K)
  posDirty : Fin 3 → Bool
  colDirty : Fin 3 → Bool
  /-- What the graphics card has of `pos` and of `col`. -/
  drawnPos : Nat → Strip (Vec3 K)
  drawnCol : Nat → Strip (Color K)

namespace Canvas

section

variable {K : Type*} [Field K]

/-- No segments: all of them lie in the origin. -/
def noPos : Strip (Vec3 K) := fun _ => (⟨0, 0, 0⟩, ⟨0, 0, 0⟩)

/-- No colour: all of them are black. -/
def noCol : Strip (Color K) := fun _ => (⟨0, 0, 0⟩, ⟨0, 0, 0⟩)

/-- The constructor. -/
def new : Canvas K where
  toEdges := Edges.new Edges.capacity
  pos := fun _ => noPos
  col := fun _ => noCol
  posDirty := fun _ => false
  colDirty := fun _ => false
  drawnPos := fun _ => noPos
  drawnCol := fun _ => noCol

/-- `s / SEGMENTS` -/
def share (s : Nat) : K := (s : K) / (SEGMENTS : K)

/-- `bez` -/
def bez (p0 p1 p2 t : K) : K :=
  let u := 1 - t
  u * u * p0 + 2.0 * u * t * p1 + t * t * p2

/-- The point of an arc at `t`. -/
def curve (arc : Arc K) (t : K) : Vec3 K where
  x := bez arc.p0.x arc.c.x arc.p1.x t
  y := bez arc.p0.y arc.c.y arc.p1.y t
  z := bez arc.p0.z arc.c.z arc.p1.z t

/-- The segments of an arc. -/
def segments (arc : Arc K) : Strip (Vec3 K) := fun s =>
  (curve arc (share s), curve arc (share (s + 1)))

/-- The colour of an arc, when something is emphasised and when the arc is. -/
def tint (any emphasised : Bool) (slot : EdgeSlot K) : Color K :=
  let k : K := if slot.hidden then 0 else slot.alpha
  let k := if any then k * (if emphasised then 1.6 else 0.18) else k
  let mix (x : K) : K := (if emphasised then 1 * 0.4 + x * 0.6 else x) * k
  ⟨mix slot.color.r, mix slot.color.g, mix slot.color.b⟩

/-- Brighter towards the destination. -/
def fade (c : Color K) (t : K) : Color K :=
  let f := 0.45 + 0.55 * t
  ⟨c.r * f, c.g * f, c.b * f⟩

/-- The colours of the segments of an arc. -/
def colours (any emphasised : Bool) (slot : EdgeSlot K) : Strip (Color K) := fun s =>
  let c := tint any emphasised slot
  (fade c (share s), fade c (share (s + 1)))

/-- `emphasised` of `update` -/
def emphasises (f : Focus) (e : EdgeState) (id : String) : Bool :=
  f.edgeSelected = some id || f.edgeHovered = some id ||
    (f.emphasised = some e.src || f.emphasised = some e.dst)

/-- What `clear` does to the arrays. -/
def clear (s : Canvas K) (slot : EdgeSlot K) : Canvas K :=
  { s with
    pos := Function.update s.pos slot.cp noPos
    col := Function.update s.col slot.cp noCol
    posDirty := Function.update s.posDirty slot.batch true
    colDirty := Function.update s.colDirty slot.batch true }

/-- `colDirty = true` -/
def flag (s : Canvas K) (batch : Fin 3) : Canvas K :=
  { s with colDirty := Function.update s.colDirty batch true }

/-- The control points of a slot, and its segments. There are none when an end has no place. -/
def trace (M : Math K) (positionOf : String → Option (Vec3 K)) (layoutMoving : Bool)
    (e : EdgeState) (slot : EdgeSlot K) (s : Canvas K) : Option (Canvas K) :=
  if layoutMoving ∨ s.cpValid slot.cp = false then
    match positionOf e.src, positionOf e.dst with
    | some a, some b =>
      let arc : Arc K := ⟨a, Layout.control M a b slot.same, b⟩
      some { s with
        controlPoints := Function.update s.controlPoints slot.cp arc
        cpValid := Function.update s.cpValid slot.cp true
        pos := Function.update s.pos slot.cp (segments arc)
        posDirty := Function.update s.posDirty slot.batch true }
    | _, _ => none
  else some s

/-- `bt.colDirty || anyEmphasis` -/
def wet (f : Focus) (s : Canvas K) (batch : Fin 3) : Bool :=
  s.colDirty batch || f.colDirty || f.anyEmphasis

/-- The colours of a slot. -/
def paint (f : Focus) (e : EdgeState) (slot : EdgeSlot K) (s : Canvas K) : Canvas K :=
  if s.wet f slot.batch then
    { s with
      col := Function.update s.col slot.cp
        (colours f.anyEmphasis (emphasises f e slot.id) slot)
      colDirty := Function.update s.colDirty slot.batch true }
  else s

/-- The body of `update`. -/
def updateSlot (M : Math K) (f : Focus) (edges : OrdMap String EdgeState)
    (positionOf : String → Option (Vec3 K)) (layoutMoving : Bool) (s : Canvas K)
    (slot : EdgeSlot K) : Canvas K :=
  match edges.get? slot.id with
  | none => s
  | some e =>
    match s.trace M positionOf layoutMoving e slot with
    | none => s
    | some s => s.paint f e slot

end

/-- The flag of the mesh that a place is in. -/
def flagged (flags : Fin 3 → Bool) (cp : Nat) : Bool :=
  if h : cp / Edges.capacity < 3 then flags ⟨cp / Edges.capacity, h⟩ else false

/-- What is dirty goes to the graphics card. -/
def upload {K : Type*} (f : Focus) (s : Canvas K) : Canvas K :=
  { s with
    drawnPos := fun cp => if flagged s.posDirty cp then s.pos cp else s.drawnPos cp
    drawnCol := fun cp =>
      if flagged (fun b => s.colDirty b || f.colDirty) cp then s.col cp else s.drawnCol cp
    posDirty := fun _ => false
    colDirty := fun _ => false }

section

variable {K : Type*} [Field K]

/-- `update`: every slot, then what is uploaded. -/
def update (s : Canvas K) (M : Math K) (f : Focus) (edges : OrdMap String EdgeState)
    (positionOf : String → Option (Vec3 K)) (layoutMoving : Bool) : Canvas K :=
  (s.slots.values.foldl (updateSlot M f edges positionOf layoutMoving) s).upload f

variable [LinearOrder K]

/-- What a call does to the arrays. -/
def write (s : Canvas K) : Edges.Call K → Canvas K
  | .add _ _ => s
  | .remove id =>
    match s.slots.get? id with
    | none => s
    | some slot => s.clear slot
  | .setRate id rate =>
    match s.slots.get? id with
    | none => s
    | some slot => if Edges.want rate = slot.batch then s else s.clear slot
  | .setSame _ _ => s
  | .setColor id _ _ =>
    match s.slots.get? id with
    | none => s
    | some slot => s.flag slot.batch
  | .setHidden id h =>
    match s.slots.get? id with
    | none => s
    | some slot => if slot.hidden = h then s else s.flag slot.batch

/-- A call writes the canvas and does what it does to the slots. -/
def call (s : Canvas K) (c : Edges.Call K) : Canvas K :=
  { s.write c with toEdges := s.toEdges.call Edges.capacity c }

end

/-! ## The arrays between two frames -/

section

/-- The flag of a slot is the one of its mesh. -/
theorem flagged_cp {K : Type*} {s : Edges K} (hs : s.Sound Edges.capacity) {id : String}
    {slot : EdgeSlot K} (h : s.slots.get? id = some slot) (flags : Fin 3 → Bool) :
    flagged flags slot.cp = flags slot.batch := by
  have hbatch : slot.cp / Edges.capacity = slot.batch.val := by
    rw [(hs.slot id slot h).2, Edges.cpOf, Nat.mul_comm, Nat.mul_add_div (by decide),
      Nat.div_eq_of_lt (hs.index_lt h), Nat.add_zero]
  unfold flagged
  rw [dif_pos (hbatch ▸ slot.batch.isLt)]
  exact congrArg flags (Fin.ext hbatch)

/-- What no flag stands for, fewer flags do not stand for. -/
theorem flagged_mono {flags flags' : Fin 3 → Bool} (h : ∀ b, flags b = true → flags' b = true)
    {cp : Nat} (hclear : flagged flags' cp = false) : flagged flags cp = false := by
  unfold flagged at *
  split at hclear
  · next hlt =>
    rw [dif_pos hlt]
    cases hflag : flags ⟨cp / Edges.capacity, hlt⟩ with
    | false => rfl
    | true => rw [h _ hflag] at hclear; cases hclear
  · next hlt => rw [dif_neg hlt]

theorem bySlot_drop_eq_none {K : Type*} {s : Edges K} {id : String} {slot : EdgeSlot K}
    {cp : Nat} (hcp : cp ≠ slot.cp) (h : (s.drop id slot).bySlot cp = none) :
    s.bySlot cp = none := by
  rwa [Edges.bySlot_drop, if_neg hcp] at h

theorem bySlot_setSame {K : Type*} (s : Edges K) (same : String → String → Bool)
    (edges : OrdMap String EdgeState) : (s.setSame same edges).bySlot = s.bySlot := by
  refine Loop.foldl_const fun s slot => ?_
  unfold Edges.setSameSlot
  split <;> rfl

theorem wet_of_colDirty {K : Type*} {s : Canvas K} {b : Fin 3} (h : s.colDirty b = true)
    (f : Focus) : s.wet f b = true := by
  unfold wet
  rw [h, Bool.true_or, Bool.true_or]

theorem update_flag (flags : Fin 3 → Bool) (batch b : Fin 3) (h : flags b = true) :
    Function.update flags batch true b = true := by
  rw [Function.update_apply, h]
  exact ite_self true

end

section

variable {K : Type*} [Field K]

/-- The arrays go with the slots: a place that no arc has is blank, one with valid control points
has the segments of its arc, and what the graphics card does not have is dirty. -/
structure Filled (s : Canvas K) : Prop where
  blank : ∀ cp, s.bySlot cp = none → s.pos cp = noPos ∧ s.col cp = noCol
  arcs : ∀ cp, s.cpValid cp = true → s.pos cp = segments (s.controlPoints cp)
  card : ∀ cp, (flagged s.posDirty cp = false → s.drawnPos cp = s.pos cp) ∧
    (flagged s.colDirty cp = false → s.drawnCol cp = s.col cp)

/-- **What the canvas keeps.** The slots agree, and what is drawn is what they say, but for what is
flagged. -/
structure Sharp (s : Canvas K) : Prop extends Filled s where
  consistent : s.toEdges.Consistent Edges.capacity

/-- The colours of an arc when nothing is emphasised. -/
def plain (slot : EdgeSlot K) : Strip (Color K) := colours false false slot

/-- The look of a slot that no refresh has come to. -/
def Untouched (slot : EdgeSlot K) : Prop :=
  slot.color = ⟨1, 1, 1⟩ ∧ slot.alpha = 1 ∧ slot.hidden = false

/-- The colours of an arc are to be written again, or are right without an emphasis; an arc that
no refresh has come to may still be dark. -/
def Inked (f : Focus) (s : Canvas K) (id : String) : Prop :=
  ∀ slot, s.slots.get? id = some slot → s.wet f slot.batch = true ∨ s.col slot.cp = plain slot ∨
    Untouched slot ∧ s.col slot.cp = noCol

theorem sharp_new : (new : Canvas K).Sharp where
  consistent := Edges.consistent_new
  blank _ _ := ⟨rfl, rfl⟩
  arcs cp h := by simp [new, Edges.new] at h
  card _ := ⟨fun _ => rfl, fun _ => rfl⟩

/-- Arrays that are left as they are, but for the flags. -/
theorem Sharp.flags {s : Canvas K} (hs : s.Sharp) {t : Edges K} (ht : t.Consistent Edges.capacity)
    (hkeeps : s.toEdges.Keeps t) (hpoints : t.controlPoints = s.controlPoints)
    (hheld : ∀ cp, t.bySlot cp = none → s.bySlot cp = none) {flags : Fin 3 → Bool}
    (hflags : ∀ b, s.colDirty b = true → flags b = true) :
    Sharp { s with toEdges := t, colDirty := flags } where
  consistent := ht
  blank cp h := hs.blank cp (hheld cp h)
  arcs cp h := by
    show s.pos cp = segments (t.controlPoints cp)
    rw [hpoints]
    exact hs.arcs cp (hkeeps cp h).1
  card cp := ⟨(hs.card cp).1, fun h => (hs.card cp).2 (flagged_mono hflags h)⟩

/-- A place that is given back is blank. -/
theorem Sharp.clear {s : Canvas K} (hs : s.Sharp) {id : String} {slot : EdgeSlot K}
    (hslot : s.slots.get? id = some slot) {t : Edges K} (ht : t.Consistent Edges.capacity)
    (hkeeps : s.toEdges.Keeps t) (hpoints : t.controlPoints = s.controlPoints)
    (hfree : t.bySlot slot.cp = none)
    (hheld : ∀ cp, cp ≠ slot.cp → t.bySlot cp = none → s.bySlot cp = none) :
    Sharp { s.clear slot with toEdges := t } where
  consistent := ht
  blank cp h := by
    show Function.update s.pos slot.cp noPos cp = noPos ∧
      Function.update s.col slot.cp noCol cp = noCol
    by_cases hcp : cp = slot.cp
    · rw [hcp, Function.update_self, Function.update_self]
      exact ⟨rfl, rfl⟩
    · rw [Function.update_of_ne hcp, Function.update_of_ne hcp]
      exact hs.blank cp (hheld cp hcp h)
  arcs cp h := by
    show Function.update s.pos slot.cp noPos cp = segments (t.controlPoints cp)
    have hcp : cp ≠ slot.cp := by
      rintro rfl
      exact ht.valid _ h hfree
    rw [Function.update_of_ne hcp, hpoints]
    exact hs.arcs cp (hkeeps cp h).1
  -- the card shows what was there until the batch is uploaded, and its flags are up
  card cp := by
    show (flagged (Function.update s.posDirty slot.batch true) cp = false →
        s.drawnPos cp = Function.update s.pos slot.cp noPos cp) ∧
      (flagged (Function.update s.colDirty slot.batch true) cp = false →
        s.drawnCol cp = Function.update s.col slot.cp noCol cp)
    by_cases hcp : cp = slot.cp
    · simp only [hcp, flagged_cp hs.consistent.toSound hslot, Function.update_self]
      exact ⟨nofun, nofun⟩
    · rw [Function.update_of_ne hcp, Function.update_of_ne hcp]
      exact ⟨fun h => (hs.card cp).1 (flagged_mono (update_flag _ _) h),
        fun h => (hs.card cp).2 (flagged_mono (update_flag _ _) h)⟩

end

/-! ## What a call does to the arrays -/

section

variable {K : Type*} [Field K] [LinearOrder K]

/-- A call that gives no place back leaves the arrays, but for a flag. -/
def Marks (s : Canvas K) (c : Edges.Call K) : Prop :=
  (∃ flags, s.write c = { s with colDirty := flags } ∧
      ∀ b, s.colDirty b = true → flags b = true) ∧
    ∀ cp, (s.toEdges.call Edges.capacity c).bySlot cp = none → s.bySlot cp = none

/-- A call that gives a place back clears it. -/
def Clears (s : Canvas K) (c : Edges.Call K) (slot : EdgeSlot K) : Prop :=
  s.write c = s.clear slot ∧ (s.toEdges.call Edges.capacity c).bySlot slot.cp = none ∧
    ∀ cp, cp ≠ slot.cp → (s.toEdges.call Edges.capacity c).bySlot cp = none → s.bySlot cp = none

theorem marks_of_eq {s : Canvas K} {c : Edges.Call K} (hwrite : s.write c = s)
    (hheld : ∀ cp, (s.toEdges.call Edges.capacity c).bySlot cp = none → s.bySlot cp = none) :
    s.Marks c := ⟨⟨s.colDirty, hwrite, fun _ h => h⟩, hheld⟩

theorem marks_of_flag {s : Canvas K} {c : Edges.Call K} {batch : Fin 3}
    (hwrite : s.write c = s.flag batch)
    (hheld : ∀ cp, (s.toEdges.call Edges.capacity c).bySlot cp = none → s.bySlot cp = none) :
    s.Marks c := ⟨⟨Function.update s.colDirty batch true, hwrite, update_flag _ _⟩, hheld⟩

/-- A new arc takes a place that nobody has. -/
theorem marks_add {s : Canvas K} (hs : s.toEdges.Sound Edges.capacity) (id : String)
    (same : Bool) : s.Marks (.add id same) := by
  refine marks_of_eq rfl fun cp h => ?_
  rw [Edges.call, Edges.add] at h
  split at h
  · exact h
  · cases hroom : s.free 0 with
    | nil => rwa [Edges.place_of_nil hroom] at h
    | cons index rest =>
      rw [Edges.place_of_cons hroom] at h
      by_cases hcp : cp = Edges.cpOf Edges.capacity 0 index
      · rw [hcp]
        -- the place was free, so it had nothing to show
        exact hs.bySlot_of_free (hroom ▸ List.mem_cons_self)
      · exact (Function.update_of_ne hcp _ _).symm.trans h

/-- An arc that changes its mesh leaves its place blank, and takes one that was. -/
theorem clears_setRate {s : Canvas K} (hs : s.toEdges.Sound Edges.capacity) {id : String}
    {slot : EdgeSlot K} (h : s.slots.get? id = some slot) {rate : K}
    (hwant : Edges.want rate ≠ slot.batch) : s.Clears (.setRate id rate) slot := by
  refine ⟨by simp only [write, h, if_neg hwant], ?_⟩
  have hgone : (s.toEdges.drop id slot).bySlot slot.cp = none :=
    (Edges.bySlot_drop slot.cp).trans (if_pos rfl)
  cases hroom : s.free (Edges.want rate) with
  | nil =>
    rw [Edges.call, Edges.setRate_of_full h hwant hroom]
    exact ⟨hgone, fun cp hne => bySlot_drop_eq_none hne⟩
  | cons index rest =>
    rw [Edges.call, Edges.setRate_of_cons h hwant hroom]
    have htop : index ∈ s.free (Edges.want rate) := hroom ▸ List.mem_cons_self
    refine ⟨?_, fun cp hne hcall => ?_⟩
    · -- the other mesh has other places
      exact (Function.update_of_ne (hs.cp_ne htop h) _ _).trans hgone
    · by_cases hnew : cp = Edges.cpOf Edges.capacity (Edges.want rate) index
      · rw [hnew]
        exact hs.bySlot_of_free htop
      · exact bySlot_drop_eq_none hne ((Function.update_of_ne hnew _ _).symm.trans hcall)

/-- **A call marks or clears**: it clears the place of the slot that it gives back, if any. -/
theorem write_cases {s : Canvas K} (hs : s.toEdges.Sound Edges.capacity) (c : Edges.Call K) :
    s.Marks c ∨ ∃ id slot, s.slots.get? id = some slot ∧ s.Clears c slot := by
  cases c with
  | add id same => exact Or.inl (marks_add hs id same)
  | remove id =>
    cases h : s.slots.get? id with
    | none =>
      refine Or.inl (marks_of_eq (by simp only [write, h]) ?_)
      rw [Edges.call, Edges.remove, h]
      exact fun _ h => h
    | some slot =>
      refine Or.inr ⟨id, slot, h, by simp only [write, h], ?_⟩
      rw [Edges.call, Edges.remove, h]
      refine ⟨?_, fun cp hcp => bySlot_drop_eq_none hcp⟩
      exact (Edges.bySlot_drop slot.cp).trans (if_pos rfl)
  | setRate id rate =>
    cases h : s.slots.get? id with
    | none =>
      refine Or.inl (marks_of_eq (by simp only [write, h]) ?_)
      rw [Edges.call, Edges.setRate, h]
      exact fun _ h => h
    | some slot =>
      -- an arc that changes its batch leaves its old place blank
      by_cases hwant : Edges.want rate = slot.batch
      · refine Or.inl (marks_of_eq (by simp only [write, h, if_pos hwant]) ?_)
        rw [Edges.call, Edges.setRate_of_eq h hwant]
        exact fun _ h => h
      · exact Or.inr ⟨id, slot, h, clears_setRate hs h hwant⟩
  | setSame same edges =>
    exact Or.inl (marks_of_eq rfl fun cp h =>
      (congrFun (bySlot_setSame s.toEdges same edges) cp).symm.trans h)
  | setColor id color alpha =>
    cases h : s.slots.get? id with
    | none => exact Or.inl (marks_of_eq (by simp only [write, h]) fun _ h => h)
    | some slot =>
      have hwrite : s.write (.setColor id color alpha) = s.flag slot.batch := by
        simp only [write, h]
      exact Or.inl (marks_of_flag hwrite fun _ h => h)
  | setHidden id hide =>
    cases h : s.slots.get? id with
    | none => exact Or.inl (marks_of_eq (by simp only [write, h]) fun _ h => h)
    | some slot =>
      -- an arc that is hidden already is not written
      by_cases hsame : slot.hidden = hide
      · exact Or.inl (marks_of_eq (by simp only [write, h, if_pos hsame]) fun _ h => h)
      · have hwrite : s.write (.setHidden id hide) = s.flag slot.batch := by
          simp only [write, h, if_neg hsame]
        exact Or.inl (marks_of_flag hwrite fun _ h => h)

/-- **Every call keeps the canvas sharp.** -/
theorem Sharp.call {s : Canvas K} (hs : s.Sharp) (c : Edges.Call K) : (s.call c).Sharp := by
  obtain ⟨hkeeps, ht⟩ := Edges.keeps_call hs.consistent c
  have hpoints : (s.toEdges.call Edges.capacity c).controlPoints = s.controlPoints :=
    Edges.controlPoints_call s.toEdges c
  unfold Canvas.call
  rcases write_cases hs.consistent.toSound c with ⟨⟨flags, hwrite, hflags⟩, hheld⟩ |
    ⟨id, slot, hslot, hwrite, hfree, hheld⟩
  · rw [hwrite]
    exact hs.flags ht hkeeps hpoints hheld hflags
  · rw [hwrite]
    exact hs.clear hslot ht hkeeps hpoints hfree hheld

/-! ### The colours of one arc -/

/-- Where an arc is and what its colours are made of. -/
def look (slot : EdgeSlot K) : (Nat × Fin 3) × Color K × K × Bool :=
  ((slot.cp, slot.batch), slot.color, slot.alpha, slot.hidden)

omit [LinearOrder K] in
theorem plain_congr {slot slot' : EdgeSlot K} (h : look slot = look slot') :
    plain slot = plain slot' := by
  obtain ⟨-, hcolor, halpha, hhidden⟩ : _ ∧ slot.color = slot'.color ∧ slot.alpha = slot'.alpha ∧
      slot.hidden = slot'.hidden := by simpa [look] using h
  unfold plain colours tint
  rw [hcolor, halpha, hhidden]

/-- A new rate moves its own arc only. -/
theorem get?_setRate_ne (s : Edges K) {id id' : String} (hne : id' ≠ id) (rate : K) :
    (s.setRate Edges.capacity id rate).slots.get? id' = s.slots.get? id' := by
  cases h : s.slots.get? id with
  | none => rw [Edges.setRate, h]
  | some slot =>
    by_cases hwant : Edges.want rate = slot.batch
    · rw [Edges.setRate_of_eq h hwant]
      exact OrdMap.get?_set_ne _ _ hne
    -- leaving the batch and entering another one are done under the arc's own id
    · cases hroom : s.free (Edges.want rate) with
      | nil =>
        rw [Edges.setRate_of_full h hwant hroom]
        exact OrdMap.get?_erase_ne _ hne
      | cons index rest =>
        rw [Edges.setRate_of_cons h hwant hroom]
        exact (OrdMap.get?_set_ne _ _ hne).trans
          ((OrdMap.get?_set_ne _ _ hne).trans (OrdMap.get?_erase_ne _ hne))

omit [Field K] [LinearOrder K] in
/-- A write under another id leaves the look of an arc. -/
theorem seen_look_of_modify_ne {s : Edges K} {id id' : String} {f : EdgeSlot K → EdgeSlot K}
    {slot : EdgeSlot K} (hne : id ≠ id') (h : (s.slots.modify id' f).get? id = some slot) :
    Edges.seen look s id = some (look slot) := by
  rw [OrdMap.get?_modify, if_neg hne] at h
  exact congrArg (Option.map look) h

omit [Field K] [LinearOrder K] in
/-- Relabelling changes `same`, which is not part of the look. -/
theorem seen_look_setSame (s : Edges K) (same : String → String → Bool)
    (edges : OrdMap String EdgeState) (id : String) :
    Edges.seen look (s.setSame same edges) id = Edges.seen look s id := by
  refine Loop.foldl_const (g := fun s => Edges.seen look s id) fun s slot => ?_
  unfold Edges.setSameSlot
  split
  · rfl
  · exact Edges.seen_write s slot.id id fun _ => rfl

/-- **The look of an arc stays**, or is to be written again, or the arc is new. -/
theorem look_call {s : Canvas K} (hs : s.toEdges.Sound Edges.capacity) {c : Edges.Call K}
    {id : String} (hstays : ∀ rate, c ≠ .setRate id rate) {slot : EdgeSlot K}
    (h : (s.call c).slots.get? id = some slot) :
    Edges.seen look s.toEdges id = some (look slot) ∨ (s.call c).colDirty slot.batch = true ∨
      (∃ same, c = .add id same) ∧ Untouched slot ∧ s.bySlot slot.cp = none := by
  replace h : (s.toEdges.call Edges.capacity c).slots.get? id = some slot := h
  cases c with
  | add id' same =>
    rw [Edges.call, Edges.add] at h
    split at h
    · exact Or.inl (congrArg (Option.map look) h)
    · cases hroom : s.free 0 with
      | nil =>
        rw [Edges.place_of_nil hroom] at h
        exact Or.inl (congrArg (Option.map look) h)
      | cons index rest =>
        rw [Edges.place_of_cons hroom] at h
        rcases OrdMap.get?_set_eq_some.1 h with ⟨rfl, rfl⟩ | ⟨-, h⟩
        · have hfree := hs.bySlot_of_free (hroom ▸ List.mem_cons_self)
          exact Or.inr (Or.inr ⟨⟨same, rfl⟩, ⟨rfl, rfl, rfl⟩, hfree⟩)
        · exact Or.inl (congrArg (Option.map look) h)
  -- a removal takes its own arc away and leaves the others
  | remove id' =>
    left
    have hseen := Edges.seen_remove (g := look) s.toEdges id' id
    rw [show Edges.seen look (s.toEdges.remove id') id = some (look slot) from
      congrArg (Option.map look) h] at hseen
    split at hseen
    · cases hseen
    · exact hseen.symm
  | setRate id' rate =>
    have hne : id ≠ id' := by
      rintro rfl
      exact hstays rate rfl
    rw [Edges.call, get?_setRate_ne s.toEdges hne] at h
    exact Or.inl (congrArg (Option.map look) h)
  | setSame same edges =>
    left
    exact (seen_look_setSame s.toEdges same edges id).symm.trans (congrArg (Option.map look) h)
  -- a new colour is flagged, whatever it is
  | setColor id' color alpha =>
    by_cases heq : id = id'
    · right
      left
      subst heq
      obtain ⟨old, hold, rfl⟩ := OrdMap.get?_modify_self_eq_some.1 h
      simp only [Canvas.call, write, hold, flag, Function.update_self]
    · exact Or.inl (seen_look_of_modify_ne heq h)
  | setHidden id' hide =>
    by_cases heq : id = id'
    · subst heq
      obtain ⟨old, hold, rfl⟩ := OrdMap.get?_modify_self_eq_some.1 h
      -- an arc that is shown or hidden already keeps its look; else the batch is flagged
      by_cases hsame : old.hidden = hide
      · left
        rw [← hsame]
        exact congrArg (Option.map look) hold
      · right
        left
        simp only [Canvas.call, write, hold, if_neg hsame, flag, Function.update_self]
    · exact Or.inl (seen_look_of_modify_ne heq h)

/-- No call takes a flag down. -/
theorem colDirty_call (s : Canvas K) (c : Edges.Call K) {b : Fin 3} (h : s.colDirty b = true) :
    (s.call c).colDirty b = true := by
  show (s.write c).colDirty b = true
  unfold write
  split
  · exact h
  · split
    · exact h
    -- a flag that is raised leaves the others as they are
    · exact update_flag s.colDirty _ b h
  · split
    · exact h
    · split
      · exact h
      · exact update_flag s.colDirty _ b h
  · exact h
  · split
    · exact h
    · exact update_flag s.colDirty _ b h
  · split
    · exact h
    · split
      · exact h
      · exact update_flag s.colDirty _ b h

theorem wet_call (s : Canvas K) (c : Edges.Call K) {f : Focus} {b : Fin 3}
    (h : s.wet f b = true) : (s.call c).wet f b = true := by
  unfold wet at *
  cases hdirty : s.colDirty b with
  | true => rw [colDirty_call s c hdirty, Bool.true_or, Bool.true_or]
  | false =>
    rw [hdirty, Bool.false_or] at h
    rw [Bool.or_assoc, h, Bool.or_true]

/-- A place that has an arc after a call has the colours from before it. -/
theorem col_call {s : Canvas K} (hs : s.toEdges.Sound Edges.capacity) (c : Edges.Call K)
    {id : String} {slot : EdgeSlot K} (h : (s.call c).slots.get? id = some slot) :
    (s.call c).col slot.cp = s.col slot.cp := by
  show (s.write c).col slot.cp = s.col slot.cp
  rcases write_cases hs c with ⟨⟨flags, hwrite, -⟩, -⟩ | ⟨id', slot', -, hwrite, hfree, -⟩
  · rw [hwrite]
  · rw [hwrite]
    refine Function.update_of_ne (fun heq => ?_) _ _
    have hby := (hs.call c).bySlot_cp h
    rw [heq, hfree] at hby
    cases hby

/-- **An arc stays inked** under every call that does not move it. -/
theorem Inked.call {s : Canvas K} (hs : s.Sharp) {f : Focus} {id : String} (h : s.Inked f id)
    {c : Edges.Call K} (hstays : ∀ rate, c ≠ .setRate id rate) : (s.call c).Inked f id := by
  intro slot hslot
  have hcol := col_call hs.consistent.toSound c hslot
  -- it looks as before, or is flagged, or is new in a place that was blank
  rcases look_call hs.consistent.toSound hstays hslot with hlook | hflag | ⟨-, hnew, hfree⟩
  · obtain ⟨old, hold, hsame⟩ := Option.map_eq_some_iff.1 hlook
    obtain ⟨hcp, hbatch⟩ : old.cp = slot.cp ∧ old.batch = slot.batch :=
      Prod.ext_iff.1 (congrArg Prod.fst hsame)
    obtain ⟨hcolor, halpha, hhidden⟩ : old.color = slot.color ∧ old.alpha = slot.alpha ∧
        old.hidden = slot.hidden := by simpa [look, hcp, hbatch] using hsame
    rcases h old hold with hwet | hplain | ⟨⟨hwhite, hone, hshown⟩, hdark⟩
    · exact Or.inl (hbatch ▸ wet_call s c hwet)
    · right
      left
      rw [hcol, ← hcp, hplain]
      exact plain_congr hsame
    · right
      right
      rw [hcol, ← hcp]
      exact ⟨⟨hcolor ▸ hwhite, halpha ▸ hone, hhidden ▸ hshown⟩, hdark⟩
  · exact Or.inl (wet_of_colDirty hflag f)
  · right
    right
    rw [hcol]
    exact ⟨hnew, (hs.blank slot.cp hfree).2⟩

/-- The arc of an edge, if it has one, is written again. -/
def Fresh (s : Canvas K) (id : String) : Prop :=
  ∀ slot, s.slots.get? id = some slot → s.colDirty slot.batch = true

/-- A call on others leaves an arc as it was added. -/
theorem Fresh.call {s : Canvas K} (hs : s.toEdges.Sound Edges.capacity) {id : String}
    (h : s.Fresh id) {c : Edges.Call K} (hstays : ∀ rate, c ≠ .setRate id rate)
    (hadd : ∀ same, c ≠ .add id same) :
    (s.call c).Fresh id := by
  intro slot hslot
  rcases look_call hs hstays hslot with hlook | hflag | ⟨⟨same, hc⟩, -⟩
  · obtain ⟨old, hold, hsame⟩ := Option.map_eq_some_iff.1 hlook
    have hbatch : old.batch = slot.batch := (Prod.ext_iff.1 (congrArg Prod.fst hsame)).2
    exact colDirty_call s c (hbatch ▸ h old hold)
  · exact hflag
  · exact absurd hc (hadd same)

/-- The three calls with which a refresh comes to an edge. -/
def refreshCalls (id : String) (hidden : Bool) (rate : K) (color : Color K) (alpha : K) :
    List (Edges.Call K) :=
  [.setHidden id hidden, .setRate id rate, .setColor id color alpha]

/-- Another colour has the arc written again. -/
theorem fresh_setColor (s : Canvas K) (id : String) (color : Color K) (alpha : K) :
    (s.call (.setColor id color alpha)).Fresh id := by
  intro slot h
  obtain ⟨old, hold, rfl⟩ := OrdMap.get?_modify_self_eq_some.1 h
  simp only [Canvas.call, write, hold, flag, Function.update_self]

/-- The refresh of another arc leaves an arc as it was added. -/
theorem Fresh.refresh {s : Canvas K} (hs : s.Sharp) {id : String} (h : s.Fresh id)
    (id' : String) (hidden : Bool) (rate : K) (color : Color K) (alpha : K) :
    Fresh ((refreshCalls id' hidden rate color alpha).foldl Canvas.call s) id := by
  by_cases heq : id' = id
  · subst heq
    exact fresh_setColor _ id' color alpha
  · have h₁ : Fresh (s.call (.setHidden id' hidden)) id := h.call hs.consistent.toSound nofun nofun
    have h₂ : Fresh ((s.call (.setHidden id' hidden)).call (.setRate id' rate)) id :=
      h₁.call (hs.call _).consistent.toSound (fun _ hc => heq (Edges.Call.setRate.inj hc).1) nofun
    exact h₂.call ((hs.call _).call _).consistent.toSound nofun nofun

/-- **A refresh may move an arc**, since the colour comes last. -/
theorem Inked.refresh {s : Canvas K} (hs : s.Sharp) {f : Focus} (h : ∀ id, s.Inked f id)
    (id : String) (hidden : Bool) (rate : K) (color : Color K) (alpha : K) (id' : String) :
    Inked f ((refreshCalls id hidden rate color alpha).foldl Canvas.call s) id' := by
  by_cases heq : id' = id
  · subst heq
    exact fun slot hslot => Or.inl (wet_of_colDirty (fresh_setColor _ id' color alpha slot hslot) f)
  · have h₁ : Inked f (s.call (.setHidden id hidden)) id' := (h id').call hs nofun
    have h₂ : Inked f ((s.call (.setHidden id hidden)).call (.setRate id rate)) id' :=
      h₁.call (hs.call _) fun rate' hc => heq (Edges.Call.setRate.inj hc).1.symm
    exact h₂.call ((hs.call _).call _) nofun

end

/-! ## The end of a frame -/

section

variable {K : Type*} [Field K] {M : Math K} {f : Focus} {edges : OrdMap String EdgeState}
  {positionOf : String → Option (Vec3 K)} {moving : Bool}

/-- What a round of `update` does: it writes the place of one slot, and says so. -/
structure Strokes (slot : EdgeSlot K) (s s' : Canvas K) : Prop where
  slots : s'.slots = s.slots
  bySlot : s'.bySlot = s.bySlot
  drawn : s'.drawnPos = s.drawnPos ∧ s'.drawnCol = s.drawnCol
  other : ∀ cp, cp ≠ slot.cp → s'.cpValid cp = s.cpValid cp ∧
    s'.controlPoints cp = s.controlPoints cp ∧ s'.pos cp = s.pos cp ∧ s'.col cp = s.col cp
  arc : (s.cpValid slot.cp = true → s.pos slot.cp = segments (s.controlPoints slot.cp)) →
    s'.cpValid slot.cp = true → s'.pos slot.cp = segments (s'.controlPoints slot.cp)
  posDirty : ∀ b, s.posDirty b = true → s'.posDirty b = true
  colDirty : ∀ b, s.colDirty b = true → s'.colDirty b = true
  posFlag : s'.posDirty slot.batch = true ∨ s'.pos slot.cp = s.pos slot.cp
  colFlag : s'.colDirty slot.batch = true ∨ s'.col slot.cp = s.col slot.cp

/-- Doing nothing is a stroke. -/
theorem Strokes.refl (slot : EdgeSlot K) (s : Canvas K) : Strokes slot s s where
  slots := rfl
  bySlot := rfl
  drawn := ⟨rfl, rfl⟩
  other _ _ := ⟨rfl, rfl, rfl, rfl⟩
  arc h := h
  posDirty _ h := h
  colDirty _ h := h
  posFlag := Or.inr rfl
  colFlag := Or.inr rfl

/-- Drawing the line of an arc is a stroke. -/
theorem strokes_trace {slot : EdgeSlot K} {e : EdgeState} {s s' : Canvas K}
    (h : s.trace M positionOf moving e slot = some s') : Strokes slot s s' := by
  unfold trace at h
  split at h
  · split at h
    · cases h
      constructor
      case slots => rfl
      case bySlot => rfl
      case drawn => exact ⟨rfl, rfl⟩
      case other =>
        exact fun cp hcp => ⟨Function.update_of_ne hcp _ _, Function.update_of_ne hcp _ _,
          Function.update_of_ne hcp _ _, rfl⟩
      -- the segments are computed from the control points that were just stored
      case arc =>
        intro _ _
        dsimp only
        rw [Function.update_self, Function.update_self]
      case posDirty => exact update_flag s.posDirty _
      case colDirty => exact fun _ h => h
      case posFlag => exact Or.inl (Function.update_self _ _ _)
      case colFlag => exact Or.inr rfl
    · cases h
  · cases h
    exact Strokes.refl slot s

theorem strokes_paint {slot : EdgeSlot K} {e : EdgeState} {s s' : Canvas K}
    (h : Strokes slot s s') : Strokes slot s (s'.paint f e slot) := by
  unfold paint
  split
  · constructor
    case slots => exact h.slots
    case bySlot => exact h.bySlot
    case drawn => exact h.drawn
    case other =>
      intro cp hcp
      obtain ⟨hvalid, hpoints, hpos, hcol⟩ := h.other cp hcp
      exact ⟨hvalid, hpoints, hpos, (Function.update_of_ne hcp _ _).trans hcol⟩
    case arc => exact h.arc
    case posDirty => exact h.posDirty
    case colDirty => exact fun b hb => update_flag s'.colDirty _ b (h.colDirty b hb)
    case posFlag => exact h.posFlag
    -- painting raises the flag of the batch
    case colFlag => exact Or.inl (Function.update_self _ _ _)
  · exact h

variable (M f edges positionOf moving) in
theorem strokes_updateSlot (s : Canvas K) (slot : EdgeSlot K) :
    Strokes slot s (updateSlot M f edges positionOf moving s slot) := by
  unfold updateSlot
  split
  · exact Strokes.refl slot s
  · split
    · exact Strokes.refl slot s
    · next s' h => exact strokes_paint (strokes_trace h)

/-- **A stroke on an arc leaves the canvas filled.** -/
theorem Filled.strokes {s s' : Canvas K} (hs : s.Filled) {slot : EdgeSlot K}
    (h : Strokes slot s s') {id : String} (hby : s.bySlot slot.cp = some id)
    (hflag : ∀ flags, flagged flags slot.cp = flags slot.batch) : s'.Filled where
  blank cp hcp := by
    rw [h.bySlot] at hcp
    -- a place without an arc is not the one of this arc
    have hne : cp ≠ slot.cp := by
      rintro rfl
      rw [hby] at hcp
      cases hcp
    obtain ⟨-, -, hpos, hcol⟩ := h.other cp hne
    rw [hpos, hcol]
    exact hs.blank cp hcp
  arcs cp hvalid := by
    by_cases hcp : cp = slot.cp
    · subst hcp
      exact h.arc (hs.arcs slot.cp) hvalid
    · obtain ⟨hv, hpoints, hpos, -⟩ := h.other cp hcp
      rw [hpos, hpoints]
      exact hs.arcs cp (hv ▸ hvalid)
  card cp := by
    rw [h.drawn.1, h.drawn.2]
    by_cases hcp : cp = slot.cp
    · subst hcp
      constructor
      · intro hclear
        -- what was written is flagged, so the card need not show it yet
        rcases h.posFlag with hset | hsame
        · rw [hflag, hset] at hclear
          cases hclear
        · rw [hsame]
          exact (hs.card slot.cp).1 (flagged_mono h.posDirty hclear)
      · intro hclear
        rcases h.colFlag with hset | hsame
        · rw [hflag, hset] at hclear
          cases hclear
        · rw [hsame]
          exact (hs.card slot.cp).2 (flagged_mono h.colDirty hclear)
    · obtain ⟨-, -, hpos, hcol⟩ := h.other cp hcp
      rw [hpos, hcol]
      exact ⟨fun hclear => (hs.card cp).1 (flagged_mono h.posDirty hclear),
        fun hclear => (hs.card cp).2 (flagged_mono h.colDirty hclear)⟩

/-- What a round does to the arcs is what `Edges` says. -/
theorem toEdges_updateSlot (s : Canvas K) (slot : EdgeSlot K) :
    (updateSlot M f edges positionOf moving s slot).toEdges
      = Edges.updateSlot M edges positionOf moving s.toEdges slot := by
  -- painting is no business of the arcs
  have hpaint : ∀ (e : EdgeState) (s' : Canvas K), (s'.paint f e slot).toEdges = s'.toEdges := by
    intro e s'
    unfold paint
    split <;> rfl
  unfold updateSlot Edges.updateSlot
  cases edges.get? slot.id with
  | none => rfl
  | some e =>
    dsimp only
    unfold trace
    by_cases hmust : moving = true ∨ s.cpValid slot.cp = false
    · rw [if_pos hmust, if_pos hmust]
      cases positionOf e.src with
      | none => rfl
      | some a =>
        cases positionOf e.dst with
        | none => rfl
        | some b => exact hpaint e _
    · rw [if_neg hmust, if_neg hmust]
      exact hpaint e s

theorem toEdges_foldl (l : List (EdgeSlot K)) (s : Canvas K) :
    (l.foldl (updateSlot M f edges positionOf moving) s).toEdges
      = l.foldl (Edges.updateSlot M edges positionOf moving) s.toEdges :=
  Loop.foldl_rel (R := fun (s : Canvas K) t => s.toEdges = t)
    (fun s _ slot h => h ▸ toEdges_updateSlot s slot) rfl

theorem toEdges_update (s : Canvas K) :
    (s.update M f edges positionOf moving).toEdges
      = s.toEdges.update M edges positionOf moving := toEdges_foldl s.slots.values s

/-- The loop writes what is wet, and wets nothing. -/
theorem wet_updateSlot (s : Canvas K) (slot : EdgeSlot K) (b : Fin 3) :
    (updateSlot M f edges positionOf moving s slot).wet f b = s.wet f b := by
  have htrace : ∀ {e : EdgeState} {s' : Canvas K},
      s.trace M positionOf moving e slot = some s' → s'.wet f b = s.wet f b := by
    intro e s' h
    unfold trace at h
    split at h
    · split at h
      · cases h
        rfl
      · cases h
    · cases h
      rfl
  unfold updateSlot
  split
  · rfl
  · split
    · rfl
    · next s' h =>
      rw [← htrace h]
      unfold paint
      split
      -- painting raises a flag that was up for this frame anyway
      · next hwet =>
        by_cases hb : b = slot.batch
        · subst hb
          rw [hwet]
          exact wet_of_colDirty (Function.update_self _ _ _) f
        · unfold wet
          dsimp only
          rw [Function.update_of_ne hb]
      · rfl

/-- What a round makes of the colours of its slot, and of whether its control points are valid. -/
def retouch (wet : Fin 3 → Bool) (f : Focus) (edges : OrdMap String EdgeState)
    (positionOf : String → Option (Vec3 K)) (moving : Bool) (slot : EdgeSlot K)
    (old : Bool × Strip (Color K)) : Bool × Strip (Color K) :=
  match edges.get? slot.id with
  | none => old
  | some e =>
    let new := if wet slot.batch then colours f.anyEmphasis (emphasises f e slot.id) slot else old.2
    if moving ∨ old.1 = false then
      match positionOf e.src, positionOf e.dst with
      | some _, some _ => (true, new)
      | _, _ => old
    else (old.1, new)

/-- What painting does to the place of the arc. -/
theorem view_paint (s : Canvas K) (e : EdgeState) (slot : EdgeSlot K) :
    ((s.paint f e slot).cpValid slot.cp, (s.paint f e slot).col slot.cp)
      = (s.cpValid slot.cp, if s.wet f slot.batch then
          colours f.anyEmphasis (emphasises f e slot.id) slot else s.col slot.cp) := by
  unfold paint
  split
  · exact Prod.ext rfl (Function.update_self _ _ _)
  · rfl

variable (M f edges positionOf moving) in
/-- Each round writes the place of its own arc. -/
theorem updateSlot_writes (wet : Fin 3 → Bool) :
    Loop.WritesOwn (fun s : Canvas K => ∀ b, s.wet f b = wet b)
      (fun s cp => (s.cpValid cp, s.col cp)) EdgeSlot.cp (retouch wet f edges positionOf moving)
      (updateSlot M f edges positionOf moving) where
  keeps s slot h b := (wet_updateSlot s slot b).trans (h b)
  own s slot h := by
    unfold updateSlot retouch
    cases edges.get? slot.id with
    | none => rfl
    | some e =>
      dsimp only
      unfold trace
      -- the line is drawn anew when something moves or the place has none yet
      by_cases hmust : moving = true ∨ s.cpValid slot.cp = false
      · rw [if_pos hmust, if_pos hmust]
        cases positionOf e.src with
        | none => rfl
        | some a =>
          cases positionOf e.dst with
          | none => rfl
          | some b =>
            refine (view_paint _ e slot).trans (Prod.ext (Function.update_self _ _ _) ?_)
            rw [← h slot.batch]
            rfl
      · rw [if_neg hmust, if_neg hmust]
        refine (view_paint s e slot).trans ?_
        rw [h slot.batch]
  other s slot cp _ hne := by
    obtain ⟨hvalid, -, -, hcol⟩ :=
      (strokes_updateSlot M f edges positionOf moving s slot).other cp hne
    exact Prod.ext hvalid hcol

/-- The loop leaves the canvas filled. -/
theorem Sharp.foldl {s : Canvas K} (hs : s.Sharp) :
    (s.slots.values.foldl (updateSlot M f edges positionOf moving) s).Filled := by
  refine (List.foldlRecOn s.slots.values (updateSlot M f edges positionOf moving)
    (motive := fun t => t.Filled ∧ t.bySlot = s.bySlot) ⟨hs.toFilled, rfl⟩ ?_).1
  rintro t ⟨ht, hby⟩ slot hslot
  obtain ⟨id, hget⟩ := OrdMap.mem_values.1 hslot
  have hstrokes := strokes_updateSlot M f edges positionOf moving t slot
  have hheld : t.bySlot slot.cp = some slot.id := by
    rw [hby]
    exact hs.consistent.bySlot_values slot hslot
  exact ⟨ht.strokes hstrokes hheld (flagged_cp hs.consistent.toSound hget),
    hstrokes.bySlot.trans hby⟩

/-- **After the upload the card shows what was written.** -/
theorem drawn_upload {s : Canvas K} (hs : s.Filled) (f : Focus) :
    (s.upload f).drawnPos = s.pos ∧ (s.upload f).drawnCol = s.col := by
  constructor
  · funext cp
    show (if flagged s.posDirty cp = true then s.pos cp else s.drawnPos cp) = s.pos cp
    split
    · rfl
    -- what is not flagged was on the card before
    · next h => exact (hs.card cp).1 (Bool.not_eq_true _ ▸ h)
  · funext cp
    show (if flagged (fun b => s.colDirty b || f.colDirty) cp = true then s.col cp
      else s.drawnCol cp) = s.col cp
    split
    · rfl
    · next h =>
      refine (hs.card cp).2 (flagged_mono (fun b hb => ?_) (Bool.not_eq_true _ ▸ h))
      rw [hb, Bool.true_or]

/-- **The graphics card has the arrays** at the end of a frame. -/
theorem Sharp.update {s : Canvas K} (hs : s.Sharp) (M : Math K) (f : Focus)
    (edges : OrdMap String EdgeState) (positionOf : String → Option (Vec3 K)) (moving : Bool) :
    (s.update M f edges positionOf moving).Sharp ∧
      (s.update M f edges positionOf moving).drawnPos
        = (s.update M f edges positionOf moving).pos ∧
      (s.update M f edges positionOf moving).drawnCol
        = (s.update M f edges positionOf moving).col := by
  have hfilled : (s.slots.values.foldl (updateSlot M f edges positionOf moving) s).Filled :=
    hs.foldl
  obtain ⟨hpos, hcol⟩ := drawn_upload hfilled f
  refine ⟨⟨⟨hfilled.blank, hfilled.arcs, fun cp => ?_⟩, ?_⟩, hpos, hcol⟩
  -- all of it is on the card, flagged or not
  · exact ⟨fun _ => congrFun hpos cp, fun _ => congrFun hcol cp⟩
  · rw [toEdges_update]
    exact hs.consistent.update M edges positionOf moving

variable (M f moving) in
/-- **The colours that are wet are written**, and no others. -/
theorem col_update {s : Canvas K} (hs : s.Sharp)
    (hplaced : ∀ id ∈ s.slots, Edges.Placed edges positionOf id) {id : String}
    {slot : EdgeSlot K} (h : s.slots.get? id = some slot) {e : EdgeState}
    (he : edges.get? id = some e) :
    (s.update M f edges positionOf moving).cpValid slot.cp = true ∧
      (s.update M f edges positionOf moving).col slot.cp = if s.wet f slot.batch then
        colours f.anyEmphasis (emphasises f e id) slot else s.col slot.cp := by
  obtain rfl : slot.id = id := (hs.consistent.slot id slot h).1
  have hwrite := (updateSlot_writes M f edges positionOf moving (s.wet f)).foldl_of_mem
    hs.consistent.nodup_cp (s := s) (fun _ => rfl) (OrdMap.mem_values_of_get? h)
  -- both ends have a position, so the round comes as far as painting
  obtain ⟨e', he', hsrc, hdst⟩ := hplaced slot.id (OrdMap.mem_of_get? h)
  obtain rfl : e = e' := Option.some.inj (he.symm.trans he')
  obtain ⟨a, ha⟩ := Option.ne_none_iff_exists'.1 hsrc
  obtain ⟨b, hb⟩ := Option.ne_none_iff_exists'.1 hdst
  simp only [retouch, he, ha, hb] at hwrite
  split at hwrite
  · exact Prod.ext_iff.1 hwrite
  · next hmust =>
    obtain ⟨hvalid, hcol⟩ := Prod.ext_iff.1 hwrite
    rw [not_or, Bool.not_eq_false] at hmust
    exact ⟨hvalid.trans hmust.2, hcol⟩

/-- What is not emphasised anywhere has its plain colours. -/
theorem emphasises_of_calm {f : Focus} (h : f.anyEmphasis = false) (e : EdgeState) (id : String) :
    emphasises f e id = false := by
  simp only [Focus.anyEmphasis, Bool.or_eq_false_iff, Option.isSome_eq_false_iff,
    Option.isNone_iff_eq_none] at h
  obtain ⟨⟨hselected, hhovered⟩, hnode⟩ := h
  simp [emphasises, hselected, hhovered, hnode]

variable (M moving) in
/-- **Every arc has the colours of a full redraw** at the end of a frame, but for one that no
refresh has come to, which may be dark. -/
theorem Inked.update {s : Canvas K} (hs : s.Sharp) {id : String} (h : s.Inked f id)
    (hplaced : ∀ id ∈ s.slots, Edges.Placed edges positionOf id) {slot : EdgeSlot K}
    (hslot : s.slots.get? id = some slot) {e : EdgeState} (he : edges.get? id = some e) :
    (s.update M f edges positionOf moving).col slot.cp
        = colours f.anyEmphasis (emphasises f e id) slot ∨
      s.wet f slot.batch = false ∧ Untouched slot ∧
        (s.update M f edges positionOf moving).col slot.cp = noCol := by
  obtain ⟨-, hcol⟩ := col_update M f moving hs hplaced hslot he
  rw [hcol]
  cases hwet : s.wet f slot.batch with
  | true => exact Or.inl (if_pos rfl)
  | false =>
    have hcalm : f.anyEmphasis = false := (Bool.or_eq_false_iff.1 hwet).2
    rw [emphasises_of_calm hcalm, hcalm]
    -- a batch that is not wet is not painted: its arcs are plain, or new and dark
    rcases h slot hslot with htrue | hplain | ⟨hnew, hdark⟩
    · rw [hwet] at htrue
      cases htrue
    · exact Or.inl hplain
    · exact Or.inr ⟨rfl, hnew, hdark⟩

variable (M moving) in
/-- The colours stay right when the flags go. -/
theorem Inked.dried {s : Canvas K} (hs : s.Sharp) {id : String} (h : s.Inked f id)
    (hplaced : ∀ id ∈ s.slots, Edges.Placed edges positionOf id) :
    (s.update M f edges positionOf moving).Inked { f with colDirty := false } id := by
  intro slot hslot
  replace hslot : s.slots.get? id = some slot := by
    have hslots : (s.update M f edges positionOf moving).slots = s.slots := by
      show (s.update M f edges positionOf moving).toEdges.slots = s.slots
      rw [toEdges_update]
      exact (Edges.update_frame M edges positionOf moving s.toEdges).1
    exact hslots ▸ hslot
  obtain ⟨e, he, -, -⟩ := hplaced id (OrdMap.mem_of_get? hslot)
  -- with an emphasis every batch stays wet; without one the colours are plain
  cases hany : f.anyEmphasis with
  | true => exact Or.inl (Bool.or_eq_true_iff.2 (Or.inr hany))
  | false =>
    right
    rcases h.update M moving hs hplaced hslot he with hfull | ⟨-, hnew, hdark⟩
    · rw [emphasises_of_calm hany, hany] at hfull
      exact Or.inl hfull
    · exact Or.inr ⟨hnew, hdark⟩

end

end Canvas

end Flowscape
