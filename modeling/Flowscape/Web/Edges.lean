import Flowscape.Lib.Loop
import Flowscape.Lib.Pool
import Flowscape.Lib.Text
import Flowscape.Web.Layout

/-!
# Flowscape: the arcs (`web/src/edges.ts`)

Every edge has a slot in one of three meshes, by the width of its arc. The free indices of a mesh
are a stack, so the index given back last is handed out first. An edge whose rate calls for
another width gives its slot back and asks for one in the other mesh.

How many arcs a mesh takes is a parameter of the operations. The source has one number for it,
which is `Edges.capacity`.

* What is only drawn (the vertices and their colours, the emphasis) is left out.
* `bySlot` keeps a reference to the slot. Here it is the id, under which `slots` has it.
* `color` comes mixed from `verdictColor`, and is an argument of `setColor`.
* The control points are exact numbers. The source rounds them to `float32` when it stores them in
  a `Float32Array`, which moves what is drawn by that much and nothing else: no branch reads them.
-/

namespace Flowscape

/-! ## Source definitions -/

/-- Red, green and blue. -/
structure Color (K : Type*) where
  r : K
  g : K
  b : K

/-- Where an edge is drawn, and how. -/
structure EdgeSlot (K : Type*) where
  id : String
  batch : Fin 3
  index : Nat
  /-- Global control-point slot for the particles. -/
  cp : Nat
  same : Bool
  color : Color K
  alpha : K
  hidden : Bool
  rate : K

/-- The control points of a slot. -/
structure Arc (K : Type*) where
  p0 : Vec3 K
  c : Vec3 K
  p1 : Vec3 K

/-- The meshes of the arcs. -/
structure Edges (K : Type*) where
  /-- The free indices of a batch. `pop` takes the first of the list. -/
  free : Fin 3 → List Nat
  slots : OrdMap String (EdgeSlot K)
  controlPoints : Nat → Arc K
  cpValid : Nat → Bool
  bySlot : Nat → Option String

/-- So many segments draw an arc. -/
def SEGMENTS : Nat := 14

namespace Edges

/-- `CAPACITY`, per width batch -/
def capacity : Nat := 2048

section

variable {K : Type*} [Field K] [LinearOrder K] (capacity : Nat)

/-- `batch * CAPACITY + index` -/
def cpOf (batch : Fin 3) (index : Nat) : Nat := batch.val * capacity + index

/-- The constructor. -/
def new : Edges K where
  free := fun _ => List.range capacity
  slots := ∅
  controlPoints := fun _ => ⟨⟨0, 0, 0⟩, ⟨0, 0, 0⟩, ⟨0, 0, 0⟩⟩
  cpValid := fun _ => false
  bySlot := fun _ => none

/-- The slot that `place` makes. -/
def freshSlot (id : String) (batch : Fin 3) (index : Nat) (same : Bool) : EdgeSlot K where
  id := id
  batch := batch
  index := index
  cp := cpOf capacity batch index
  same := same
  color := ⟨1, 1, 1⟩
  alpha := 1
  hidden := false
  rate := 0

/-- `place`, with the slot if there was an index left. -/
def place (s : Edges K) (id : String) (batch : Fin 3) (same : Bool) :
    Edges K × Option (EdgeSlot K) :=
  match s.free batch with
  | [] => (s, none)
  | index :: rest =>
    let slot := freshSlot capacity id batch index same
    ({ s with
      free := Function.update s.free batch rest
      slots := s.slots.set id slot
      bySlot := Function.update s.bySlot slot.cp (some id) }, some slot)

/-- A new edge takes a slot of the thinnest arcs. -/
def add (s : Edges K) (id : String) (same : Bool) : Edges K :=
  if id ∈ s.slots then s else (s.place capacity id 0 same).1

/-- The slot is nobody's any more, and the particles on it are to end. -/
def clear (s : Edges K) (slot : EdgeSlot K) : Edges K :=
  { s with
    free := Function.update s.free slot.batch (slot.index :: s.free slot.batch)
    cpValid := Function.update s.cpValid slot.cp false
    bySlot := Function.update s.bySlot slot.cp none }

/-- `slots.delete(id)` and `clear(slot)` -/
def drop (s : Edges K) (id : String) (slot : EdgeSlot K) : Edges K :=
  { s with slots := s.slots.erase id }.clear slot

/-- An edge that has no slot is passed over. -/
def remove (s : Edges K) (id : String) : Edges K :=
  match s.slots.get? id with
  | none => s
  | some slot => s.drop id slot

/-- The width batch that a rate calls for. -/
def want (rate : K) : Fin 3 := if rate < 1 then 0 else if rate < 20 then 1 else 2

/-- Move an edge to the width batch its rate calls for. -/
def setRate (s : Edges K) (id : String) (rate : K) : Edges K :=
  match s.slots.get? id with
  | none => s
  | some slot =>
    if want rate = slot.batch then
      { s with slots := s.slots.set id { slot with rate := rate } }
    else
      -- the slot is given back before there is another one
      let (s, moved) := (s.drop id slot).place capacity id (want rate) slot.same
      match moved with
      | none => s
      | some moved =>
        { s with
          slots := s.slots.set id { moved with
            color := slot.color
            alpha := slot.alpha
            hidden := slot.hidden
            rate := rate } }

/-- The body of `setSame`. -/
def setSameSlot (same : String → String → Bool) (edges : OrdMap String EdgeState) (s : Edges K)
    (slot : EdgeSlot K) : Edges K :=
  match edges.get? slot.id with
  | none => s
  | some e =>
    { s with
      slots := s.slots.modify slot.id fun slot => { slot with same := same e.src e.dst }
      cpValid := Function.update s.cpValid slot.cp false }

/-- Re-evaluate which arcs stay low after the platforms regroup. -/
def setSame (s : Edges K) (same : String → String → Bool) (edges : OrdMap String EdgeState) :
    Edges K := s.slots.values.foldl (setSameSlot same edges) s

/-- The colour that the verdicts of an edge mix to. -/
def setColor (s : Edges K) (id : String) (color : Color K) (alpha : K) : Edges K :=
  { s with slots := s.slots.modify id fun slot => { slot with color, alpha } }

/-- An arc that the filters hide stays in its slot. -/
def setHidden (s : Edges K) (id : String) (h : Bool) : Edges K :=
  { s with slots := s.slots.modify id fun slot => { slot with hidden := h } }

/-- The body of `update`: the control points of an edge between two nodes that have a place. They
stay as they are while the slot is valid and nothing moves. -/
def updateSlot (M : Math K) (edges : OrdMap String EdgeState)
    (positionOf : String → Option (Vec3 K)) (layoutMoving : Bool) (s : Edges K)
    (slot : EdgeSlot K) : Edges K :=
  match edges.get? slot.id with
  | none => s
  | some e =>
    if layoutMoving ∨ s.cpValid slot.cp = false then
      match positionOf e.src, positionOf e.dst with
      | some a, some b =>
        { s with
          controlPoints := Function.update s.controlPoints slot.cp
            ⟨a, Layout.control M a b slot.same, b⟩
          cpValid := Function.update s.cpValid slot.cp true }
      | _, _ => s
    else s

/-- The end of a frame: the slots in the order in which the edges took them. The control points
are not rounded to `float32`. -/
def update (s : Edges K) (M : Math K) (edges : OrdMap String EdgeState)
    (positionOf : String → Option (Vec3 K)) (layoutMoving : Bool) : Edges K :=
  s.slots.values.foldl (updateSlot M edges positionOf layoutMoving) s

/-- `idAt`: whose segment it is. -/
def idAt (s : Edges K) (batch : Fin 3) (segmentIndex : Nat) : Option String :=
  s.bySlot (batch.val * capacity + segmentIndex / SEGMENTS)

/-- A call of the scene, other than the one that ends a frame. -/
inductive Call (K : Type*) where
  | add (id : String) (same : Bool)
  | remove (id : String)
  | setRate (id : String) (rate : K)
  | setSame (same : String → String → Bool) (edges : OrdMap String EdgeState)
  | setColor (id : String) (color : Color K) (alpha : K)
  | setHidden (id : String) (h : Bool)

/-- What a call does. -/
def call (s : Edges K) : Call K → Edges K
  | .add id same => s.add capacity id same
  | .remove id => s.remove id
  | .setRate id rate => s.setRate capacity id rate
  | .setSame same edges => s.setSame same edges
  | .setColor id color alpha => s.setColor id color alpha
  | .setHidden id h => s.setHidden id h

end

/-- The indices of a batch that are in use. -/
def taken {K : Type*} (s : Edges K) (batch : Fin 3) : List Nat :=
  (s.slots.values.filter fun slot => slot.batch = batch).map EdgeSlot.index

/-! ## Changing the width -/

section

variable {K : Type*} [Field K] {capacity : Nat}

theorem free_new (batch : Fin 3) :
    (new capacity : Edges K).free batch = List.range capacity := by
  rw [new]

theorem place_of_nil {s : Edges K} {id : String} {batch : Fin 3} {same : Bool}
    (h : s.free batch = []) : s.place capacity id batch same = (s, none) := by
  simp only [place, h]

/-- What `place` does when there is an index left. -/
theorem place_of_cons {s : Edges K} {id : String} {batch : Fin 3} {same : Bool} {index : Nat}
    {rest : List Nat} (h : s.free batch = index :: rest) : s.place capacity id batch same
      = ({ s with
          free := Function.update s.free batch rest
          slots := s.slots.set id (freshSlot capacity id batch index same)
          bySlot := Function.update s.bySlot (cpOf capacity batch index) (some id) },
        some (freshSlot capacity id batch index same)) := by
  simp only [place, h]
  rfl

variable [LinearOrder K]

/-- What an arc looks like. -/
def SameLook (slot slot' : EdgeSlot K) : Prop :=
  slot'.color = slot.color ∧ slot'.alpha = slot.alpha ∧ slot'.hidden = slot.hidden ∧
    slot'.same = slot.same

section

variable {s : Edges K} {id : String} {slot : EdgeSlot K} (h : s.slots.get? id = some slot)
  {rate : K}
include h

theorem setRate_of_eq (hwant : want rate = slot.batch) :
    s.setRate capacity id rate
      = { s with slots := s.slots.set id { slot with rate := rate } } := by
  simp only [setRate, h, if_pos hwant]

variable (hwant : want rate ≠ slot.batch)
include hwant

/-- The slot is given back before the other mesh is asked for one. -/
theorem setRate_of_full (hfull : s.free (want rate) = []) :
    s.setRate capacity id rate = s.drop id slot := by
  have hfree : (s.drop id slot).free (want rate) = [] :=
    (Function.update_of_ne hwant _ _).trans hfull
  simp only [setRate, h, if_neg hwant, place_of_nil hfree]

/-- The other mesh has an index left, and the look goes along. -/
theorem setRate_of_cons {index : Nat} {rest : List Nat}
    (hroom : s.free (want rate) = index :: rest) :
    s.setRate capacity id rate = { s.drop id slot with
      free := Function.update (s.drop id slot).free (want rate) rest
      slots := ((s.drop id slot).slots.set id
          (freshSlot capacity id (want rate) index slot.same)).set id
        { (freshSlot capacity id (want rate) index slot.same : EdgeSlot K) with
          color := slot.color
          alpha := slot.alpha
          hidden := slot.hidden
          rate := rate }
      bySlot := Function.update (s.drop id slot).bySlot (cpOf capacity (want rate) index)
        (some id) } := by
  -- giving the old place up frees none in the batch that is wanted
  have hfree : (s.drop id slot).free (want rate) = index :: rest :=
    (Function.update_of_ne hwant _ _).trans hroom
  simp only [setRate, h, if_neg hwant, place_of_cons hfree]

end

/-- **The arc is kept**, with its look, exactly when it need not move or finds room. -/
theorem setRate_keeps_iff (capacity : Nat) {s : Edges K} {id : String} {slot : EdgeSlot K}
    (h : s.slots.get? id = some slot) (rate : K) :
    (∃ slot', (s.setRate capacity id rate).slots.get? id = some slot' ∧ SameLook slot slot') ↔
      want rate = slot.batch ∨ s.free (want rate) ≠ [] := by
  by_cases hwant : want rate = slot.batch
  · refine iff_of_true ⟨{ slot with rate := rate }, ?_, rfl, rfl, rfl, rfl⟩ (Or.inl hwant)
    rw [setRate_of_eq h hwant, OrdMap.get?_set_self]
  · cases hroom : s.free (want rate) with
    | nil =>
      -- the slot is gone before it turns out that there is no other one
      refine iff_of_false ?_ (by simp [hwant])
      rintro ⟨slot', hget, -⟩
      rw [setRate_of_full h hwant hroom] at hget
      exact absurd ((OrdMap.get?_erase_self s.slots id).symm.trans hget) (by simp)
    | cons index rest =>
      refine iff_of_true ?_ (by simp)
      rw [setRate_of_cons h hwant hroom]
      exact ⟨_, OrdMap.get?_set_self _ _ _, rfl, rfl, rfl, rfl⟩

end

/-! ## Who has which slot -/

/-- No index is lost or handed out twice, and the way back leads to whoever has the slot. -/
structure Sound {K : Type*} (capacity : Nat) (s : Edges K) : Prop where
  partition : ∀ batch, Pool.Partition capacity (s.free batch) (s.taken batch)
  slot : ∀ id slot, s.slots.get? id = some slot →
    slot.id = id ∧ slot.cp = cpOf capacity slot.batch slot.index
  bySlot : Pool.LeadsBack s.bySlot s.slots EdgeSlot.cp

/-- And only a slot that somebody has can be valid. -/
structure Consistent {K : Type*} (capacity : Nat) (s : Edges K) : Prop
    extends Sound capacity s where
  valid : ∀ cp, s.cpValid cp = true → s.bySlot cp ≠ none

/-- The two slots are the same place. -/
def SamePlace {K : Type*} (slot slot' : EdgeSlot K) : Prop :=
  slot'.id = slot.id ∧ slot'.batch = slot.batch ∧ slot'.index = slot.index ∧ slot'.cp = slot.cp

section

variable {K : Type*} {capacity : Nat} {s : Edges K} {id : String} {slot : EdgeSlot K}

/-- Slots of different meshes, or of different indices, have different numbers. -/
theorem cpOf_inj {batch batch' : Fin 3} {index index' : Nat} (h : index < capacity)
    (h' : index' < capacity) (heq : cpOf capacity batch index = cpOf capacity batch' index') :
    batch = batch' ∧ index = index' := by
  unfold cpOf at heq
  have hpos : 0 < capacity := Nat.zero_lt_of_lt h
  have hbatch : batch.val = batch'.val := by
    have hdiv := congrArg (· / capacity) heq
    simp only [Nat.add_comm _ index, Nat.add_comm _ index', Nat.add_mul_div_right _ _ hpos,
      Nat.div_eq_of_lt h, Nat.div_eq_of_lt h', Nat.zero_add] at hdiv
    exact hdiv
  exact ⟨Fin.ext hbatch, by rw [hbatch] at heq; exact Nat.add_left_cancel heq⟩

/-- The places that are taken are those of the slots. -/
theorem mem_taken {batch : Fin 3} {index : Nat} : index ∈ s.taken batch ↔
    ∃ id slot, s.slots.get? id = some slot ∧ slot.batch = batch ∧ slot.index = index := by
  simp only [taken, List.mem_map, List.mem_filter, decide_eq_true_eq, OrdMap.mem_values]
  constructor
  · rintro ⟨slot, ⟨⟨id, hget⟩, hbatch⟩, hindex⟩
    exact ⟨id, slot, hget, hbatch, hindex⟩
  · rintro ⟨id, slot, hget, hbatch, hindex⟩
    exact ⟨slot, ⟨⟨id, hget⟩, hbatch⟩, hindex⟩

/-- The indices in use when the slots come in another order. -/
theorem taken_perm (batch : Fin 3) {l : List (EdgeSlot K)} (h : s.slots.values.Perm l) :
    (s.taken batch).Perm ((l.filter fun slot => slot.batch = batch).map EdgeSlot.index) :=
  (h.filter _).map _

theorem map_filter_cons (batch : Fin 3) (slot : EdgeSlot K) (l : List (EdgeSlot K)) :
    ((slot :: l).filter fun slot => slot.batch = batch).map EdgeSlot.index
      = if slot.batch = batch then
          slot.index :: (l.filter fun slot => slot.batch = batch).map EdgeSlot.index
        else (l.filter fun slot => slot.batch = batch).map EdgeSlot.index := by
  by_cases h : slot.batch = batch <;> simp [h]

theorem Sound.index_lt (hs : s.Sound capacity) (h : s.slots.get? id = some slot) :
    slot.index < capacity :=
  (hs.partition slot.batch).lt_of_taken (mem_taken.2 ⟨id, slot, h, rfl, rfl⟩)

theorem Sound.bySlot_cp (hs : s.Sound capacity) (h : s.slots.get? id = some slot) :
    s.bySlot slot.cp = some id := (hs.bySlot slot.cp id).2 ⟨slot, h, rfl⟩

/-- The slot that an edge has is not one of the free ones. -/
theorem Sound.cp_ne (hs : s.Sound capacity) {batch : Fin 3} {index : Nat}
    (hfree : index ∈ s.free batch) (h : s.slots.get? id = some slot) :
    slot.cp ≠ cpOf capacity batch index := by
  intro heq
  have htaken : slot.index ∈ s.taken slot.batch := mem_taken.2 ⟨id, slot, h, rfl, rfl⟩
  rw [(hs.slot id slot h).2] at heq
  obtain ⟨hbatch, hindex⟩ := cpOf_inj (hs.index_lt h) ((hs.partition batch).lt_of_free hfree) heq
  rw [hbatch, hindex] at htaken
  exact (hs.partition batch).not_taken hfree htaken

theorem Sound.bySlot_of_free (hs : s.Sound capacity) {batch : Fin 3} {index : Nat}
    (hfree : index ∈ s.free batch) : s.bySlot (cpOf capacity batch index) = none := by
  cases h : s.bySlot (cpOf capacity batch index) with
  | none => rfl
  | some id =>
    obtain ⟨slot, hget, hcp⟩ := (hs.bySlot _ id).1 h
    exact absurd hcp (hs.cp_ne hfree hget)

/-- The control points have no part in it. -/
theorem Sound.congr {s' : Edges K} (hs : s.Sound capacity) (hslots : s'.slots = s.slots)
    (hby : s'.bySlot = s.bySlot) (hfree : s'.free = s.free) : s'.Sound capacity where
  partition batch := by
    rw [taken, hslots, hfree]
    exact hs.partition batch
  slot := by
    rw [hslots]
    exact hs.slot
  bySlot := by
    rw [hslots, hby]
    exact hs.bySlot

/-- The look of a slot can change. -/
theorem Sound.set (hs : s.Sound capacity) (h : s.slots.get? id = some slot) {slot' : EdgeSlot K}
    (hsame : SamePlace slot slot') : Sound capacity { s with slots := s.slots.set id slot' } := by
  obtain ⟨hid, hbatch, hindex, hcp⟩ := hsame
  constructor
  case partition =>
    intro batch
    apply (hs.partition batch).congr
    -- without the slot of the edge, both have the same ones
    have hold := taken_perm batch (OrdMap.values_erase_perm h)
    have hnew := taken_perm (s := { s with slots := s.slots.set id slot' }) batch
      (OrdMap.values_set_perm s.slots id slot')
    rw [map_filter_cons] at hold hnew
    rw [hbatch, hindex] at hnew
    exact hnew.trans hold.symm
  case slot =>
    intro id' slot'' hget
    rcases OrdMap.get?_set_eq_some.1 hget with ⟨rfl, rfl⟩ | ⟨-, hget⟩
    · rw [hid, hbatch, hindex, hcp]
      exact hs.slot _ slot h
    · exact hs.slot id' slot'' hget
  case bySlot => exact hs.bySlot.set_same h hcp

theorem Sound.modify (hs : s.Sound capacity) (id : String) {f : EdgeSlot K → EdgeSlot K}
    (hsame : ∀ slot, SamePlace slot (f slot)) :
    Sound capacity { s with slots := s.slots.modify id f } := by
  unfold OrdMap.modify
  cases h : s.slots.get? id with
  | none => exact hs
  | some slot => exact hs.set h (hsame slot)

/-- A slot that is given back is on top of the free ones. -/
theorem Sound.drop (hs : s.Sound capacity) (h : s.slots.get? id = some slot) :
    (s.drop id slot).Sound capacity := by
  constructor
  case partition =>
    intro batch
    have hperm := taken_perm batch (OrdMap.values_erase_perm h)
    rw [map_filter_cons] at hperm
    show Pool.Partition capacity (Function.update s.free slot.batch _ batch) _
    by_cases hbatch : slot.batch = batch
    · -- its index goes over from the ones in use
      subst hbatch
      rw [Function.update_self]
      rw [if_pos rfl] at hperm
      exact ((hs.partition slot.batch).congr hperm.symm).give
    · rw [Function.update_of_ne (Ne.symm hbatch)]
      rw [if_neg hbatch] at hperm
      exact (hs.partition batch).congr hperm.symm
  case slot =>
    intro id' slot' hget
    exact hs.slot id' slot' (OrdMap.get?_erase_eq_some.1 hget).2
  case bySlot => exact hs.bySlot.erase h

theorem Sound.setSameSlot (hs : s.Sound capacity) (same : String → String → Bool)
    (edges : OrdMap String EdgeState) (slot : EdgeSlot K) :
    (setSameSlot same edges s slot).Sound capacity := by
  unfold Edges.setSameSlot
  split
  · exact hs
  · next e _ =>
    exact (hs.modify slot.id (f := fun slot => { slot with same := same e.src e.dst })
      fun _ => ⟨rfl, rfl, rfl, rfl⟩).congr rfl rfl rfl

end

section

variable {K : Type*} [Field K] {capacity : Nat} {s : Edges K} {id : String}

theorem sound_new : (new capacity : Edges K).Sound capacity where
  partition _ := Pool.partition_range capacity
  slot id slot h := by simp [new] at h
  bySlot := Pool.leadsBack_empty

/-- An edge without a slot takes the one on top of the free ones. -/
theorem Sound.place (hs : s.Sound capacity) (hnew : id ∉ s.slots) (batch : Fin 3) (same : Bool) :
    (s.place capacity id batch same).1.Sound capacity := by
  cases hfree : s.free batch with
  | nil =>
    rw [place_of_nil hfree]
    exact hs
  | cons index rest =>
    rw [place_of_cons hfree]
    have htop : index ∈ s.free batch := by
      rw [hfree]
      exact List.mem_cons_self
    constructor
    case partition =>
      intro batch'
      have hperm := ((OrdMap.values_set_perm_of_not_mem hnew
        (freshSlot capacity id batch index same)).filter fun slot => slot.batch = batch').map
          EdgeSlot.index
      rw [map_filter_cons, show (freshSlot capacity id batch index same : EdgeSlot K).batch = batch
        from rfl] at hperm
      show Pool.Partition capacity (Function.update s.free batch rest batch') _
      by_cases hbatch : batch = batch'
      · -- the index goes over to the ones in use
        subst hbatch
        rw [if_pos rfl] at hperm
        rw [Function.update_self]
        have htake := hs.partition batch
        rw [hfree] at htake
        exact htake.take.congr hperm
      · rw [if_neg hbatch] at hperm
        rw [Function.update_of_ne (Ne.symm hbatch)]
        exact (hs.partition batch').congr hperm
    case slot =>
      intro id' slot' hget
      rcases OrdMap.get?_set_eq_some.1 hget with ⟨rfl, rfl⟩ | ⟨-, hget⟩
      · exact ⟨rfl, rfl⟩
      · exact hs.slot id' slot' hget
    case bySlot =>
      exact hs.bySlot.set_new (v := freshSlot capacity id batch index same) hnew
        fun id' slot' hget => hs.cp_ne htop hget

variable [LinearOrder K]

/-- A move gives the slot back before it takes another one. -/
theorem Sound.setRate (hs : s.Sound capacity) (id : String) (rate : K) :
    (s.setRate capacity id rate).Sound capacity := by
  unfold Edges.setRate
  cases h : s.slots.get? id with
  | none => exact hs
  | some slot =>
    simp only
    split
    · exact hs.set h ⟨rfl, rfl, rfl, rfl⟩
    · have hnew : id ∉ (s.drop id slot).slots := by simp [Edges.drop, Edges.clear]
      -- the old place is given up and a new one taken; all that is written then is what is shown
      have hplace := (hs.drop h).place hnew (Edges.want rate) slot.same
      cases hroom : (s.drop id slot).free (Edges.want rate) with
      | nil =>
        rw [place_of_nil hroom]
        exact hs.drop h
      | cons index rest =>
        rw [place_of_cons hroom] at hplace ⊢
        exact hplace.set (OrdMap.get?_set_self _ _ _) ⟨rfl, rfl, rfl, rfl⟩

/-- **Every call keeps the pools**, and the way back. -/
theorem Sound.call (hs : s.Sound capacity) (c : Call K) : (s.call capacity c).Sound capacity := by
  cases c with
  | add id same =>
    rw [Edges.call, Edges.add]
    split
    · exact hs
    · next hnew => exact hs.place hnew 0 same
  | remove id =>
    rw [Edges.call, Edges.remove]
    cases h : s.slots.get? id with
    | none => exact hs
    | some slot => exact hs.drop h
  | setRate id rate => exact hs.setRate id rate
  | setSame same edges =>
    exact Loop.foldl_keeps (J := Sound capacity) (fun _ slot h => h.setSameSlot same edges slot) hs
  | setColor id color alpha => exact hs.modify id fun _ => ⟨rfl, rfl, rfl, rfl⟩
  | setHidden id h => exact hs.modify id fun _ => ⟨rfl, rfl, rfl, rfl⟩

/-- **A mesh is sound after any calls.** -/
theorem sound_run (calls : List (Call K)) :
    (calls.foldl (Edges.call capacity) (new capacity)).Sound capacity :=
  Loop.foldl_keeps (fun _ c hs => hs.call c) sound_new

end

/-! ## Which slots are valid -/

section

variable {K : Type*} {s : Edges K} {id : String} {slot : EdgeSlot K}

/-- What a call leaves of the slots that are valid: none becomes valid, and none that stays valid
changes hands. -/
def Keeps (s s' : Edges K) : Prop :=
  ∀ cp, s'.cpValid cp = true → s.cpValid cp = true ∧ s'.bySlot cp = s.bySlot cp

theorem Keeps.refl (s : Edges K) : s.Keeps s := fun _ h => ⟨h, rfl⟩

theorem Keeps.trans {s s' s'' : Edges K} (h : s.Keeps s') (h' : s'.Keeps s'') : s.Keeps s'' := by
  intro cp hcp
  obtain ⟨hv, hb⟩ := h' cp hcp
  obtain ⟨hv', hb'⟩ := h cp hv
  exact ⟨hv', hb.trans hb'⟩

theorem Consistent.of_keeps {capacity : Nat} {s' : Edges K} (hs : s.Consistent capacity)
    (hkeeps : s.Keeps s') (hsound : s'.Sound capacity) : s'.Consistent capacity where
  toSound := hsound
  valid cp hv := by
    obtain ⟨hv, hb⟩ := hkeeps cp hv
    rw [hb]
    exact hs.valid cp hv

theorem free_drop (batch : Fin 3) : (s.drop id slot).free batch
    = if batch = slot.batch then slot.index :: s.free slot.batch else s.free batch :=
  Function.update_apply _ _ _ _

theorem cpValid_drop (cp : Nat) :
    (s.drop id slot).cpValid cp = if cp = slot.cp then false else s.cpValid cp :=
  Function.update_apply _ _ _ _

theorem bySlot_drop (cp : Nat) :
    (s.drop id slot).bySlot cp = if cp = slot.cp then none else s.bySlot cp :=
  Function.update_apply _ _ _ _

theorem keeps_drop : s.Keeps (s.drop id slot) := by
  intro cp h
  rw [cpValid_drop] at h
  rw [bySlot_drop]
  split at h
  · cases h
  · next hcp => exact ⟨h, if_neg hcp⟩

/-- Relabelling keeps the lines. -/
theorem keeps_setSameSlot (s : Edges K) (same : String → String → Bool)
    (edges : OrdMap String EdgeState) (slot : EdgeSlot K) :
    s.Keeps (setSameSlot same edges s slot) := by
  unfold setSameSlot
  split
  · exact Keeps.refl s
  · intro cp h
    replace h : Function.update s.cpValid slot.cp false cp = true := h
    rw [Function.update_apply] at h
    split at h
    · cases h
    · exact ⟨h, rfl⟩

end

section

variable {K : Type*} [Field K] {capacity : Nat} {s : Edges K} {id : String} {batch : Fin 3}
  {same : Bool}

theorem keeps_place (hs : s.Consistent capacity) :
    s.Keeps (s.place capacity id batch same).1 := by
  cases h : s.free batch with
  | nil =>
    rw [place_of_nil h]
    exact Keeps.refl s
  | cons index rest =>
    rw [place_of_cons h]
    intro cp hv
    refine ⟨hv, Function.update_of_ne ?_ _ _⟩
    -- a valid slot is in use, and the one that is taken was free
    rintro rfl
    exact hs.valid _ hv (hs.bySlot_of_free (h ▸ List.mem_cons_self))

/-- A new edge takes an index of the first mesh. -/
theorem add_of_cons (hnew : id ∉ s.slots) {index : Nat} {rest : List Nat}
    (h : s.free 0 = index :: rest) (same : Bool) : s.add capacity id same
      = { s with
          free := Function.update s.free 0 rest
          slots := s.slots.set id (freshSlot capacity id 0 index same)
          bySlot := Function.update s.bySlot (cpOf capacity 0 index) (some id) } := by
  rw [add, if_neg hnew, place_of_cons h]

theorem get?_add (hnew : id ∉ s.slots) {index : Nat} {rest : List Nat}
    (h : s.free 0 = index :: rest) (same : Bool) :
    (s.add capacity id same).slots.get? id = some (freshSlot capacity id 0 index same) := by
  rw [add_of_cons hnew h same, OrdMap.get?_set_self]

/-- **The slot given back last is handed out first**, and it is not valid. -/
theorem add_remove (hs : s.Sound capacity) {slot : EdgeSlot K}
    (h : s.slots.get? id = some slot) (hbatch : slot.batch = 0) {id' : String}
    (hnew : id' ∉ s.slots) (same : Bool) :
    ((s.remove id).add capacity id' same).bySlot slot.cp = some id' ∧
      ((s.remove id).add capacity id' same).cpValid slot.cp = false := by
  have hremove : s.remove id = s.drop id slot := by
    rw [remove, h]
  have hnew' : id' ∉ (s.drop id slot).slots := fun hmem => hnew (OrdMap.mem_erase.1 hmem).2
  -- the place that was given up is the first that is free
  have hfree : (s.drop id slot).free 0 = slot.index :: s.free slot.batch := by
    rw [free_drop, if_pos hbatch.symm]
  have hcp : slot.cp = cpOf capacity 0 slot.index := by
    rw [(hs.slot id slot h).2, hbatch]
  rw [hremove, add_of_cons hnew' hfree same]
  constructor
  · exact (Function.update_apply _ _ _ _).trans (if_pos hcp)
  · exact (cpValid_drop slot.cp).trans (if_pos rfl)

@[simp] theorem slots_new : (new capacity : Edges K).slots = ∅ := by rw [new]

@[simp] theorem bySlot_new (cp : Nat) : (new capacity : Edges K).bySlot cp = none := by rw [new]

@[simp] theorem cpValid_new (cp : Nat) : (new capacity : Edges K).cpValid cp = false := by
  rw [new]

theorem consistent_new : (new capacity : Edges K).Consistent capacity where
  toSound := sound_new
  valid := by simp

end

/-! ### What a call leaves -/

section

variable {K : Type*} [Field K] [LinearOrder K] {capacity : Nat} {s : Edges K}

/-- A move is a slot given back and another one taken. -/
theorem keeps_setRate (hs : s.Consistent capacity) (id : String) (rate : K) :
    s.Keeps (s.setRate capacity id rate) := by
  cases h : s.slots.get? id with
  | none =>
    rw [setRate, h]
    exact Keeps.refl s
  | some slot =>
    by_cases hwant : want rate = slot.batch
    · rw [setRate_of_eq h hwant]
      exact Keeps.refl s
    · cases hroom : s.free (want rate) with
      | nil =>
        rw [setRate_of_full h hwant hroom]
        exact keeps_drop
      | cons index rest =>
        -- the arc is dropped and placed anew, and both keep the lines
        have hdrop : (s.drop id slot).Consistent capacity :=
          hs.of_keeps keeps_drop (hs.toSound.drop h)
        have hfree : (s.drop id slot).free (want rate) = index :: rest :=
          (Function.update_of_ne hwant _ _).trans hroom
        have hplace : (s.drop id slot).Keeps
            ((s.drop id slot).place capacity id (want rate) slot.same).1 := keeps_place hdrop
        rw [place_of_cons hfree] at hplace
        rw [setRate_of_cons h hwant hroom]
        exact keeps_drop.trans hplace

/-- **No call makes a slot valid**, or gives one that is valid to another edge. -/
theorem keeps_call (hs : s.Consistent capacity) (c : Call K) :
    s.Keeps (s.call capacity c) ∧ (s.call capacity c).Consistent capacity := by
  have hkeeps : s.Keeps (s.call capacity c) := by
    cases c with
    | add id same =>
      rw [call, add]
      split
      · exact Keeps.refl s
      · exact keeps_place hs
    | remove id =>
      rw [call, remove]
      cases s.slots.get? id with
      | none => exact Keeps.refl s
      | some slot => exact keeps_drop
    | setRate id rate => exact keeps_setRate hs id rate
    | setSame same edges =>
      exact Loop.foldl_keeps (J := s.Keeps)
        (fun s' slot h => h.trans (keeps_setSameSlot s' same edges slot)) (Keeps.refl s)
    -- colour and hiding are no lines
    | setColor id color alpha => exact Keeps.refl s
    | setHidden id h => exact Keeps.refl s
  exact ⟨hkeeps, hs.of_keeps hkeeps (hs.toSound.call c)⟩

end

/-! ### What the end of a frame makes valid -/

section

variable {K : Type*}

/-- The edge is known, and both its nodes have a place. -/
def Placed (edges : OrdMap String EdgeState) (positionOf : String → Option (Vec3 K))
    (id : String) : Prop :=
  ∃ e, edges.get? id = some e ∧ positionOf e.src ≠ none ∧ positionOf e.dst ≠ none

variable [Field K] (M : Math K) (edges : OrdMap String EdgeState)
  (positionOf : String → Option (Vec3 K)) (moving : Bool)

/-- A round of `update` moves no arc. -/
theorem updateSlot_frame (s : Edges K) (slot : EdgeSlot K) :
    (updateSlot M edges positionOf moving s slot).slots = s.slots ∧
      (updateSlot M edges positionOf moving s slot).bySlot = s.bySlot ∧
      (updateSlot M edges positionOf moving s slot).free = s.free := by
  unfold updateSlot
  split
  · exact ⟨rfl, rfl, rfl⟩
  · split
    · split <;> exact ⟨rfl, rfl, rfl⟩
    · exact ⟨rfl, rfl, rfl⟩

theorem update_frame (s : Edges K) : (s.update M edges positionOf moving).slots = s.slots ∧
    (s.update M edges positionOf moving).bySlot = s.bySlot ∧
    (s.update M edges positionOf moving).free = s.free := by
  refine Loop.foldl_keeps (J := fun s' : Edges K => s'.slots = s.slots ∧
    s'.bySlot = s.bySlot ∧ s'.free = s.free) (fun s' slot h => ?_) ⟨rfl, rfl, rfl⟩
  obtain ⟨hslots, hby, hfree⟩ := updateSlot_frame M edges positionOf moving s' slot
  exact ⟨hslots.trans h.1, hby.trans h.2.1, hfree.trans h.2.2⟩

/-- An edge between two nodes that have a place makes its slot valid, unless it is. -/
theorem cpValid_updateSlot (s : Edges K) (slot : EdgeSlot K) (cp : Nat) :
    (updateSlot M edges positionOf moving s slot).cpValid cp = true ↔
      s.cpValid cp = true ∨ slot.cp = cp ∧ Placed edges positionOf slot.id := by
  unfold updateSlot Placed
  cases he : edges.get? slot.id with
  | none => simp
  | some e =>
    by_cases hmust : moving ∨ s.cpValid slot.cp = false
    · cases ha : positionOf e.src with
      | none => simp [hmust, ha]
      | some a =>
        cases hb : positionOf e.dst with
        | none => simp [hmust, ha, hb]
        | some b =>
          by_cases hcp : slot.cp = cp
          · subst hcp
            simp [hmust, ha, hb]
          · simp [hmust, ha, hb, hcp, Function.update_of_ne (Ne.symm hcp)]
    · -- nothing moves and the slot is valid
      simp only [not_or, Bool.not_eq_false] at hmust
      have hcp : slot.cp = cp → s.cpValid cp = true := fun h => h ▸ hmust.2
      simp only [hmust, Bool.true_eq_false]
      tauto

theorem cpValid_foldl_updateSlot (l : List (EdgeSlot K)) (s : Edges K) (cp : Nat) :
    (l.foldl (updateSlot M edges positionOf moving) s).cpValid cp = true ↔
      s.cpValid cp = true ∨ ∃ slot ∈ l, slot.cp = cp ∧ Placed edges positionOf slot.id := by
  induction l generalizing s with
  | nil => simp
  | cons slot rest ih =>
    rw [List.foldl_cons, ih, cpValid_updateSlot, List.exists_mem_cons_iff, or_assoc]

/-- **The slots that are valid after it** were so before, or belong to an edge between two nodes
that have a place. -/
theorem cpValid_update {capacity : Nat} {s : Edges K} (hs : s.Sound capacity) (cp : Nat) :
    (s.update M edges positionOf moving).cpValid cp = true ↔
      s.cpValid cp = true ∨ ∃ id, s.bySlot cp = some id ∧ Placed edges positionOf id := by
  refine (cpValid_foldl_updateSlot M edges positionOf moving _ s cp).trans (or_congr_right ?_)
  constructor
  · rintro ⟨slot, hmem, rfl, hplaced⟩
    obtain ⟨id, hget⟩ := OrdMap.mem_values.1 hmem
    exact ⟨id, hs.bySlot_cp hget, (hs.slot id slot hget).1 ▸ hplaced⟩
  · rintro ⟨id, hby, hplaced⟩
    obtain ⟨slot, hget, hcp⟩ := (hs.bySlot cp id).1 hby
    exact ⟨slot, OrdMap.mem_values_of_get? hget, hcp, (hs.slot id slot hget).1.symm ▸ hplaced⟩

/-- `update` keeps the mesh consistent. -/
theorem Consistent.update {capacity : Nat} {s : Edges K} (hs : s.Consistent capacity) :
    (s.update M edges positionOf moving).Consistent capacity := by
  obtain ⟨hslots, hby, hfree⟩ := update_frame M edges positionOf moving s
  refine ⟨hs.toSound.congr hslots hby hfree, fun cp hv => ?_⟩
  rw [hby]
  rcases (cpValid_update M edges positionOf moving hs.toSound cp).1 hv with hv | ⟨id, hid, -⟩
  · exact hs.valid cp hv
  · rw [hid]
    exact Option.some_ne_none id

end

/-! ## A full mesh -/

theorem want_five : want (5 : ℚ) = 1 := by
  norm_num [want]

theorem want_five_ne (id : String) (index : Nat) (same : Bool) :
    want (5 : ℚ) ≠ (freshSlot capacity id 0 index same : EdgeSlot ℚ).batch := by
  rw [want_five]
  exact Fin.zero_ne_one.symm

section

variable {s : Edges ℚ} {id : String} (hnew : id ∉ s.slots) {index : Nat} {rest : List Nat}
  (h : s.free 0 = index :: rest)
include hnew h

/-- A new edge gives its index back and takes one of the second mesh, -/
theorem add_setRate {index' : Nat} {rest' : List Nat} (h' : s.free 1 = index' :: rest') :
    ((s.add capacity id false).setRate capacity id 5).free 0 = s.free 0 ∧
      ((s.add capacity id false).setRate capacity id 5).free 1 = rest' ∧
      ∀ id', id' ∈ ((s.add capacity id false).setRate capacity id 5).slots ↔
        id' = id ∨ id' ∈ s.slots := by
  have hroom : (s.add capacity id false).free (want (5 : ℚ)) = index' :: rest' := by
    rw [want_five, add_of_cons hnew h false]
    exact h'
  rw [setRate_of_cons (get?_add hnew h false) (want_five_ne id index false) hroom, want_five,
    add_of_cons hnew h false]
  -- the place in the first batch is free again, the one in the second is taken
  refine ⟨?_, ?_, fun id' => ?_⟩
  · simp [drop, clear, freshSlot, h]
  · simp
  · simp only [drop, clear, OrdMap.mem_set, OrdMap.mem_erase]
    tauto

/-- and is gone when there is none left. -/
theorem add_setRate_of_full (h' : s.free 1 = []) :
    ((s.add capacity id false).setRate capacity id 5).slots.get? id = none := by
  have hfull : (s.add capacity id false).free (want (5 : ℚ)) = [] := by
    rw [want_five, add_of_cons hnew h false]
    exact h'
  rw [setRate_of_full (get?_add hnew h false) (want_five_ne id index false) hfull]
  exact OrdMap.get?_erase_self _ _

end

theorem exists_range_capacity : ∃ rest, List.range capacity = 0 :: rest := by
  have hpos : 0 < capacity := by decide
  obtain ⟨n, hn⟩ := Nat.exists_eq_succ_of_ne_zero hpos.ne'
  rw [hn]
  exact ⟨_, List.range_succ_eq_map⟩

/-- An edge by itself finds room. -/
theorem setRate_keeps_first : ∃ slot',
    (((new capacity).add capacity "e" false).setRate capacity "e" (5 : ℚ)).slots.get? "e"
      = some slot' ∧ SameLook (freshSlot capacity "e" 0 0 false) slot' := by
  obtain ⟨rest, hrange⟩ := exists_range_capacity
  have hfree : ∀ b, (new capacity : Edges ℚ).free b = 0 :: rest := fun b =>
    (free_new b).trans hrange
  have hnew : "e" ∉ (new capacity : Edges ℚ).slots := OrdMap.not_mem_empty "e"
  -- adding takes from the first batch only
  have hroom : ((new capacity : Edges ℚ).add capacity "e" false).free (want (5 : ℚ))
      = 0 :: rest := by
    rw [want_five, add_of_cons hnew (hfree 0) false]
    simp only [Function.update_of_ne Fin.zero_ne_one.symm, hfree]
  refine (setRate_keeps_iff capacity (get?_add hnew (hfree 0) false) 5).2 (Or.inr ?_)
  rw [hroom]
  exact List.cons_ne_nil 0 rest

/-- One edge after the other, each of a rate that calls for the second width. -/
def busy (n : Nat) : List (Call ℚ) :=
  (List.range n).flatMap fun i => [.add (toString i) false, .setRate (toString i) 5]

/-- The arcs after them. -/
def filled (n : Nat) : Edges ℚ := (busy n).foldl (call capacity) (new capacity)

theorem filled_succ (n : Nat) : filled (n + 1)
    = ((filled n).add capacity (toString n) false).setRate capacity (toString n) 5 := by
  rw [filled, busy, List.range_succ, List.flatMap_append, List.foldl_append]
  rfl

/-- The first mesh has all its indices back each time, and the second one has lost one more. -/
theorem free_filled {n : Nat} (hn : n ≤ capacity) :
    (filled n).free 0 = List.range capacity ∧
      (filled n).free 1 = (List.range capacity).drop n ∧
      ∀ id ∈ (filled n).slots, ∃ i < n, id = toString i := by
  induction n with
  | zero =>
    have hzero : filled 0 = new capacity := rfl
    rw [hzero, List.drop_zero]
    exact ⟨free_new 0, free_new 1, fun id h => absurd h (OrdMap.not_mem_empty id)⟩
  | succ n ih =>
    obtain ⟨h0, h1, hslots⟩ := ih (by omega)
    have hnew : toString n ∉ (filled n).slots := by
      intro hmem
      obtain ⟨i, hi, heq⟩ := hslots _ hmem
      exact absurd (Text.eq_of_toString_eq heq) (by omega)
    obtain ⟨rest, hrange⟩ := exists_range_capacity
    -- the stack of the second mesh has the indices from `n` on
    have hdrop : (List.range capacity).drop n = n :: (List.range capacity).drop (n + 1) := by
      rw [List.drop_eq_getElem_cons (by rw [List.length_range]; exact hn), List.getElem_range]
    obtain ⟨h0', h1', hmem⟩ := add_setRate hnew (h0.trans hrange) (h1.trans hdrop)
    rw [filled_succ]
    refine ⟨h0'.trans h0, h1', fun id hid => ?_⟩
    rcases (hmem id).1 hid with rfl | hid
    · exact ⟨n, Nat.lt_succ_self n, rfl⟩
    · obtain ⟨i, hi, heq⟩ := hslots id hid
      exact ⟨i, Nat.lt_succ_of_lt hi, heq⟩

/-- The edge after the last one that the second mesh has room for is not drawn any more. -/
theorem not_setRate_keeps : ¬ ∀ (calls : List (Call ℚ)) (id : String) (slot : EdgeSlot ℚ)
    (rate : ℚ), (calls.foldl (call capacity) (new capacity)).slots.get? id = some slot →
      ∃ slot', ((calls.foldl (call capacity) (new capacity)).setRate capacity id rate).slots.get? id
        = some slot' ∧ SameLook slot slot' := by
  intro h
  obtain ⟨h0, h1, hslots⟩ := free_filled (Nat.le_refl capacity)
  have hnew : toString capacity ∉ (filled capacity).slots := by
    intro hmem
    obtain ⟨i, hi, heq⟩ := hslots _ hmem
    exact absurd (Text.eq_of_toString_eq heq) (by omega)
  obtain ⟨rest, hrange⟩ := exists_range_capacity
  have hfull : (filled capacity).free 1 = [] := by
    rw [h1]
    exact List.drop_eq_nil_of_le (by rw [List.length_range])
  -- one more is added: the first mesh has room for it, and the second one has none
  have hlast : (busy capacity ++ [Call.add (toString capacity) false]).foldl (call capacity)
      (new capacity) = (filled capacity).add capacity (toString capacity) false := by
    rw [List.foldl_concat, call, filled]
  have hkept := h (busy capacity ++ [Call.add (toString capacity) false]) (toString capacity)
    (freshSlot capacity (toString capacity) 0 0 false) 5
  rw [hlast] at hkept
  obtain ⟨slot', hget, -⟩ := hkept (get?_add hnew (h0.trans hrange) false)
  rw [add_setRate_of_full hnew (h0.trans hrange) hfull] at hget
  cases hget

end Edges

end Flowscape
