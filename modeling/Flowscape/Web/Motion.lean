import Flowscape.Web.PageRuns

/-!
# Flowscape: nodes on their way, and the arcs between them

Every frame moves a node by a share of what is left of its way. The control points of an arc follow
the nodes at its ends only while the layout is said to be moving, for a second and a half after a
change; from then on they are written once, when the arc gets another slot. What is left of the way
by then bounds how far an arc ends from its nodes later on. The bound is one on exact numbers: the
source keeps positions and control points as `float32`.
-/

namespace Flowscape

/-! ## Arcs under calls and updates -/

namespace Edges

section

variable {K : Type*} {P : String → Arc K → Prop} {s : Edges K}

/-- What holds of the control points of every slot that is valid. -/
def EveryArc (P : String → Arc K → Prop) (s : Edges K) : Prop :=
  ∀ cp id, s.cpValid cp = true → s.bySlot cp = some id → P id (s.controlPoints cp)

theorem EveryArc.of_keeps {s' : Edges K} (h : s.EveryArc P) (hkeeps : s.Keeps s')
    (hpoints : s'.controlPoints = s.controlPoints) : s'.EveryArc P := by
  intro cp id hvalid hby
  obtain ⟨hv, hb⟩ := hkeeps cp hvalid
  rw [hpoints]
  exact h cp id hv (hb ▸ hby)

theorem controlPoints_place [Field K] (capacity : Nat) (s : Edges K) (id : String)
    (batch : Fin 3) (same : Bool) :
    (s.place capacity id batch same).1.controlPoints = s.controlPoints := by
  unfold place
  split <;> rfl

variable [Field K] [LinearOrder K] {capacity : Nat}

/-- Only `update` writes control points. -/
theorem controlPoints_call (s : Edges K) (c : Call K) :
    (s.call capacity c).controlPoints = s.controlPoints := by
  cases c with
  | add id same =>
    rw [call, add]
    split
    · rfl
    · exact controlPoints_place capacity s id 0 same
  | remove id =>
    rw [call, remove]
    split <;> rfl
  -- an arc that moves to another batch is drawn anew later, by `update`
  | setRate id rate =>
    rw [call]
    cases h : s.slots.get? id with
    | none => rw [setRate, h]
    | some slot =>
      by_cases hwant : want rate = slot.batch
      · rw [setRate_of_eq h hwant]
      · cases hroom : s.free (want rate) with
        | nil => rw [setRate_of_full h hwant hroom]; rfl
        | cons index rest => rw [setRate_of_cons h hwant hroom]; rfl
  | setSame same edges =>
    refine Loop.foldl_keeps (J := fun s' : Edges K => s'.controlPoints = s.controlPoints)
      (fun s' slot h => ?_) rfl
    unfold setSameSlot
    split <;> exact h
  | setColor id color alpha => rfl
  | setHidden id h => rfl

theorem EveryArc.call (hs : s.Consistent capacity) (h : s.EveryArc P) (c : Call K) :
    (s.call capacity c).EveryArc P := h.of_keeps (keeps_call hs c).1 (controlPoints_call s c)

end

section

variable {K : Type*} {capacity : Nat} {s : Edges K}

theorem Sound.bySlot_values (hs : s.Sound capacity) :
    ∀ slot ∈ s.slots.values, s.bySlot slot.cp = some slot.id := by
  intro slot hslot
  obtain ⟨id, hget⟩ := OrdMap.mem_values.1 hslot
  rw [hs.bySlot_cp hget, (hs.slot id slot hget).1]

/-- No two arcs have the same control points. -/
theorem Sound.nodup_cp (hs : s.Sound capacity) : (s.slots.values.map EdgeSlot.cp).Nodup := by
  have hids : s.slots.values.map EdgeSlot.id = s.slots.keys :=
    OrdMap.map_values_eq_keys fun id slot h => (hs.slot id slot h).1
  apply List.Nodup.of_map s.bySlot
  have hmap : (s.slots.values.map EdgeSlot.cp).map s.bySlot = s.slots.keys.map some := by
    rw [← hids, List.map_map, List.map_map]
    exact List.map_congr_left hs.bySlot_values
  rw [hmap]
  exact s.slots.nodup.map (Option.some_injective _)

end

section

variable {K : Type*} {P : String → Arc K → Prop} {s : Edges K} [Field K]
  {M : Math K} {edges : OrdMap String EdgeState} {positionOf : String → Option (Vec3 K)}
  {moving : Bool} {capacity : Nat}

/-- An arc between two nodes that have a place. -/
def Spans (edges : OrdMap String EdgeState) (positionOf : String → Option (Vec3 K)) (id : String)
    (arc : Arc K) : Prop :=
  ∃ e, edges.get? id = some e ∧ positionOf e.src = some arc.p0 ∧ positionOf e.dst = some arc.p1

/-- What holds of an arc between the places of its ends holds on after its slot is looked at. -/
theorem EveryArc.updateSlot (hspan : ∀ id arc, Spans edges positionOf id arc → P id arc)
    (h : s.EveryArc P) {slot : EdgeSlot K} (hslot : s.bySlot slot.cp = some slot.id) :
    (updateSlot M edges positionOf moving s slot).EveryArc P := by
  unfold Edges.updateSlot
  cases he : edges.get? slot.id with
  | none => exact h
  | some e =>
    dsimp only
    split
    · split
      · next a b ha hb =>
        intro cp id hvalid hby
        -- the arc of this round is drawn from its ends; the others stay
        by_cases hcp : cp = slot.cp
        · subst hcp
          obtain rfl : slot.id = id := Option.some.inj (hslot.symm.trans hby)
          dsimp only
          rw [Function.update_self]
          exact hspan _ _ ⟨e, he, ha, hb⟩
        · dsimp only
          rw [Function.update_of_ne hcp]
          exact h cp id ((Function.update_of_ne hcp _ _).symm.trans hvalid) hby
      · exact h
    · exact h

/-- Rounds on arcs leave what holds of every arc drawn between its ends. -/
theorem EveryArc.foldl_updateSlot (hspan : ∀ id arc, Spans edges positionOf id arc → P id arc)
    {l : List (EdgeSlot K)} (h : s.EveryArc P)
    (hl : ∀ slot ∈ l, s.bySlot slot.cp = some slot.id) :
    (l.foldl (Edges.updateSlot M edges positionOf moving) s).EveryArc P := by
  induction l generalizing s with
  | nil => exact h
  | cons slot rest ih =>
    apply ih (h.updateSlot hspan (hl slot List.mem_cons_self))
    intro slot' hslot'
    rw [(updateSlot_frame M edges positionOf moving s slot).2.1]
    exact hl slot' (List.mem_cons_of_mem slot hslot')

theorem EveryArc.update (hs : s.Sound capacity)
    (hspan : ∀ id arc, Spans edges positionOf id arc → P id arc) (h : s.EveryArc P) :
    (s.update M edges positionOf moving).EveryArc P :=
  h.foldl_updateSlot hspan hs.bySlot_values

/-- The control points that a slot gets while the layout moves. -/
def redrawn (M : Math K) (edges : OrdMap String EdgeState)
    (positionOf : String → Option (Vec3 K)) (slot : EdgeSlot K) (old : Arc K) : Arc K :=
  match edges.get? slot.id with
  | none => old
  | some e => match positionOf e.src, positionOf e.dst with
    | some a, some b => ⟨a, Layout.control M a b slot.same, b⟩
    | _, _ => old

/-- Each round draws its own arc. -/
theorem updateSlot_writes : Loop.WritesOwn (fun _ => True)
    (fun (s : Edges K) cp => s.controlPoints cp) EdgeSlot.cp (redrawn M edges positionOf)
    (Edges.updateSlot M edges positionOf true) where
  keeps _ _ h := h
  own s slot _ := by
    unfold Edges.updateSlot redrawn
    cases edges.get? slot.id with
    | none => rfl
    | some e =>
      dsimp only
      rw [if_pos (Or.inl rfl)]
      cases positionOf e.src with
      | none => rfl
      | some a =>
        cases positionOf e.dst with
        | none => rfl
        | some b => exact Function.update_self _ _ _
  other s slot cp _ hne := by
    unfold Edges.updateSlot
    cases edges.get? slot.id with
    | none => rfl
    | some e =>
      dsimp only
      rw [if_pos (Or.inl rfl)]
      split
      · exact Function.update_of_ne hne _ _
      · rfl

/-- **While the layout moves, every arc is drawn where its ends are.** -/
theorem everyArc_update (hs : s.Sound capacity)
    (hspan : ∀ id arc, Spans edges positionOf id arc → P id arc)
    (hnot : ∀ id ∈ s.slots, ∀ arc, ¬ Placed edges positionOf id → P id arc) :
    (s.update M edges positionOf true).EveryArc P := by
  intro cp id hvalid hby
  rw [(update_frame M edges positionOf true s).2.1] at hby
  obtain ⟨slot, hslot, rfl⟩ := (hs.bySlot cp id).1 hby
  by_cases hplaced : Placed edges positionOf id
  · obtain ⟨e, he, hsrc, hdst⟩ := hplaced
    obtain ⟨a, ha⟩ := Option.ne_none_iff_exists'.1 hsrc
    obtain ⟨b, hb⟩ := Option.ne_none_iff_exists'.1 hdst
    have hid : slot.id = id := (hs.slot id slot hslot).1
    -- while the layout moves, every arc that can be drawn is drawn anew
    have hwrite : (s.update M edges positionOf true).controlPoints slot.cp
        = redrawn M edges positionOf slot (s.controlPoints slot.cp) :=
      updateSlot_writes.foldl_of_mem hs.nodup_cp trivial (OrdMap.mem_values_of_get? hslot)
    simp only [redrawn, hid, he, ha, hb] at hwrite
    rw [hwrite]
    exact hspan id _ ⟨e, he, ha, hb⟩
  · exact hnot id (OrdMap.mem_of_get? hslot) _ hplaced

end

end Edges


/-! ## Nodes on their way -/

/-- One of the three coordinates. -/
def Vec3.axis {K : Type*} (v : Vec3 K) : Fin 3 → K := ![v.x, v.y, v.z]

namespace NodeMesh

section

variable {K : Type*} {m : NodeMesh K} {id : String}

/-- Where a node is, and where it is to stand. -/
def spot (m : NodeMesh K) (id : String) : Option (Vec3 K × Vec3 K) :=
  (m.slots.get? id).map fun slot => (m.positions slot.index, slot.target)

theorem positionOf_eq_spot : m.positionOf id = (m.spot id).map Prod.fst := by
  rw [spot, Option.map_map]
  rfl

/-- A write that leaves where the node is and where it is to stand. -/
theorem spot_write (id' : String) {f : NodeSlot K → NodeSlot K}
    (hf : ∀ slot, (f slot).index = slot.index ∧ (f slot).target = slot.target) :
    (m.write id' f).spot id = m.spot id := by
  show ((m.slots.modify id' f).get? id).map _ = _
  rw [OrdMap.get?_modify]
  split
  · rw [Option.map_map]
    refine congrArg (Option.map · _) (funext fun slot => ?_)
    show (m.positions (f slot).index, (f slot).target) = _
    rw [(hf slot).1, (hf slot).2]
  · rfl

theorem spot_setUnavailable (names : List String) :
    (m.setUnavailable names).spot id = m.spot id := by
  show ((m.slots.map _).get? id).map _ = _
  rw [OrdMap.get?_map, Option.map_map]
  refine congrArg (Option.map · _) (funext fun slot => ?_)
  simp only [Function.comp_apply]
  split <;> rfl

theorem glide_zero [Field K] (a b : Vec3 K) : glide 0 a b = a := by
  simp [glide, Average.towards]

theorem axis_glide [Field K] (a : K) (v w : Vec3 K) (i : Fin 3) :
    (glide a v w).axis i = Average.towards a (v.axis i) (w.axis i) := by
  fin_cases i <;> rfl

theorem Pooled.nodup_index (hs : m.Pooled) : (m.slots.values.map NodeSlot.index).Nodup := by
  have htaken : m.toSlots.taken = m.slots.values.map NodeSlot.index := by
    show (m.slots.map render).values.map RenderSlot.index = _
    rw [OrdMap.values_map, List.map_map]
    rfl
  rw [← htaken]
  exact (List.nodup_append.1 hs.partition.nodup).2.1

variable [Field K] [LinearOrder K]

/-- **A frame moves every node by a share of its way.** -/
theorem spot_update (hs : m.Pooled) (dt : K) (id : String) : (m.update dt).spot id
    = (m.spot id).map fun s => (glide (share dt) s.1 s.2, s.2) := by
  -- each round writes the place of its own node
  have hwrites : Loop.WritesOwn (fun _ => True) (fun (positions : Nat → Vec3 K) i => positions i)
      NodeSlot.index (fun (slot : NodeSlot K) old => glide (share dt) old slot.target)
      (fun positions slot => Function.update positions slot.index
        (glide (share dt) (positions slot.index) slot.target)) :=
    { keeps := fun _ _ h => h
      own := fun _ _ _ => Function.update_self _ _ _
      other := fun _ _ _ _ hne => Function.update_of_ne hne _ _ }
  rw [spot, spot, Option.map_map]
  show (m.slots.get? id).map _ = _
  refine Option.map_congr fun slot hslot => ?_
  have hown := hwrites.foldl_of_mem hs.nodup_index (s := m.positions) trivial
    (OrdMap.mem_values_of_get? hslot)
  exact Prod.ext hown rfl

end

end NodeMesh

namespace Page

/-! ## The arcs of a page -/

section

variable {K : Type*} [Field K] [LinearOrder K] {J : Edges K → Prop} {p q : Page K}

/-- What every call keeps, the changes of a frame keep. -/
theorem edges_applyChanges (hcall : ∀ s c, J s → J (s.call Edges.capacity c)) (B : Browser K)
    (h : J p.edges) : J (p.applyChanges B).edges := by
  -- what is gone is removed by calls,
  have hgone : ∀ q : Page K, J q.edges → J (q.removeGone p.state.consume.1).edges := fun q hq =>
    Loop.foldl_keeps (fun s id hs => hcall s (.remove id) hs) hq
  have htrim : ∀ q : Page K, J q.edges → J (q.trim p.state.consume.1).edges := by
    intro q hq
    unfold trim
    split
    · exact hgone _ (hgone q hq)
    · exact hgone q hq
  -- the layout relabels by one,
  have hsettled : J (p.settled B).edges := by
    unfold settled
    split
    · exact hcall _ (.setSame _ _) (htrim { p with state := p.state.consume.2 } h)
    · exact htrim { p with state := p.state.consume.2 } h
  rw [applyChanges_eq]
  -- and each new arc is added by one
  refine Loop.foldl_keeps (fun s id hs => ?_) hsettled
  unfold addArc
  split
  · exact hs
  · next e _ => exact hcall s (.add e.id _) hs

/-- So does a refresh. -/
theorem edges_refreshRates' (hcall : ∀ s c, J s → J (s.call Edges.capacity c)) (B : Browser K)
    (c : Clock K) (h : J p.edges) : J (p.refreshRates B c).edges :=
  Loop.foldl_keeps (J := fun r : Refresh K => J r.edges)
    (fun _ e hr => hcall _ (.setColor e.id _ _) (hcall _ (.setRate e.id _)
      (hcall _ (.setHidden e.id _) hr))) h

theorem frame_eq (B : Browser K) (p : Page K) (c : Clock K) : p.frame B c =
    let q := p.prepared B c
    { q with
      nodes := q.nodes.update c.dt
      edges := q.edges.update B.math q.state.edges (q.nodes.update c.dt).positionOf c.moving } := rfl

theorem edges_prepared (hcall : ∀ s c, J s → J (s.call Edges.capacity c)) (B : Browser K)
    (c : Clock K) (h : J p.edges) : J (p.prepared B c).edges := by
  unfold prepared
  split
  · exact edges_refreshRates' hcall B c (edges_applyChanges hcall B h)
  · exact edges_applyChanges hcall B h

theorem edges_control (hcall : ∀ s c, J s → J (s.call Edges.capacity c)) (B : Browser K)
    {u : Control} (huse : p.use u = some q) (c : Clock K) (h : J p.edges) : J (q.onChange B c).edges := by
  have hq : J q.edges := (touched_use huse).edges ▸ h
  refine edges_refreshRates' hcall B c ?_
  split
  · exact edges_applyChanges hcall B hq
  · exact hq

/-- A slot of an arc is valid only while the edge has it. -/
theorem consistent_step (B : Browser K) {i : Input K} (hstep : p.step B i = some q)
    (h : p.edges.Consistent Edges.capacity) : q.edges.Consistent Edges.capacity := by
  have hcall : ∀ (s : Edges K) c, s.Consistent Edges.capacity →
      (s.call Edges.capacity c).Consistent Edges.capacity := fun s c hs => (Edges.keeps_call hs c).2
  cases i with
  | hello m =>
    cases hstep
    exact h
  | snapshot m =>
    cases hstep
    exact h
  | tick t unavailable =>
    cases hstep
    exact h
  -- preparing is done by calls, and `update` comes last
  | frame c =>
    cases hstep
    exact (edges_prepared hcall B c h).update _ _ _ _
  | control u c =>
    obtain ⟨p', huse, rfl⟩ := Option.map_eq_some_iff.1 hstep
    exact edges_control hcall B huse c h

theorem consistent_of_run (B : Browser K) {inputs : List (Input K)}
    (hrun : Run.run (Page.step B) start inputs = some p) :
    p.edges.Consistent Edges.capacity :=
  Run.invariant (I := fun p : Page K => p.edges.Consistent Edges.capacity)
    (fun _ _ _ h hstep => consistent_step B hstep h) hrun Edges.consistent_new

end

/-! ## The nodes of a page -/

section

variable {K : Type*} [Field K] [LinearOrder K] {B : Browser K} {p q : Page K}

/-- Nothing calls for another layout. -/
def Still (p : Page K) : Input K → Prop
  | .frame c => p.callsForLayout p.state.consume.1 = false ∧ 0 ≤ c.dt
  | .control u _ => ∀ q, p.use u = some q → q.layout.groupBy = q.filters.groupBy
  | _ => True

/-- The share of its way that an input moves a node. -/
def moves : Input K → K
  | .frame c => NodeMesh.share c.dt
  | _ => 0

/-- Without a new layout no node moves when the changes are applied. -/
theorem spot_applyChanges (hcalm : p.callsForLayout p.state.consume.1 = false) (id : String) :
    (p.applyChanges B).nodes.spot id = p.nodes.spot id := by
  obtain ⟨-, -, hremoved, -⟩ := of_not_callsForLayout hcalm
  have hnone : p.state.consume.1.removedNodes = [] :=
    List.eq_nil_iff_forall_not_mem.2 fun id hid => hremoved id (OrdMap.mem_keys.1 hid)
  -- nothing is removed, or there would be a new layout
  have hgone : ∀ q : Page K, (q.removeGone p.state.consume.1).nodes = q.nodes := by
    intro q
    show p.state.consume.1.removedNodes.foldl NodeMesh.remove q.nodes = q.nodes
    rw [hnone]
    rfl
  have htrim : (trim p.state.consume.1 { p with state := p.state.consume.2 }).nodes = p.nodes := by
    unfold trim
    split
    · rw [hgone, hgone]
    · rw [hgone]
  show (p.settled B).nodes.spot id = _
  rw [settled, if_neg (by simp [hcalm])]
  refine (Loop.foldl_keeps (J := fun m : NodeMesh K => m.spot id = p.nodes.spot id)
    (fun m id' hm => ?_) (congrArg (NodeMesh.spot · id) htrim))
  unfold showMachine
  split
  · exact hm
  · split
    · next n _ _ =>
      exact (NodeMesh.spot_write id' (f := fun slot => { slot with machine := n.machine })
        fun _ => ⟨rfl, rfl⟩).trans hm
    · exact hm

theorem spot_refreshRates (c : Clock K) (id : String) :
    (p.refreshRates B c).nodes.spot id = p.nodes.spot id := by
  refine Loop.foldl_keeps (J := fun m : NodeMesh K => m.spot id = p.nodes.spot id)
    (fun m n hm => ?_) rfl
  refine Eq.trans (NodeMesh.spot_write n.id (f := fun slot => { slot with activity := _ })
    fun _ => ⟨rfl, rfl⟩) ?_
  exact (NodeMesh.spot_write n.id (f := fun slot => { slot with hidden := p.nodeHidden n })
    fun _ => ⟨rfl, rfl⟩).trans hm

theorem spot_prepared (hcalm : p.callsForLayout p.state.consume.1 = false) (c : Clock K)
    (id : String) : (p.prepared B c).nodes.spot id = p.nodes.spot id := by
  unfold prepared
  split
  · exact (spot_refreshRates c id).trans (spot_applyChanges hcalm id)
  · exact spot_applyChanges hcalm id

variable {ends : String → String × String}

/-- **As long as nothing calls for another layout**, an input moves the nodes on their ways. -/
theorem spot_step (h : p.Keeps B ends) {i : Input K} (hfair : p.Fair ends i) (hstill : p.Still i)
    (hstep : p.step B i = some q) (id : String) : q.nodes.spot id
      = (p.nodes.spot id).map fun s => (NodeMesh.glide (moves i) s.1 s.2, s.2) := by
  -- who stays has glided by nothing
  have hstay : q.nodes.spot id = p.nodes.spot id → moves i = 0 → q.nodes.spot id
      = (p.nodes.spot id).map fun s => (NodeMesh.glide (moves i) s.1 s.2, s.2) := by
    intro heq hzero
    rw [heq, hzero]
    exact Option.map_id'.symm.trans (congrArg (Option.map · _) (funext fun s =>
      Prod.ext (NodeMesh.glide_zero s.1 s.2).symm rfl))
  cases i with
  | hello m =>
    cases hstep
    exact hstay rfl rfl
  | snapshot m =>
    cases hstep
    exact hstay rfl rfl
  | tick t unavailable =>
    cases hstep
    exact hstay (NodeMesh.spot_setUnavailable unavailable) rfl
  | frame c =>
    cases hstep
    obtain ⟨hshows, -⟩ := h.prepared hfair c
    show ((p.prepared B c).nodes.update c.dt).spot id = _
    rw [NodeMesh.spot_update hshows.pooled.nodes, spot_prepared hstill.1]
    rfl
  | control u c =>
    obtain ⟨p', huse, rfl⟩ := Option.map_eq_some_iff.1 hstep
    apply hstay ?_ rfl
    unfold onChange
    rw [if_neg (not_not.2 (hstill p' huse)), spot_refreshRates, (touched_use huse).nodes]

/-- The same of a run. -/
theorem spot_run {inputs : List (Input K)} (h : p.Keeps B ends)
    (hstill : Run.EveryStep (Page.step B) (fun p i => p.Fair ends i ∧ p.Still i) p inputs)
    (hrun : Run.run (Page.step B) p inputs = some q) (id : String) : q.nodes.spot id
      = (p.nodes.spot id).map fun s =>
        ((inputs.map moves).foldl (fun x a => NodeMesh.glide a x s.2) s.1, s.2) := by
  induction inputs generalizing p with
  | nil =>
    obtain rfl : p = q := Option.some.inj hrun
    exact Option.map_id'.symm
  | cons i rest ih =>
    obtain ⟨p', hstep, hrest⟩ := Run.run_cons_eq_some.1 hrun
    obtain ⟨⟨hfair, hi⟩, hstill'⟩ := hstill p' hstep
    -- first the step, then the rest, towards the same target
    rw [ih (h.step hfair hstep) hstill' hrest, spot_step h hfair hi hstep id, Option.map_map]
    rfl

end

/-! ## The arcs of a frame -/

section

variable {K : Type*} [Field K] [LinearOrder K] {B : Browser K} {ends : String → String × String}
  {p : Page K}

theorem ends_prepared (hk : p.Keeps B ends) (hfits : p.Fits) (c : Clock K) {id : String}
    {e : EdgeState} (he : (p.prepared B c).state.edges.get? id = some e) :
    ends id = (e.src, e.dst) := by
  rw [(hk.prepared hfits c).2.state] at he
  exact (hk.tracks.named.edge he).2

/-- An arc that a frame draws ends where the nodes are. -/
theorem spots_of_spans (hk : p.Keeps B ends) (hfits : p.Fits) {c : Clock K} {id : String}
    {arc : Arc K} (h : Edges.Spans (p.prepared B c).state.edges
      (p.frame B c).nodes.positionOf id arc) :
    ∃ a b, (p.frame B c).nodes.spot (ends id).1 = some a ∧ a.1 = arc.p0 ∧
      (p.frame B c).nodes.spot (ends id).2 = some b ∧ b.1 = arc.p1 := by
  obtain ⟨e, he, hsrc, hdst⟩ := h
  rw [ends_prepared hk hfits c he]
  rw [NodeMesh.positionOf_eq_spot] at hsrc hdst
  obtain ⟨a, ha, hsrc⟩ := Option.map_eq_some_iff.1 hsrc
  obtain ⟨b, hb, hdst⟩ := Option.map_eq_some_iff.1 hdst
  exact ⟨a, b, ha, hsrc, hb, hdst⟩

/-- After a frame the arc of an edge between two nodes of the graph is where its nodes are, or were
when it was drawn. -/
theorem exists_valid (hk : p.Keeps B ends) (hcons : p.edges.Consistent Edges.capacity)
    (hfits : p.Fits) (c : Clock K) {id : String} {e : EdgeState}
    (he : (p.frame B c).state.edges.get? id = some e)
    (hsrc : e.src ∈ (p.frame B c).state.nodes) (hdst : e.dst ∈ (p.frame B c).state.nodes) :
    ∃ slot, (p.frame B c).edges.slots.get? id = some slot ∧
      (p.frame B c).edges.cpValid slot.cp = true := by
  obtain ⟨hshows, hkeeps, -⟩ := hk.frame hfits c
  obtain ⟨slot, hslot⟩ := OrdMap.mem_iff.1 ((hshows.edges id).2 (OrdMap.mem_of_get? he))
  have hq : (p.frame B c).edges.Sound Edges.capacity :=
    (consistent_step B (i := .frame c) rfl hcons).toSound
  have hprep : (p.prepared B c).edges.Sound Edges.capacity :=
    edges_prepared (J := Edges.Sound Edges.capacity) (fun _ c hs => hs.call c) B c hcons.toSound
  -- a node of the page is drawn, so it has a position
  have hplaced : ∀ id', id' ∈ (p.frame B c).state.nodes →
      (p.frame B c).nodes.positionOf id' ≠ none := by
    intro id' hid
    obtain ⟨s, hs⟩ := OrdMap.mem_iff.1 ((hshows.drawn.mem_nodes hkeeps.tracks.keyed id').2 hid)
    rw [NodeMesh.positionOf, hs]
    exact Option.some_ne_none _
  have hby : (p.prepared B c).edges.bySlot slot.cp = some id :=
    (congrFun (Edges.update_frame B.math _ _ c.moving _).2.1 slot.cp).symm.trans
      (hq.bySlot_cp hslot)
  exact ⟨slot, hslot, (Edges.cpValid_update B.math _ _ c.moving hprep slot.cp).2
    (Or.inr ⟨id, hby, e, he, hplaced _ hsrc, hplaced _ hdst⟩)⟩

end

/-! ## After the layout has stopped moving -/

section

variable {K : Type*} [LinearOrder K]

/-- On the way from where a node is to where it is to stand. -/
def OnWay (s : Vec3 K × Vec3 K) (v : Vec3 K) : Prop :=
  ∀ i, v.axis i ∈ Set.uIcc (s.1.axis i) (s.2.axis i)

/-- The arc ends on the ways that its nodes had in `p₀`. -/
def Follows (ends : String → String × String) (p₀ : Page K) (id : String) (arc : Arc K) : Prop :=
  ∀ a b, p₀.nodes.spot (ends id).1 = some a → p₀.nodes.spot (ends id).2 = some b →
    OnWay a arc.p0 ∧ OnWay b arc.p1

/-- Since `p₀` no node has left the way that it had there, and no arc ends anywhere else. -/
structure Rests (ends : String → String × String) (p₀ p : Page K) : Prop where
  target : ∀ id, (p.nodes.spot id).map Prod.snd = (p₀.nodes.spot id).map Prod.snd
  onWay : ∀ id a b, p₀.nodes.spot id = some a → p.nodes.spot id = some b → OnWay a b.1
  consistent : p.edges.Consistent Edges.capacity
  arcs : p.edges.EveryArc (Follows ends p₀)

theorem onWay_start (s : Vec3 K × Vec3 K) : OnWay s s.1 := fun _ => Set.left_mem_uIcc

variable [Field K] {B : Browser K} {ends : String → String × String} {p₀ p q : Page K}

/-- **A frame in which the layout moves** puts every arc where its nodes are. -/
theorem rests_frame (hk : p.Keeps B ends) (hcons : p.edges.Consistent Edges.capacity) {c : Clock K}
    (hfits : p.Fits) (hmoving : c.moving = true) :
    Rests ends (p.frame B c) (p.frame B c) := by
  have hstart : ∀ id a b, (p.frame B c).nodes.spot id = some a →
      (p.frame B c).nodes.spot id = some b → OnWay a b.1 := by
    intro id a b ha hb
    cases ha.symm.trans hb
    exact onWay_start a
  refine ⟨fun _ => rfl, hstart, consistent_step B (i := .frame c) rfl hcons, ?_⟩
  have hprep : (p.prepared B c).edges.Sound Edges.capacity :=
    edges_prepared (J := Edges.Sound Edges.capacity) (fun _ c hs => hs.call c) B c hcons.toSound
  have harcs : ((p.prepared B c).edges.update B.math (p.prepared B c).state.edges
      (p.frame B c).nodes.positionOf true).EveryArc (Follows ends (p.frame B c)) := by
    refine Edges.everyArc_update hprep (fun id arc hspan a b ha hb => ?_)
      fun id hid arc hnot a b ha hb => ?_
    · obtain ⟨s, d, hs, hsrc, hd, hdst⟩ := spots_of_spans hk hfits hspan
      exact ⟨hsrc ▸ hstart _ a s ha hs, hdst ▸ hstart _ b d hb hd⟩
    · -- the edge is known, and both its ends have a place
      obtain ⟨e, he⟩ := OrdMap.mem_iff.1 (((hk.prepared hfits c).1.edges id).1 hid)
      rw [ends_prepared hk hfits c he] at ha hb
      refine absurd ⟨e, he, ?_, ?_⟩ hnot
      · rw [NodeMesh.positionOf_eq_spot, ha]
        exact Option.some_ne_none _
      · rw [NodeMesh.positionOf_eq_spot, hb]
        exact Option.some_ne_none _
  rw [← hmoving] at harcs
  exact harcs

variable [IsStrictOrderedRing K]

/-- A still input moves a part of the way, or all of it. -/
theorem moves_mem {i : Input K} (hstill : p.Still i) : 0 ≤ moves i ∧ moves i ≤ 1 := by
  cases i with
  | frame c =>
    refine ⟨le_min zero_le_one ?_, min_le_left _ _⟩
    exact mul_nonneg (by norm_num) hstill.2
  | hello m => exact ⟨le_refl _, zero_le_one⟩
  | snapshot m => exact ⟨le_refl _, zero_le_one⟩
  | tick t unavailable => exact ⟨le_refl _, zero_le_one⟩
  | control u c => exact ⟨le_refl _, zero_le_one⟩

theorem OnWay.glide {s : Vec3 K × Vec3 K} {v : Vec3 K} (h : OnWay s v) {a : K}
    (ha : 0 ≤ a ∧ a ≤ 1) : OnWay s (NodeMesh.glide a v s.2) := by
  intro i
  rw [NodeMesh.axis_glide]
  exact Average.towards_mem_uIcc ha.1 ha.2 (h i)

/-- **An input that calls for no layout keeps the arcs on the ways of their nodes.** -/
theorem Rests.step (h : Rests ends p₀ p) (hk : p.Keeps B ends) {i : Input K}
    (hfair : p.Fair ends i) (hstill : p.Still i) (hstep : p.step B i = some q) :
    Rests ends p₀ q := by
  have hspot := spot_step hk hfair hstill hstep
  have htarget : ∀ id, (q.nodes.spot id).map Prod.snd = (p₀.nodes.spot id).map Prod.snd := by
    intro id
    rw [hspot, Option.map_map]
    exact h.target id
  have honWay : ∀ id a b, p₀.nodes.spot id = some a → q.nodes.spot id = some b → OnWay a b.1 := by
    intro id a b ha hb
    rw [hspot] at hb
    obtain ⟨s, hs, rfl⟩ := Option.map_eq_some_iff.1 hb
    -- the targets are those of the start
    have hsame : s.2 = a.2 := by
      have htarget := h.target id
      rw [hs, ha] at htarget
      exact Option.some.inj htarget
    have hway := h.onWay id a s ha hs
    show OnWay a (NodeMesh.glide (moves i) s.1 s.2)
    rw [hsame]
    exact hway.glide (moves_mem hstill)
  refine ⟨htarget, honWay, consistent_step B hstep h.consistent, ?_⟩
  let J (s : Edges K) : Prop := s.Consistent Edges.capacity ∧ s.EveryArc (Follows ends p₀)
  have hcall : ∀ s c, J s → J (s.call Edges.capacity c) := fun s c hs =>
    ⟨(Edges.keeps_call hs.1 c).2, hs.2.call hs.1 c⟩
  have hJ : J p.edges := ⟨h.consistent, h.arcs⟩
  cases i with
  | hello m =>
    cases hstep
    exact h.arcs
  | snapshot m =>
    cases hstep
    exact h.arcs
  | tick t unavailable =>
    cases hstep
    exact h.arcs
  | frame c =>
    cases hstep
    -- the arcs are drawn between positions on the way
    have hprep := edges_prepared hcall B c hJ
    refine hprep.2.update hprep.1.toSound fun id arc hspan a b ha hb => ?_
    obtain ⟨s, d, hs, hsrc, hd, hdst⟩ := spots_of_spans hk hfair hspan
    exact ⟨hsrc ▸ honWay _ a s ha hs, hdst ▸ honWay _ b d hb hd⟩
  | control u c =>
    obtain ⟨p', huse, rfl⟩ := Option.map_eq_some_iff.1 hstep
    exact (edges_control hcall B huse c hJ).2

theorem rests_of_run (hk : p.Keeps B ends) (h : Rests ends p₀ p) {inputs : List (Input K)}
    (hstill : Run.EveryStep (Page.step B) (fun p i => p.Fair ends i ∧ p.Still i) p inputs)
    (hrun : Run.run (Page.step B) p inputs = some q) : Rests ends p₀ q :=
  (Run.invariant_of_everyStep (I := fun p : Page K => p.Keeps B ends ∧ Rests ends p₀ p)
    (fun _ _ _ hp hi hstep => ⟨hp.1.step hi.1 hstep, hp.2.step hp.1 hi.1 hi.2 hstep⟩)
    hstill hrun ⟨hk, h⟩).2

end

/-! ## How far an arc is off -/

section

variable {B : Browser ℝ} {ends : String → String × String} {p q : Page ℝ}

/-- The time that passes on the clock of the frames. -/
noncomputable def seconds : Input ℝ → ℝ
  | .frame c => c.dt
  | _ => 0

/-- What an input leaves of the way of a node. -/
theorem one_sub_moves_le {i : Input ℝ} (hstill : p.Still i) :
    0 ≤ 1 - moves i ∧ 1 - moves i ≤ Real.exp (-(6 * seconds i)) := by
  refine ⟨sub_nonneg.2 (moves_mem hstill).2, ?_⟩
  cases i with
  | frame c =>
    show 1 - min 1 (6.0 * c.dt) ≤ Real.exp (-(6 * c.dt))
    -- a long frame goes all the way; a short one leaves less than the exponential
    rcases min_cases (1 : ℝ) (6.0 * c.dt) with ⟨h, -⟩ | ⟨h, -⟩
    · rw [h, sub_self]
      exact (Real.exp_pos _).le
    · rw [h, show (6.0 : ℝ) = 6 by norm_num]
      exact Real.one_sub_le_exp_neg _
  | hello m => simp [moves, seconds]
  | snapshot m => simp [moves, seconds]
  | tick t unavailable => simp [moves, seconds]
  | control u c => simp [moves, seconds]

/-- What a run leaves of the way is bounded by its seconds. -/
theorem prod_moves_le {inputs : List (Input ℝ)}
    (hstill : Run.EveryStep (Page.step B) (fun p i => p.Fair ends i ∧ p.Still i) p inputs)
    (hrun : Run.run (Page.step B) p inputs = some q) :
    0 ≤ ((inputs.map moves).map (1 - ·)).prod ∧
      ((inputs.map moves).map (1 - ·)).prod ≤ Real.exp (-(6 * (inputs.map seconds).sum)) := by
  induction inputs generalizing p with
  | nil => simp
  | cons i rest ih =>
    obtain ⟨p', hstep, hrest⟩ := Run.run_cons_eq_some.1 hrun
    obtain ⟨⟨-, hi⟩, hstill'⟩ := hstill p' hstep
    obtain ⟨h₀, h₁⟩ := one_sub_moves_le hi
    obtain ⟨hrest₀, hrest₁⟩ := ih hstill' hrest
    simp only [List.map_cons, List.prod_cons, List.sum_cons]
    refine ⟨mul_nonneg h₀ hrest₀, ?_⟩
    calc (1 - moves i) * ((rest.map moves).map (1 - ·)).prod
        ≤ Real.exp (-(6 * seconds i)) * Real.exp (-(6 * (rest.map seconds).sum)) :=
          mul_le_mul h₁ hrest₁ hrest₀ (Real.exp_pos _).le
      _ = Real.exp (-(6 * (seconds i + (rest.map seconds).sum))) := by
          rw [← Real.exp_add]
          congr 1
          ring

/-- What the inputs leave of the way of a node. -/
theorem way_of_run (hk : p.Keeps B ends) {inputs : List (Input ℝ)}
    (hstill : Run.EveryStep (Page.step B) (fun p i => p.Fair ends i ∧ p.Still i) p inputs)
    (hrun : Run.run (Page.step B) p inputs = some q) {id : String} {s : Vec3 ℝ × Vec3 ℝ}
    (hs : p.nodes.spot id = some s) : ∃ v, q.nodes.spot id = some (v, s.2) ∧
      ∀ i, |v.axis i - s.2.axis i|
        ≤ |s.1.axis i - s.2.axis i| * Real.exp (-(6 * (inputs.map seconds).sum)) := by
  refine ⟨_, by rw [spot_run hk hstill hrun id, hs]; rfl, fun i => ?_⟩
  -- on each axis the glides are averages towards one target
  have haxis : ∀ (l : List ℝ) (v : Vec3 ℝ),
      (l.foldl (fun x a => NodeMesh.glide a x s.2) v).axis i
        = l.foldl (fun x a => Average.towards a x (s.2.axis i)) (v.axis i) := by
    intro l
    induction l with
    | nil => exact fun _ => rfl
    | cons a rest ih =>
      intro v
      rw [List.foldl_cons, List.foldl_cons, ih, NodeMesh.axis_glide]
  obtain ⟨h₀, h₁⟩ := prod_moves_le hstill hrun
  rw [haxis, Average.foldl_towards_sub, abs_mul, abs_of_nonneg h₀]
  exact mul_le_mul_of_nonneg_left h₁ (abs_nonneg _)

/-- **An arc ends close to its nodes**, though it does not follow them any more: the layout is
said to be moving until a frame `c`, and from then on the arc is at most as far from them as they
had to go, times `exp (-6 T)` for the time `T` of the frames up to `c`. With the second and a half
of `main.ts` that is one part in eight thousand. -/
theorem arc_ends_of_run {inputs moving resting : List (Input ℝ)} {c : Clock ℝ}
    (hfair : Run.EveryStep (Page.step B) (Fair ends) start inputs)
    (hrun : Run.run (Page.step B) start inputs = some p) (hmoving : c.moving = true)
    (hstill : Run.EveryStep (Page.step B) (fun p i => p.Fair ends i ∧ p.Still i) p
      ((moving ++ [.frame c]) ++ resting))
    (hrun' : Run.run (Page.step B) p ((moving ++ [.frame c]) ++ resting) = some q)
    {id : String} {e : EdgeState} {slot : EdgeSlot ℝ} (he : q.state.edges.get? id = some e)
    (hslot : q.edges.slots.get? id = some slot) (hvalid : q.edges.cpValid slot.cp = true)
    {src dst src' dst' : Vec3 ℝ × Vec3 ℝ} (hsrc : p.nodes.spot e.src = some src)
    (hdst : p.nodes.spot e.dst = some dst) (hsrc' : q.nodes.spot e.src = some src')
    (hdst' : q.nodes.spot e.dst = some dst') (i : Fin 3) :
    let arc := q.edges.controlPoints slot.cp
    let T := ((moving ++ [Input.frame c]).map seconds).sum
    |arc.p0.axis i - src'.1.axis i| ≤ |src.1.axis i - src.2.axis i| * Real.exp (-(6 * T)) ∧
      |arc.p1.axis i - dst'.1.axis i| ≤ |dst.1.axis i - dst.2.axis i| * Real.exp (-(6 * T)) := by
  have hk : p.Keeps B ends := keeps_of_run hfair hrun
  obtain ⟨hstill₁, hstill₂⟩ := Run.everyStep_append.1 hstill
  obtain ⟨p₂, hrun₂, hrun₃⟩ := Run.run_append_eq_some.1 hrun'
  -- the last frame in which the layout moves
  obtain ⟨p₁, hrun₁, hframe⟩ := Run.run_concat_eq_some.1 hrun₂
  obtain rfl : p₁.frame B c = p₂ := Option.some.inj hframe
  obtain ⟨hstill₀, hlast⟩ := Run.everyStep_append.1 hstill₁
  have hk₁ : p₁.Keeps B ends := Run.invariant_of_everyStep
    (fun _ _ _ h hi hstep => h.step hi.1 hstep) hstill₀ hrun₁ hk
  have hcons : p₁.edges.Consistent Edges.capacity :=
    Run.invariant (I := fun p : Page ℝ => p.edges.Consistent Edges.capacity)
    (fun _ _ _ h hstep => consistent_step B hstep h) hrun₁ (consistent_of_run B hrun)
  obtain ⟨hfits, -⟩ := (hlast p₁ hrun₁ _ rfl).1
  have hrests := rests_of_run (hk₁.frame hfits c).2.1 (rests_frame hk₁ hcons hfits hmoving)
    (hstill₂ _ hrun₂) hrun₃
  have hkq : q.Keeps B ends := Run.invariant_of_everyStep
    (fun _ _ _ h hi hstep => h.step hi.1 hstep) hstill hrun' hk
  obtain ⟨v, hv, hvway⟩ := way_of_run hk hstill₁ hrun₂ hsrc
  obtain ⟨w, hw, hwway⟩ := way_of_run hk hstill₁ hrun₂ hdst
  have hends : ends id = (e.src, e.dst) := (hkq.tracks.named.edge he).2
  have hby : q.edges.bySlot slot.cp = some id := hrests.consistent.bySlot_cp hslot
  obtain ⟨harc₀, harc₁⟩ := hrests.arcs slot.cp id hvalid hby (v, src.2) (w, dst.2)
    (by rw [hends]; exact hv) (by rw [hends]; exact hw)
  have hnear : ∀ {x : Vec3 ℝ} {s s' : Vec3 ℝ × Vec3 ℝ}, OnWay s x → OnWay s s'.1 →
      |x.axis i - s'.1.axis i| ≤ |s.1.axis i - s.2.axis i| := by
    intro x s s' hx hs'
    rw [abs_sub_comm (s.1.axis i)]
    exact Set.abs_sub_le_of_uIcc_subset_uIcc (Set.uIcc_subset_uIcc (hs' i) (hx i))
  exact ⟨(hnear harc₀ (hrests.onWay _ _ _ hv hsrc')).trans (hvway i),
    (hnear harc₁ (hrests.onWay _ _ _ hw hdst')).trans (hwway i)⟩

end

/-! ### A run -/

/-- The page that shows them. -/
noncomputable def shown : Page ℝ := talking.frame white now

/-- A frame a tenth of a second later, while the layout moves. -/
noncomputable def later : Clock ℝ := ⟨10, 10100, 0.1, false, true⟩

theorem fair_shown : Run.EveryStep (Page.step white)
    (Fair fun _ => ("shop/Pod/cart", "bank/Pod/till")) start [.snapshot talk, .frame now] := by
  intro p hp
  refine ⟨(fair_talk p hp).1, fun q _ => ⟨?_, trivial⟩⟩
  obtain rfl : talking = p := Option.some.inj hp
  exact fits_talking

theorem run_shown : Run.run (Page.step white) start [.snapshot talk, .frame now] = some shown :=
  rfl

theorem fits_shown : shown.Fits := by
  have hstate : shown.state = talking.state.consume.2 := state_talking
  rw [Fits, hstate]
  exact fits_talking

theorem still_shown : shown.Still (.frame later) := by
  have hstate : shown.state = talking.state.consume.2 := state_talking
  refine ⟨?_, ?_⟩
  · rw [callsForLayout, (keeps_of_run fair_shown run_shown).clean, hstate]
    rfl
  · show (0 : ℝ) ≤ 0.1
    norm_num

set_option maxRecDepth 10000 in
/-- What the graph has of them. -/
theorem state_shown : ∃ e, (shown.frame white later).state.edges.get?
      "shop/Pod/cart|bank/Pod/till|TCP|443" = some e ∧ e.src = "shop/Pod/cart" ∧
    e.dst = "bank/Pod/till" ∧ e.src ∈ (shown.frame white later).state.nodes ∧
    e.dst ∈ (shown.frame white later).state.nodes := by
  have hstate : (shown.frame white later).state
      = ((GraphState.new 300).applySnapshot talk).consume.2.consume.2 := by
    rw [((keeps_of_run fair_shown run_shown).frame fits_shown later).2.2]
    exact congrArg (fun s => s.consume.2) state_talking
  rw [hstate]
  -- the snapshot has one edge
  have hends : (((GraphState.new 300).applySnapshot talk).edges.get?
      "shop/Pod/cart|bank/Pod/till|TCP|443").map (fun e => (e.src, e.dst))
        = some ("shop/Pod/cart", "bank/Pod/till") := by decide
  obtain ⟨e, he, hed⟩ := Option.map_eq_some_iff.1 hends
  obtain ⟨hsrc, hdst⟩ := Prod.ext_iff.1 hed
  replace hsrc : e.src = "shop/Pod/cart" := hsrc
  replace hdst : e.dst = "bank/Pod/till" := hdst
  have hnodes : "shop/Pod/cart" ∈ ((GraphState.new 300).applySnapshot talk).nodes ∧
      "bank/Pod/till" ∈ ((GraphState.new 300).applySnapshot talk).nodes := by decide
  exact ⟨e, he, hsrc, hdst, hsrc ▸ hnodes.1, hdst ▸ hnodes.2⟩

/-- The end of the arc of a conversation, after one frame of a tenth of a second. -/
theorem arc_ends_of_run_talk : ∃ slot src src',
    (shown.frame white later).edges.slots.get? "shop/Pod/cart|bank/Pod/till|TCP|443" = some slot ∧
    shown.nodes.spot "shop/Pod/cart" = some src ∧
    (shown.frame white later).nodes.spot "shop/Pod/cart" = some src' ∧
    ∀ i, |((shown.frame white later).edges.controlPoints slot.cp).p0.axis i - src'.1.axis i|
      ≤ |src.1.axis i - src.2.axis i| * Real.exp (-(6 * 0.1)) := by
  obtain ⟨e, he, hsrc, hdst, hsrcmem, hdstmem⟩ := state_shown
  have hk := keeps_of_run fair_shown run_shown
  obtain ⟨slot, hslot, hvalid⟩ := exists_valid hk (consistent_of_run white run_shown) fits_shown
    later he hsrcmem hdstmem
  -- one frame, which makes no new layout
  have hstill : Run.EveryStep (Page.step white)
      (fun p i => p.Fair (fun _ => ("shop/Pod/cart", "bank/Pod/till")) i ∧ p.Still i) shown
      (([] ++ [.frame later]) ++ []) := fun _ _ => ⟨⟨fits_shown, still_shown⟩, trivial⟩
  have hspot : ∀ id, id ∈ (shown.frame white later).state.nodes →
      ∃ s s', shown.nodes.spot id = some s ∧ (shown.frame white later).nodes.spot id = some s' := by
    intro id hid
    obtain ⟨hshows, hkeeps, -⟩ := hk.frame fits_shown later
    obtain ⟨slot', hslot'⟩ := OrdMap.mem_iff.1
      ((hshows.drawn.mem_nodes hkeeps.tracks.keyed id).2 hid)
    have hsome : (shown.frame white later).nodes.spot id = some _ :=
      congrArg (Option.map _) hslot'
    obtain ⟨s, hs, -⟩ := Option.map_eq_some_iff.1
      ((spot_step hk fits_shown still_shown (i := .frame later) rfl id).symm.trans hsome)
    exact ⟨s, _, hs, hsome⟩
  obtain ⟨src, src', hs, hs'⟩ := hspot _ hsrcmem
  obtain ⟨dst, dst', hd, hd'⟩ := hspot _ hdstmem
  rw [hsrc] at hs hs'
  refine ⟨slot, src, src', hslot, hs, hs', fun i => ?_⟩
  have h := (arc_ends_of_run (c := later) fair_shown run_shown rfl hstill rfl he hslot hvalid
    (hsrc ▸ hs) hd (hsrc ▸ hs') hd' i).1
  have hsum : (([] ++ [Input.frame later]).map seconds).sum = 0.1 := by
    simp [seconds, later]
  rw [hsum] at h
  exact h

end Page

end Flowscape
