import Flowscape.Web.Slots

/-!
# Flowscape: which edges have an arc

What each call of `Edges` does to the slots, seen from one edge, as long as the meshes have room:
an edge has an arc from `add` to `remove`, and a new width, colour or rate does not take it away.
The pool says when there is room: every mesh has a free index as long as there are fewer arcs than
its capacity, and an edge that moves to another mesh leaves one behind.
-/

namespace Flowscape

namespace Edges

section

variable {K : Type*}

/-- No index is lost or handed out twice. -/
def Pooled (s : Edges K) : Prop := s.Sound capacity

/-- What `g` says of the slot of an edge, if it has one. -/
def seen {α : Type*} (g : EdgeSlot K → α) (s : Edges K) (id : String) : Option α :=
  (s.slots.get? id).map g

variable {α : Type*} {g : EdgeSlot K → α} {s : Edges K} {id : String} {slot : EdgeSlot K}

/-- An arc is there when something is seen of it. -/
theorem mem_slots_iff_seen : id ∈ s.slots ↔ (seen g s id).isSome = true := by
  rw [OrdMap.mem_iff_isSome, seen, Option.isSome_map]

theorem mem_slots_congr {s' : Edges K} (h : seen g s' id = seen g s id) :
    id ∈ s'.slots ↔ id ∈ s.slots := by
  rw [mem_slots_iff_seen (g := g), h, ← mem_slots_iff_seen]

/-! ## Room -/

theorem Pooled.congr {s' : Edges K} (hs : s.Pooled) (hslots : s'.slots = s.slots)
    (hby : s'.bySlot = s.bySlot) (hfree : s'.free = s.free) : s'.Pooled :=
  Sound.congr hs hslots hby hfree

theorem Pooled.write (hs : s.Pooled) (id : String) {f : EdgeSlot K → EdgeSlot K}
    (hf : ∀ slot, SamePlace slot (f slot)) :
    Pooled { s with slots := s.slots.modify id f } := Sound.modify hs id hf

theorem Pooled.drop (hs : s.Pooled) (h : s.slots.get? id = some slot) : (s.drop id slot).Pooled :=
  Sound.drop hs h

/-- **There is room in every mesh** as long as there are fewer arcs than one of them takes. -/
theorem Pooled.free_ne_nil (hs : s.Pooled) (hlt : s.slots.size < capacity) (batch : Fin 3) :
    s.free batch ≠ [] := by
  apply (hs.partition batch).free_ne_nil
  have hle : (s.taken batch).length ≤ s.slots.size := by
    rw [taken, List.length_map]
    apply (List.length_filter_le _ _).trans
    rw [OrdMap.values, List.length_map]
    exact le_refl s.slots.size
  exact hle.trans_lt hlt

/-- An edge that moves finds room when there are no more arcs than a mesh takes. -/
theorem Pooled.free_ne_nil_of_ne (hs : s.Pooled) (hle : s.slots.size ≤ capacity)
    (h : s.slots.get? id = some slot) {batch : Fin 3} (hne : batch ≠ slot.batch) :
    s.free batch ≠ [] := by
  have hsize : s.slots.size = (s.slots.erase id).size + 1 := (OrdMap.entries_erase_perm h).length_eq
  have hlt : (s.drop id slot).slots.size < capacity := by
    show (s.slots.erase id).size < capacity
    omega
  have hfree := (hs.drop h).free_ne_nil hlt batch
  rwa [free_drop, if_neg hne] at hfree

/-! ## What the calls do -/

/-- Only the arc that is removed is gone. -/
theorem seen_remove (s : Edges K) (id id' : String) :
    seen g (s.remove id) id' = if id' = id then none else seen g s id' := by
  cases h : s.slots.get? id with
  | none =>
    rw [remove, h]
    by_cases heq : id' = id
    · rw [if_pos heq, heq, seen, h]
      rfl
    · rw [if_neg heq]
  | some slot =>
    rw [remove, h]
    show ((s.slots.erase id).get? id').map g = _
    rw [OrdMap.get?_erase]
    split <;> rfl

theorem remove_writes : Loop.WritesOwn (fun _ => True) (seen g) (fun id : String => id)
    (fun _ _ => none) remove where
  keeps _ _ h := h
  own s id _ := by rw [seen_remove, if_pos rfl]
  other s id id' _ h := by rw [seen_remove, if_neg h]

theorem seen_foldl_remove (s : Edges K) (l : List String) (id : String) :
    seen g (l.foldl remove s) id = if id ∈ l then none else seen g s id := by
  split
  · next h => exact remove_writes.foldl_overwrite trivial h
  · next h => exact remove_writes.foldl_of_not_mem trivial fun b hb => ne_of_mem_of_not_mem hb h

/-- A write that `g` does not see. -/
theorem seen_write (s : Edges K) (id id' : String) {f : EdgeSlot K → EdgeSlot K}
    (hf : ∀ slot, g (f slot) = g slot) :
    seen g { s with slots := s.slots.modify id f } id' = seen g s id' := by
  show ((s.slots.modify id f).get? id').map g = _
  rw [OrdMap.get?_modify]
  split
  · rw [Option.map_map]
    exact congrArg (Option.map · _) (funext hf)
  · rfl

/-! ## Regrouping -/

/-- A slot after its edge was looked at again. -/
def relabel (same : String → String → Bool) (e : Option EdgeState) (slot : EdgeSlot K) :
    EdgeSlot K :=
  match e with
  | none => slot
  | some e => { slot with same := same e.src e.dst }

variable (same : String → String → Bool) (edges : OrdMap String EdgeState)

theorem Pooled.setSame (hs : s.Pooled) : (s.setSame same edges).Pooled :=
  Loop.foldl_keeps (J := Pooled) (fun _ slot h => Sound.setSameSlot h same edges slot) hs

/-- Each round of the relabelling writes its own arc. -/
theorem setSameSlot_writes : Loop.WritesOwn (fun _ => True)
    (fun (s : Edges K) id => s.slots.get? id) EdgeSlot.id
    (fun slot old => old.map (relabel same (edges.get? slot.id))) (setSameSlot same edges) where
  keeps _ _ h := h
  own s slot _ := by
    unfold setSameSlot
    cases edges.get? slot.id with
    | none => exact Option.map_id'.symm
    | some e => exact (OrdMap.get?_modify _ _ _ _).trans (if_pos rfl)
  other s slot id _ h := by
    unfold setSameSlot
    cases edges.get? slot.id with
    | none => rfl
    | some e => exact (OrdMap.get?_modify _ _ _ _).trans (if_neg h)

/-- **Every arc is looked at again.** -/
theorem get?_setSame (hs : s.Pooled) (id : String) : (s.setSame same edges).slots.get? id
    = (s.slots.get? id).map (relabel same (edges.get? id)) := by
  -- the loop runs over the slots, which are kept under their ids
  have hids : s.slots.values.map EdgeSlot.id = s.slots.keys :=
    OrdMap.map_values_eq_keys fun id slot h => (hs.slot id slot h).1
  unfold setSame
  cases h : s.slots.get? id with
  | none =>
    refine ((setSameSlot_writes same edges).foldl_of_not_mem trivial ?_).trans h
    intro slot hslot heq
    -- an id without a slot is met in no round
    have hmem : id ∈ s.slots.keys := hids ▸ heq ▸ List.mem_map_of_mem hslot
    exact OrdMap.not_mem_iff.2 h (OrdMap.mem_keys.1 hmem)
  | some slot =>
    have hid : slot.id = id := (hs.slot id slot h).1
    have hnd : (s.slots.values.map EdgeSlot.id).Nodup := hids ▸ s.slots.nodup
    have hown := (setSameSlot_writes same edges).foldl_of_mem hnd (s := s) trivial
      (OrdMap.mem_values_of_get? h)
    rw [hid, h] at hown
    exact hown

theorem mem_setSame (hs : s.Pooled) : id ∈ (s.setSame same edges).slots ↔ id ∈ s.slots := by
  rw [OrdMap.mem_iff_isSome, get?_setSame same edges hs, Option.isSome_map]
  rfl

end

/-! ## Coming and changing the width -/

section

variable {K : Type*} [Field K]

theorem pooled_new : (new capacity : Edges K).Pooled := sound_new

variable {α : Type*} {g : EdgeSlot K → α} {s : Edges K} {id : String}

/-- A new edge gets an arc when there is room, and one that has an arc keeps it as it is. -/
theorem seen_add (hroom : s.free 0 ≠ []) (id id' : String) (same : Bool) :
    seen EdgeSlot.same (s.add capacity id same) id'
      = if id' = id then some ((seen EdgeSlot.same s id).getD same)
        else seen EdgeSlot.same s id' := by
  unfold add
  split
  · next h =>
    -- an arc that is there already stays as it is
    obtain ⟨slot, hslot⟩ := OrdMap.mem_iff.1 h
    split
    · next heq => rw [heq, seen, hslot]; rfl
    · rfl
  · next h =>
    -- a new one takes a free place of the first batch
    obtain ⟨index, rest, hfree⟩ := List.exists_cons_of_ne_nil hroom
    rw [place_of_cons hfree]
    show ((s.slots.set id _).get? id').map EdgeSlot.same = _
    rw [OrdMap.get?_set]
    split
    · rw [seen, OrdMap.not_mem_iff.1 h]
      rfl
    · rfl

variable [LinearOrder K]

/-- Removing an arc keeps the mesh sound. -/
theorem Pooled.remove (hs : s.Pooled) (id : String) : (s.remove id).Pooled :=
  Sound.call hs (.remove id)

/-- Adding an arc keeps the mesh sound. -/
theorem Pooled.add (hs : s.Pooled) (id : String) (same : Bool) :
    (s.add capacity id same).Pooled := Sound.call hs (.add id same)

/-- A new rate keeps the mesh sound. -/
theorem Pooled.setRate (hs : s.Pooled) (id : String) (rate : K) :
    (s.setRate capacity id rate).Pooled := Sound.call hs (.setRate id rate)

/-- A new rate does not take an arc away, nor change its look. -/
theorem seen_setRate (hs : s.Pooled) (hle : s.slots.size ≤ capacity)
    (hg : ∀ slot slot', SameLook slot slot' → g slot' = g slot) (id id' : String) (rate : K) :
    seen g (s.setRate capacity id rate) id' = seen g s id' := by
  cases h : s.slots.get? id with
  | none => rw [setRate, h]
  | some slot =>
    -- wherever the arc goes, it looks as before, and the others stay
    have hset : ∀ (m : OrdMap String (EdgeSlot K)) (slot' : EdgeSlot K), SameLook slot slot' →
        (∀ id', id' ≠ id → m.get? id' = s.slots.get? id') →
        ((m.set id slot').get? id').map g = seen g s id' := by
      intro m slot' hlook hother
      rw [OrdMap.get?_set]
      split
      · next heq =>
        rw [heq, seen, h]
        exact congrArg some (hg slot slot' hlook)
      · next hne => rw [hother id' hne, seen]
    by_cases hwant : want rate = slot.batch
    · rw [setRate_of_eq h hwant]
      exact hset s.slots _ ⟨rfl, rfl, rfl, rfl⟩ fun _ _ => rfl
    -- there is room: the batch it wants holds at most the other arcs
    · obtain ⟨index, rest, hroom⟩ := List.exists_cons_of_ne_nil (hs.free_ne_nil_of_ne hle h hwant)
      rw [setRate_of_cons h hwant hroom]
      refine hset _ _ ⟨rfl, rfl, rfl, rfl⟩ fun id' hne => ?_
      rw [OrdMap.get?_set_ne _ _ hne]
      exact OrdMap.get?_erase_ne _ hne

end

end Edges

end Flowscape
