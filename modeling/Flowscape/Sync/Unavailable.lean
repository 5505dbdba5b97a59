import Flowscape.Hub.Status
import Flowscape.Web.Dots

/-!
# Flowscape: from a machine that Relay has lost to its red anchor

The source speaks at any time, the hub reads the record when it makes a tick, and the page shows a
tick when the tick gets there: ticks stand in a queue on the way, in the order of their sending.
Between two ticks the page makes frames, which add anchors and take anchors away.
-/

namespace Flowscape

/-! ## Anchors -/

namespace NodeMesh

section

variable {K : Type*} {s : NodeMesh K} {names : List String}

/-- Whatever is red stands for one of the machines. -/
def RedAmong (s : NodeMesh K) (names : List String) : Prop :=
  ∀ id slot, s.slots.get? id = some slot → slot.unavailable = true →
    slot.reserved = true ∧ slot.labelText ∈ names

theorem RedAmong.remove (h : s.RedAmong names) (id : String) : (s.remove id).RedAmong names := by
  intro id' slot hslot
  unfold NodeMesh.remove at hslot
  split at hslot
  · exact h id' slot hslot
  · exact h id' slot (OrdMap.get?_erase_eq_some.1 hslot).2

theorem RedAmong.write (h : s.RedAmong names) (id : String) {f : NodeSlot K → NodeSlot K}
    (hf : ∀ slot, (f slot).unavailable = slot.unavailable ∧ (f slot).reserved = slot.reserved ∧
      (f slot).labelText = slot.labelText) : (s.write id f).RedAmong names := by
  intro id' slot hslot hred
  have hget : (s.slots.modify id f).get? id' = some slot := hslot
  rw [OrdMap.get?_modify] at hget
  split at hget
  · obtain ⟨slot', hslot', rfl⟩ := Option.map_eq_some_iff.1 hget
    obtain ⟨hunavailable, hreserved, hlabel⟩ := hf slot'
    rw [hreserved, hlabel]
    exact h id' slot' hslot' (hunavailable ▸ hred)
  · exact h id' slot hget hred

/-- Whatever was red before, the last tick decides. -/
theorem red_setUnavailable {id : String} {slot : NodeSlot K} (h : s.RedAmong names)
    (news : List String) (hslot : (s.setUnavailable news).slots.get? id = some slot) :
    slot.unavailable = true ↔ slot.reserved = true ∧ slot.labelText ∈ news := by
  have hget := hslot
  rw [NodeMesh.setUnavailable, OrdMap.get?_map] at hget
  obtain ⟨slot', hslot', heq⟩ := Option.map_eq_some_iff.1 hget
  by_cases hreserved : slot'.reserved
  · rw [if_pos hreserved] at heq
    subst heq
    simp [hreserved]
  · rw [if_neg hreserved] at heq
    subst heq
    -- what is no anchor keeps its dot, and was not red
    refine iff_of_false (fun hred => hreserved (h id slot' hslot' hred).1) ?_
    exact fun hboth => hreserved hboth.1

end

section

variable {K : Type*} [Field K] {s : NodeMesh K} {names : List String}

/-- A new anchor is not red before the next tick. -/
theorem RedAmong.add (h : s.RedAmong names) (n : NodeState) (target : Vec3 K) :
    (s.add n target).RedAmong names := by
  intro id slot hslot hred
  unfold NodeMesh.add at hslot
  split at hslot
  · exact h id slot hslot hred
  · split at hslot
    · exact h id slot hslot hred
    · rcases OrdMap.get?_set_eq_some.1 hslot with ⟨-, rfl⟩ | ⟨-, hold⟩
      · exact absurd hred Bool.false_ne_true
      · exact h id slot hold hred

end

end NodeMesh

namespace Page

section

variable {K : Type*} {p q : Page K}

/-- No anchor is red that the last tick did not name. -/
def RedKnown (p : Page K) : Prop := p.nodes.RedAmong p.unavailable

theorem RedKnown.congr (h : p.RedKnown) (hslots : q.nodes.slots = p.nodes.slots)
    (hunavailable : q.unavailable = p.unavailable) : q.RedKnown := by
  unfold RedKnown NodeMesh.RedAmong
  rw [hslots, hunavailable]
  exact h

theorem RedKnown.removeGone (h : p.RedKnown) (c : Changes) : (p.removeGone c).RedKnown :=
  Loop.foldl_keeps (J := fun nodes : NodeMesh K => nodes.RedAmong p.unavailable)
    (fun _ id hs => hs.remove id) h

theorem RedKnown.shrunk (h : p.RedKnown) : p.shrunk.RedKnown := by
  have htrim : (trim p.state.consume.1 { p with state := p.state.consume.2 }).RedKnown := by
    have hp : Page.RedKnown { p with state := p.state.consume.2 } := h.congr rfl rfl
    unfold trim
    split
    · exact (hp.removeGone _).removeGone _
    · exact hp.removeGone _
  -- then the labels of machines are written, one by one
  refine Loop.foldl_keeps (J := fun nodes : NodeMesh K => nodes.RedAmong p.shrunk.unavailable)
    (fun nodes id hs => ?_) htrim
  unfold showMachine
  split
  · exact hs
  · split
    · exact hs.write id fun _ => ⟨rfl, rfl, rfl⟩
    · exact hs

theorem unavailable_shrunk (p : Page K) : p.shrunk.unavailable = p.unavailable := by
  simp only [Page.shrunk, trim]
  split <;> rfl

end

section

variable {K : Type*} [Field K] [LinearOrder K] {B : Browser K} {p : Page K}

/-- A new layout leaves the dots. -/
theorem RedKnown.relayout (h : p.RedKnown) (B : Browser K) : (p.relayout B).RedKnown := by
  refine Loop.foldl_keeps (J := fun nodes : NodeMesh K => nodes.RedAmong p.unavailable)
    (fun nodes e hs => ?_) h
  unfold placeNode
  split
  · exact hs.write e.1 fun _ => ⟨rfl, rfl, rfl⟩
  · split
    · exact hs
    · exact hs.add _ e.2

theorem RedKnown.settled (h : p.RedKnown) : (p.settled B).RedKnown := by
  unfold Page.settled
  split
  · exact h.shrunk.relayout B
  · exact h.shrunk

theorem RedKnown.applyChanges (h : p.RedKnown) : (p.applyChanges B).RedKnown := by
  rw [applyChanges_eq]
  exact (h.settled (B := B)).congr rfl rfl

theorem RedKnown.refreshRates (h : p.RedKnown) (c : Clock K) : (p.refreshRates B c).RedKnown := by
  refine Loop.foldl_keeps (J := fun nodes : NodeMesh K => nodes.RedAmong p.unavailable)
    (fun nodes n hs => ?_) h
  have hhidden : (nodes.setHidden n.id (p.nodeHidden n)).RedAmong p.unavailable :=
    hs.write n.id fun _ => ⟨rfl, rfl, rfl⟩
  exact hhidden.write n.id fun _ => ⟨rfl, rfl, rfl⟩

theorem RedKnown.frame (h : p.RedKnown) (c : Clock K) : (p.frame B c).RedKnown := by
  have happly : (p.applyChanges B).RedKnown := h.applyChanges
  have hprepared : (if c.due then (p.applyChanges B).refreshRates B c
      else p.applyChanges B).RedKnown := by
    split
    · exact happly.refreshRates c
    · exact happly
  exact hprepared.congr rfl rfl

/-- Applying the changes leaves the names. -/
theorem unavailable_applyChanges (p : Page K) :
    (p.applyChanges B).unavailable = p.unavailable := by
  rw [applyChanges_eq]
  show (p.settled B).unavailable = p.unavailable
  unfold Page.settled
  split
  · exact p.unavailable_shrunk
  · exact p.unavailable_shrunk

theorem unavailable_frame (p : Page K) (c : Clock K) :
    (p.frame B c).unavailable = p.unavailable := by
  have hprepared : (if c.due then (p.applyChanges B).refreshRates B c
      else p.applyChanges B).unavailable = p.unavailable := by
    split
    · exact p.unavailable_applyChanges
    · exact p.unavailable_applyChanges
  exact hprepared

/-- A change of the filters draws, and leaves the dots. -/
theorem RedKnown.onChange (h : p.RedKnown) (c : Clock K) : (p.onChange B c).RedKnown := by
  unfold Page.onChange
  split
  · let r : Page K := { p with
      layout := { p.layout with groupBy := p.filters.groupBy }, membershipDirty := true }
    have hr : r.RedKnown := h.congr rfl rfl
    exact (hr.applyChanges (B := B)).refreshRates c
  · exact h.refreshRates c

theorem unavailable_refreshRates (p : Page K) (c : Clock K) :
    (p.refreshRates B c).unavailable = p.unavailable := rfl

theorem unavailable_onChange (p : Page K) (c : Clock K) :
    (p.onChange B c).unavailable = p.unavailable := by
  unfold Page.onChange
  rw [unavailable_refreshRates]
  split
  · rw [unavailable_applyChanges]
  · rfl

/-- Only a tick brings news. -/
def Input.isTick : Input K → Bool
  | .tick _ _ => true
  | _ => false

/-- **No input but a tick changes the dots or the names.** -/
theorem RedKnown.step (h : p.RedKnown) {i : Input K} (hi : i.isTick = false) {q : Page K}
    (hstep : p.step B i = some q) : q.RedKnown ∧ q.unavailable = p.unavailable := by
  cases i with
  | hello m => cases hstep; exact ⟨h.congr rfl rfl, rfl⟩
  | snapshot m => cases hstep; exact ⟨h.congr rfl rfl, rfl⟩
  | tick t unavailable => cases hi
  | frame c => cases hstep; exact ⟨h.frame c, p.unavailable_frame c⟩
  | control u c =>
    obtain ⟨p', huse, rfl⟩ := Option.map_eq_some_iff.1 hstep
    obtain ⟨-, -, hunavailable⟩ := down_use huse
    have hp' : p'.RedKnown :=
      h.congr (congrArg NodeMesh.slots (touched_use huse).nodes) hunavailable
    exact ⟨hp'.onChange c, (p'.unavailable_onChange c).trans hunavailable⟩

end

end Page

/-! ## The source, the hub and a page -/

/-- What the source has said, the ticks on their way to a page (the oldest first), and the page. -/
structure Watch (K : Type*) where
  status : Hubble.Status
  line : List (Tick × Hub.StatusLine)
  page : Page K

namespace Watch

/-- What happens between Relay and the page: Relay speaks, the hub sends, the page receives or is
used. -/
inductive Input (K : Type*) where
  | speaks (w : Hubble.Word)
  /-- A tick of the hub that the queue of the page has room for. -/
  | sends (ρ : String → Nat) (t : Tick) (rate : ℚ) (clients : Nat)
  | receives
  | page (i : Page.Input K)

/-- The next message of the queue is taken by the page. -/
def receive {K : Type*} (s : Watch K) : List (Tick × Hub.StatusLine) → Option (Watch K)
  | [] => none
  | (t, status) :: rest =>
    some { s with line := rest, page := s.page.onTick t status.unavailable }

section

variable {K : Type*} [Field K]

/-- A page that has received nothing yet. -/
def start : Watch K := ⟨Hubble.Status.new, [], Page.start⟩

variable [LinearOrder K]

/-- One step of hub, queue and page. -/
def step (B : Browser K) (source : String) (s : Watch K) : Input K → Option (Watch K)
  | .speaks w => some { s with status := s.status.hear w }
  | .sends ρ t rate clients =>
    some { s with line := s.line ++ [(t, Hub.statusLocked source ρ s.status rate clients)] }
  | .receives => s.receive s.line
  | .page i =>
    -- ticks come by the queue
    if i.isTick then none else (s.page.step B i).map fun page => { s with page := page }

end

section

variable {K : Type*}

/-- What Relay says, if it speaks. -/
def Input.word : Input K → Option Hubble.Word
  | .speaks w => some w
  | _ => none

/-- A tick is sent. -/
def Input.isSends : Input K → Bool
  | .sends .. => true
  | _ => false

def Input.isReceives : Input K → Bool
  | .receives => true
  | _ => false

/-- What the source has said in a run. -/
def said (inputs : List (Input K)) : List Hubble.Word := inputs.filterMap Input.word

/-- For each tick that was sent, the inputs before it; the oldest tick first. -/
def sendings (past : List (Input K)) : List (Input K) → List (List (Input K))
  | [] => []
  | i :: rest =>
    if i.isSends then past :: sendings (past ++ [i]) rest else sendings (past ++ [i]) rest

/-- What had happened when the tick that the page showed last was sent. -/
def told (inputs : List (Input K)) : List (Input K) :=
  ((sendings [] inputs).take (inputs.countP Input.isReceives)).getLastD []

/-! ### One step -/

theorem said_concat (inputs : List (Input K)) (i : Input K) :
    said (inputs ++ [i]) = said inputs ++ i.word.toList := by
  rw [said, List.filterMap_append]
  cases h : i.word <;> simp [said, h]

theorem sendings_concat (past inputs : List (Input K)) (i : Input K) :
    sendings past (inputs ++ [i])
      = sendings past inputs ++ if i.isSends then [past ++ inputs] else [] := by
  induction inputs generalizing past with
  | nil => by_cases h : i.isSends <;> simp [sendings, h]
  | cons j rest ih => by_cases h : j.isSends <;> simp [sendings, h, ih]

/-- What is left to receive, with what had happened when it was sent. -/
def pending (inputs : List (Input K)) : List (List (Input K)) :=
  (sendings [] inputs).drop (inputs.countP Input.isReceives)

/-- Ticks are received in the order of their sending. -/
def InOrder (inputs : List (Input K)) : Prop :=
  inputs.countP Input.isReceives ≤ (sendings [] inputs).length

theorem InOrder.concat {inputs : List (Input K)} (h : InOrder inputs) {i : Input K}
    (hi : i.isReceives = false) : InOrder (inputs ++ [i]) := by
  unfold InOrder at h ⊢
  rw [List.countP_append, List.countP_singleton, if_neg (by simp [hi]), sendings_concat,
    List.length_append]
  omega

theorem told_concat {inputs : List (Input K)} (h : InOrder inputs) {i : Input K}
    (hi : i.isReceives = false) : told (inputs ++ [i]) = told inputs := by
  rw [told, told, List.countP_append, List.countP_singleton, if_neg (by simp [hi]), Nat.add_zero,
    sendings_concat, List.take_append_of_le_length h]

theorem pending_concat {inputs : List (Input K)} (h : InOrder inputs) {i : Input K}
    (hi : i.isReceives = false) :
    pending (inputs ++ [i]) = pending inputs ++ if i.isSends then [inputs] else [] := by
  rw [pending, pending, List.countP_append, List.countP_singleton, if_neg (by simp [hi]),
    Nat.add_zero, sendings_concat, List.drop_append_of_le_length h, List.nil_append]

/-- The oldest tick in the queue is the one that the page shows next. -/
theorem receives_concat {inputs before : List (Input K)} {rest : List (List (Input K))}
    (h : pending inputs = before :: rest) :
    told (inputs ++ [.receives]) = before ∧ pending (inputs ++ [.receives]) = rest ∧
      InOrder (inputs ++ [.receives]) := by
  have hcount : (inputs ++ [Input.receives]).countP Input.isReceives
      = inputs.countP Input.isReceives + 1 := by
    rw [List.countP_append]
    rfl
  have hsendings : sendings [] (inputs ++ [Input.receives]) = sendings [] inputs := by
    rw [sendings_concat]
    exact List.append_nil _
  -- the queue is not empty, so there is a tick that was sent and not received
  have hlt : inputs.countP Input.isReceives < (sendings [] inputs).length := by
    have hlen := congrArg List.length h
    rw [pending, List.length_drop, List.length_cons] at hlen
    omega
  rw [pending, List.drop_eq_getElem_cons hlt, List.cons.injEq] at h
  refine ⟨?_, ?_, ?_⟩
  · rw [told, hcount, hsendings, ← List.take_append_getElem hlt, List.getLastD_concat, h.1]
  · rw [pending, hcount, hsendings, h.2]
  · rw [InOrder, hcount, hsendings]
    exact hlt

/-- The list of a tick names the machines that were lost when it was sent. -/
def Bears (before : List (Input K)) (m : Tick × Hub.StatusLine) : Prop :=
  ∀ name, name ∈ m.2.unavailable ↔ Hubble.Lost (said before) name

/-- Where the news is: in the record, on the way and on the page. -/
structure Informed (inputs : List (Input K)) (s : Watch K) : Prop where
  status : s.status = Hubble.Status.heard (said inputs)
  inOrder : InOrder inputs
  line : List.Forall₂ Bears (pending inputs) s.line
  shown : ∀ name, name ∈ s.page.unavailable ↔ Hubble.Lost (said (told inputs)) name
  red : s.page.RedKnown

variable {source : String} {inputs : List (Input K)} {s s' : Watch K}

/-- Relay speaks: the hub hears it, and the page does not. -/
theorem Informed.speaks (h : s.Informed inputs) (w : Hubble.Word) :
    Informed (inputs ++ [.speaks w]) { s with status := s.status.hear w } where
  status := by
    rw [said_concat]
    show s.status.hear w = Hubble.Status.heard (said inputs ++ [w])
    rw [Hubble.Status.heard, List.foldl_append, h.status]
    rfl
  inOrder := h.inOrder.concat rfl
  line := by
    rw [pending_concat h.inOrder rfl]
    simpa [Input.isSends] using h.line
  shown := by
    -- the page was told what it was told before
    rw [told_concat h.inOrder rfl]
    exact h.shown
  red := h.red

/-- The hub sends: the message bears the machines that are lost by now. -/
theorem Informed.sends (h : s.Informed inputs) (ρ : String → Nat) (t : Tick) (rate : ℚ)
    (clients : Nat) : Informed (inputs ++ [.sends ρ t rate clients]) { s with
      line := s.line ++ [(t, Hub.statusLocked source ρ s.status rate clients)] } where
  status := by
    rw [said_concat]
    exact h.status.trans (congrArg Hubble.Status.heard (List.append_nil _).symm)
  inOrder := h.inOrder.concat rfl
  line := by
    rw [pending_concat h.inOrder rfl]
    -- the new message goes to the end of the queue, and names whom Relay has lost by now
    refine List.rel_append h.line (List.Forall₂.cons (fun name => ?_) List.Forall₂.nil)
    show name ∈ s.status.listUnavailable ρ ↔ _
    rw [Hubble.Status.mem_listUnavailable, h.status, Hubble.Status.mem_heard]
  shown := by
    rw [told_concat h.inOrder rfl]
    exact h.shown
  red := h.red

/-- The page shows the oldest tick of the queue. -/
theorem receive_eq_some (h : s.receive s.line = some s') : ∃ t status rest,
    s.line = (t, status) :: rest ∧
      s' = { s with line := rest, page := s.page.onTick t status.unavailable } := by
  cases hline : s.line with
  | nil =>
    rw [hline] at h
    cases h
  | cons m rest =>
    obtain ⟨t, status⟩ := m
    rw [hline] at h
    exact ⟨t, status, rest, rfl, (Option.some.inj h).symm⟩

/-- The page receives: it shows what the oldest message bears. -/
theorem Informed.receives (h : s.Informed inputs) {t : Tick} {status : Hub.StatusLine}
    {rest : List (Tick × Hub.StatusLine)} (hline : s.line = (t, status) :: rest) :
    Informed (inputs ++ [.receives])
      { s with line := rest, page := s.page.onTick t status.unavailable } := by
  have hall := h.line
  rw [hline] at hall
  generalize hpending : pending inputs = p at hall
  cases hall with
  | cons hbears hrest =>
    -- the head of the queue is the oldest message that is not received
    obtain ⟨htold, hleft, horder⟩ := receives_concat hpending
    refine ⟨?_, horder, hleft ▸ hrest, ?_, ?_⟩
    · rw [said_concat]
      exact h.status.trans (congrArg Hubble.Status.heard (List.append_nil _).symm)
    · rw [htold]
      exact hbears
    · exact fun id slot hslot => (NodeMesh.red_setUnavailable h.red status.unavailable hslot).1

end

section

variable {K : Type*} [Field K] [LinearOrder K] {B : Browser K} {source : String}
  {inputs : List (Input K)} {s s' : Watch K}

/-- What neither brings a word nor touches the queue of ticks leaves the news where it is. -/
theorem Informed.page (h : s.Informed inputs) {i : Page.Input K} (hi : i.isTick = false)
    {page : Page K} (hstep : s.page.step B i = some page) :
    Informed (inputs ++ [.page i]) { s with page := page } where
  status := by
    rw [said_concat]
    exact h.status.trans (congrArg Hubble.Status.heard (List.append_nil _).symm)
  inOrder := h.inOrder.concat rfl
  line := by
    rw [pending_concat h.inOrder rfl]
    simpa [Input.isSends] using h.line
  shown := by
    rw [told_concat h.inOrder rfl]
    show ∀ name, name ∈ page.unavailable ↔ _
    -- the page keeps the names that it was told last
    rw [(h.red.step hi hstep).2]
    exact h.shown
  red := (h.red.step hi hstep).1

/-- **Every step keeps the page informed.** -/
theorem Informed.step (h : s.Informed inputs) {i : Input K}
    (hstep : s.step B source i = some s') : s'.Informed (inputs ++ [i]) := by
  cases i with
  | speaks w => cases hstep; exact h.speaks w
  | sends ρ t rate clients => cases hstep; exact h.sends ρ t rate clients
  | receives =>
    obtain ⟨t, status, rest, hline, rfl⟩ := receive_eq_some hstep
    exact h.receives hline
  -- what is done on the page is no tick
  | page i =>
    simp only [Watch.step] at hstep
    split at hstep
    · cases hstep
    · next hi =>
      obtain ⟨page, hpage, rfl⟩ := Option.map_eq_some_iff.1 hstep
      exact h.page (Bool.not_eq_true _ ▸ hi) hpage

/-- A page is informed after every run. -/
theorem informed_of_run (hrun : Run.run (step B source) start inputs = some s) :
    s.Informed inputs := by
  induction inputs using List.reverseRecOn generalizing s with
  | nil =>
    obtain rfl : start = s := Option.some.inj hrun
    refine ⟨rfl, Nat.le_refl _, List.Forall₂.nil, fun name => ?_, fun id slot hslot => ?_⟩
    · exact iff_of_false List.not_mem_nil id
    · cases hslot
  | append_singleton rest i ih =>
    obtain ⟨m, hm, hstep⟩ := Run.run_concat_eq_some.1 hrun
    exact (ih hm).step hstep

/-- **An anchor that is red stands for a machine that was lost** when the last tick that the page
has shown was sent, whatever the source has said and the page has drawn since. -/
theorem red_of_run (hrun : Run.run (step B source) start inputs = some s) {id : String}
    {slot : NodeSlot K} (hslot : s.page.nodes.slots.get? id = some slot)
    (hred : slot.unavailable = true) :
    slot.reserved = true ∧ Hubble.Lost (said (told inputs)) slot.labelText := by
  have h := informed_of_run hrun
  obtain ⟨hreserved, hname⟩ := h.red id slot hslot hred
  exact ⟨hreserved, (h.shown _).1 hname⟩

/-- **When a tick gets to the page**, the red anchors are exactly those of the machines that were
lost when it was sent, and so are the red dots, unless no machine was lost: then the dots stay as
they were. -/
theorem red_received (hrun : Run.run (step B source) start (inputs ++ [.receives]) = some s) :
    (∀ id slot, s.page.nodes.slots.get? id = some slot →
      (slot.unavailable = true ↔
        slot.reserved = true ∧ Hubble.Lost (said (told (inputs ++ [.receives]))) slot.labelText)) ∧
    ((∃ name, Hubble.Lost (said (told (inputs ++ [.receives]))) name) →
      ∀ name, name ∈ s.page.panel.down ↔
        name ∈ s.page.machines ∧ Hubble.Lost (said (told (inputs ++ [.receives]))) name) := by
  obtain ⟨m, hm, hstep⟩ := Run.run_concat_eq_some.1 hrun
  have hshown := (informed_of_run hrun).shown
  obtain ⟨t, status, rest, hline, rfl⟩ := receive_eq_some hstep
  -- the anchors follow every message; the dots of the machines only one that names somebody
  refine ⟨fun id slot hslot => ?_, fun ⟨lost, hlost⟩ name => ?_⟩
  · have hred := (informed_of_run hm).red
    rw [NodeMesh.red_setUnavailable hred status.unavailable hslot]
    exact and_congr_right fun _ => hshown slot.labelText
  · have hne : status.unavailable ≠ [] := List.ne_nil_of_mem ((hshown lost).2 hlost)
    have hdown : (m.page.onTick t status.unavailable).panel.down
        = (m.page.panel.syncMachines m.page.machines.keys status.unavailable).down := by
      rw [Page.onTick, if_pos hne]
    show name ∈ (m.page.onTick t status.unavailable).panel.down ↔ _
    rw [hdown, Page.mem_down_syncMachines]
    exact and_congr_right fun _ => hshown name

end

/-! ### A machine that comes back too late -/

/-- One anchor. -/
def anchored : Snapshot where
  ts := 10000
  nodes := [{
    id := "reserved/node/m1"
    ns := "reserved"
    kind := "node"
    name := "m1"
    fqdn := ""
    machine := ""
    labels := ∅
    first := 0
    last := 0 }]
  edges := []

/-- A browser for which one anchor is always at the same place. -/
def plain : Browser ℚ where
  math := ⟨3, fun _ => 1, fun _ => 1, fun _ => 0⟩
  exp := fun _ => 1
  log1p := fun x => x
  localeCompare := CodeUnits.cmp
  forwarded := ⟨1, 1, 1⟩
  dropped := ⟨1, 1, 1⟩
  audit := ⟨1, 1, 1⟩
  error := ⟨1, 1, 1⟩

/-- Relay loses the machine, a tick is sent, and Relay reaches the machine again. -/
def lostAndFound : List (Input ℚ) :=
  [.page (.snapshot anchored), .page (.frame ⟨10, 10000, 0, false, false⟩),
    .speaks (.nodeStatus ⟨.unavailable, ["m1"]⟩),
    .sends (fun _ => 0) ⟨10100, [], [], ⟨[], []⟩, []⟩ 0 1, .speaks (.nodes [])]

/-- Whether the anchor and the chip of the machine are red. -/
def view (s : Watch ℚ) : Option (Bool × String) × Bool :=
  ((s.page.nodes.slots.get? "reserved/node/m1").map fun slot => (slot.unavailable, slot.labelText),
    "m1" ∈ s.page.machines)

set_option maxRecDepth 100000 in
theorem view_lostAndFound : (Run.run (step plain "relay") start (lostAndFound ++ [.receives])).map
    view = some (some (true, "m1"), true) := by decide

theorem red_of_run_lostAndFound :
    Hubble.Lost (said (told (lostAndFound ++ [.receives]))) "m1" := by
  obtain ⟨s, hrun, hview⟩ := Option.map_eq_some_iff.1 view_lostAndFound
  obtain ⟨slot, hslot, hfields⟩ := Option.map_eq_some_iff.1 (congrArg Prod.fst hview)
  obtain ⟨hred, hlabel⟩ := Prod.ext_iff.1 hfields
  have h := (red_of_run hrun hslot hred).2
  rwa [show slot.labelText = "m1" from hlabel] at h

theorem red_received_lostAndFound :
    ∃ s, Run.run (step plain "relay") start (lostAndFound ++ [.receives]) = some s ∧
      "m1" ∈ s.page.panel.down := by
  obtain ⟨s, hrun, hview⟩ := Option.map_eq_some_iff.1 view_lostAndFound
  have hlost : Hubble.Lost (said (told (lostAndFound ++ [.receives]))) "m1" := by
    show Hubble.Lost [.nodeStatus ⟨.unavailable, ["m1"]⟩] "m1"
    simp [Hubble.Lost, Hubble.Word.calls, Hubble.NodeState.lost]
  have hmachine : "m1" ∈ s.page.machines := of_decide_eq_true (congrArg Prod.snd hview)
  exact ⟨s, hrun, ((red_received hrun).2 ⟨"m1", hlost⟩ "m1").2 ⟨hmachine, hlost⟩⟩

end Watch

end Flowscape
