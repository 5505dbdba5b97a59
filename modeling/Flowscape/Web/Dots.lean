import Flowscape.Web.PageRuns

/-!
# Flowscape: the red dots of the machines

A machine that Relay has lost has a red dot on its chip. The dots are set when the machines are
laid out, and by every tick that names a lost machine. A tick that names none leaves the dots as
they are, so the last machine that comes back keeps its dot until the next layout.
-/

namespace Flowscape

open GraphState

namespace Page

section

variable {K : Type*} {p q : Page K}

/-- The dots are on the machines of the page that the last tick calls unavailable. -/
def DotsAgree (p : Page K) : Prop :=
  ∀ name, name ∈ p.panel.down ↔ name ∈ p.machines ∧ name ∈ p.unavailable

/-- No tick comes without a lost machine while there is a dot. -/
def NoneRecovers (p : Page K) : Input K → Prop
  | .tick _ unavailable => unavailable = [] → ∀ name, name ∉ p.panel.down
  | _ => True

theorem mem_down_syncMachines (f : FiltersPanel) (machines : OrdSet String)
    (unavailable : List String) (name : String) :
    name ∈ (f.syncMachines machines.keys unavailable).down ↔
      name ∈ machines ∧ name ∈ unavailable := by
  simp [FiltersPanel.syncMachines]

/-- Where neither the dots nor the machines change, they agree as before. -/
theorem DotsAgree.congr (h : p.DotsAgree) (hdown : q.panel.down = p.panel.down)
    (hmachines : q.machines = p.machines) (hunavailable : q.unavailable = p.unavailable) :
    q.DotsAgree := by
  intro name
  rw [hdown, hmachines, hunavailable]
  exact h name

/-- No control changes which ones are down. -/
theorem down_use {u : Control} (h : p.use u = some q) : q.panel.down = p.panel.down ∧
    q.machines = p.machines ∧ q.unavailable = p.unavailable := by
  -- a click changes the switches and not the dots
  have hclick : ∀ {e : FiltersPanel.Event} {r : Page K}, (∀ f f' : FiltersPanel,
      FiltersPanel.step f e = some f' → f'.down = f.down) →
      (FiltersPanel.step p.panel e).map (fun panel => { p with panel }) = some r →
      r.panel.down = p.panel.down ∧ r.machines = p.machines ∧ r.unavailable = p.unavailable := by
    intro e r hdown hr
    obtain ⟨panel, hpanel, rfl⟩ := Option.map_eq_some_iff.1 hr
    exact ⟨hdown _ _ hpanel, rfl, rfl⟩
  cases u with
  | «namespace» ns alt =>
    refine hclick (fun f f' hf => ?_) h
    simp only [FiltersPanel.step] at hf
    split at hf
    · cases hf
      rfl
    · cases hf
  | machine name =>
    refine hclick (fun f f' hf => ?_) h
    simp only [FiltersPanel.step] at hf
    split at hf
    · cases hf
      rfl
    · cases hf
  | groupBy mode => cases h; exact ⟨rfl, rfl, rfl⟩
  | verdict v => cases h; exact ⟨rfl, rfl, rfl⟩
  | protocol proto => cases h; exact ⟨rfl, rfl, rfl⟩
  | reserved checked => cases h; exact ⟨rfl, rfl, rfl⟩
  | window seconds => cases h; exact ⟨rfl, rfl, rfl⟩
  | pause => cases h; exact ⟨rfl, rfl, rfl⟩

end

section

variable {K : Type*} [Field K] [LinearOrder K] {B : Browser K} {p q : Page K}

/-- Applying the changes leaves the dots as they are. -/
theorem DotsAgree.applyChanges (h : p.DotsAgree) : (p.applyChanges B).DotsAgree := by
  have hshrunk : p.shrunk.panel = p.panel ∧ p.shrunk.machines = p.machines ∧
      p.shrunk.unavailable = p.unavailable := by
    simp only [shrunk, trim]
    split <;> exact ⟨rfl, rfl, rfl⟩
  obtain ⟨hpanel, hmachines, hunavailable⟩ := hshrunk
  rw [applyChanges_eq, settled]
  split
  · exact mem_down_syncMachines p.shrunk.panel (p.shrunk.relayout B).machines p.shrunk.unavailable
  · exact h.congr (congrArg FiltersPanel.down hpanel) hmachines hunavailable

theorem DotsAgree.frame (h : p.DotsAgree) (c : Clock K) : (p.frame B c).DotsAgree := by
  have happly : (p.applyChanges B).DotsAgree := h.applyChanges
  rw [Page.frame]
  split
  · exact happly.congr rfl rfl rfl
  · exact happly.congr rfl rfl rfl

/-- **A step keeps the dots right just when no tick tells that all are back.** -/
theorem dotsAgree_step_iff (h : p.DotsAgree) {i : Input K} (hstep : p.step B i = some q) :
    q.DotsAgree ↔ p.NoneRecovers i := by
  cases i with
  | hello m =>
    cases hstep
    exact iff_of_true (h.congr rfl rfl rfl) trivial
  | snapshot m =>
    cases hstep
    exact iff_of_true (h.congr rfl rfl rfl) trivial
  | tick t unavailable =>
    cases hstep
    show (∀ name, name ∈ (p.onTick t unavailable).panel.down ↔ _) ↔ _
    have hpanel : (p.onTick t unavailable).panel = if unavailable ≠ [] then
        p.panel.syncMachines p.machines.keys unavailable else p.panel := rfl
    -- a tick that names nobody skips the sync, so the dots have to be out already
    by_cases hnone : unavailable = []
    · subst hnone
      rw [hpanel, if_neg (not_not.2 rfl)]
      exact ⟨fun hagree _ name hin => List.not_mem_nil ((hagree name).1 hin).2, fun hdark name =>
        iff_of_false (hdark rfl name) fun hin => List.not_mem_nil hin.2⟩
    · rw [hpanel, if_pos hnone]
      exact iff_of_true (mem_down_syncMachines _ _ _) fun hempty => absurd hempty hnone
  | frame c =>
    cases hstep
    exact iff_of_true (h.frame c) trivial
  | control u c =>
    obtain ⟨p', huse, rfl⟩ := Option.map_eq_some_iff.1 hstep
    obtain ⟨hdown, hmachines, hunavailable⟩ := down_use huse
    have hp' : p'.DotsAgree := h.congr hdown hmachines hunavailable
    refine iff_of_true ?_ trivial
    unfold onChange
    split
    · let r : Page K := { p' with
        layout := { p'.layout with groupBy := p'.filters.groupBy }, membershipDirty := true }
      have hr : r.DotsAgree := hp'.congr rfl rfl rfl
      exact (hr.applyChanges (B := B)).congr rfl rfl rfl
    · exact hp'.congr rfl rfl rfl

/-- **The dots are right in every state of a run exactly as long as** no tick comes without a lost
machine while there is a dot. -/
theorem always_dotsAgree_iff (B : Browser K) (inputs : List (Input K)) :
    Run.Always (Page.step B) DotsAgree start inputs ↔
      Run.EveryStep (Page.step B) NoneRecovers start inputs := by
  refine Run.always_iff_everyStep (J := fun _ => True) (fun _ _ _ _ _ => trivial)
    (fun _ _ _ _ h hstep => dotsAgree_step_iff h hstep) trivial ?_
  intro name
  exact iff_of_false (OrdMap.not_mem_empty name) fun h => OrdMap.not_mem_empty name h.1

end

end Page

end Flowscape
