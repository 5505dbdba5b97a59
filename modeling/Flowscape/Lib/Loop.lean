import Mathlib.Data.List.Nodup

/-!
# Loops that write one place per item

A loop over a list of items, each with a key, whose body reads and writes only the place of
the item's own key. When no key occurs twice, the place of a key is written exactly once,
whatever the other items do; when the body overwrites the place with one value, it does not
matter how often the key occurs.

The places are given by a view `view : σ → κ → γ` of the loop's state, so a state with
several maps can be looked at through each of them.
-/

namespace Loop

variable {σ β κ γ : Type*}

/-- What every round keeps, the loop keeps. -/
theorem foldl_keeps {J : σ → Prop} {f : σ → β → σ} (h : ∀ s b, J s → J (f s b)) {l : List β}
    {s : σ} (hs : J s) : J (l.foldl f s) := by
  induction l generalizing s with
  | nil => exact hs
  | cons b rest ih => exact ih (h s b hs)

/-- What one round makes hold and every round keeps, holds after the loop. -/
theorem foldl_makes {J : σ → Prop} {f : σ → β → σ} (h : ∀ s b, J s → J (f s b)) {l : List β}
    {b : β} (hb : b ∈ l) (hmake : ∀ s, J (f s b)) {s : σ} : J (l.foldl f s) := by
  obtain ⟨l₁, l₂, rfl⟩ := List.append_of_mem hb
  rw [List.foldl_append, List.foldl_cons]
  exact foldl_keeps h (hmake _)

/-- What no round changes, the loop does not change. -/
theorem foldl_const {g : σ → γ} {f : σ → β → σ} (h : ∀ s b, g (f s b) = g s) {l : List β}
    {s : σ} : g (l.foldl f s) = g s := by
  induction l generalizing s with
  | nil => rfl
  | cons b rest ih => rw [List.foldl_cons, ih, h]

/-- What every round of two loops keeps between their states, the loops keep. -/
theorem foldl_rel {τ : Type*} {R : σ → τ → Prop} {f : σ → β → σ} {g : τ → β → τ}
    (h : ∀ s t b, R s t → R (f s b) (g t b)) {l : List β} {s : σ} {t : τ} (hst : R s t) :
    R (l.foldl f s) (l.foldl g t) := by
  induction l generalizing s t with
  | nil => exact hst
  | cons b rest ih => exact ih (h s t b hst)

/-- Where `J` holds, a round with item `b` turns what the view has at `key b` with `upd b`,
and leaves the rest of the view alone. -/
structure WritesOwn (J : σ → Prop) (view : σ → κ → γ) (key : β → κ) (upd : β → γ → γ)
    (f : σ → β → σ) : Prop where
  keeps : ∀ s b, J s → J (f s b)
  own : ∀ s b, J s → view (f s b) (key b) = upd b (view s (key b))
  other : ∀ s b k, J s → k ≠ key b → view (f s b) k = view s k

namespace WritesOwn

variable {J : σ → Prop} {view : σ → κ → γ} {key : β → κ} {upd : β → γ → γ} {f : σ → β → σ}

/-- A key that no item has is left alone. -/
theorem foldl_of_not_mem (h : WritesOwn J view key upd f) {l : List β} {s : σ} (hs : J s)
    {k : κ} (hk : ∀ b ∈ l, key b ≠ k) : view (l.foldl f s) k = view s k := by
  induction l generalizing s with
  | nil => rfl
  | cons b rest ih =>
    have hb : k ≠ key b := Ne.symm (hk b List.mem_cons_self)
    rw [List.foldl_cons, ih (h.keeps s b hs) fun b' hb' => hk b' (List.mem_cons_of_mem b hb')]
    exact h.other s b k hs hb

/-- The place of a key after the loop: what the items with that key make of it, one after the
other. -/
theorem foldl_view [DecidableEq κ] (h : WritesOwn J view key upd f) {l : List β} {s : σ}
    (hs : J s) (k : κ) : view (l.foldl f s) k
      = (l.filter fun b => key b = k).foldl (fun v b => upd b v) (view s k) := by
  induction l generalizing s with
  | nil => rfl
  | cons b rest ih =>
    rw [List.foldl_cons, ih (h.keeps s b hs), List.filter_cons]
    by_cases hk : key b = k
    · rw [if_pos (decide_eq_true hk), List.foldl_cons, ← hk, h.own s b hs]
    · rw [if_neg (by simpa using hk), h.other s b k hs (Ne.symm hk)]

/-- The key of an item is written once, when no key occurs twice. -/
theorem foldl_of_mem (h : WritesOwn J view key upd f) {l : List β} (hnd : (l.map key).Nodup)
    {s : σ} (hs : J s) {b : β} (hb : b ∈ l) :
    view (l.foldl f s) (key b) = upd b (view s (key b)) := by
  induction l generalizing s with
  | nil => cases hb
  | cons b' rest ih =>
    rw [List.map_cons, List.nodup_cons] at hnd
    rw [List.foldl_cons]
    rcases List.mem_cons.1 hb with rfl | hb
    -- the key is there once, so later rounds leave what this one wrote
    · have hrest : ∀ b' ∈ rest, key b' ≠ key b := fun b' hb' heq =>
        hnd.1 (List.mem_map.2 ⟨b', hb', heq⟩)
      rw [h.foldl_of_not_mem (h.keeps s b hs) hrest, h.own s b hs]
    · have hne : key b ≠ key b' := fun heq => hnd.1 (List.mem_map.2 ⟨b, hb, heq⟩)
      rw [ih hnd.2 (h.keeps s b' hs) hb, h.other s b' (key b) hs hne]

/-- A place that has been overwritten keeps the value. -/
theorem foldl_overwritten {c : γ} (h : WritesOwn J view key (fun _ _ => c) f) {l : List β}
    {s : σ} (hs : J s) {k : κ} (hc : view s k = c) : view (l.foldl f s) k = c := by
  induction l generalizing s with
  | nil => exact hc
  | cons b rest ih =>
    apply ih (h.keeps s b hs)
    by_cases hk : k = key b
    · rw [hk]
      exact h.own s b hs
    · rw [h.other s b k hs hk]
      exact hc

/-- Overwriting with one value, any number of times. -/
theorem foldl_overwrite {c : γ} (h : WritesOwn J view key (fun _ _ => c) f) {l : List β}
    {s : σ} (hs : J s) {b : β} (hb : b ∈ l) : view (l.foldl f s) (key b) = c := by
  induction l generalizing s with
  | nil => cases hb
  | cons b' rest ih =>
    rcases List.mem_cons.1 hb with rfl | hb
    · exact h.foldl_overwritten (h.keeps s b hs) (h.own s b hs)
    · exact ih (h.keeps s b' hs) hb

end WritesOwn

end Loop
