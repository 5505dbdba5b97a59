import Flowscape.Lib.Run
import Flowscape.Lib.Seconds
import Flowscape.Graph.Buckets
import Mathlib.Algebra.Order.Group.Nat
import Mathlib.Algebra.Order.Pi

/-!
# Flowscape: what the per-second ring holds

The ring of an edge is a ring of seconds: its slots hold what was counted for each second, up
to the size of a slot's counters, and `sparse` lists what they hold.

The newest seconds are not safe in it. A flow that comes a whole number of ring lengths too
late takes the slot of a newer second over. So the ring has the newest seconds, and no late flow
has ever erased a newer second, exactly when the flows of one slot never go back in time.
-/

namespace Flowscape

namespace Ring

/-- The index of the slot of a second. -/
def place (r : Ring) (sec : Int) : Nat := (sec % r.slots.length).toNat

/-- A second has a slot from 1970 on, and before it only in front of a whole number of ring
lengths. -/
theorem add_eq_some_iff {r r' : Ring} {sec : Int} {v : VerdictCode} :
    r.add sec v = some r' ↔
      0 < r.slots.length ∧ (0 ≤ sec ∨ (r.slots.length : Int) ∣ sec) ∧
        r' = ⟨r.slots.modify (r.place sec) fun s => s.count sec v⟩ := by
  unfold add
  by_cases hlen : r.slots.length = 0
  · rw [if_pos hlen]
    simp [hlen]
  rw [if_neg hlen]
  have hpos : 0 < r.slots.length := Nat.pos_of_ne_zero hlen
  have hrange : 0 ≤ sec % (r.slots.length : Int) ∧ sec % (r.slots.length : Int) < r.slots.length :=
    ⟨Int.emod_nonneg _ (by omega), Int.emod_lt_of_pos _ (by omega)⟩
  by_cases hsec : 0 ≤ sec ∨ (r.slots.length : Int) ∣ sec
  · have hplace : sec.tmod r.slots.length = sec % r.slots.length := by
      rcases hsec with hsec | hdvd
      · exact Int.tmod_eq_emod_of_nonneg hsec
      · rw [Int.tmod_eq_zero_of_dvd hdvd, Int.emod_eq_zero_of_dvd hdvd]
    have hlt : r.place sec < r.slots.length := by
      unfold place
      omega
    simp only [hplace]
    rw [if_neg (by omega), show (sec % (r.slots.length : Int)).toNat = r.place sec from rfl,
      List.getElem?_eq_getElem hlt, Option.map_some, Option.some.injEq,
      List.modify_eq_set_getElem?, List.getElem?_eq_getElem hlt]
    simp [hpos, hsec, eq_comm]
  · -- Go's remainder is negative, and indexing with it stops the program
    rw [not_or, not_le] at hsec
    have hneg : sec.tmod r.slots.length < 0 := by
      have hne : sec.tmod r.slots.length ≠ 0 := fun h => hsec.2 (Int.dvd_of_tmod_eq_zero h)
      have hle : 0 ≤ (-sec).tmod r.slots.length := Int.tmod_nonneg _ (by omega)
      rw [Int.neg_tmod] at hle
      omega
    simp only
    rw [if_pos hneg]
    simp [hsec.2, hsec.1]

/-- What the ring holds for a second. -/
def held (r : Ring) (t : Int) : Counters := fun v =>
  match r.slots[r.place t]? with
  | some s => if s.epoch = t then (s.counts v).toNat else 0
  | none => 0

/-- A slot that is not empty holds one of its own seconds. -/
def Fits (r : Ring) : Prop :=
  ∀ i s, r.slots[i]? = some s → s.counts ≠ (fun _ => 0) → r.place s.epoch = i

/-- The ring holds the counters that `h` has for each second, as far as they fit in a slot. -/
structure Holds (r : Ring) (h : Int → Counters) : Prop where
  fits : r.Fits
  held : ∀ t v, r.held t v = h t v % 2 ^ 32

/-- An empty ring holds nothing. -/
theorem held_newRing (n t : Int) : (newRing n).held t = fun _ => 0 := by
  funext v
  unfold held
  split
  · next s hs =>
    obtain rfl : s = Slot.zero := List.eq_of_mem_replicate (List.mem_of_getElem? hs)
    split <;> rfl
  · rfl

theorem holds_newRing (n : Int) : (newRing n).Holds fun _ => 0 where
  fits i s hs hne := by
    obtain rfl : s = Slot.zero := List.eq_of_mem_replicate (List.mem_of_getElem? hs)
    exact absurd rfl hne
  held t v := by
    rw [held_newRing]
    rfl

/-! ## Adding -/

@[simp] theorem epoch_count (s : Slot) (sec : Int) (v : VerdictCode) :
    (s.count sec v).epoch = sec := by
  unfold Slot.count
  by_cases h : s.epoch = sec <;> simp [h]

/-- The counters of a slot when a second was counted in it, whatever it held before. -/
theorem toNat_count (s : Slot) (sec : Int) (v w : VerdictCode) :
    ((s.count sec v).counts w).toNat
      = ((if s.epoch = sec then (s.counts w).toNat else 0)
          + (Pi.single v 1 : Counters) w) % 2 ^ 32 := by
  by_cases heq : s.epoch = sec
  · by_cases hw : w = v
    · subst hw
      simp [Slot.count, heq]
    · simp [Slot.count, heq, hw]
  · by_cases hw : w = v
    · subst hw
      simp [Slot.count, heq]
    · simp [Slot.count, heq, hw]

theorem place_modify (r : Ring) (i : Nat) (f : Slot → Slot) (t : Int) :
    (⟨r.slots.modify i f⟩ : Ring).place t = r.place t := by
  simp [place]

/-- Two seconds share a slot when their remainders are the same. -/
theorem place_eq_iff {r : Ring} (hlen : 0 < r.slots.length) {t u : Int} :
    r.place u = r.place t ↔ u % r.slots.length = t % r.slots.length := by
  have ht : 0 ≤ t % (r.slots.length : Int) := Int.emod_nonneg _ (by omega)
  have hu : 0 ≤ u % (r.slots.length : Int) := Int.emod_nonneg _ (by omega)
  unfold place
  omega

theorem place_lt {r : Ring} (hlen : 0 < r.slots.length) (t : Int) :
    r.place t < r.slots.length := by
  have h₁ : 0 ≤ t % (r.slots.length : Int) := Int.emod_nonneg _ (by omega)
  have h₂ : t % (r.slots.length : Int) < r.slots.length := Int.emod_lt_of_pos _ (by omega)
  unfold place
  omega

/-- Adding to a ring is adding to the seconds it holds. -/
theorem Holds.add {r r' : Ring} {h : Int → Counters} {sec : Int} {v : VerdictCode}
    (hr : r.Holds h) (hadd : r.add sec v = some r') :
    r'.Holds (SecondRing.add r.slots.length h sec (Pi.single v 1)) := by
  obtain ⟨hlen, -, rfl⟩ := add_eq_some_iff.1 hadd
  constructor
  · intro i s hs hne
    rw [place_modify]
    rw [List.getElem?_modify] at hs
    obtain ⟨s₀, hs₀, rfl⟩ := Option.map_eq_some_iff.1 hs
    by_cases hi : r.place sec = i
    · simp only [hi, if_true, epoch_count]
    · simp only [hi, if_false] at hne ⊢
      exact hr.fits i s₀ hs₀ hne
  · intro t w
    have hold := hr.held t w
    unfold Ring.held at hold ⊢
    rw [place_modify]
    rw [List.getElem?_modify]
    rw [List.getElem?_eq_getElem (place_lt hlen t)] at hold ⊢
    generalize r.slots.get ⟨r.place t, place_lt hlen t⟩ = s at hold ⊢
    simp only at hold
    simp only [Option.map_eq_map, Option.map_some]
    -- the slot of `t` is the one that is written, or it is as it was
    by_cases hp : r.place sec = r.place t
    · have hmod := (place_eq_iff hlen).1 hp
      rw [if_pos hp]
      by_cases heq : sec = t
      · subst heq
        rw [epoch_count, if_pos rfl, toNat_count, hold, SecondRing.add_self, Pi.add_apply]
        exact (Nat.mod_add_mod _ _ _)
      · rw [epoch_count, if_neg heq, SecondRing.add_of_clash ⟨heq, hmod⟩]
        rfl
    · have hmod : ¬ sec % r.slots.length = t % r.slots.length := fun h =>
        hp ((place_eq_iff hlen).2 h)
      rw [if_neg hp, SecondRing.add_of_not_clash (fun heq => hp (by rw [heq])) fun hc => hmod hc.2]
      exact hold

/-! ## Reading -/

theorem held_of_getElem? {r : Ring} {t : Int} {s : Slot} (h : r.slots[r.place t]? = some s) :
    r.held t = if s.epoch = t then fun v => (s.counts v).toNat else fun _ => 0 := by
  by_cases heq : s.epoch = t
  · funext v
    simp only [held, h, heq, if_true]
  · funext v
    simp only [held, h, heq, if_false]

theorem Fits.held_epoch {r : Ring} (hr : r.Fits) {i : Nat} {s : Slot} (hs : r.slots[i]? = some s)
    (hne : s.counts ≠ fun _ => 0) : r.held s.epoch = fun v => (s.counts v).toNat := by
  have hget : r.slots[r.place s.epoch]? = some s := by rw [hr i s hs hne, hs]
  rw [held_of_getElem? hget, if_pos rfl]

/-- What is held for a second is the counters of its slot. -/
theorem exists_of_held {r : Ring} {t : Int} (h : r.held t ≠ fun _ => 0) :
    ∃ s, r.slots[r.place t]? = some s ∧ s.epoch = t ∧
      r.held t = fun v => (s.counts v).toNat := by
  cases hs : r.slots[r.place t]? with
  | none =>
    refine absurd ?_ h
    funext v
    rw [held, hs]
  | some s =>
    rw [held_of_getElem? hs] at h ⊢
    by_cases heq : s.epoch = t
    · rw [if_pos heq]
      exact ⟨s, rfl, heq, rfl⟩
    · exact absurd (if_neg heq) h

/-- No slot holds two seconds. -/
theorem eq_of_place_eq {r : Ring} {t u : Int} (ht : r.held t ≠ fun _ => 0)
    (hu : r.held u ≠ fun _ => 0) (h : r.place t = r.place u) : t = u := by
  obtain ⟨s, hs, rfl, -⟩ := exists_of_held ht
  obtain ⟨s', hs', rfl, -⟩ := exists_of_held hu
  rw [h] at hs
  exact congrArg Slot.epoch (Option.some.inj (hs.symm.trans hs'))

/-- Counters are zero when their numbers are. -/
theorem toNat_counts_eq_zero {c : VerdictCode → UInt32} :
    (fun v => (c v).toNat) = (fun _ => 0) ↔ c = fun _ => 0 := by
  constructor
  · intro h
    funext v
    exact UInt32.toNat_inj.1 (congrFun h v)
  · rintro rfl
    rfl

/-- `sparse` lists the seconds after `since` for which something is held. -/
theorem Fits.mem_sparse {r : Ring} (hr : r.Fits) {since : Int} {b : Bucket} :
    b ∈ r.sparse since ↔
      since < b.sec ∧ r.held b.sec ≠ (fun _ => 0) ∧ b.counts = r.held b.sec := by
  rw [sparse, (List.perm_insertionSort _ _).mem_iff, List.mem_map]
  simp only [List.mem_filter, decide_eq_true_eq]
  constructor
  -- a slot of the ring is found under its own epoch, and the other way round
  · rintro ⟨s, ⟨hmem, hsince, hne⟩, rfl⟩
    obtain ⟨i, hi⟩ := List.mem_iff_getElem?.1 hmem
    have hheld := hr.held_epoch hi hne
    refine ⟨hsince, ?_, hheld.symm⟩
    show r.held s.epoch ≠ _
    rw [hheld]
    exact fun h => hne (toNat_counts_eq_zero.1 h)
  · rintro ⟨hsince, hne, hcounts⟩
    obtain ⟨s, hget, hepoch, hheld⟩ := exists_of_held hne
    have hmem : s ∈ r.slots := List.mem_of_getElem? hget
    have hs : s.counts ≠ fun _ => 0 := by
      intro h
      rw [hheld] at hne
      exact hne (toNat_counts_eq_zero.2 h)
    refine ⟨s, ⟨hmem, hepoch ▸ hsince, hs⟩, ?_⟩
    obtain ⟨sec, counts⟩ := b
    simp only at hepoch hcounts hheld
    rw [hcounts, hheld, hepoch]

/-- No two slots that have counted something are of one second. -/
theorem Fits.pairwise_epoch {r : Ring} (hr : r.Fits) :
    r.slots.Pairwise fun s s' => s.counts ≠ (fun _ => 0) → s'.counts ≠ (fun _ => 0) →
      s.epoch ≠ s'.epoch := by
  rw [List.pairwise_iff_getElem]
  intro i j hi hj hij hne hne' heq
  have hi' := hr i _ (List.getElem?_eq_getElem hi) hne
  have hj' := hr j _ (List.getElem?_eq_getElem hj) hne'
  rw [heq] at hi'
  omega

/-- `sparse` lists each second once, oldest first. -/
theorem Fits.sparse_increasing {r : Ring} (hr : r.Fits) (since : Int) :
    (r.sparse since).Pairwise fun a b => a.sec < b.sec := by
  have hne : (r.sparse since).Pairwise fun a b => a.sec ≠ b.sec := by
    rw [sparse, (List.perm_insertionSort _ _).pairwise_iff fun h => Ne.symm h, List.pairwise_map,
      List.pairwise_filter]
    refine hr.pairwise_epoch.imp fun h hs hs' => ?_
    simp only [decide_eq_true_eq] at hs hs'
    exact h hs.2 hs'.2
  have hle : (r.sparse since).Pairwise fun a b => a.sec ≤ b.sec := List.pairwise_insertionSort _ _
  exact hle.imp₂ (fun a b hle hne => lt_of_le_of_ne hle hne) hne

/-! ### The slots as a list of amounts -/

/-- The slots, each with its second. -/
def entries (r : Ring) : List (Int × Counters) :=
  r.slots.map fun s => (s.epoch, fun v => (s.counts v).toNat)

/-- The sum of the slots whose epoch lies in `(lo, hi]`. -/
def between (r : Ring) (lo hi : Int) : Counters :=
  ((r.entries.filter fun p => lo < p.1 ∧ p.1 ≤ hi).map Prod.snd).sum

/-- Slots that hold nothing for a second add nothing to its total. -/
theorem total_slots_eq_zero {l : List Slot} {t : Int}
    (h : ∀ s ∈ l, s.epoch = t → (fun v => (s.counts v).toNat) = fun _ => 0) :
    SecondRing.total (l.map fun s => (s.epoch, fun v => (s.counts v).toNat)) t = 0 := by
  apply SecondRing.total_eq_zero
  intro p hp hpt
  obtain ⟨s, hs, rfl⟩ := List.mem_map.1 hp
  exact h s hs hpt

/-- What is held for a second is all that the slots have for it. -/
theorem Fits.total_entries {r : Ring} (hr : r.Fits) (t : Int) :
    SecondRing.total r.entries t = r.held t := by
  -- a slot elsewhere than in the place of `t` has nothing for it
  have hother : ∀ {i s}, r.slots[i]? = some s → r.place t ≠ i → s.epoch = t →
      (fun v => (s.counts v).toNat) = fun _ => 0 := by
    rintro i s hs hi rfl
    by_contra hne
    exact hi (hr i s hs fun hc => hne (toNat_counts_eq_zero.2 hc))
  cases hget : r.slots[r.place t]? with
  | none =>
    have hzero : r.held t = fun _ => 0 := by
      funext v
      rw [held, hget]
    rw [hzero]
    refine total_slots_eq_zero fun s hs => ?_
    obtain ⟨i, hi⟩ := List.mem_iff_getElem?.1 hs
    refine hother hi fun heq => ?_
    rw [heq, hi] at hget
    cases hget
  | some s =>
    obtain ⟨hlt, hs⟩ := List.getElem?_eq_some_iff.1 hget
    let pair : Slot → Int × Counters := fun s => (s.epoch, fun v => (s.counts v).toNat)
    have hsplit : r.entries = (r.slots.take (r.place t)).map pair ++
        pair s :: (r.slots.drop (r.place t + 1)).map pair := by
      rw [← List.map_cons, ← hs, List.getElem_cons_drop, ← List.map_append,
        List.take_append_drop]
      rfl
    have hpre : SecondRing.total ((r.slots.take (r.place t)).map pair) t = 0 := by
      refine total_slots_eq_zero fun s' hs' => ?_
      obtain ⟨i, hi⟩ := List.mem_iff_getElem?.1 hs'
      rw [List.getElem?_take] at hi
      split at hi
      · exact hother hi (by omega)
      · cases hi
    have hpost : SecondRing.total ((r.slots.drop (r.place t + 1)).map pair) t = 0 := by
      refine total_slots_eq_zero fun s' hs' => ?_
      obtain ⟨i, hi⟩ := List.mem_iff_getElem?.1 hs'
      rw [List.getElem?_drop] at hi
      exact hother hi (by omega)
    rw [hsplit, SecondRing.total_append, hpre, zero_add, held_of_getElem? hget]
    split
    · next heq =>
      rw [← heq] at hpost ⊢
      rw [SecondRing.total_cons_self, hpost, add_zero]
    · next hne =>
      rw [SecondRing.total_cons_of_ne hne, hpost]
      rfl

/-- `sparse` lists the entries after `since` that are not empty, in another order. -/
theorem sparse_perm (r : Ring) (since : Int) :
    ((r.sparse since).map fun b => (b.sec, b.counts)).Perm
      (r.entries.filter fun p => since < p.1 ∧ p.2 ≠ fun _ => 0) := by
  refine ((List.perm_insertionSort _ _).map _).trans (List.Perm.of_eq ?_)
  rw [entries, List.filter_map, List.map_map]
  congr 1
  apply List.filter_congr
  intro s _
  simp only [Function.comp_apply, ne_eq, toNat_counts_eq_zero]

/-- What `sparse` lists for a second after `since` is what is held for it. -/
theorem Fits.total_sparse {r : Ring} (hr : r.Fits) {since t : Int} (ht : since < t) :
    SecondRing.total ((r.sparse since).map fun b => (b.sec, b.counts)) t = r.held t := by
  rw [SecondRing.total_perm (r.sparse_perm since), SecondRing.total_filter, hr.total_entries]
  rintro p - rfl hout
  by_contra hne
  simp only [decide_eq_false_iff_not, not_and, not_not] at hout
  exact hne (hout ht)

theorem held_lt (r : Ring) (t : Int) (v : VerdictCode) : r.held t v < 2 ^ 32 := by
  unfold held
  split
  · split
    · exact UInt32.toNat_lt _
    · decide
  · decide

/-! ## Adding flows in any order -/

/-- Count flows one after the other. -/
def addAll (r : Ring) (adds : List (Int × VerdictCode)) : Option Ring :=
  Run.run (fun r p => r.add p.1 p.2) r adds

/-- The counters that flows add to their seconds. -/
def increments (adds : List (Int × VerdictCode)) : List (Int × Counters) :=
  adds.map fun p => (p.1, Pi.single p.2 1)

/-- The additions to a second and a verdict are counted. -/
theorem total_increments (adds : List (Int × VerdictCode)) (t : Int) (v : VerdictCode) :
    SecondRing.total (increments adds) t v = adds.count (t, v) := by
  induction adds with
  | nil => rfl
  | cons p rest ih =>
    obtain ⟨u, w⟩ := p
    rw [List.count_cons, ← ih]
    -- another second, or another verdict, adds nothing here
    by_cases hu : u = t
    · subst hu
      show SecondRing.total ((u, Pi.single w 1) :: increments rest) u v = _
      rw [SecondRing.total_cons_self, Pi.add_apply, add_comm]
      congr 1
      by_cases hw : w = v
      · subst hw
        simp
      · simp [hw, Ne.symm hw]
    · show SecondRing.total ((u, Pi.single w 1) :: increments rest) t v = _
      rw [SecondRing.total_cons_of_ne hu]
      simp [hu]

/-- Whatever was counted, the ring holds it for the seconds that kept their slots. -/
theorem Holds.addAll {r r' : Ring} {h : Int → Counters} {adds : List (Int × VerdictCode)}
    (hr : r.Holds h) (hadd : r.addAll adds = some r') :
    r'.slots.length = r.slots.length ∧
      r'.Holds (SecondRing.addAll r.slots.length h (increments adds)) := by
  induction adds generalizing r h with
  | nil =>
    obtain rfl : r = r' := Option.some.inj hadd
    exact ⟨rfl, hr⟩
  | cons p rest ih =>
    obtain ⟨r₁, hp, hrest⟩ := Run.run_cons_eq_some.1 hadd
    obtain ⟨hlen, hholds⟩ := ih (hr.add hp) hrest
    rw [length_add hp] at hlen hholds
    exact ⟨hlen, hholds⟩

/-- Seconds from 1970 on can be counted in a ring with slots. -/
theorem addAll_isSome {r : Ring} {adds : List (Int × VerdictCode)} (hlen : 0 < r.slots.length)
    (hadds : ∀ p ∈ adds, 0 ≤ p.1) : ∃ r', r.addAll adds = some r' := by
  have hstep : ∀ (r : Ring) (p : Int × VerdictCode), 0 < r.slots.length → 0 ≤ p.1 →
      ∃ r', r.add p.1 p.2 = some r' ∧ 0 < r'.slots.length := by
    intro r p hlen hp
    obtain ⟨r', h⟩ := add_isSome (v := p.2) hlen hp
    exact ⟨r', h, by rwa [length_add h]⟩
  obtain ⟨r', hrun, -⟩ := Run.run_isSome (I := fun r : Ring => 0 < r.slots.length)
    (D := fun p : Int × VerdictCode => 0 ≤ p.1) hstep hlen hadds
  exact ⟨r', hrun⟩

/-- The buckets are the seconds of `adds` in `(M - R, M]`, each with its counts, oldest first. -/
structure KeepsNewest (R : Nat) (M : Int) (adds : List (Int × VerdictCode))
    (out : List Bucket) : Prop where
  increasing : out.Pairwise fun a b => a.sec < b.sec
  seconds : ∀ t, (∃ b ∈ out, b.sec = t) ↔ M - R < t ∧ t ≤ M ∧ ∃ p ∈ adds, p.1 = t
  counts : ∀ b ∈ out, ∀ v, b.counts v = adds.count (b.sec, v)

/-- Counting a flow leaves what is held for newer seconds as it is. -/
def SparesNewer (r : Ring) (p : Int × VerdictCode) : Prop :=
  ∀ r', r.add p.1 p.2 = some r' → ∀ t, p.1 < t → r'.held t = r.held t

/-- No flow of any of these is late by a whole number of ring lengths: the flows that share a slot
come in the order of their seconds. -/
def NoneTakesOver (R : Nat) (adds : List (Int × VerdictCode)) : Prop :=
  adds.Pairwise fun p q => ¬ (q.1 < p.1 ∧ q.1 % (R : Int) = p.1 % R)

instance (R : Nat) (adds : List (Int × VerdictCode)) : Decidable (NoneTakesOver R adds) :=
  inferInstanceAs (Decidable (List.Pairwise _ _))

/-- Then every one of the newest seconds is kept. -/
theorem NoneTakesOver.kept {R : Nat} {M : Int} {adds : List (Int × VerdictCode)}
    (h : NoneTakesOver R adds) (hmax : ∀ p ∈ adds, p.1 ≤ M) {t : Int} (ht : M - R < t) :
    SecondRing.Kept R t (increments adds) := by
  refine List.pairwise_map.2 (h.imp_of_mem ?_)
  rintro p q - hq hpq rfl ⟨hne, hmod⟩
  have hle := hmax q hq
  rcases lt_or_gt_of_ne hne with hlt | hgt
  · exact hpq ⟨hlt, hmod⟩
  · -- a newer second is not far enough away
    exact SecondRing.not_clash_of_window (by omega) (by omega) ⟨hne, hmod⟩

/-! ### One flow -/

theorem Fits.holds_held {r : Ring} (hr : r.Fits) : r.Holds r.held where
  fits := hr
  held t v := (Nat.mod_eq_of_lt (held_lt r t v)).symm

theorem Fits.held_add_of_clash {r r' : Ring} (hr : r.Fits) {u t : Int} {v : VerdictCode}
    (hadd : r.add u v = some r') (h : SecondRing.Clash r.slots.length t u) :
    r'.held t = fun _ => 0 := by
  funext w
  rw [(hr.holds_held.add hadd).held, SecondRing.add_of_clash h]
  rfl

theorem Fits.held_add_of_not_clash {r r' : Ring} (hr : r.Fits) {u t : Int} {v : VerdictCode}
    (hadd : r.add u v = some r') (hne : u ≠ t) (h : ¬ SecondRing.Clash r.slots.length t u) :
    r'.held t = r.held t := by
  funext w
  rw [(hr.holds_held.add hadd).held, SecondRing.add_of_not_clash hne h]
  exact Nat.mod_eq_of_lt (held_lt r t w)

theorem Fits.held_add_self {r r' : Ring} (hr : r.Fits) {u : Int} {v : VerdictCode}
    (hadd : r.add u v = some r') (hroom : r.held u v + 1 < 2 ^ 32) :
    r'.held u v = r.held u v + 1 := by
  rw [(hr.holds_held.add hadd).held, SecondRing.add_self, Pi.add_apply, Pi.single_eq_same,
    Nat.mod_eq_of_lt hroom]

/-! ### Any number of flows -/

theorem addAll_newRing {R : Nat} {adds : List (Int × VerdictCode)} {r : Ring}
    (hrun : (newRing R).addAll adds = some r) :
    r.slots.length = R ∧ r.Holds (SecondRing.addAll R (fun _ => 0) (increments adds)) := by
  have hlen : (newRing R).slots.length = R := by rw [length_newRing, Int.toNat_natCast]
  obtain ⟨hlen', hholds⟩ := (holds_newRing R).addAll hrun
  rw [hlen] at hlen' hholds
  exact ⟨hlen', hholds⟩

/-- A ring never holds more for a second than there were flows in it. -/
theorem held_le_count {R : Nat} {adds : List (Int × VerdictCode)} {r : Ring}
    (hrun : (newRing R).addAll adds = some r) (t : Int) (v : VerdictCode) :
    r.held t v ≤ adds.count (t, v) := by
  have hle : SecondRing.addAll R (fun _ => (0 : Counters)) (increments adds) t
      ≤ 0 + SecondRing.total (increments adds) t := SecondRing.addAll_le (increments adds)
  rw [zero_add] at hle
  rw [(addAll_newRing hrun).2.held, ← total_increments]
  exact (Nat.mod_le _ _).trans (hle v)

/-- As long as newer seconds are spared, the slot of a flow holds its second or a newer one. -/
theorem exists_held_ge {R : Nat} {adds : List (Int × VerdictCode)} {r : Ring}
    (hcount : ∀ t v, adds.count (t, v) < 2 ^ 32)
    (hspares : Run.EveryStep (fun r p => r.add p.1 p.2) SparesNewer (newRing R) adds)
    (hrun : (newRing R).addAll adds = some r) :
    ∀ p ∈ adds, ∃ t, p.1 ≤ t ∧ t % (R : Int) = p.1 % R ∧ r.held t ≠ fun _ => 0 := by
  induction adds using List.reverseRecOn generalizing r with
  | nil => exact nofun
  | append_singleton pre q ih =>
    obtain ⟨r₀, hpre, hadd⟩ := Run.run_concat_eq_some.1 hrun
    obtain ⟨hlen, hholds⟩ := addAll_newRing hpre
    have hfits : r₀.Fits := hholds.fits
    obtain ⟨u, w⟩ := q
    replace hadd : r₀.add u w = some r := hadd
    -- the flow itself is counted
    have hself : r.held u ≠ fun _ => 0 := by
      have hlt := hcount u w
      rw [List.count_append, List.count_singleton_self] at hlt
      have hle := held_le_count hpre u w
      refine Function.ne_iff.2 ⟨w, ?_⟩
      rw [hfits.held_add_self hadd (by omega)]
      exact Nat.succ_ne_zero _
    intro p hp
    rcases List.mem_append.1 hp with hp | hp
    · have hcount' : ∀ t v, pre.count (t, v) < 2 ^ 32 := fun t v =>
        lt_of_le_of_lt (by rw [List.count_append]; exact Nat.le_add_right _ _) (hcount t v)
      obtain ⟨t, hge, hmod, hheld⟩ := ih hcount' (Run.everyStep_append.1 hspares).1 hpre p hp
      -- what the slot held is newer and spared, or it is older and makes way for `u`, or it is
      -- another slot
      by_cases hnewer : u < t
      · refine ⟨t, hge, hmod, ?_⟩
        rw [Run.EveryStep.last hspares hpre hadd r hadd t hnewer]
        exact hheld
      by_cases hshared : u % (R : Int) = t % R
      · exact ⟨u, by omega, hshared.trans hmod, hself⟩
      · refine ⟨t, hge, hmod, ?_⟩
        rw [hfits.held_add_of_not_clash hadd (fun h => hshared (by rw [h]))
          (fun h => hshared (hlen ▸ h.2))]
        exact hheld
    · rw [List.mem_singleton.1 hp]
      exact ⟨u, le_rfl, rfl, hself⟩

/-- What holds of every split of a list at an element holds of its pairs. -/
theorem pairwise_of_splits {β : Type*} {P : β → β → Prop} {l : List β}
    (h : ∀ pre q post, l = pre ++ q :: post → ∀ p ∈ pre, P p q) : l.Pairwise P := by
  induction l using List.reverseRecOn with
  | nil => exact List.Pairwise.nil
  | append_singleton rest q ih =>
    refine List.pairwise_append.2 ⟨ih fun pre q' post heq => ?_, List.pairwise_singleton _ _, ?_⟩
    · apply h pre q' (post ++ [q])
      rw [heq, List.append_assoc, List.cons_append]
    · intro p hp q' hq'
      obtain rfl : q' = q := List.mem_singleton.1 hq'
      exact h rest q' [] rfl p hp

/-- Where newer seconds are spared, no flow comes late for its slot: the slot would hold a newer
second then, and lose it. -/
theorem noneTakesOver_of_sparesNewer {R : Nat} {adds : List (Int × VerdictCode)} {r : Ring}
    (hcount : ∀ t v, adds.count (t, v) < 2 ^ 32)
    (hspares : Run.EveryStep (fun r p => r.add p.1 p.2) SparesNewer (newRing R) adds)
    (hrun : (newRing R).addAll adds = some r) : NoneTakesOver R adds := by
  apply pairwise_of_splits
  rintro pre q post rfl p hp ⟨hlt, hmod⟩
  obtain ⟨r₀, hpre, hrest⟩ := Run.run_append_eq_some.1 hrun
  obtain ⟨r₁, hadd, -⟩ := Run.run_cons_eq_some.1 hrest
  obtain ⟨hlen, hholds⟩ := addAll_newRing hpre
  obtain ⟨hsparesPre, hsparesRest⟩ := Run.everyStep_append.1 hspares
  have hcount' : ∀ t v, pre.count (t, v) < 2 ^ 32 := fun t v =>
    lt_of_le_of_lt (by rw [List.count_append]; exact Nat.le_add_right _ _) (hcount t v)
  -- some second at least as new still holds the slot when the late one comes, and would have to
  -- give it up
  obtain ⟨t, hge, hshared, hheld⟩ := exists_held_ge hcount' hsparesPre hpre p hp
  have hnewer : q.1 < t := lt_of_lt_of_le hlt hge
  have hclash : SecondRing.Clash r₀.slots.length t q.1 :=
    ⟨ne_of_lt hnewer, by rw [hlen, hshared, hmod]⟩
  apply hheld
  rw [← (hsparesRest r₀ hpre r₁ hadd).1 r₁ hadd t hnewer]
  exact hholds.fits.held_add_of_clash hadd hclash

/-- Where no flow comes late for its slot, newer seconds are spared. -/
theorem NoneTakesOver.sparesNewer {R : Nat} {adds : List (Int × VerdictCode)}
    (h : NoneTakesOver R adds) :
    Run.EveryStep (fun r p => r.add p.1 p.2) SparesNewer (newRing R) adds := by
  induction adds using List.reverseRecOn with
  | nil => trivial
  | append_singleton pre q ih =>
    obtain ⟨hpre, -, hlate⟩ := List.pairwise_append.1 h
    refine Run.everyStep_append.2
      ⟨ih hpre, fun r₀ hrun r₁ _ => ⟨fun r' hadd t hnewer => ?_, trivial⟩⟩
    obtain ⟨hlen, hholds⟩ := addAll_newRing hrun
    by_cases hclash : SecondRing.Clash r₀.slots.length t q.1
    · -- nothing was held for the newer second: a flow in it would have come before
      rw [hholds.fits.held_add_of_clash hadd hclash]
      symm
      by_contra hheld
      obtain ⟨v, hv⟩ := Function.ne_iff.1 hheld
      have hpos : 0 < pre.count (t, v) :=
        lt_of_lt_of_le (Nat.pos_of_ne_zero hv) (held_le_count hrun t v)
      have hmod : q.1 % (R : Int) = t % R := hlen ▸ hclash.2
      exact hlate (t, v) (List.count_pos_iff.1 hpos) q (List.mem_singleton_self q) ⟨hnewer, hmod⟩
    · exact hholds.fits.held_add_of_not_clash hadd (ne_of_lt hnewer) hclash

theorem NoneTakesOver.held_eq {R : Nat} {M : Int} {adds : List (Int × VerdictCode)} {r : Ring}
    (h : NoneTakesOver R adds) (hcount : ∀ t v, adds.count (t, v) < 2 ^ 32)
    (hmax : ∀ p ∈ adds, p.1 ≤ M) (hrun : (newRing R).addAll adds = some r) {t : Int}
    (ht : M - R < t) : r.held t = fun v => adds.count (t, v) := by
  funext v
  rw [(addAll_newRing hrun).2.held, SecondRing.addAll_of_kept rfl (h.kept hmax ht),
    total_increments, Nat.mod_eq_of_lt (hcount t v)]

/-- A ring that has all flows of the newest seconds lists them. -/
theorem keepsNewest_of_held {R : Nat} {M : Int} {adds : List (Int × VerdictCode)} {r : Ring}
    (hr : r.Fits) (hmax : ∀ p ∈ adds, p.1 ≤ M)
    (hheld : ∀ t, M - R < t → r.held t = fun v => adds.count (t, v)) :
    KeepsNewest R M adds (r.sparse (M - R)) where
  increasing := hr.sparse_increasing _
  seconds t := by
    constructor
    -- a second is sent when it holds something, and it holds something when it was added to
    · rintro ⟨b, hb, rfl⟩
      obtain ⟨hwin, hne, -⟩ := hr.mem_sparse.1 hb
      rw [hheld _ hwin] at hne
      obtain ⟨v, hv⟩ := Function.ne_iff.1 hne
      have hmem : (b.sec, v) ∈ adds := List.count_pos_iff.1 (Nat.pos_of_ne_zero hv)
      exact ⟨hwin, hmax _ hmem, _, hmem, rfl⟩
    · rintro ⟨hwin, -, ⟨u, v⟩, hp, rfl⟩
      refine ⟨⟨u, r.held u⟩, hr.mem_sparse.2 ⟨hwin, ?_, rfl⟩, rfl⟩
      rw [hheld u hwin]
      exact Function.ne_iff.2 ⟨v, (List.count_pos_iff.2 hp).ne'⟩
  counts b hb v := by
    obtain ⟨hwin, -, hcounts⟩ := hr.mem_sparse.1 hb
    rw [hcounts, hheld _ hwin]

/-- **The newest seconds.** With no second after `M`, `sparse` returns the seconds in `(M - R, M]`
that received flows, each with its counts, and no flow has erased a newer second, exactly when the
flows that share a slot come in the order of their seconds. -/
theorem sparse_keepsNewest_iff {R : Nat} (hR : 1 ≤ R) {adds : List (Int × VerdictCode)}
    (hadds : ∀ p ∈ adds, 0 ≤ p.1) (hcount : ∀ t v, adds.count (t, v) < 2 ^ 32) {M : Int}
    (hmax : ∀ p ∈ adds, p.1 ≤ M) :
    ∃ r, (newRing R).addAll adds = some r ∧
      (KeepsNewest R M adds (r.sparse (M - R)) ∧
          Run.EveryStep (fun r p => r.add p.1 p.2) SparesNewer (newRing R) adds ↔
        NoneTakesOver R adds) := by
  have hlen : (newRing R).slots.length = R := by rw [length_newRing, Int.toNat_natCast]
  obtain ⟨r, hrun⟩ := addAll_isSome (r := newRing R) (by omega) hadds
  refine ⟨r, hrun, fun h => noneTakesOver_of_sparesNewer hcount h.2 hrun, fun h => ?_⟩
  exact ⟨keepsNewest_of_held (addAll_newRing hrun).2.fits hmax fun t ht =>
    h.held_eq hcount hmax hrun ht, h.sparesNewer⟩

/-- A second that wraps around, and a late flow that finds its own slot. -/
theorem sparse_keepsNewest_wrapped :
    ∃ r, (newRing 10).addAll [(3, 0), (13, 1), (13, 0), (11, 0)] = some r ∧
      (KeepsNewest 10 13 [(3, 0), (13, 1), (13, 0), (11, 0)] (r.sparse (13 - (10 : Nat))) ∧
          Run.EveryStep (fun r p => r.add p.1 p.2) SparesNewer (newRing (10 : Nat))
            [(3, 0), (13, 1), (13, 0), (11, 0)] ↔
        NoneTakesOver 10 [(3, 0), (13, 1), (13, 0), (11, 0)]) :=
  sparse_keepsNewest_iff (by decide) (by decide) (fun t v => by
    have := List.count_le_length (a := (t, v)) (l := [(3, 0), (13, 1), (13, 0), (11, 0)])
    exact lt_of_le_of_lt this (by decide)) (by decide)

/-- **A late flow erases a newer second.** Second 10 takes the slot of second 20 over. -/
theorem not_sparse_keepsNewest :
    ¬ ∀ (R : Nat) (adds : List (Int × VerdictCode)) (M : Int), 1 ≤ R → (∀ p ∈ adds, 0 ≤ p.1) →
      (∀ t v, adds.count (t, v) < 2 ^ 32) → (∃ p ∈ adds, p.1 = M) → (∀ p ∈ adds, p.1 ≤ M) →
      ∃ r, (newRing R).addAll adds = some r ∧ KeepsNewest R M adds (r.sparse (M - R)) ∧
        Run.EveryStep (fun r p => r.add p.1 p.2) SparesNewer (newRing R) adds := by
  intro h
  obtain ⟨r, hrun, hkeeps, -⟩ := h 10 [(20, 0), (10, 0)] 20 (by decide) (by decide)
    (fun t v => lt_of_le_of_lt (List.count_le_length (a := (t, v))) (by decide))
    ⟨(20, 0), by decide⟩ (by decide)
  obtain ⟨b, hb, hsec⟩ := (hkeeps.seconds 20).2 (by decide)
  -- second 10 takes the slot of second 20 over
  have hempty : r.sparse (20 - (10 : Nat)) = [] := by
    obtain rfl : r = _ := (Option.some.inj hrun).symm
    decide
  rw [hempty] at hb
  cases hb

end Ring

end Flowscape
