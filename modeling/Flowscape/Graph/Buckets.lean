import Flowscape.Protocol
import Mathlib.Data.List.Sort
import Mathlib.Data.Fintype.Basic

/-!
# Flowscape: the per-second ring (`internal/graph/buckets.go`)

One counter set per second for the retention window. A slot is reused lazily: it is zeroed
when a flow lands in a second that maps to it but carries a different epoch. The slot index is
Go's truncated remainder, so a second before 1970 can index out of range, which stops
the program: `Ring.add` has no result there.
-/

namespace Flowscape

/-- One slot of the ring. -/
structure Slot where
  epoch : Int
  counts : VerdictCode → UInt32
deriving DecidableEq

/-- A slot that was never written. -/
def Slot.zero : Slot := ⟨0, fun _ => 0⟩

/-- `ring` -/
structure Ring where
  slots : List Slot
deriving DecidableEq

/-- `newRing` -/
def newRing (seconds : Int) : Ring := ⟨List.replicate seconds.toNat Slot.zero⟩

/-- Count `v` in second `sec` of a slot, zeroing it first when it holds another second. -/
def Slot.count (s : Slot) (sec : Int) (v : VerdictCode) : Slot :=
  let s := if s.epoch ≠ sec then ⟨sec, fun _ => 0⟩ else s
  { s with counts := Function.update s.counts v (s.counts v + 1) }

/-- `ring.add` -/
def Ring.add (r : Ring) (sec : Int) (v : VerdictCode) : Option Ring :=
  -- Go panics on a remainder by an empty ring and on an index that is out of range
  if r.slots.length = 0 then none
  else
    let i := sec.tmod r.slots.length
    if i < 0 then none
    else (r.slots[i.toNat]?).map fun s => ⟨r.slots.set i.toNat (s.count sec v)⟩

/-- `ring.sparse`: the non-empty slots newer than `since`, oldest first. -/
def Ring.sparse (r : Ring) (since : Int) : List Bucket :=
  ((r.slots.filter fun s => since < s.epoch ∧ s.counts ≠ fun _ => 0).map fun s =>
    (⟨s.epoch, fun v => (s.counts v).toNat⟩ : Bucket)).insertionSort fun a b => a.sec ≤ b.sec

theorem length_newRing (seconds : Int) : (newRing seconds).slots.length = seconds.toNat := by
  simp [newRing]

/-- Counting does not change the number of slots. -/
theorem Ring.length_add {r r' : Ring} {sec : Int} {v : VerdictCode} (h : r.add sec v = some r') :
    r'.slots.length = r.slots.length := by
  unfold Ring.add at h
  split at h
  · cases h
  · simp only at h
    split at h
    · cases h
    · obtain ⟨s, _, rfl⟩ := Option.map_eq_some_iff.1 h
      simp

/-- A second from 1970 on always has a slot. -/
theorem Ring.add_isSome {r : Ring} {sec : Int} {v : VerdictCode} (hlen : 0 < r.slots.length)
    (hsec : 0 ≤ sec) : ∃ r', r.add sec v = some r' := by
  have hnonneg : 0 ≤ sec.tmod r.slots.length := Int.tmod_nonneg _ hsec
  have hlt : (sec.tmod r.slots.length).toNat < r.slots.length := by
    have := Int.tmod_lt_of_pos sec (b := (r.slots.length : Int)) (by omega)
    omega
  unfold Ring.add
  rw [if_neg (by omega)]
  simp only
  rw [if_neg (by omega), List.getElem?_eq_getElem hlt]
  exact ⟨_, rfl⟩

end Flowscape
