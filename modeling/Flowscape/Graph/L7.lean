import Flowscape.Graph.Key
import Mathlib.Tactic.Linarith
import Mathlib.Tactic.Positivity
import Mathlib.Algebra.Order.Field.Rat

/-!
# Flowscape: what the UI shows for proxied traffic (`internal/graph/l7.go`)

Bounded counters of request paths, DNS names and drop reasons, and the summary of the layer 7
records of an edge. Go's `nil` counter map is the empty map here: the first `add` makes it,
so no counter is empty without being `nil`. The latency average is a `float64` in Go and an
exact rational here.
-/

namespace Flowscape

/-- How many keys a counter holds before anything new lands in `other`. -/
def topN : Nat := 8

/-- `topCounter` -/
abbrev TopCounter := OrdMap String UInt32

/-- `topCounter.add` -/
def TopCounter.add (t : TopCounter) (key : String) : TopCounter :=
  let key := if key ∉ t ∧ topN ≤ OrdMap.size t then "other" else key
  OrdMap.set t key ((OrdMap.get? t key).getD 0 + 1)

/-- `l7Summary` -/
structure L7Summary where
  http : TopCounter := ∅
  dns : TopCounter := ∅
  status : Nat := 0
  latency : Rat := 0

/-- `pathPrefix`: the first two path segments of a URL, without query. -/
def pathPrefix (u : String) : String :=
  let u := u.toList
  let u :=
    match Text.afterFirst "://".toList u with
    | none => u
    | some u =>
      match Text.cutAt '/' u with
      | none => ['/']
      | some (_, path) => '/' :: path
  let u := u.takeWhile fun c => c ≠ '?' ∧ c ≠ '#'
  let u := match u with
    | '/' :: rest => rest
    | u => u
  match Text.splitN '/' 3 u with
  | [] => "/"
  | [a] => "/" ++ String.ofList a
  | [a, b] => "/" ++ String.ofList a ++ "/" ++ String.ofList b
  | a :: b :: _ => "/" ++ String.ofList a ++ "/" ++ String.ofList b ++ "/…"

/-- The record part of `l7Summary.observe`. -/
def L7Summary.observeRecord (s : L7Summary) (l7 : Layer7) : L7Summary :=
  match l7.record with
  | .http code method url =>
    if l7.type = .response then
      if code ≠ 0 then { s with status := code } else s
    else { s with http := s.http.add (method ++ " " ++ pathPrefix url) }
  | .dns query =>
    if query ≠ "" then { s with dns := s.dns.add (Text.trimSuffix query ".") } else s
  | .other => s

/-- The moving average of the latency in milliseconds. -/
def ewma (latency ms : Rat) : Rat :=
  if latency = 0 then ms else latency + (ms - latency) * (1 / 5)

/-- `l7Summary.observe` -/
def L7Summary.observe (s : L7Summary) (l7 : Layer7) : L7Summary :=
  let s := s.observeRecord l7
  if 0 < l7.latencyNs then { s with latency := ewma s.latency (l7.latencyNs / 10 ^ 6) } else s

/-- The `l7` field of an edge message: absent until something was seen. -/
def L7Summary.wire (s : L7Summary) : Option L7 :=
  if s.http.size ≠ 0 ∨ s.dns.size ≠ 0 ∨ s.status ≠ 0 then some ⟨s.http, s.dns, s.status⟩
  else none

/-! ## Summaries only grow

A latency that was measured never falls back to zero, and a counter that was sent to a client
never empties, so an absent field of a later message always means that nothing changed. -/

theorem TopCounter.add_ne_empty (t : TopCounter) (key : String) : t.add key ≠ ∅ :=
  OrdMap.set_ne_empty

namespace L7Summary

@[simp] theorem observeRecord_latency (s : L7Summary) (l7 : Layer7) :
    (s.observeRecord l7).latency = s.latency := by
  unfold observeRecord
  split
  · split
    · split <;> rfl
    · rfl
  · split <;> rfl
  · rfl

theorem ewma_pos {latency ms : Rat} (hl : 0 ≤ latency) (hms : 0 < ms) : 0 < ewma latency ms := by
  unfold ewma
  split
  · exact hms
  · linarith

/-- Where a record carries a latency, the average is positive afterwards. -/
theorem observe_latency (s : L7Summary) (l7 : Layer7) (hs : 0 ≤ s.latency) :
    (s.observe l7).latency = s.latency ∨ 0 < (s.observe l7).latency := by
  unfold observe
  by_cases h : 0 < l7.latencyNs
  · apply Or.inr
    simp only [h, if_true, observeRecord_latency]
    have hns : (0 : Rat) < l7.latencyNs := by exact_mod_cast h
    exact ewma_pos hs (by positivity)
  · apply Or.inl
    simp only [h, if_false, observeRecord_latency]

theorem observe_latency_nonneg {s : L7Summary} (hs : 0 ≤ s.latency) (l7 : Layer7) :
    0 ≤ (s.observe l7).latency := by
  rcases observe_latency s l7 hs with h | h
  · rw [h]
    exact hs
  · exact le_of_lt h

theorem observe_latency_eq_zero {s : L7Summary} (hs : 0 ≤ s.latency) {l7 : Layer7}
    (h : (s.observe l7).latency = 0) : s.latency = 0 := by
  rcases observe_latency s l7 hs with h' | h'
  · rw [← h', h]
  · rw [h] at h'
    exact absurd h' (lt_irrefl 0)

/-- A summary is left out of a message as long as nothing was observed. -/
theorem wire_eq_none_iff {s : L7Summary} :
    s.wire = none ↔ s.http = ∅ ∧ s.dns = ∅ ∧ s.status = 0 := by
  unfold wire
  split
  · next h =>
    simp only [reduceCtorEq, false_iff, ← OrdMap.size_eq_zero_iff]
    tauto
  · next h =>
    simp only [true_iff, ← OrdMap.size_eq_zero_iff]
    tauto

/-- What was left out after an observation was left out before it. -/
theorem observe_wire_eq_none {s : L7Summary} {l7 : Layer7} (h : (s.observe l7).wire = none) :
    s.wire = none := by
  -- the latency is no reason to send a summary, so only the record matters
  have hrecord : (s.observeRecord l7).wire = none := by
    rw [wire_eq_none_iff] at h ⊢
    unfold observe at h
    simp only at h
    split at h
    · exact h
    · exact h
  rw [wire_eq_none_iff] at hrecord ⊢
  unfold observeRecord at hrecord
  split at hrecord
  · split at hrecord
    · split at hrecord
      · next hcode => exact absurd hrecord.2.2 hcode
      · exact hrecord
    · exact absurd hrecord.1 (TopCounter.add_ne_empty _ _)
  · split at hrecord
    · exact absurd hrecord.2.1 (TopCounter.add_ne_empty _ _)
    · exact hrecord
  · exact hrecord

end L7Summary

end Flowscape
