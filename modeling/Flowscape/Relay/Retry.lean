import Flowscape.Relay.Client
import Mathlib.Algebra.Order.Ring.Int
import Mathlib.Data.List.Induction

/-!
# Flowscape: how the client of Hubble Relay retries (`internal/hubble/relay/client.go`)

A stream that ends is asked for again after a wait. The wait doubles from one to the next up to a
bound, begins anew after a stream that lasted, and has a random part on top. One end of a stream is
no reason to wait: the first time that Relay rejects the field mask, the client drops the mask and
asks again at once.

The context is live all the time, so nothing but a panic ends the loop. How a stream ends, how long
it has lasted and where the random numbers stand comes from outside. The log lines and the metrics
are left out.
-/

namespace Flowscape

namespace Relay

/-! ## Source definitions -/

/-- The bounds of the delay, and how long a stream must last to count as healthy. -/
def minBackoff : Time := 500 * 10 ^ 6

def maxBackoff : Time := 30 * second

def healthy : Time := 60 * second

/-- `rand.Int64N`: a number below `n`, and a panic without one. `random` is where the generator
stands. -/
def int64N (n : Int) (random : Nat) : Option Int := if n ≤ 0 then none else some (random % n)

/-- What `Run` finds when `stream` returns. -/
structure Ended where
  err : Code
  /-- `time.Since(started)` -/
  lasted : Time
  /-- The point to resume from, which `stream` moves. -/
  since : Time
  /-- Where the random numbers stand. -/
  random : Nat

/-- A call of `sleep`. -/
structure Wait where
  /-- The argument of `rand.Int64N`. -/
  bound : Int
  duration : Time

/-- A round of the loop in `Run`: the request of the stream, its end, and the wait after it. -/
structure Round where
  request : GetFlowsRequest
  ended : Ended
  wait : Option Wait

/-- The variables of `Run`. -/
structure Retry where
  client : Client
  since : Time
  backoff : Time
  /-- The rounds so far. -/
  rounds : List Round

namespace Retry

/-- `Run`, up to the loop. -/
def start (c : Client) (since : Time) : Retry where
  client := { c with fieldMask := true }
  since := since
  backoff := minBackoff
  rounds := []

/-- One round. -/
def step (s : Retry) (e : Ended) : Option Retry :=
  let request := s.client.request s.since
  if e.err = .invalidArgument ∧ s.client.fieldMask then
    some { s with
      client := { s.client with fieldMask := false }
      since := e.since
      rounds := s.rounds ++ [⟨request, e, none⟩] }
  else
    let backoff := if healthy < e.lasted then minBackoff else s.backoff
    (int64N (backoff / 4) e.random).map fun jitter =>
      { s with
        since := e.since
        backoff := if maxBackoff < backoff * 2 then maxBackoff else backoff * 2
        rounds := s.rounds ++ [⟨request, e, some ⟨backoff / 4, backoff + jitter⟩⟩] }

/-! ## The discipline -/

/-- The streams that a wait directly followed. -/
def waited (rounds : List Round) : List Ended :=
  (rounds.filter fun r => r.wait.isSome).map Round.ended

/-- How many waits before the one that follows `e` the latest wait after a healthy stream was
taken; the number of all earlier waits if there was none. -/
def waitsAgo (rounds : List Round) (e : Ended) : Nat :=
  ((e :: (waited rounds).reverse).findIdx? fun e => healthy < e.lasted).getD (waited rounds).length

/-- The wait without its random part. -/
def backoffAfter (rounds : List Round) (e : Ended) : Time :=
  min (minBackoff * 2 ^ waitsAgo rounds e) maxBackoff

/-- What holds of a round after the earlier ones. -/
structure Disciplined (earlier : List Round) (r : Round) : Prop where
  /-- The wait is the backoff and less than a quarter of it. -/
  wait : ∀ w, r.wait = some w → 0 < w.bound ∧
    backoffAfter earlier r.ended ≤ w.duration ∧ 4 * w.duration < 5 * backoffAfter earlier r.ended
  /-- Only the first rejected field mask is no reason to wait. -/
  immediate : r.wait = none ↔
    r.ended.err = .invalidArgument ∧ ∀ r' ∈ earlier, r'.ended.err ≠ .invalidArgument
  /-- The field mask is off from then on. -/
  mask : r.request.fieldMask = none ↔ ∃ r' ∈ earlier, r'.ended.err = .invalidArgument

/-! ## The backoff in closed form -/

/-- How often the backoff has been doubled since it began anew. -/
def doublings (rounds : List Round) : Nat :=
  ((waited rounds).reverse.findIdx? fun e => healthy < e.lasted).elim (waited rounds).length
    Nat.succ

/-- A wait begins anew after a healthy stream, and goes on from the earlier ones otherwise. -/
theorem waitsAgo_eq (rounds : List Round) (e : Ended) :
    waitsAgo rounds e = if healthy < e.lasted then 0 else doublings rounds := by
  unfold waitsAgo doublings
  rw [List.findIdx?_cons]
  by_cases h : healthy < e.lasted
  · simp [h]
  · simp only [h, decide_false, if_false, Bool.false_eq_true]
    cases (waited rounds).reverse.findIdx? fun e => decide (healthy < e.lasted) <;> rfl

theorem waited_concat_of_none {rounds : List Round} {r : Round} (h : r.wait = none) :
    waited (rounds ++ [r]) = waited rounds := by
  simp [waited, h]

theorem waited_concat_of_some {rounds : List Round} {r : Round} {w : Wait} (h : r.wait = some w) :
    waited (rounds ++ [r]) = waited rounds ++ [r.ended] := by
  simp [waited, h]

theorem doublings_concat_of_none {rounds : List Round} {r : Round} (h : r.wait = none) :
    doublings (rounds ++ [r]) = doublings rounds := by
  rw [doublings, waited_concat_of_none h, doublings]

/-- A wait doubles the backoff that it was taken with. -/
theorem doublings_concat_of_some {rounds : List Round} {r : Round} {w : Wait}
    (h : r.wait = some w) : doublings (rounds ++ [r]) = waitsAgo rounds r.ended + 1 := by
  have hlen : (waited rounds ++ [r.ended]).length = (waited rounds).length + 1 := by simp
  rw [doublings, waited_concat_of_some h, List.reverse_append, List.reverse_singleton,
    List.singleton_append, hlen, waitsAgo]
  cases List.findIdx? (fun e => decide (healthy < e.lasted)) (r.ended :: (waited rounds).reverse)
    <;> rfl

/-- The backoff after so many doublings. -/
def capped (k : Nat) : Time := min (minBackoff * 2 ^ k) maxBackoff

theorem capped_zero : capped 0 = minBackoff := by decide

/-- Doubling a capped delay and capping it again is the next capped delay. -/
theorem capped_succ (k : Nat) :
    (if maxBackoff < capped k * 2 then maxBackoff else capped k * 2) = capped (k + 1) := by
  unfold capped
  rw [pow_succ, ← mul_assoc]
  generalize minBackoff * 2 ^ k = x
  rcases le_total x maxBackoff with hx | hx
  · rw [min_eq_left hx]
    split
    · next hlt => exact (min_eq_right hlt.le).symm
    · next hle => exact (min_eq_left (not_lt.1 hle)).symm
  · have hmax : maxBackoff < maxBackoff * 2 := by decide
    have hdouble : maxBackoff * 2 ≤ x * 2 := Int.mul_le_mul_of_nonneg_right hx (by decide)
    rw [min_eq_right hx, if_pos hmax, min_eq_right (hmax.le.trans hdouble)]

theorem minBackoff_le_capped (k : Nat) : minBackoff ≤ capped k := by
  have hone : (1 : Int) ≤ 2 ^ k := one_le_pow₀ (by decide)
  refine le_min ?_ (by decide)
  exact le_mul_of_one_le_right (by decide) hone

/-- A random number below a quarter of the backoff. -/
theorem int64N_capped (k : Nat) (random : Nat) : 0 < capped k / 4 ∧
    ∃ jitter, int64N (capped k / 4) random = some jitter ∧ 0 ≤ jitter ∧ 4 * jitter < capped k := by
  have hfour : (4 : Int) ≤ capped k := le_trans (by decide) (minBackoff_le_capped k)
  have hpos : 0 < capped k / 4 :=
    Int.lt_of_lt_of_le Int.zero_lt_one ((Int.le_ediv_iff_mul_le (by decide)).2 hfour)
  refine ⟨hpos, random % (capped k / 4), if_neg (Int.not_le.2 hpos), ?_, ?_⟩
  · exact Int.emod_nonneg _ hpos.ne'
  · have := Int.emod_lt_of_pos (random : Int) hpos
    omega

theorem jitter_bound {b jitter : Int} (hnonneg : 0 ≤ jitter) (hlt : 4 * jitter < b) :
    b ≤ b + jitter ∧ 4 * (b + jitter) < 5 * b := by
  omega

/-! ## Rounds -/

/-- What holds between two rounds. -/
structure Inv (s : Retry) : Prop where
  backoff : s.backoff = capped (doublings s.rounds)
  mask : s.client.fieldMask = false ↔ ∃ r ∈ s.rounds, r.ended.err = .invalidArgument
  disciplined : ∀ rs r rs', s.rounds = rs ++ r :: rs' → Disciplined rs r
  /-- An immediate retry takes the mask off. -/
  once : (s.rounds.filter fun r => r.wait.isNone).length ≤ if s.client.fieldMask then 0 else 1

theorem inv_start (c : Client) (since : Time) : (start c since).Inv where
  backoff := capped_zero.symm
  mask := by simp [start]
  disciplined rs r rs' h := by
    have hmem : r ∈ (start c since).rounds := h ▸ List.mem_append_right rs List.mem_cons_self
    exact absurd hmem List.not_mem_nil
  once := Nat.zero_le _

/-- The rounds after one more are the earlier ones and it. -/
theorem disciplined_concat {rounds : List Round} {r : Round}
    (h : ∀ rs r rs', rounds = rs ++ r :: rs' → Disciplined rs r) (hr : Disciplined rounds r) :
    ∀ rs r' rs', rounds ++ [r] = rs ++ r' :: rs' → Disciplined rs r' := by
  intro rs r' rs' heq
  rcases List.eq_nil_or_concat rs' with rfl | ⟨init, last, rfl⟩
  · obtain ⟨rfl, hlast⟩ := List.append_inj' heq rfl
    obtain rfl : r = r' := by simpa using hlast
    exact hr
  · rw [List.concat_eq_append, ← List.cons_append, ← List.append_assoc] at heq
    exact h rs r' init (List.append_inj' heq rfl).1

section

variable {s : Retry} (hs : s.Inv) (e : Ended)
include hs

/-- The first time that Relay rejects the field mask. -/
theorem step_of_rejected (h : e.err = .invalidArgument ∧ s.client.fieldMask = true) :
    ∃ s', s.step e = some s' ∧ s'.Inv ∧
      ∃ r, s'.rounds = s.rounds ++ [r] ∧ r.ended = e := by
  -- the fields are asked for until the first rejection, so there was none before
  have hnone : ∀ r' ∈ s.rounds, r'.ended.err ≠ .invalidArgument := by
    intro r' hr' herr
    have := hs.mask.2 ⟨r', hr', herr⟩
    rw [h.2] at this
    cases this
  have honce := hs.once
  rw [if_pos h.2] at honce
  let r : Round := ⟨s.client.request s.since, e, none⟩
  refine ⟨_, if_pos h, ?_, r, rfl, rfl⟩
  constructor
  case backoff =>
    refine hs.backoff.trans (congrArg capped ?_)
    have hsame : doublings (s.rounds ++ [r]) = doublings s.rounds := doublings_concat_of_none rfl
    exact hsame.symm
  case mask =>
    refine iff_of_true rfl ⟨r, ?_, h.1⟩
    exact List.mem_append_right _ (List.mem_singleton_self r)
  -- the round has no wait, and the next request has no mask
  case disciplined =>
    refine disciplined_concat hs.disciplined ⟨?_, ?_, ?_⟩
    · intro w hw
      cases hw
    · exact iff_of_true rfl ⟨h.1, hnone⟩
    · refine iff_of_false ?_ fun ⟨r', hr', herr⟩ => hnone r' hr' herr
      show ¬ (if s.client.fieldMask then some fieldMaskPaths else none) = none
      rw [if_pos h.2]
      exact Option.some_ne_none _
  case once =>
    show (List.filter _ (s.rounds ++ [r])).length ≤ 1
    rw [List.filter_append, List.length_append]
    have hlast : (List.filter (fun r : Round => r.wait.isNone) [r]).length = 1 := rfl
    omega

/-- Any other end of a stream. -/
theorem step_of_wait (h : ¬ (e.err = .invalidArgument ∧ s.client.fieldMask = true)) :
    ∃ s', s.step e = some s' ∧ s'.Inv ∧
      ∃ r, s'.rounds = s.rounds ++ [r] ∧ r.ended = e := by
  have hbackoff : (if healthy < e.lasted then minBackoff else s.backoff)
      = capped (waitsAgo s.rounds e) := by
    rw [waitsAgo_eq, hs.backoff]
    split
    · exact capped_zero.symm
    · rfl
  obtain ⟨hpos, jitter, hjitter, hnonneg, hlt⟩ := int64N_capped (waitsAgo s.rounds e) e.random
  let b := capped (waitsAgo s.rounds e)
  let r : Round := ⟨s.client.request s.since, e, some ⟨b / 4, b + jitter⟩⟩
  refine ⟨{ s with
    since := e.since
    backoff := if maxBackoff < b * 2 then maxBackoff else b * 2
    rounds := s.rounds ++ [r] }, ?_, ?_, r, rfl, rfl⟩
  · simp only [step, if_neg h, hbackoff, hjitter, Option.map_some]
    rfl
  constructor
  case backoff =>
    refine (capped_succ _).trans (congrArg capped ?_)
    have hmore : doublings (s.rounds ++ [r]) = waitsAgo s.rounds r.ended + 1 :=
      doublings_concat_of_some rfl
    exact hmore.symm
  case mask =>
    show s.client.fieldMask = false ↔ ∃ r' ∈ s.rounds ++ [r], _
    rw [hs.mask]
    constructor
    · rintro ⟨r', hr', herr⟩
      exact ⟨r', List.mem_append_left _ hr', herr⟩
    · rintro ⟨r', hr', herr⟩
      rcases List.mem_append.1 hr' with hr' | hr'
      · exact ⟨r', hr', herr⟩
      · -- the mask was off before, or this would have been the first rejection
        obtain rfl := List.mem_singleton.1 hr'
        exact hs.mask.1 (Bool.eq_false_iff.2 fun hmask => h ⟨herr, hmask⟩)
  case disciplined =>
    refine disciplined_concat hs.disciplined ⟨fun w hw => ?_, ?_, ?_⟩
    · obtain rfl : (⟨b / 4, b + jitter⟩ : Wait) = w := Option.some.inj hw
      exact ⟨hpos, jitter_bound hnonneg hlt⟩
    · apply iff_of_false (Option.some_ne_none _)
      rintro ⟨herr, hnone⟩
      refine h ⟨herr, ?_⟩
      by_contra hmask
      obtain ⟨r', hr', herr'⟩ := hs.mask.1 (Bool.eq_false_iff.2 hmask)
      exact hnone r' hr' herr'
    · show (if s.client.fieldMask then some fieldMaskPaths else none) = none ↔ _
      rw [← hs.mask]
      cases s.client.fieldMask <;> simp
  case once =>
    show (List.filter _ (s.rounds ++ [r])).length ≤ _
    rw [List.filter_append, List.length_append]
    exact hs.once

/-- **Every end of a stream keeps the discipline**, whatever it is. -/
theorem step_inv : ∃ s', s.step e = some s' ∧ s'.Inv ∧
    ∃ r, s'.rounds = s.rounds ++ [r] ∧ r.ended = e := by
  by_cases h : e.err = .invalidArgument ∧ s.client.fieldMask = true
  · exact step_of_rejected hs e h
  · exact step_of_wait hs e h

end

/-- **The retries are disciplined**, whatever the streams end with: every round but one waits for
its backoff, and the one that does not is the first rejection of the field mask. -/
theorem run_disciplined (c : Client) (since : Time) (es : List Ended) :
    ∃ s, Run.run step (start c since) es = some s ∧ s.rounds.map Round.ended = es ∧
      (∀ rs r rs', s.rounds = rs ++ r :: rs' → Disciplined rs r) ∧
      (s.rounds.filter fun r => r.wait.isNone).length ≤ 1 := by
  suffices hrun : ∃ s, Run.run step (start c since) es = some s ∧ s.Inv ∧
      s.rounds.map Round.ended = es by
    obtain ⟨s, hr, hs, hended⟩ := hrun
    refine ⟨s, hr, hended, hs.disciplined, hs.once.trans ?_⟩
    split
    · exact Nat.zero_le 1
    · exact le_refl 1
  -- by induction on the ends, the last one in the step
  induction es using List.reverseRecOn with
  | nil => exact ⟨start c since, rfl, inv_start c since, rfl⟩
  | append_singleton es e ih =>
    obtain ⟨s, hr, hs, hended⟩ := ih
    obtain ⟨s', hstep, hs', r, hrounds, he⟩ := step_inv hs e
    refine ⟨s', Run.run_concat_eq_some.2 ⟨s, hr, hstep⟩, hs', ?_⟩
    rw [hrounds, List.map_append, hended, List.map_singleton, he]

end Retry

end Relay

end Flowscape
