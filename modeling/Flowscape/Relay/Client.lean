import Flowscape.Graph.Flow
import Flowscape.Lib.Run

/-!
# Flowscape: the client of Hubble Relay (`internal/hubble/relay/client.go`)

The client asks Relay for the flows since a point in time, hands what the stream brings to its
sink, and asks again when the stream breaks. The point it resumes from is the newest timestamp
it has seen. Relay merges the flows of several agents: what a stream brings need not come in
the order of its timestamps, so the order is left to the environment here, and so is the place
where a stream breaks.

The calls of the peer list, the watchdog (which breaks the stream like an error does) and the
waits between two streams are left out.
-/

namespace Flowscape

namespace Relay

/-! ## Source definitions -/

/-- The fields of `flow.FlowFilter` that the client sets. -/
structure FlowFilter where
  reply : List Bool := []
  sourcePod : List String := []
  destinationPod : List String := []
deriving DecidableEq

/-- `observer.GetFlowsRequest` -/
structure GetFlowsRequest where
  follow : Bool
  since : Time
  blacklist : List FlowFilter
  fieldMask : Option (List String)
deriving DecidableEq

/-- `Client` -/
structure Client where
  excludePods : List String
  fieldMask : Bool

/-- The fields that are asked for. -/
def fieldMaskPaths : List String :=
  ["time", "verdict", "drop_reason_desc", "traffic_direction", "event_type", "is_reply",
    "IP", "l4", "l7", "source", "destination", "destination_names", "source_names", "node_name"]

/-- `Client.request` -/
def Client.request (c : Client) (since : Time) : GetFlowsRequest where
  follow := true
  since := since
  blacklist :=
    { reply := [true] } ::
      if c.excludePods.length > 0 then
        [{ sourcePod := c.excludePods }, { destinationPod := c.excludePods }]
      else []
  fieldMask := if c.fieldMask then some fieldMaskPaths else none

/-- `status.Code`; only one code is told apart. -/
inductive Code where
  | invalidArgument
  | other
deriving DecidableEq

/-- What `Client.Run` does about the field mask when a stream has ended with `err`. -/
def Client.ended (c : Client) (err : Code) : Client :=
  if err = .invalidArgument ∧ c.fieldMask then { c with fieldMask := false } else c

/-- What a message of the stream that carries a flow does to `since` in `Client.stream`. -/
def advance (since t : Time) : Time := if since < t then t else since

/-! ## Relay -/

/-- A flow at Relay. The number is its place in the order of arrival there. -/
structure Stored where
  number : Nat
  flow : Flow
deriving DecidableEq

def Stored.time (f : Stored) : Time := f.flow.asTime

/-- A stream that Relay serves. -/
structure Stream where
  request : GetFlowsRequest
  /-- What it has yet to deliver. -/
  pending : List Stored

/-- An open stream follows: it also brings what arrives later. -/
def Stream.follow (st : Stream) (f : Stored) : Stream :=
  if st.request.since ≤ f.time then { st with pending := st.pending ++ [f] } else st

/-- The client and Relay. -/
structure Link where
  client : Client
  since : Time
  /-- The flows at Relay that the filters of the client let through. -/
  held : List Stored
  stream : Option Stream
  /-- The calls of `sink.Flow`. -/
  handed : List Stored

/-- What can happen on a link: `Run` opens a stream, Relay sends on it, it breaks, and flows come to
Relay. -/
inductive Event where
  /-- `GetFlows` is called. -/
  | opened
  /-- The stream brings the flow at place `i` of what it has yet to deliver. -/
  | received (i : Nat)
  /-- The stream ends with an error. -/
  | cut (err : Code)
  /-- A flow reaches Relay. -/
  | recorded (f : Flow)

namespace Link

/-- The link of a client that resumes from `since`. -/
def start (c : Client) (since : Time) (flows : List Flow) : Link where
  client := { c with fieldMask := true }
  since := since
  held := flows.zipIdx.map fun f => ⟨f.2, f.1⟩
  stream := none
  handed := []

/-- Relay serves what it holds with a timestamp not before the one asked for. -/
def connect (l : Link) : Link :=
  let request := l.client.request l.since
  { l with stream := some ⟨request, l.held.filter fun f => request.since ≤ f.time⟩ }

/-- The flow `f` arrives on the stream `st`. -/
def receive (l : Link) (st : Stream) (i : Nat) (f : Stored) : Link :=
  { l with
    since := advance l.since f.time
    stream := some { st with pending := st.pending.eraseIdx i }
    handed := l.handed ++ [f] }

/-- The stream ends: what it had yet to deliver is gone with it. -/
def cut (l : Link) (err : Code) : Link :=
  { l with client := l.client.ended err, stream := none }

/-- A flow reaches Relay: the open stream follows it too. -/
def record (l : Link) (f : Flow) : Link :=
  let f : Stored := ⟨l.held.length, f⟩
  { l with held := l.held ++ [f], stream := l.stream.map fun st => st.follow f }

/-- One event; `none` where it cannot happen. -/
def step (l : Link) : Event → Option Link
  | .opened => if l.stream.isNone then some l.connect else none
  | .received i => l.stream.bind fun st => (st.pending[i]?).map (l.receive st i)
  | .cut err => if l.stream.isSome then some (l.cut err) else none
  | .recorded f => some (l.record f)

/-! ## Steps -/

theorem advance_eq_max (since t : Time) : advance since t = max since t := by
  unfold advance
  split
  next h => exact (max_eq_right h.le).symm
  next h => exact (max_eq_left (not_lt.1 h)).symm

/-- What each event does, and when it can happen. -/
theorem step_eq_some {l l' : Link} {e : Event} (h : step l e = some l') :
    (e = .opened ∧ l.stream = none ∧ l' = l.connect) ∨
    (∃ i st f, e = .received i ∧ l.stream = some st ∧ st.pending[i]? = some f ∧
      l' = l.receive st i f) ∨
    (∃ err st, e = .cut err ∧ l.stream = some st ∧ l' = l.cut err) ∨
    (∃ f, e = .recorded f ∧ l' = l.record f) := by
  cases e with
  | opened =>
    simp only [step, Option.ite_none_right_eq_some, Option.some.injEq,
      Option.isNone_iff_eq_none] at h
    exact .inl ⟨rfl, h.1, h.2.symm⟩
  -- a stream must be open, and the flow must be pending
  | received i =>
    simp only [step, Option.bind_eq_some_iff, Option.map_eq_some_iff] at h
    obtain ⟨st, hst, f, hf, rfl⟩ := h
    exact .inr (.inl ⟨i, st, f, rfl, hst, hf, rfl⟩)
  | cut err =>
    simp only [step, Option.ite_none_right_eq_some, Option.some.injEq,
      Option.isSome_iff_exists] at h
    obtain ⟨⟨st, hst⟩, rfl⟩ := h
    exact .inr (.inr (.inl ⟨err, st, rfl, hst, rfl⟩))
  | recorded f =>
    simp only [step, Option.some.injEq] at h
    exact .inr (.inr (.inr ⟨f, rfl, h.symm⟩))

/-! ## What holds in every state

The resume point is the newest of the initial one and the timestamps handed to the sink; an open
stream owes exactly what it was asked for and has not been brought. -/

/-- The resume point is the largest of `since₀` and the timestamps of what was handed over. -/
structure Resumes (since₀ : Time) (l : Link) : Prop where
  initial_le : since₀ ≤ l.since
  handed_le : ∀ f ∈ l.handed, f.time ≤ l.since
  attained : l.since = since₀ ∨ ∃ f ∈ l.handed, l.since = f.time

/-- What an open stream has to do with what Relay holds and what was handed over. -/
structure Serves (since₀ : Time) (l : Link) (st : Stream) : Prop where
  initial_le : since₀ ≤ st.request.since
  le_since : st.request.since ≤ l.since
  pending_held : ∀ f ∈ st.pending, f ∈ l.held
  asked_le : ∀ f ∈ st.pending, st.request.since ≤ f.time
  covers : ∀ f ∈ l.held, st.request.since ≤ f.time → f ∈ l.handed ∨ f ∈ st.pending

/-- **What every run keeps.** The stream that is open serves its request from what Relay holds, and
the resume time is the newest one that was handed on. -/
structure Invariant (since₀ : Time) (l : Link) : Prop where
  numbered : ∀ f ∈ l.held, f.number < l.held.length
  handed_held : ∀ f ∈ l.handed, f ∈ l.held
  resumes : Resumes since₀ l
  serves : ∀ st, l.stream = some st → Serves since₀ l st

/-- What is newer than the resume time is newer than all that was handed on. -/
theorem Resumes.since_le_iff {since₀ : Time} {l : Link} (h : Resumes since₀ l) (t : Time) :
    l.since ≤ t ↔ since₀ ≤ t ∧ ∀ f ∈ l.handed, f.time ≤ t := by
  constructor
  · intro hle
    exact ⟨h.initial_le.trans hle, fun f hf => (h.handed_le f hf).trans hle⟩
  · rintro ⟨hinitial, hhanded⟩
    rcases h.attained with heq | ⟨f, hf, heq⟩
    · rw [heq]
      exact hinitial
    · rw [heq]
      exact hhanded f hf

theorem mem_or_mem_eraseIdx {α : Type*} {xs : List α} {i : Nat} {x y : α} (hi : xs[i]? = some x)
    (hy : y ∈ xs) : y = x ∨ y ∈ xs.eraseIdx i := by
  obtain ⟨j, hj⟩ := List.mem_iff_getElem?.1 hy
  by_cases hij : j = i
  · subst hij
    exact .inl (Option.some.inj (hj.symm.trans hi))
  · exact .inr (List.mem_eraseIdx_iff_getElem?.2 ⟨j, hij, hj⟩)

/-- The invariant holds before the first stream. -/
theorem invariant_start (c : Client) (since₀ : Time) (flows : List Flow) :
    Invariant since₀ (start c since₀ flows) where
  numbered := by
    intro f hf
    obtain ⟨⟨g, n⟩, hg, rfl⟩ := List.mem_map.1 hf
    have hlt : n < flows.length := by
      have := List.mem_zipIdx hg
      omega
    simpa [start] using hlt
  handed_held := fun f hf => absurd hf List.not_mem_nil
  resumes := ⟨le_refl since₀, fun f hf => absurd hf List.not_mem_nil, .inl rfl⟩
  serves := fun _ hst => nomatch hst

theorem Invariant.connect {since₀ : Time} {l : Link} (h : Invariant since₀ l) :
    Invariant since₀ l.connect where
  numbered := h.numbered
  handed_held := h.handed_held
  resumes := ⟨h.resumes.initial_le, h.resumes.handed_le, h.resumes.attained⟩
  serves := by
    rintro st ⟨⟩
    exact {
      initial_le := h.resumes.initial_le
      le_since := le_refl l.since
      pending_held := fun f hf => (List.mem_filter.1 hf).1
      asked_le := fun f hf => of_decide_eq_true (List.mem_filter.1 hf).2
      covers := fun f hf hle => .inr (List.mem_filter.2 ⟨hf, decide_eq_true hle⟩) }

theorem Invariant.receive {since₀ : Time} {l : Link} (h : Invariant since₀ l) {st : Stream}
    {i : Nat} {f : Stored} (hst : l.stream = some st) (hf : st.pending[i]? = some f) :
    Invariant since₀ (l.receive st i f) := by
  have hserves : Serves since₀ l st := h.serves st hst
  have hle : l.since ≤ (l.receive st i f).since := by
    show l.since ≤ advance l.since f.time
    rw [advance_eq_max]
    exact le_max_left _ _
  refine ⟨h.numbered, ?_, ⟨h.resumes.initial_le.trans hle, ?_, ?_⟩, ?_⟩
  · intro g hg
    rcases List.mem_append.1 hg with hg | hg
    · exact h.handed_held g hg
    · rw [List.mem_singleton.1 hg]
      exact hserves.pending_held f (List.mem_of_getElem? hf)
  · intro g hg
    rcases List.mem_append.1 hg with hg | hg
    · exact (h.resumes.handed_le g hg).trans hle
    · rw [List.mem_singleton.1 hg]
      show f.time ≤ advance l.since f.time
      rw [advance_eq_max]
      exact le_max_right _ _
  · -- either the new flow is the newest, or the resume point stays
    show advance l.since f.time = since₀ ∨ ∃ g ∈ l.handed ++ [f], advance l.since f.time = g.time
    unfold advance
    split
    next => exact .inr ⟨f, List.mem_append_right _ (List.mem_singleton.2 rfl), rfl⟩
    next =>
      rcases h.resumes.attained with heq | ⟨g, hg, heq⟩
      · exact .inl heq
      · exact .inr ⟨g, List.mem_append_left _ hg, heq⟩
  · -- what the stream owed it still owes, or has handed over now
    rintro st' ⟨⟩
    refine ⟨hserves.initial_le, hserves.le_since.trans hle, ?_, ?_, ?_⟩
    · exact fun g hg => hserves.pending_held g (List.mem_of_mem_eraseIdx hg)
    · exact fun g hg => hserves.asked_le g (List.mem_of_mem_eraseIdx hg)
    · intro g hg hask
      rcases hserves.covers g hg hask with hg | hg
      · exact .inl (List.mem_append_left _ hg)
      rcases mem_or_mem_eraseIdx hf hg with rfl | hg
      · exact .inl (List.mem_append_right _ (List.mem_singleton.2 rfl))
      · exact .inr hg

theorem Invariant.cut {since₀ : Time} {l : Link} (h : Invariant since₀ l) (err : Code) :
    Invariant since₀ (l.cut err) where
  numbered := h.numbered
  handed_held := h.handed_held
  resumes := ⟨h.resumes.initial_le, h.resumes.handed_le, h.resumes.attained⟩
  serves := fun _ hst => nomatch hst

theorem request_follow (st : Stream) (f : Stored) : (st.follow f).request = st.request := by
  unfold Stream.follow
  split <;> rfl

theorem mem_pending_follow {st : Stream} {f g : Stored} :
    g ∈ (st.follow f).pending ↔ g ∈ st.pending ∨ (g = f ∧ st.request.since ≤ f.time) := by
  unfold Stream.follow
  split
  next hle => simp [hle]
  next hlt => simp [hlt]

theorem mem_held_record {l : Link} {f : Flow} {g : Stored} :
    g ∈ (l.record f).held ↔ g ∈ l.held ∨ g = ⟨l.held.length, f⟩ := by
  simp [record]

/-- The open stream serves a new flow too, if it was asked for it. -/
theorem Serves.record {since₀ : Time} {l : Link} {st : Stream} (h : Serves since₀ l st)
    (f : Flow) : Serves since₀ (l.record f) (st.follow ⟨l.held.length, f⟩) := by
  refine ⟨?_, ?_, ?_, ?_, ?_⟩
  · rw [request_follow]
    exact h.initial_le
  · rw [request_follow]
    exact h.le_since
  · intro g hg
    rcases mem_pending_follow.1 hg with hg | ⟨rfl, -⟩
    · exact List.mem_append_left _ (h.pending_held g hg)
    · exact mem_held_record.2 (.inr rfl)
  · intro g hg
    rw [request_follow]
    rcases mem_pending_follow.1 hg with hg | ⟨rfl, hle⟩
    · exact h.asked_le g hg
    · exact hle
  · intro g hg hask
    rw [request_follow] at hask
    -- what was held is covered as before, and the new flow is pending when it was asked for
    rcases mem_held_record.1 hg with hg | rfl
    · rcases h.covers g hg hask with hg | hg
      · exact .inl hg
      · exact .inr (mem_pending_follow.2 (.inl hg))
    · exact .inr (mem_pending_follow.2 (.inr ⟨rfl, hask⟩))

theorem Invariant.record {since₀ : Time} {l : Link} (h : Invariant since₀ l) (f : Flow) :
    Invariant since₀ (l.record f) where
  numbered := by
    intro g hg
    -- the new flow takes the next number
    have hlength : (l.record f).held.length = l.held.length + 1 := List.length_append
    rw [hlength]
    rcases mem_held_record.1 hg with hg | rfl
    · have := h.numbered g hg
      omega
    · exact Nat.lt_succ_self _
  handed_held := fun g hg => List.mem_append_left _ (h.handed_held g hg)
  resumes := ⟨h.resumes.initial_le, h.resumes.handed_le, h.resumes.attained⟩
  serves := by
    intro st' hst'
    obtain ⟨st, hst, rfl⟩ := Option.map_eq_some_iff.1 hst'
    exact (h.serves st hst).record f

theorem Invariant.step {since₀ : Time} {l l' : Link} {e : Event} (h : Invariant since₀ l)
    (hstep : step l e = some l') : Invariant since₀ l' := by
  obtain ⟨rfl, -, rfl⟩ | ⟨i, st, f, rfl, hst, hf, rfl⟩ | ⟨err, st, rfl, -, rfl⟩ | ⟨f, rfl, rfl⟩ :=
    step_eq_some hstep
  · exact h.connect
  · exact h.receive hst hf
  · exact h.cut err
  · exact h.record f

/-! ## When a flow is lost

A flow is out of reach when no stream has it still to deliver and the resume point has passed it.
Nothing brings it back: the resume point never goes down. -/

/-- An open stream has `f` still to deliver. -/
def Owes (l : Link) (f : Stored) : Prop := ∃ st, l.stream = some st ∧ f ∈ st.pending

/-- Every flow that Relay holds was handed over or will be. -/
def NothingLost (since₀ : Time) (l : Link) : Prop :=
  ∀ f ∈ l.held, since₀ ≤ f.time → f ∈ l.handed ∨ l.Owes f ∨ l.since ≤ f.time

/-- No flow is overtaken for good: when a stream breaks, what it had still to deliver is not
older than what was handed over, except what was handed over before; and a flow that reaches
Relay is not older than what was handed over either, unless the open stream was asked for it. -/
def InTurn (since₀ : Time) (l : Link) : Event → Prop
  | .opened => True
  | .received _ => True
  | .cut _ => ∀ st ∈ l.stream, ∀ f ∈ st.pending, f ∉ l.handed → ∀ g ∈ l.handed, g.time ≤ f.time
  | .recorded f => since₀ ≤ f.asTime →
      (∃ st ∈ l.stream, st.request.since ≤ f.asTime) ∨ ∀ g ∈ l.handed, g.time ≤ f.asTime

/-- Opening a stream loses nothing: it asks from the resume time. -/
theorem NothingLost.connect {since₀ : Time} {l : Link} (h : NothingLost since₀ l)
    (hnone : l.stream = none) : NothingLost since₀ l.connect := by
  intro f hf hle
  rcases h f hf hle with hf | ⟨st, hst, -⟩ | hf
  · exact .inl hf
  · rw [hnone] at hst
    cases hst
  · exact .inr (.inr hf)

/-- A flow that is brought is not lost: it is handed on. -/
theorem NothingLost.receive {since₀ : Time} {l : Link} (hl : Invariant since₀ l)
    (h : NothingLost since₀ l) {st : Stream} {i : Nat} {f : Stored} (hst : l.stream = some st)
    (hf : st.pending[i]? = some f) : NothingLost since₀ (l.receive st i f) := by
  have hserves : Serves since₀ l st := hl.serves st hst
  intro g hg hle
  -- the resume point can pass `g`, but the stream was asked for it
  have hreach : g ∈ l.handed ∨ g ∈ st.pending := by
    rcases h g hg hle with hg | ⟨st', hst', hg⟩ | hsince
    · exact .inl hg
    · rw [hst] at hst'
      cases hst'
      exact .inr hg
    · exact hserves.covers g hg (hserves.le_since.trans hsince)
  rcases hreach with hg | hg
  · exact .inl (List.mem_append_left _ hg)
  rcases mem_or_mem_eraseIdx hf hg with rfl | hg
  · exact .inl (List.mem_append_right _ (List.mem_singleton.2 rfl))
  · exact .inr (.inl ⟨_, rfl, hg⟩)

/-- Breaking a stream loses what the resume point has passed. -/
theorem nothingLost_cut_iff {since₀ : Time} {l : Link} (hl : Invariant since₀ l)
    (h : NothingLost since₀ l) {st : Stream} (hst : l.stream = some st) (err : Code) :
    NothingLost since₀ (l.cut err) ↔ InTurn since₀ l (.cut err) := by
  have hserves : Serves since₀ l st := hl.serves st hst
  constructor
  · intro hcut st' hst' f hf hnot
    rw [hst] at hst'
    cases hst'
    have hinitial : since₀ ≤ f.time := hserves.initial_le.trans (hserves.asked_le f hf)
    rcases hcut f (hserves.pending_held f hf) hinitial with hf | ⟨st', hst', -⟩ | hsince
    · exact absurd hf hnot
    · cases hst'
    · exact ((hl.resumes.since_le_iff f.time).1 hsince).2
  · -- without the stream only the resume point can bring what it had still to deliver
    intro hturn f hf hle
    rcases h f hf hle with hf | ⟨st', hst', hpending⟩ | hsince
    · exact .inl hf
    · rw [hst] at hst'
      cases hst'
      by_cases hnot : f ∈ l.handed
      · exact .inl hnot
      · exact .inr (.inr ((hl.resumes.since_le_iff f.time).2
          ⟨hle, hturn st hst f hpending hnot⟩))
    · exact .inr (.inr hsince)

/-- A flow that is too old for the open stream and for the next one is lost at once. -/
theorem nothingLost_record_iff {since₀ : Time} {l : Link} (hl : Invariant since₀ l)
    (h : NothingLost since₀ l) (f : Flow) :
    NothingLost since₀ (l.record f) ↔ InTurn since₀ l (.recorded f) := by
  constructor
  · intro hrecord hle
    rcases hrecord ⟨l.held.length, f⟩ (mem_held_record.2 (.inr rfl)) hle with
      hf | ⟨st', hst', hf⟩ | hsince
    · -- it is new, so it was not handed over before
      exact absurd (hl.numbered _ (hl.handed_held _ hf)) (lt_irrefl _)
    · obtain ⟨st, hst, rfl⟩ := Option.map_eq_some_iff.1 hst'
      rcases mem_pending_follow.1 hf with hf | ⟨-, hask⟩
      · exact absurd (hl.numbered _ ((hl.serves st hst).pending_held _ hf)) (lt_irrefl _)
      · exact .inl ⟨st, hst, hask⟩
    · exact .inr ((hl.resumes.since_le_iff f.asTime).1 hsince).2
  · intro hturn g hg hle
    rcases mem_held_record.1 hg with hg | rfl
    · rcases h g hg hle with hg | ⟨st, hst, hg⟩ | hsince
      · exact .inl hg
      · exact .inr (.inl ⟨st.follow _, congrArg (Option.map _) hst,
          mem_pending_follow.2 (.inl hg)⟩)
      · exact .inr (.inr hsince)
    · rcases hturn hle with ⟨st, hst, hask⟩ | hhanded
      · exact .inr (.inl ⟨st.follow _, congrArg (Option.map _) hst,
          mem_pending_follow.2 (.inr ⟨rfl, hask⟩)⟩)
      · exact .inr (.inr ((hl.resumes.since_le_iff f.asTime).2 ⟨hle, hhanded⟩))

/-- From a state in which nothing is lost, a step loses something exactly when it is not
`InTurn`. -/
theorem nothingLost_step_iff {since₀ : Time} {l l' : Link} {e : Event} (hl : Invariant since₀ l)
    (h : NothingLost since₀ l) (hstep : step l e = some l') :
    NothingLost since₀ l' ↔ InTurn since₀ l e := by
  obtain ⟨rfl, hnone, rfl⟩ | ⟨i, st, f, rfl, hst, hf, rfl⟩ | ⟨err, st, rfl, hst, rfl⟩ |
    ⟨f, rfl, rfl⟩ := step_eq_some hstep
  · exact iff_of_true (h.connect hnone) trivial
  · exact iff_of_true (h.receive hl hst hf) trivial
  · exact nothingLost_cut_iff hl h hst err
  · exact nothingLost_record_iff hl h f

/-- What is lost stays lost. -/
theorem nothingLost_of_step {since₀ : Time} {l l' : Link} {e : Event} (hl : Invariant since₀ l)
    (hstep : step l e = some l') (h : NothingLost since₀ l') : NothingLost since₀ l := by
  intro f hf hle
  obtain ⟨rfl, hnone, rfl⟩ | ⟨i, st, g, rfl, hst, hg, rfl⟩ | ⟨err, st, rfl, hst, rfl⟩ |
    ⟨g, rfl, rfl⟩ := step_eq_some hstep
  · rcases h f hf hle with hf | ⟨st, hst, hf⟩ | hsince
    · exact .inl hf
    · cases hst
      exact .inr (.inr (of_decide_eq_true (List.mem_filter.1 hf).2))
    · exact .inr (.inr hsince)
  · rcases h f hf hle with hf | ⟨st', hst', hf⟩ | hsince
    · -- a flow that is handed over by the step was owed before it
      rcases List.mem_append.1 hf with hf | hf
      · exact .inl hf
      · rw [List.mem_singleton.1 hf]
        exact .inr (.inl ⟨st, hst, List.mem_of_getElem? hg⟩)
    · cases hst'
      exact .inr (.inl ⟨st, hst, List.mem_of_mem_eraseIdx hf⟩)
    · refine .inr (.inr (le_trans ?_ hsince))
      show l.since ≤ advance l.since g.time
      rw [advance_eq_max]
      exact le_max_left _ _
  · rcases h f hf hle with hf | ⟨st', hst', -⟩ | hsince
    · exact .inl hf
    · cases hst'
    · exact .inr (.inr hsince)
  · rcases h f (List.mem_append_left _ hf) hle with hf | ⟨st', hst', hf'⟩ | hsince
    · exact .inl hf
    · obtain ⟨st, hst, rfl⟩ := Option.map_eq_some_iff.1 hst'
      rcases mem_pending_follow.1 hf' with hf' | ⟨rfl, -⟩
      · exact .inr (.inl ⟨st, hst, hf'⟩)
      · -- the flow was held before, and the recorded one is new
        exact absurd (hl.numbered _ hf) (lt_irrefl _)
    · exact .inr (.inr hsince)

/-! ## Whole runs -/

/-- The open stream has run to its end: everything it was asked for has come. -/
def RunToEnd (l : Link) : Prop := ∃ st ∈ l.stream, st.pending = []

/-- Every flow at Relay that is not older than the initial resume point was handed over. -/
def AllHanded (since₀ : Time) (l : Link) : Prop :=
  ∀ f ∈ l.held, since₀ ≤ f.time → f ∈ l.handed

instance (l : Link) : Decidable l.RunToEnd :=
  inferInstanceAs (Decidable (∃ st ∈ l.stream, st.pending = []))

instance (since₀ : Time) (l : Link) : Decidable (AllHanded since₀ l) :=
  inferInstanceAs (Decidable (∀ f ∈ l.held, since₀ ≤ f.time → f ∈ l.handed))

instance (since₀ : Time) (l : Link) : (e : Event) → Decidable (InTurn since₀ l e)
  | .opened => isTrue trivial
  | .received _ => isTrue trivial
  | .cut _ => inferInstanceAs (Decidable
      (∀ st ∈ l.stream, ∀ f ∈ st.pending, f ∉ l.handed → ∀ g ∈ l.handed, g.time ≤ f.time))
  | .recorded f => inferInstanceAs (Decidable (since₀ ≤ f.asTime →
      (∃ st ∈ l.stream, st.request.since ≤ f.asTime) ∨ ∀ g ∈ l.handed, g.time ≤ f.asTime))

/-- At the end of a stream nothing is left to wait for. -/
theorem allHanded_iff_nothingLost {since₀ : Time} {l : Link} (hl : Invariant since₀ l)
    (hend : l.RunToEnd) : AllHanded since₀ l ↔ NothingLost since₀ l := by
  obtain ⟨st, hst, hempty⟩ := hend
  have hserves : Serves since₀ l st := hl.serves st hst
  constructor
  · exact fun h f hf hle => .inl (h f hf hle)
  · intro h f hf hle
    -- a flow is handed on, pending or past the resume time; the stream has nothing pending, and it
    -- covers what is past its request
    rcases h f hf hle with hf | ⟨st', hst', hf⟩ | hsince
    · exact hf
    · rw [hst] at hst'
      cases hst'
      rw [hempty] at hf
      cases hf
    · rcases hserves.covers f hf (hserves.le_since.trans hsince) with hf | hf
      · exact hf
      · rw [hempty] at hf
        cases hf

/-- **When reconnecting loses nothing.** In every state in which the open stream has run to its
end, every flow from the initial resume point on was handed to the sink, exactly when every step
so far was `InTurn`. -/
theorem allHanded_iff_everyStep_inTurn (c : Client) (since₀ : Time) (flows : List Flow)
    (es : List Event) {l : Link} (hr : Run.run step (start c since₀ flows) es = some l)
    (hend : l.RunToEnd) :
    AllHanded since₀ l ↔ Run.EveryStep step (InTurn since₀) (start c since₀ flows) es := by
  have hstart : Invariant since₀ (start c since₀ flows) := invariant_start c since₀ flows
  have hl : Invariant since₀ l :=
    Run.invariant (I := Invariant since₀) (fun s e s' h hs => h.step hs) hr hstart
  rw [allHanded_iff_nothingLost hl hend]
  refine Run.last_iff_everyStep (J := Invariant since₀) (fun s e s' h hs => h.step hs)
    (fun s e s' => nothingLost_step_iff) (fun s e s' => nothingLost_of_step) hr hstart ?_
  exact fun f _ hle => .inr (.inr hle)

/-- A flow with a timestamp. -/
def flowAt (t : Time) : Flow := { verdict := .forwarded, time := some t }

/-- Two streams, of which the first breaks after the older one of two flows, hand both over. -/
theorem allHanded_after_cut :
    AllHanded 0
      { client := ⟨[], true⟩
        since := 2
        held := [⟨0, flowAt 1⟩, ⟨1, flowAt 2⟩]
        stream := some ⟨Client.request ⟨[], true⟩ 1, []⟩
        handed := [⟨0, flowAt 1⟩, ⟨0, flowAt 1⟩, ⟨1, flowAt 2⟩] } :=
  (allHanded_iff_everyStep_inTurn ⟨[], false⟩ 0 [flowAt 1, flowAt 2]
    [.opened, .received 0, .cut .other, .opened, .received 0, .received 0] (by rfl)
      ⟨_, rfl, rfl⟩).2 (by decide)

/-- A stream that brings the newer flow first and breaks then: the next one runs to its end, and
the older flow has not come. -/
theorem not_allHanded_after_cut :
    ¬ ∀ (c : Client) (since₀ : Time) (flows : List Flow) (es : List Event) (l : Link),
      Run.run step (start c since₀ flows) es = some l → l.RunToEnd → AllHanded since₀ l := by
  intro h
  have hlost := h ⟨[], false⟩ 0 [flowAt 1, flowAt 2]
    [.opened, .received 1, .cut .other, .opened, .received 0]
    { client := ⟨[], true⟩
      since := 2
      held := [⟨0, flowAt 1⟩, ⟨1, flowAt 2⟩]
      stream := some ⟨Client.request ⟨[], true⟩ 2, []⟩
      handed := [⟨1, flowAt 2⟩, ⟨1, flowAt 2⟩] } (by rfl) ⟨_, rfl, rfl⟩
  exact absurd hlost (by decide)

end Link

end Relay

end Flowscape
