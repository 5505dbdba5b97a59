import Flowscape.Web.WSClient

/-!
# Flowscape: the demo in the browser (`web/src/demo-transport.ts`)

`DemoTransport` stands for the WebSocket when the graph runs in a WebAssembly module of the page
itself. The module sends a greeting, a snapshot and then ticks, one after the other. In a pause
the ticks are kept back, up to `MAX_BUFFER` of them.

The WebSocket client gives a buffer up that a tick did not fit into, and asks for a snapshot. The
demo has no snapshot to ask for: a tick that does not fit is lost.
-/

namespace Flowscape

/-! ## Source definitions -/

/-- What the demo holds back while it is paused. -/
structure DemoTransport where
  paused : Bool := false
  buffer : List Received := []

namespace DemoTransport

/-- `MAX_BUFFER` -/
def maxBuffer : Nat := 600

/-- The callback of the module, with the messages that it hands over. -/
def receive (d : DemoTransport) (m : Received) : DemoTransport × List Received :=
  match d.paused, m.msg with
  | true, .tick _ =>
    if d.buffer.length < maxBuffer then ({ d with buffer := d.buffer ++ [m] }, []) else (d, [])
  | _, _ => (d, [m])

/-- `setPaused`, with the messages that it hands over. -/
def setPaused (d : DemoTransport) (p : Bool) : DemoTransport × List Received :=
  if d.paused = p then (d, [])
  else
    let d := { d with paused := p }
    if p then (d, []) else ({ d with buffer := [] }, d.buffer)

end DemoTransport

/-! ## Sessions -/

/-- The module sends a hello first, then a snapshot, then ticks (`run` in
`cmd/flowscape-demo-wasm/main.go`). -/
def Demo.Sends : Nat → Message → Prop
  | 0, .hello _ => True
  | 1, .snapshot _ => True
  | _ + 2, .tick _ => True
  | _, _ => False

instance : (n : Nat) → (m : Message) → Decidable (Demo.Sends n m)
  | 0, .hello _ => isTrue trivial
  | 0, .snapshot _ => isFalse id
  | 0, .tick _ => isFalse id
  | 1, .hello _ => isFalse id
  | 1, .snapshot _ => isTrue trivial
  | 1, .tick _ => isFalse id
  | _ + 2, .hello _ => isFalse id
  | _ + 2, .snapshot _ => isFalse id
  | _ + 2, .tick _ => isTrue trivial

/-- A transport and its history. -/
structure DemoSession where
  transport : DemoTransport
  /-- What the module sent. -/
  received : List Received
  /-- What the graph was given. -/
  handed : List Received

namespace DemoSession

/-- A message comes from the demo, or the page is paused or goes on. -/
inductive Event where
  | message (m : Message)
  | setPaused (p : Bool)

/-- Nothing was received yet. -/
def start : DemoSession where
  transport := {}
  received := []
  handed := []

def receive (s : DemoSession) (m : Message) : DemoSession where
  transport := (s.transport.receive ⟨s.received.length, m⟩).1
  received := s.received ++ [⟨s.received.length, m⟩]
  handed := s.handed ++ (s.transport.receive ⟨s.received.length, m⟩).2

/-- The page is paused or goes on. -/
def pause (s : DemoSession) (p : Bool) : DemoSession where
  transport := (s.transport.setPaused p).1
  received := s.received
  handed := s.handed ++ (s.transport.setPaused p).2

/-- One step. The demo sends a greeting, a snapshot and then ticks. -/
def step (s : DemoSession) : Event → Option DemoSession
  | .message m => if Demo.Sends s.received.length m then some (s.receive m) else none
  | .setPaused p => some (s.pause p)

/-- The ticks of a list of messages. -/
def ticks (l : List Received) : List Received :=
  l.filter fun m => match m.msg with
    | .tick _ => true
    | _ => false

/-- The graph was given every tick that came in, once and in order, and is as if there had been
no pause. -/
def Transparent (s : DemoSession) : Prop :=
  ticks s.handed = ticks s.received ∧ ∀ g : GraphState, g.drive s.handed = g.drive s.received

/-- A tick that comes in during a pause finds room in the buffer. -/
def HasRoom (s : DemoSession) : Event → Prop
  | .message (.tick _) =>
    s.transport.paused = true → s.transport.buffer.length < DemoTransport.maxBuffer
  | _ => True

instance (s : DemoSession) : (e : Event) → Decidable (s.HasRoom e)
  | .message (.tick _) => inferInstanceAs (Decidable (s.transport.paused = true →
      s.transport.buffer.length < DemoTransport.maxBuffer))
  | .message (.hello _) => isTrue trivial
  | .message (.snapshot _) => isTrue trivial
  | .setPaused _ => isTrue trivial

/-! ## What the steps do -/

/-- A tick does not fit, a tick is kept back, or the message is handed over. -/
theorem receive_cases (d : DemoTransport) (m : Received) :
    ((∃ t, m.msg = .tick t) ∧ d.paused = true ∧ DemoTransport.maxBuffer ≤ d.buffer.length ∧
      d.receive m = (d, [])) ∨
    ((∃ t, m.msg = .tick t) ∧ d.paused = true ∧ d.buffer.length < DemoTransport.maxBuffer ∧
      d.receive m = ({ d with buffer := d.buffer ++ [m] }, [])) ∨
    (((∃ t, m.msg = .tick t) → d.paused = false) ∧ d.receive m = (d, [m])) := by
  obtain ⟨seq, msg⟩ := m
  unfold DemoTransport.receive
  cases hp : d.paused with
  | false => exact Or.inr (Or.inr ⟨fun _ => rfl, rfl⟩)
  | true =>
    cases msg with
    | hello => exact Or.inr (Or.inr ⟨fun ⟨_, h⟩ => (nomatch h), rfl⟩)
    -- a snapshot is let through even when paused, and so is a greeting
    | snapshot => exact Or.inr (Or.inr ⟨fun ⟨_, h⟩ => (nomatch h), rfl⟩)
    | tick t =>
      dsimp only
      split
      · next hroom => exact Or.inr (Or.inl ⟨⟨t, rfl⟩, rfl, hroom, by simp⟩)
      · next hfull => exact Or.inl ⟨⟨t, rfl⟩, rfl, Nat.le_of_not_lt hfull, by simp⟩

/-- What is handed over and what is kept back, in this order. -/
def given (s : DemoSession) : List Received := s.handed ++ s.transport.buffer

/-- Nothing changes, a pause begins, or a pause ends. -/
theorem setPaused_cases (d : DemoTransport) (p : Bool) :
    (d.paused = p ∧ d.setPaused p = (d, [])) ∨
    (p = true ∧ d.paused = false ∧ d.setPaused p = ({ d with paused := true }, [])) ∨
    (p = false ∧ d.paused = true ∧ d.setPaused p = ({ paused := false, buffer := [] }, d.buffer))
    := by
  unfold DemoTransport.setPaused
  by_cases hsame : d.paused = p
  · exact Or.inl ⟨hsame, if_pos hsame⟩
  · rw [if_neg hsame]
    cases p with
    | true => exact Or.inr (Or.inl ⟨rfl, Bool.eq_false_iff.2 hsame, rfl⟩)
    | false => exact Or.inr (Or.inr ⟨rfl, (Bool.not_eq_false _).mp hsame, rfl⟩)

/-- Pausing and going on neither loses nor makes a message. -/
theorem given_pause (s : DemoSession) (p : Bool) (hidle : s.transport.paused = false →
    s.transport.buffer = []) : (s.pause p).given = s.given := by
  unfold given pause
  obtain ⟨-, hres⟩ | ⟨-, hp, hres⟩ | ⟨-, -, hres⟩ := setPaused_cases s.transport p
  · rw [hres, List.append_nil]
  · rw [hres, List.append_nil, hidle hp]
  · rw [hres, List.append_nil]

/-- Nothing is kept back outside of a pause, and nothing before the first tick. -/
structure Inv (s : DemoSession) : Prop where
  idle : s.transport.paused = false → s.transport.buffer = []
  late : s.transport.buffer ≠ [] → 2 ≤ s.received.length

theorem inv_start : start.Inv where
  idle _ := rfl
  late h := absurd rfl h

/-- What a step does to the messages. A tick that finds no room is lost; any other message ends
up behind those before it. -/
inductive Stepped (s : DemoSession) (e : Event) (s' : DemoSession) : Prop where
  | came (r : Received) (hroom : s.HasRoom e) (hreceived : s'.received = s.received ++ [r])
      (hgiven : s'.given = s.given ++ [r])
  | lost (r : Received) (hroom : ¬ s.HasRoom e) (htick : ticks [r] = [r])
      (hreceived : s'.received = s.received ++ [r]) (hgiven : s'.given = s.given)
  | paused (hroom : s.HasRoom e) (hreceived : s'.received = s.received)
      (hgiven : s'.given = s.given)

/-- A message that passes the buffer finds it empty: what is kept back are ticks, and after the
first tick nothing else comes. -/
theorem Inv.buffer_eq_nil {s : DemoSession} (h : s.Inv) {m : Message}
    (hsends : Demo.Sends s.received.length m)
    (hpass : (∃ t, m = .tick t) → s.transport.paused = false) : s.transport.buffer = [] := by
  by_contra hne
  obtain ⟨n, hn⟩ : ∃ n, s.received.length = n + 2 := ⟨_, (Nat.sub_add_cancel (h.late hne)).symm⟩
  rw [hn] at hsends
  cases m with
  | tick t => exact hne (h.idle (hpass ⟨t, rfl⟩))
  | hello => cases hsends
  | snapshot => cases hsends

/-- Pausing and going on lose nothing. -/
theorem Inv.pause {s : DemoSession} (h : s.Inv) (p : Bool) : (s.pause p).Inv := by
  obtain ⟨hsame, hres⟩ | ⟨-, hp, hres⟩ | ⟨-, -, hres⟩ := setPaused_cases s.transport p
  · constructor
    · simp only [DemoSession.pause, hres]
      exact h.idle
    · simp only [DemoSession.pause, hres]
      exact h.late
  · -- a pause begins with an empty buffer
    constructor
    · simp only [DemoSession.pause, hres]
      exact fun _ => h.idle hp
    · simp only [DemoSession.pause, hres]
      exact h.late
  · constructor
    · simp only [DemoSession.pause, hres]
      exact fun _ => trivial
    · simp only [DemoSession.pause, hres]
      exact fun hne => absurd rfl hne

theorem Inv.receive {s : DemoSession} (h : s.Inv) {m : Message}
    (hsends : Demo.Sends s.received.length m) :
    (s.receive m).Inv ∧ Stepped s (.message m) (s.receive m) := by
  obtain ⟨⟨t, ht⟩, hp, hfull, hres⟩ | ⟨⟨t, ht⟩, hp, hroom, hres⟩ | ⟨hpass, hres⟩ :=
    receive_cases s.transport ⟨s.received.length, m⟩
  · obtain rfl : m = .tick t := ht
    have hnot : ¬ s.HasRoom (.message (.tick t)) := fun hroom =>
      absurd (hroom hp) (Nat.not_lt.2 hfull)
    refine ⟨⟨?_, ?_⟩, .lost _ hnot rfl rfl ?_⟩
    · simp only [DemoSession.receive, hres]
      exact h.idle
    · simp only [DemoSession.receive, hres, List.length_append, List.length_singleton]
      exact fun hne => (h.late hne).trans (Nat.le_succ _)
    · simp [given, DemoSession.receive, hres]
  · obtain rfl : m = .tick t := ht
    refine ⟨⟨?_, ?_⟩, .came ⟨s.received.length, .tick t⟩ (fun _ => hroom) rfl ?_⟩
    · simp [DemoSession.receive, hres, hp]
    · -- a tick comes after the hello and the snapshot
      intro _
      simp only [DemoSession.receive, List.length_append, List.length_singleton]
      revert hsends
      match s.received.length with
      | 0 => exact False.elim
      | n + 1 => exact fun _ => by omega
    · simp [given, DemoSession.receive, hres]
  · -- the message passes a buffer that is empty
    have hempty := h.buffer_eq_nil hsends hpass
    refine ⟨⟨?_, ?_⟩, .came ⟨s.received.length, m⟩ ?_ rfl ?_⟩
    · simp only [DemoSession.receive, hres]
      exact fun _ => hempty
    · simp [DemoSession.receive, hres, hempty]
    · cases m with
      | tick t =>
        intro hp
        rw [hpass ⟨t, rfl⟩] at hp
        cases hp
      | hello => trivial
      | snapshot => trivial
    · simp [given, DemoSession.receive, hres, hempty]

/-- **Each event lets a message through, loses one or pauses.** -/
theorem Inv.step {s s' : DemoSession} {e : Event} (h : s.Inv) (hstep : step s e = some s') :
    s'.Inv ∧ Stepped s e s' := by
  cases e with
  | setPaused p =>
    obtain rfl := Option.some.inj hstep
    exact ⟨h.pause p, .paused trivial rfl (given_pause s p h.idle)⟩
  | message m =>
    obtain ⟨hsends, heq⟩ := Option.ite_none_right_eq_some.1 hstep
    obtain rfl := Option.some.inj heq
    exact h.receive hsends

/-! ## Whole runs -/

/-- Nothing is made up: what was lost cannot come back. -/
theorem sublist_step {s s' : DemoSession} {e : Event} (h : s.Inv)
    (hsub : (ticks s.given).Sublist (ticks s.received)) (hstep : step s e = some s') :
    (ticks s'.given).Sublist (ticks s'.received) := by
  unfold ticks at hsub ⊢
  cases (h.step hstep).2 with
  | came r _ hreceived hgiven =>
    rw [hreceived, hgiven, List.filter_append, List.filter_append]
    exact hsub.append_right _
  -- a lost tick makes the right list longer, and the left one stays
  | lost r _ _ hreceived hgiven =>
    rw [hreceived, hgiven, List.filter_append]
    exact hsub.trans (List.sublist_append_left _ _)
  | paused _ hreceived hgiven =>
    rw [hreceived, hgiven]
    exact hsub

/-- A step keeps the ticks together exactly when it finds room. -/
theorem ticks_step_iff {s s' : DemoSession} {e : Event} (h : s.Inv)
    (hall : ticks s.given = ticks s.received) (hstep : step s e = some s') :
    ticks s'.given = ticks s'.received ↔ s.HasRoom e := by
  unfold ticks at hall ⊢
  cases (h.step hstep).2 with
  | came r hroom hreceived hgiven =>
    rw [hreceived, hgiven, List.filter_append, List.filter_append, hall]
    exact iff_of_true rfl hroom
  | lost r hroom htick hreceived hgiven =>
    -- with the lost tick one list would be longer than the other
    refine iff_of_false (fun heq => ?_) hroom
    rw [hreceived, hgiven, List.filter_append, hall] at heq
    have hlen := congrArg List.length heq
    rw [List.length_append, show List.filter _ [r] = [r] from htick, List.length_singleton] at hlen
    omega
  | paused hroom hreceived hgiven =>
    rw [hreceived, hgiven]
    exact iff_of_true hall hroom

theorem given_step {s s' : DemoSession} {e : Event} (h : s.Inv) (hall : s.given = s.received)
    (hroom : s.HasRoom e) (hstep : step s e = some s') : s'.given = s'.received := by
  cases (h.step hstep).2 with
  | came r _ hreceived hgiven => rw [hreceived, hgiven, hall]
  | lost _ hlost => exact absurd hroom hlost
  | paused _ hreceived hgiven => rw [hreceived, hgiven, hall]

/-- No step brings a lost tick back. -/
theorem ticks_back {s s' : DemoSession} {e : Event} (h : s.Inv)
    (hsub : (ticks s.given).Sublist (ticks s.received)) (hstep : step s e = some s')
    (hall : ticks s'.given = ticks s'.received) : ticks s.given = ticks s.received := by
  unfold ticks at hsub hall ⊢
  cases (h.step hstep).2 with
  | came r _ hreceived hgiven =>
    rw [hreceived, hgiven, List.filter_append, List.filter_append] at hall
    exact List.append_cancel_right hall
  | lost r _ htick hreceived hgiven =>
    rw [hreceived, hgiven, List.filter_append] at hall
    -- a tick that was lost cannot come back: the lists would differ in length
    have hlen := congrArg List.length hall
    rw [List.length_append, show List.filter _ [r] = [r] from htick, List.length_singleton] at hlen
    have hle := hsub.length_le
    omega
  | paused _ hreceived hgiven => rwa [hreceived, hgiven] at hall

/-- When the pause is over, everything that was given is handed over. -/
theorem handed_pause_false {s : DemoSession} (h : s.Inv) : (s.pause false).handed = s.given := by
  unfold pause given
  obtain ⟨hp, hres⟩ | ⟨hp, -⟩ | ⟨-, -, hres⟩ := setPaused_cases s.transport false
  · rw [hres, h.idle hp]
  · cases hp
  · rw [hres]

/-- No tick was lost exactly when every tick of a pause found room. -/
theorem ticks_given_iff {es : List Event} {s : DemoSession}
    (hrun : Run.run step start es = some s) :
    ticks s.given = ticks s.received ↔ Run.EveryStep step HasRoom start es :=
  Run.last_iff_everyStep (G := fun s => ticks s.given = ticks s.received)
    (J := fun s => s.Inv ∧ (ticks s.given).Sublist (ticks s.received))
    (fun _ _ _ h hstep => ⟨(h.1.step hstep).1, sublist_step h.1 h.2 hstep⟩)
    (fun _ _ _ h hall hstep => ticks_step_iff h.1 hall hstep)
    (fun _ _ _ h hstep hall => ticks_back h.1 h.2 hstep hall) hrun
    ⟨inv_start, List.Sublist.refl _⟩ rfl

/-- **The pause of the demo is transparent, exactly when it is short.** When a pause ends, the
graph was given every tick that has come in, once and in order, if and only if no tick found the
buffer of its pause full. -/
theorem transparent_after_pause_iff {es : List Event} {s : DemoSession}
    (hrun : Run.run step start (es ++ [.setPaused false]) = some s) :
    s.Transparent ↔ Run.EveryStep step HasRoom start es := by
  obtain ⟨m, hm, hlast⟩ := Run.run_concat_eq_some.1 hrun
  obtain rfl := Option.some.inj hlast
  -- going on empties the buffer, so all that was given is handed on
  have hend : (m.pause false).handed = m.given :=
    handed_pause_false (Run.invariant (fun _ _ _ h hstep => (h.step hstep).1) hm inv_start)
  constructor
  · rintro ⟨hticks, -⟩
    rw [hend] at hticks
    exact (ticks_given_iff hm).1 hticks
  · intro hroom
    have hall : m.given = m.received :=
      (Run.invariant_of_everyStep (I := fun s => s.Inv ∧ s.given = s.received)
        (fun _ _ _ h hc hstep => ⟨(h.1.step hstep).1, given_step h.1 h.2 hc hstep⟩) hroom hm
        ⟨inv_start, rfl⟩).2
    rw [← hend] at hall
    exact ⟨congrArg ticks hall, fun g => congrArg g.drive hall⟩

/-- A tick in which nothing happened. -/
def quiet : Message := .tick ⟨0, [], [], ⟨[], []⟩, []⟩

/-- What the module sends first, and a pause. -/
def opening : List Event :=
  [.message (.hello ⟨"dev", "demo", 300, 60, 100, 0⟩), .message (.snapshot ⟨0, [], []⟩),
    .setPaused true]

/-- One tick comes in during the pause. -/
theorem transparent_after_pause_short :
    ∃ s, Run.run step start ((opening ++ [.message quiet]) ++ [.setPaused false]) = some s ∧
      s.Transparent :=
  ⟨_, rfl, (@transparent_after_pause_iff (opening ++ [.message quiet]) _ rfl).2 (by decide)⟩

theorem step_quiet {s : DemoSession} (h : 2 ≤ s.received.length) :
    step s (.message quiet) = some (s.receive quiet) := by
  obtain ⟨k, hk⟩ := Nat.exists_eq_add_of_le' h
  exact if_pos (by rw [hk]; trivial)

/-- Ticks fill the buffer of the pause. -/
theorem run_quiet (n : Nat) (hn : n ≤ DemoTransport.maxBuffer) :
    ∃ s, Run.run step start (opening ++ List.replicate n (.message quiet)) = some s ∧
      s.transport.paused = true ∧ s.transport.buffer.length = n ∧ 2 ≤ s.received.length := by
  induction n with
  | zero => exact ⟨_, rfl, rfl, rfl, le_refl _⟩
  | succ n ih =>
    obtain ⟨s, hrun, hp, hlen, htwo⟩ := ih (Nat.le_of_succ_le hn)
    refine ⟨s.receive quiet, ?_, ?_⟩
    · rw [List.replicate_succ', ← List.append_assoc]
      exact Run.run_concat_eq_some.2 ⟨s, hrun, step_quiet htwo⟩
    -- the buffer is not full yet, so the tick is kept
    · obtain ⟨-, -, hfull, -⟩ | ⟨-, -, -, hkept⟩ | ⟨hpass, -⟩ :=
        receive_cases s.transport ⟨s.received.length, quiet⟩
      · omega
      · simp only [receive, hkept, List.length_append, List.length_singleton, hlen]
        exact ⟨hp, trivial, htwo.trans (Nat.le_succ _)⟩
      · rw [hpass ⟨_, rfl⟩] at hp
        cases hp

/-- **A long pause loses ticks.** The buffer holds 600 of 601. -/
theorem not_transparent_after_pause :
    ¬ ∀ (es : List Event) (s : DemoSession),
      Run.run step start (es ++ [.setPaused false]) = some s → s.Transparent := by
  intro h
  obtain ⟨s, hrun, hp, hlen, htwo⟩ := run_quiet DemoTransport.maxBuffer (le_refl _)
  have hnext : Run.run step start (opening ++ List.replicate DemoTransport.maxBuffer
      (.message quiet) ++ [.message quiet]) = some (s.receive quiet) :=
    Run.run_concat_eq_some.2 ⟨s, hrun, step_quiet htwo⟩
  obtain ⟨hticks, -⟩ := h _ _ (Run.run_concat_eq_some.2 ⟨_, hnext, rfl⟩)
  rw [handed_pause_false (Run.invariant (fun _ _ _ h hstep => (h.step hstep).1) hnext inv_start)]
    at hticks
  -- the buffer is full at `maxBuffer`, and one more tick has no room
  have hroom : s.HasRoom (.message quiet) :=
    ((ticks_given_iff hnext).1 hticks).last hrun (step_quiet htwo)
  exact absurd (hroom hp) (by rw [hlen]; exact lt_irrefl _)

end DemoSession

end Flowscape
