import Flowscape.Web.Changes

/-!
# Flowscape: the WebSocket client (`web/src/ws-client.ts`)

`WSClient` hands the messages of the server to the graph. While it is paused it keeps the
ticks back, up to `MAX_BUFFER` of them; everything else passes through. After a tick that did
not fit, the end of the pause drops the buffer and closes the connection, so that the server
sends a snapshot on the next one. A client without a connection has none to close: it drops the
buffer, and the ticks in it are lost until the server sends a snapshot for a reason of its own.

A session is a client together with its history: what it has received, what it has handed
over, and whether it closed a connection itself and still waits for the snapshot of the next.
-/

namespace Flowscape

/-! ## Source definitions -/

/-- `MAX_BUFFER`: about a minute of ticks. -/
def maxBuffer : Nat := 600

/-- A message as it came in. The objects that `JSON.parse` makes are told apart by the number
of their arrival. -/
structure Received where
  seq : Nat
  msg : Message

/-- A tick. -/
def Received.isTick (m : Received) : Prop := ∃ t, m.msg = .tick t

/-- A snapshot. -/
def Received.isSnapshot (m : Received) : Prop := ∃ s, m.msg = .snapshot s

/-- `readyState` of the WebSocket while the client holds on to it. -/
inductive Socket where
  | connecting | opened | closing
deriving DecidableEq

/-- `WSClient` -/
structure WSClient where
  ws : Option Socket := none
  backoff : Nat := 1000
  buffer : List Received := []
  overflowed : Bool := false
  closed : Bool := false
  paused : Bool := false

namespace WSClient

/-- `connect` -/
def connect (c : WSClient) : WSClient := { c with closed := false, ws := some .connecting }

/-- `ws.onopen` -/
def onopen (c : WSClient) : WSClient := { c with ws := some .opened, backoff := 1000 }

/-- `ws.onmessage`, with the messages that it hands over. -/
def onmessage (c : WSClient) (m : Received) : WSClient × List Received :=
  match c.paused, m.msg with
  | true, .tick _ =>
    if maxBuffer ≤ c.buffer.length then ({ c with overflowed := true }, [])
    else ({ c with buffer := c.buffer ++ [m] }, [])
  | _, _ => (c, [m])

/-- `ws.onclose`; unless the client was closed, a timer will connect again. -/
def onclose (c : WSClient) : WSClient :=
  { c with
    ws := none
    backoff := if c.closed then c.backoff else min (c.backoff * 2) 10000 }

/-- `this.ws?.close()` -/
def closeSocket (c : WSClient) : WSClient := { c with ws := c.ws.map fun _ => .closing }

/-- There is a connection for `closeSocket` to end: one that is open or being made. A socket
that closes already is on its way without it. -/
def connected (c : WSClient) : Bool :=
  match c.ws with
  | some .connecting => true
  | some .opened => true
  | some .closing => false
  | none => false

/-- `setPaused`, with the messages that it hands over. -/
def setPaused (c : WSClient) (p : Bool) : WSClient × List Received :=
  if c.paused = p then (c, [])
  else
    let c := { c with paused := p }
    if p then (c, [])
    else if c.overflowed then
      -- Too far behind: a fresh snapshot is cheaper than replaying.
      ({ c with buffer := [], overflowed := false }.closeSocket, [])
    else ({ c with buffer := [] }, c.buffer)

/-- `close` -/
def close (c : WSClient) : WSClient := { c with closed := true }.closeSocket

end WSClient

/-- `onMessage` of `main.ts`, as far as it is about the graph. -/
def GraphState.onMessage (s : GraphState) (m : Message) : GraphState :=
  match m with
  | .hello h => { s with retention := h.retentionS }
  | .snapshot m => s.applySnapshot m
  | .tick t => s.applyTick t

/-! ## What two graphs share -/

namespace GraphState

/-- The graphs have the same nodes, and the same edges but for their rings. -/
def Alike (s s' : GraphState) : Prop :=
  s.nodes = s'.nodes ∧ ∀ id, s.edgeInfo id = s'.edgeInfo id

theorem Alike.refl (s : GraphState) : s.Alike s := ⟨rfl, fun _ => rfl⟩

theorem Alike.symm {s s' : GraphState} (h : s.Alike s') : s'.Alike s :=
  ⟨h.1.symm, fun id => (h.2 id).symm⟩

theorem Alike.trans {s s' s'' : GraphState} (h : s.Alike s') (h' : s'.Alike s'') :
    s.Alike s'' := ⟨h.1.trans h'.1, fun id => (h.2 id).trans (h'.2 id)⟩

theorem Alike.mem_edges {s s' : GraphState} (h : s.Alike s') {id : String} :
    id ∈ s.edges ↔ id ∈ s'.edges := by
  have hinfo : ∀ s : GraphState, id ∈ s.edges ↔ (s.edgeInfo id).isSome = true := fun s => by
    rw [edgeInfo, Option.isSome_map, OrdMap.mem_iff_isSome]
  rw [hinfo s, hinfo s', h.2]

/-- Alike states stay alike when a node comes. -/
theorem Alike.upsertNode {s s' : GraphState} (h : s.Alike s') (n : WireNode) :
    (s.upsertNode n).Alike (s'.upsertNode n) := by
  refine ⟨?_, fun id => ?_⟩
  · unfold GraphState.upsertNode
    rw [← h.1]
    cases s.nodes.get? n.id <;> rfl
  · rw [edgeInfo, edgeInfo, upsertNode_edges, upsertNode_edges]
    exact h.2 id

theorem Alike.upsertEdge_nodes {s s' : GraphState} (h : s.Alike s') (e : WireEdge) :
    (s.upsertEdge e).nodes = (s'.upsertEdge e).nodes := by
  unfold GraphState.upsertEdge
  by_cases hmem : e.id ∈ s.edges
  · rw [if_pos hmem, if_pos (h.mem_edges.1 hmem), h.1]
  · rw [if_neg hmem, if_neg (mt h.mem_edges.2 hmem)]
    show link (link s.nodes e.src e.id) e.dst e.id = _
    rw [h.1]

theorem Alike.snapshotEdge {s s' : GraphState} (h : s.Alike s') (e : WireEdge) :
    (s.snapshotEdge e).Alike (s'.snapshotEdge e) := by
  refine ⟨h.upsertEdge_nodes e, fun id => ?_⟩
  rw [snapshotEdge_edgeInfo, snapshotEdge_edgeInfo, h.2, h.2]

theorem Alike.tickEdge {s s' : GraphState} (h : s.Alike s') (sec : Int) (e : WireEdge) :
    (GraphState.tickEdge sec s e).Alike (GraphState.tickEdge sec s' e) := by
  refine ⟨h.upsertEdge_nodes e, fun id => ?_⟩
  rw [tickEdge_edgeInfo, tickEdge_edgeInfo, h.2, h.2]

theorem removeEdge_nodes (s : GraphState) (id : String) :
    (s.removeEdge id).nodes = match s.edgeInfo id with
      | none => s.nodes
      | some e => unlink (unlink s.nodes e.src id) e.dst id := by
  unfold removeEdge edgeInfo
  cases s.edges.get? id <;> rfl

/-- Alike states stay alike when an edge goes. -/
theorem Alike.removeEdge {s s' : GraphState} (h : s.Alike s') (id : String) :
    (s.removeEdge id).Alike (s'.removeEdge id) := by
  refine ⟨?_, fun id' => ?_⟩
  · rw [removeEdge_nodes, removeEdge_nodes, h.1, h.2]
  · rw [edgeInfo, edgeInfo, removeEdge_edges, removeEdge_edges]
    split
    · rfl
    · exact h.2 id'

theorem removeNode_erase (s : GraphState) (id : String) :
    (s.removeNode id).nodes = s.nodes.erase id := by
  unfold GraphState.removeNode
  split
  · next hout => exact (OrdMap.erase_of_not_mem hout).symm
  · rfl

theorem Alike.removeNode {s s' : GraphState} (h : s.Alike s') (id : String) :
    (s.removeNode id).Alike (s'.removeNode id) := by
  refine ⟨by rw [removeNode_erase, removeNode_erase, h.1], fun id' => ?_⟩
  rw [edgeInfo, edgeInfo, removeNode_edges, removeNode_edges]
  exact h.2 id'

/-- Alike states stay alike with a tick. -/
theorem Alike.applyTick {s s' : GraphState} (h : s.Alike s') (t : Tick) :
    (s.applyTick t).Alike (s'.applyTick t) := by
  have h₁ := Loop.foldl_rel (R := Alike) (l := t.nodes) (fun _ _ n h => Alike.upsertNode h n) h
  have h₂ := Loop.foldl_rel (R := Alike) (l := t.edges)
    (fun _ _ e h => Alike.tickEdge h (t.ts / 1000) e) h₁
  have h₃ := Loop.foldl_rel (R := Alike) (l := t.gone.edges)
    (fun _ _ id h => Alike.removeEdge h id) h₂
  have h₄ := Loop.foldl_rel (R := Alike) (l := t.gone.nodes)
    (fun _ _ id h => Alike.removeNode h id) h₃
  exact h₄

/-- A snapshot starts over, so all graphs that apply it are alike. -/
theorem alike_applySnapshot (s s' : GraphState) (m : Snapshot) :
    (s.applySnapshot m).Alike (s'.applySnapshot m) := by
  have h₀ : s.clear.Alike s'.clear := ⟨rfl, fun _ => rfl⟩
  have h₁ := Loop.foldl_rel (R := Alike) (l := m.nodes) (fun _ _ n h => Alike.upsertNode h n) h₀
  have h₂ := Loop.foldl_rel (R := Alike) (l := m.edges) (fun _ _ e h => Alike.snapshotEdge h e) h₁
  exact h₂

theorem Alike.onMessage {s s' : GraphState} (h : s.Alike s') (m : Message) :
    (s.onMessage m).Alike (s'.onMessage m) := by
  cases m with
  | hello => exact h
  | snapshot m => exact alike_applySnapshot s s' m
  | tick t => exact h.applyTick t

/-- The graph after the messages. -/
def drive (s : GraphState) (l : List Received) : GraphState :=
  l.foldl (fun s m => s.onMessage m.msg) s

theorem Alike.drive {s s' : GraphState} (h : s.Alike s') (l : List Received) :
    (s.drive l).Alike (s'.drive l) :=
  Loop.foldl_rel (R := Alike) (fun _ _ (m : Received) h => Alike.onMessage h m.msg) h

end GraphState

/-! ## Sessions -/

/-- A client and its history. -/
structure Session where
  client : WSClient
  /-- What the server sent, in the order of arrival. -/
  received : List Received
  /-- What the graph was given, in the order of the calls. -/
  handed : List Received
  /-- The client closed a connection to give up a buffer, and waits for the snapshot of the next
  connection. -/
  awaiting : Bool

/-- What happens to a client. A message comes in over an open connection only; the timer and
the page connect when there is no connection. -/
inductive Event where
  | connect
  | opened
  | message (m : Message)
  | error
  | disconnected
  | setPaused (p : Bool)
  | close

namespace Session

/-- The page has been loaded. -/
def start : Session where
  client := {}
  received := []
  handed := []
  awaiting := false

/-- A message comes in. -/
def receive (s : Session) (m : Message) : Session where
  client := (s.client.onmessage ⟨s.received.length, m⟩).1
  received := s.received ++ [⟨s.received.length, m⟩]
  handed := s.handed ++ (s.client.onmessage ⟨s.received.length, m⟩).2
  awaiting := match m with
    | .snapshot _ => false
    | _ => s.awaiting

/-- The user pauses, or goes on. A reconnect is forced only by closing a connection. -/
def pause (s : Session) (p : Bool) : Session where
  client := (s.client.setPaused p).1
  received := s.received
  handed := s.handed ++ (s.client.setPaused p).2
  awaiting := s.awaiting || (s.client.paused && !p && s.client.overflowed && s.client.connected)

/-- The client is closed for good. After that nothing connects it again, unless the timer is
already running, which `close` does not stop. -/
def shut (s : Session) : Session where
  client := s.client.close
  received := s.received
  handed := s.handed
  awaiting := s.awaiting && s.client.ws.isNone

/-- One step. What happens to a socket needs one. -/
def step (s : Session) : Event → Option Session
  | .connect => if s.client.ws = none then some { s with client := s.client.connect } else none
  | .opened =>
    if s.client.ws = some .connecting then some { s with client := s.client.onopen } else none
  | .message m => if s.client.ws = some .opened then some (s.receive m) else none
  | .error => some { s with client := s.client.closeSocket }
  | .disconnected =>
    if s.client.ws ≠ none then some { s with client := s.client.onclose } else none
  | .setPaused p => some (s.pause p)
  | .close => some s.shut

/-- No tick is handed over after a snapshot that came in later. -/
def InOrder (l : List Received) : Prop :=
  l.Pairwise fun a b => a.isSnapshot → b.isTick → a.seq < b.seq

/-- Unless the client is paused or waits for a snapshot, every graph is as if it had been
given all messages as they came in. -/
def Transparent (s : Session) : Prop :=
  InOrder s.handed ∧ (s.client.paused = false → s.awaiting = false →
    ∀ g : GraphState, (g.drive s.handed).Alike (g.drive s.received))

/-- No snapshot was handed over since a tick came in that is still in the buffer. -/
def Fresh (s : Session) : Prop :=
  ∀ t ∈ s.client.buffer, ∀ m ∈ s.handed, m.isSnapshot → m.seq < t.seq

/-- A snapshot was handed over since the last tick came in. -/
def Replaced (s : Session) : Prop :=
  ∀ t ∈ s.received, t.isTick → ∃ m ∈ s.handed, m.isSnapshot ∧ t.seq < m.seq

/-- A pause without overflow ends with a fresh buffer. -/
def EndsPausesInOrder (s : Session) : Event → Prop
  | .setPaused false => s.client.overflowed = false → s.Fresh
  | _ => True

/-- A pause ends with a fresh buffer, or with one that is given up for a snapshot: one that the
client waits for, one that it gets by closing a connection, or one that came in already. Nor is
the connection closed that is to bring that snapshot. -/
def EndsPausesFresh (s : Session) : Event → Prop
  | .setPaused false =>
    (s.client.overflowed = false → s.Fresh) ∧
    (s.client.overflowed = true → s.awaiting = true ∨ s.client.connected = true ∨ s.Replaced)
  | .close => s.awaiting = true → s.client.ws = none
  | _ => True

/-! ## What the steps do -/

/-- The tick does not fit. -/
def lose (s : Session) (r : Received) : Session :=
  { s with client := { s.client with overflowed := true }, received := s.received ++ [r] }

/-- The tick is kept back. -/
def keep (s : Session) (r : Received) : Session :=
  { s with
    client := { s.client with buffer := s.client.buffer ++ [r] }
    received := s.received ++ [r] }

/-- The message is handed over. -/
def handOver (s : Session) (r : Received) : Session :=
  { s with received := s.received ++ [r], handed := s.handed ++ [r] }

/-- The three things that the client does with a message: it drops a tick that does not fit,
keeps one that does, and hands over everything else. -/
theorem onmessage_cases (c : WSClient) (m : Received) :
    (c.paused = true ∧ m.isTick ∧ c.onmessage m = ({ c with overflowed := true }, [])) ∨
    (c.paused = true ∧ m.isTick ∧ c.onmessage m = ({ c with buffer := c.buffer ++ [m] }, [])) ∨
    ((c.paused = true → ¬ m.isTick) ∧ c.onmessage m = (c, [m])) := by
  obtain ⟨seq, msg⟩ := m
  unfold WSClient.onmessage
  cases hp : c.paused with
  | false => exact Or.inr (Or.inr ⟨nofun, rfl⟩)
  | true =>
    cases msg with
    | hello h => exact Or.inr (Or.inr ⟨fun _ ⟨_, h⟩ => (nomatch h), rfl⟩)
    -- a snapshot is let through even when paused, and so is a greeting
    | snapshot m => exact Or.inr (Or.inr ⟨fun _ ⟨_, h⟩ => (nomatch h), rfl⟩)
    | tick t =>
      dsimp only
      split
      · exact Or.inl ⟨rfl, ⟨t, rfl⟩, by simp⟩
      · exact Or.inr (Or.inl ⟨rfl, ⟨t, rfl⟩, by simp⟩)

theorem not_isSnapshot_of_isTick {r : Received} (h : r.isTick) : ¬ r.isSnapshot := by
  rintro ⟨n, hn⟩
  obtain ⟨t, ht⟩ := h
  cases ht.symm.trans hn

/-- What a message does to a session. A snapshot ends the wait for one. -/
theorem receive_cases (s : Session) (m : Message) :
    ∃ r : Received, r.seq = s.received.length ∧ r.msg = m ∧
    ((s.client.paused = true ∧ r.isTick ∧ s.receive m = s.lose r) ∨
     (s.client.paused = true ∧ r.isTick ∧ s.receive m = s.keep r) ∨
     ((s.client.paused = true → ¬ r.isTick) ∧ ¬ r.isSnapshot ∧ s.receive m = s.handOver r) ∨
     (r.isSnapshot ∧ s.receive m = { s.handOver r with awaiting := false })) := by
  let r : Received := ⟨s.received.length, m⟩
  refine ⟨r, rfl, rfl, ?_⟩
  -- only a snapshot changes `awaiting`
  have hwait : ¬ r.isSnapshot → (s.receive m).awaiting = s.awaiting := by
    intro hsnap
    cases m with
    | snapshot n => exact absurd ⟨n, rfl⟩ hsnap
    | hello => rfl
    | tick => rfl
  rcases onmessage_cases s.client r with ⟨hp, htick, hon⟩ | ⟨hp, htick, hon⟩ | ⟨hpass, hon⟩
  · refine Or.inl ⟨hp, htick, ?_⟩
    rw [lose, ← hwait (not_isSnapshot_of_isTick htick)]
    simp only [Session.receive, hon, r, List.append_nil]
  · refine Or.inr (Or.inl ⟨hp, htick, ?_⟩)
    rw [keep, ← hwait (not_isSnapshot_of_isTick htick)]
    simp only [Session.receive, hon, r, List.append_nil]
  · by_cases hsnap : r.isSnapshot
    · refine Or.inr (Or.inr (Or.inr ⟨hsnap, ?_⟩))
      obtain ⟨n, hn⟩ := hsnap
      obtain rfl : m = .snapshot n := hn
      simp only [Session.receive, handOver, hon, r]
    · refine Or.inr (Or.inr (Or.inl ⟨hpass, hsnap, ?_⟩))
      rw [handOver, ← hwait hsnap]
      simp only [Session.receive, hon, r]

/-- A pause begins. -/
theorem pause_true {s : Session} (hp : s.client.paused = false) :
    s.pause true = { s with client := { s.client with paused := true } } := by
  simp [Session.pause, WSClient.setPaused, hp]

/-- A pause ends with a buffer that is given up. The client waits for a snapshot if there was a
connection to close. -/
theorem pause_false_of_overflowed {s : Session} (hp : s.client.paused = true)
    (ho : s.client.overflowed = true) : s.pause false = { s with
      client := { s.client with
        paused := false
        buffer := []
        overflowed := false
        ws := s.client.ws.map fun _ => .closing }
      awaiting := s.awaiting || s.client.connected } := by
  simp [Session.pause, WSClient.setPaused, WSClient.closeSocket, hp, ho]

/-- A pause ends with a buffer that is handed over. -/
theorem pause_false {s : Session} (hp : s.client.paused = true)
    (ho : s.client.overflowed = false) : s.pause false = { s with
      client := { s.client with paused := false, buffer := [] }
      handed := s.handed ++ s.client.buffer } := by
  simp [Session.pause, WSClient.setPaused, hp, ho]

/-- Setting what is set changes nothing. -/
theorem pause_self (s : Session) : s.pause s.client.paused = s := by
  simp [Session.pause, WSClient.setPaused]

/-- What a change of the pause does to a session. -/
theorem pause_cases (s : Session) (p : Bool) :
    (p = s.client.paused ∧ s.pause p = s) ∨
    (p = true ∧ s.pause p = { s with client := { s.client with paused := true } }) ∨
    (p = false ∧ s.client.overflowed = true ∧ s.pause p = { s with
      client := { s.client with
        paused := false
        buffer := []
        overflowed := false
        ws := s.client.ws.map fun _ => .closing }
      awaiting := s.awaiting || s.client.connected }) ∨
    (p = false ∧ s.client.overflowed = false ∧ s.pause p = { s with
      client := { s.client with paused := false, buffer := [] }
      handed := s.handed ++ s.client.buffer }) := by
  by_cases hsame : p = s.client.paused
  · exact Or.inl ⟨hsame, by rw [hsame, pause_self]⟩
  cases p with
  | true =>
    have hp : s.client.paused = false := by simpa using Ne.symm hsame
    exact Or.inr (Or.inl ⟨rfl, pause_true hp⟩)
  | false =>
    have hp : s.client.paused = true := by simpa using Ne.symm hsame
    -- going on: an overflowed buffer is given up and the socket closed, another one is handed on
    cases ho : s.client.overflowed with
    | true => exact Or.inr (Or.inr (Or.inl ⟨rfl, rfl, pause_false_of_overflowed hp ho⟩))
    | false => exact Or.inr (Or.inr (Or.inr ⟨rfl, rfl, pause_false hp ho⟩))

/-! ## What holds of every session -/

/-- Outside of a pause nothing is kept back. What is kept back are ticks that came in, and the
numbers of the messages are those of their arrival. -/
structure Tidy (s : Session) : Prop where
  idle : s.client.paused = false → s.client.buffer = [] ∧ s.client.overflowed = false
  ticks : ∀ m ∈ s.client.buffer, m.isTick
  kept : ∀ m ∈ s.client.buffer, m ∈ s.received
  arrived : ∀ m ∈ s.handed ++ s.client.buffer, m.seq < s.received.length

theorem tidy_start : start.Tidy where
  idle _ := ⟨rfl, rfl⟩
  ticks _ hm := nomatch hm
  kept _ hm := nomatch hm
  arrived _ hm := nomatch hm

theorem Tidy.handed_lt {s : Session} (h : s.Tidy) {m : Received} (hm : m ∈ s.handed) :
    m.seq < s.received.length := h.arrived m (List.mem_append_left _ hm)

/-- The state of the connection does not matter. -/
theorem Tidy.client {s : Session} (h : s.Tidy) {c : WSClient} {a : Bool}
    (hb : c.buffer = s.client.buffer) (ho : c.overflowed = s.client.overflowed)
    (hp : c.paused = s.client.paused) :
    ({ s with client := c, awaiting := a } : Session).Tidy where
  idle hpaused := by rw [hb, ho]; exact h.idle (hp ▸ hpaused)
  ticks := by rw [hb]; exact h.ticks
  kept := by rw [hb]; exact h.kept
  arrived := by rw [hb]; exact h.arrived

/-- Tags below a bound stay below when the last message carries the bound. -/
theorem Tidy.arrived_concat {s : Session} (h : s.Tidy) {l : List Received} {m : Received}
    (hl : ∀ a ∈ l, a ∈ s.handed ++ s.client.buffer ∨ a = m) (hm : m.seq = s.received.length) :
    ∀ a ∈ l, a.seq < (s.received ++ [m]).length := by
  intro a ha
  rw [List.length_append, List.length_singleton]
  rcases hl a ha with hold | rfl
  · have := h.arrived a hold
    omega
  · omega

/-- A tick that is lost leaves the session tidy. -/
theorem Tidy.lose {s : Session} (h : s.Tidy) (hp : s.client.paused = true) {r : Received}
    (hr : r.seq = s.received.length) : (s.lose r).Tidy where
  idle hpaused := by
    rw [show s.client.paused = false from hpaused] at hp
    cases hp
  ticks := h.ticks
  kept m hm := List.mem_append_left _ (h.kept m hm)
  arrived := h.arrived_concat (fun _ ha => Or.inl ha) hr

theorem Tidy.keep {s : Session} (h : s.Tidy) (hp : s.client.paused = true) {r : Received}
    (hr : r.seq = s.received.length) (htick : r.isTick) : (s.keep r).Tidy where
  idle hpaused := by
    -- a client that is not paused keeps nothing
    rw [show s.client.paused = false from hpaused] at hp
    cases hp
  ticks a ha := by
    rcases List.mem_append.1 ha with ha | ha
    · exact h.ticks a ha
    · rw [List.mem_singleton.1 ha]
      exact htick
  kept a ha := (List.mem_append.1 ha).elim
    (fun ha => List.mem_append_left _ (h.kept a ha)) (List.mem_append_right _)
  arrived := by
    refine h.arrived_concat (fun a ha => ?_) hr
    have ha' : a ∈ s.handed ++ (s.client.buffer ++ [r]) := ha
    rw [← List.append_assoc] at ha'
    exact (List.mem_append.1 ha').imp_right List.mem_singleton.1

theorem Tidy.handOver {s : Session} (h : s.Tidy) {r : Received}
    (hr : r.seq = s.received.length) {a : Bool} :
    ({ s.handOver r with awaiting := a } : Session).Tidy where
  idle := h.idle
  ticks := h.ticks
  kept m hm := List.mem_append_left _ (h.kept m hm)
  arrived := by
    refine h.arrived_concat (fun a ha => ?_) hr
    have ha' : a ∈ s.handed ++ [r] ++ s.client.buffer := ha
    simp only [List.mem_append, List.mem_singleton] at ha' ⊢
    tauto

theorem Tidy.receive {s : Session} (h : s.Tidy) (m : Message) : (s.receive m).Tidy := by
  obtain ⟨r, hr, -, ⟨hp, -, heq⟩ | ⟨hp, htick, heq⟩ | ⟨-, -, heq⟩ | ⟨-, heq⟩⟩ :=
    receive_cases s m <;> rw [heq]
  · exact h.lose hp hr
  · exact h.keep hp hr htick
  · exact h.handOver hr
  · exact h.handOver hr

theorem Tidy.pause {s : Session} (h : s.Tidy) (p : Bool) : (s.pause p).Tidy := by
  rcases pause_cases s p with ⟨-, heq⟩ | ⟨-, heq⟩ | ⟨-, -, heq⟩ | ⟨-, ho, heq⟩ <;> rw [heq]
  · exact h
  · exact { h with idle := nofun }
  · exact {
      idle := fun _ => ⟨rfl, rfl⟩
      ticks := fun _ hm => nomatch hm
      kept := fun _ hm => nomatch hm
      arrived := fun m hm => h.handed_lt (by simpa using hm) }
  · exact {
      idle := fun _ => ⟨rfl, ho⟩
      ticks := fun _ hm => nomatch hm
      kept := fun _ hm => nomatch hm
      arrived := fun m hm => h.arrived m (by simpa using hm) }

/-- A step is a message, a change of the pause, or about the connection only. -/
theorem step_cases {s s' : Session} {e : Event} (hstep : step s e = some s') :
    (∃ m, e = .message m ∧ s' = s.receive m) ∨ (∃ p, e = .setPaused p ∧ s' = s.pause p) ∨
    (e = .close ∧ s' = s.shut) ∨
    ∃ c : WSClient, c.buffer = s.client.buffer ∧ c.overflowed = s.client.overflowed ∧
      c.paused = s.client.paused ∧ (∀ p, e ≠ .setPaused p) ∧ s' = { s with client := c } := by
  cases e with
  | connect =>
    obtain ⟨-, heq⟩ := Option.ite_none_right_eq_some.1 hstep
    obtain rfl := Option.some.inj heq
    exact Or.inr (Or.inr (Or.inr ⟨s.client.connect, rfl, rfl, rfl, nofun, rfl⟩))
  | opened =>
    obtain ⟨-, heq⟩ := Option.ite_none_right_eq_some.1 hstep
    obtain rfl := Option.some.inj heq
    exact Or.inr (Or.inr (Or.inr ⟨s.client.onopen, rfl, rfl, rfl, nofun, rfl⟩))
  | message m =>
    obtain ⟨-, heq⟩ := Option.ite_none_right_eq_some.1 hstep
    exact Or.inl ⟨m, rfl, (Option.some.inj heq).symm⟩
  -- a socket that fails or closes leaves the buffer as it is
  | error =>
    obtain rfl := Option.some.inj hstep
    exact Or.inr (Or.inr (Or.inr ⟨s.client.closeSocket, rfl, rfl, rfl, nofun, rfl⟩))
  | disconnected =>
    obtain ⟨-, heq⟩ := Option.ite_none_right_eq_some.1 hstep
    obtain rfl := Option.some.inj heq
    exact Or.inr (Or.inr (Or.inr ⟨s.client.onclose, rfl, rfl, rfl, nofun, rfl⟩))
  | setPaused p => exact Or.inr (Or.inl ⟨p, rfl, (Option.some.inj hstep).symm⟩)
  | close => exact Or.inr (Or.inr (Or.inl ⟨rfl, (Option.some.inj hstep).symm⟩))

theorem Tidy.step {s s' : Session} {e : Event} (h : s.Tidy) (hstep : step s e = some s') :
    s'.Tidy := by
  rcases step_cases hstep with ⟨m, -, rfl⟩ | ⟨p, -, rfl⟩ | ⟨-, rfl⟩ | ⟨c, hb, ho, hp, -, rfl⟩
  · exact h.receive m
  · exact h.pause p
  · exact h.client (c := s.client.close) rfl rfl rfl
  · exact h.client hb ho hp

/-! ## The order of what is handed over -/

/-- The message is handed over, behind everything that came in before it. -/
theorem inOrder_concat {s : Session} (h : s.Tidy) {r : Received}
    (hr : r.seq = s.received.length) : InOrder (s.handed ++ [r]) ↔ InOrder s.handed := by
  refine ⟨fun hord => (List.pairwise_append.1 hord).1, fun hord => ?_⟩
  refine List.pairwise_append.2 ⟨hord, List.pairwise_singleton _ _, fun a ha b hb _ _ => ?_⟩
  rw [List.mem_singleton.1 hb, hr]
  exact h.handed_lt ha

/-- Ticks that are kept back are in order behind what was handed over when they are fresh. -/
theorem inOrder_append_iff {s : Session} (h : s.Tidy) (hord : InOrder s.handed) :
    InOrder (s.handed ++ s.client.buffer) ↔ s.Fresh := by
  have hbuffer : InOrder s.client.buffer := by
    refine List.pairwise_iff_forall_sublist.2 fun {a b} hsub hsnap _ => ?_
    exact absurd hsnap (not_isSnapshot_of_isTick (h.ticks a (hsub.subset List.mem_cons_self)))
  rw [InOrder, List.pairwise_append]
  constructor
  · rintro ⟨-, -, hcross⟩ t ht m hm hsnap
    exact hcross m hm t ht hsnap (h.ticks t ht)
  · intro hfresh
    exact ⟨hord, hbuffer, fun a ha b hb hsnap _ => hfresh b hb a ha hsnap⟩

/-- Only the end of a pause can bring the messages out of order, and does so exactly when a
snapshot has passed a tick of the buffer. -/
theorem inOrder_step_iff {s s' : Session} {e : Event} (h : s.Tidy) (hord : InOrder s.handed)
    (hstep : step s e = some s') : InOrder s'.handed ↔ s.EndsPausesInOrder e := by
  rcases step_cases hstep with ⟨m, rfl, rfl⟩ | ⟨p, rfl, rfl⟩ | ⟨rfl, rfl⟩ | ⟨c, -, -, -, he, rfl⟩
  · refine iff_of_true ?_ trivial
    obtain ⟨r, hr, -, ⟨-, -, heq⟩ | ⟨-, -, heq⟩ | ⟨-, -, heq⟩ | ⟨-, heq⟩⟩ :=
      receive_cases s m <;> rw [heq]
    · exact hord
    · exact hord
    · exact (inOrder_concat h hr).2 hord
    · exact (inOrder_concat h hr).2 hord
  · rcases pause_cases s p with ⟨hp, heq⟩ | ⟨rfl, heq⟩ | ⟨rfl, ho, heq⟩ | ⟨rfl, ho, heq⟩ <;>
      rw [heq]
    · refine iff_of_true hord ?_
      -- outside of a pause the buffer is empty
      cases p with
      | true => trivial
      | false =>
        intro _ t ht
        rw [(h.idle hp.symm).1] at ht
        cases ht
    · exact iff_of_true hord trivial
    · exact iff_of_true hord fun ho' => nomatch ho.symm.trans ho'
    · rw [inOrder_append_iff h hord]
      exact ⟨fun hfresh _ => hfresh, fun hc => hc ho⟩
  · exact iff_of_true hord trivial
  · refine iff_of_true hord ?_
    cases e with
    | setPaused p => exact absurd rfl (he p)
    | _ => trivial

/-! ## The graph -/

/-- What holds of a session whose pauses all ended with a fresh buffer or for a snapshot. -/
structure Inv (s : Session) : Prop extends s.Tidy where
  inOrder : InOrder s.handed
  alike : s.awaiting = false → s.client.overflowed = false → s.Fresh →
    ∀ g : GraphState, (g.drive (s.handed ++ s.client.buffer)).Alike (g.drive s.received)
  replaced : s.Replaced → ∀ g : GraphState, (g.drive s.handed).Alike (g.drive s.received)

theorem inv_start : start.Inv where
  toTidy := tidy_start
  inOrder := List.Pairwise.nil
  alike _ _ _ g := .refl g
  replaced _ g := .refl g

theorem Inv.transparent {s : Session} (h : s.Inv) : s.Transparent := by
  refine ⟨h.inOrder, fun hp ha g => ?_⟩
  obtain ⟨hbuffer, hover⟩ := h.idle hp
  have hfresh : s.Fresh := fun t ht => by rw [hbuffer] at ht; cases ht
  have halike := h.alike ha hover hfresh g
  rwa [hbuffer, List.append_nil] at halike

/-- The state of the connection does not matter. -/
theorem Inv.client {s : Session} (h : s.Inv) {c : WSClient} (hb : c.buffer = s.client.buffer)
    (ho : c.overflowed = s.client.overflowed) (hp : c.paused = s.client.paused) :
    ({ s with client := c } : Session).Inv where
  toTidy := h.toTidy.client hb ho hp
  inOrder := h.inOrder
  alike ha hover hfresh := by
    rw [hb]
    apply h.alike ha (ho ▸ hover)
    intro t ht
    exact hfresh t (show t ∈ c.buffer by rw [hb]; exact ht)
  replaced := h.replaced

theorem drive_append (g : GraphState) (l l' : List Received) :
    g.drive (l ++ l') = (g.drive l).drive l' := List.foldl_append

/-- With one more message, kept back or handed over behind everything else. -/
theorem Inv.alike_concat {s : Session} (h : s.Inv) (ha : s.awaiting = false)
    (ho : s.client.overflowed = false) (hf : s.Fresh) (r : Received) (g : GraphState) :
    (g.drive (s.handed ++ s.client.buffer ++ [r])).Alike (g.drive (s.received ++ [r])) := by
  rw [drive_append, drive_append g s.received]
  exact (h.alike ha ho hf g).drive [r]

theorem not_replaced {s : Session} {r : Received} (hr : r ∈ s.received) (htick : r.isTick)
    (hlast : ∀ m ∈ s.handed, m.seq ≤ r.seq) : ¬ s.Replaced := by
  intro hrep
  obtain ⟨m, hm, -, hlt⟩ := hrep r hr htick
  exact absurd (hlast m hm) (not_le.2 hlt)

/-- The tick does not fit. -/
theorem Inv.lose {s : Session} (h : s.Inv) (hp : s.client.paused = true) {r : Received}
    (hr : r.seq = s.received.length) (htick : r.isTick) : (s.lose r).Inv where
  toTidy := h.toTidy.lose hp hr
  inOrder := h.inOrder
  alike _ hover := nomatch hover
  replaced hrep := absurd hrep <| not_replaced (List.mem_append_right _ (List.mem_singleton_self r))
    htick fun _ hm => hr ▸ (h.handed_lt hm).le

/-- The tick is kept back. -/
theorem Inv.keep {s : Session} (h : s.Inv) (hp : s.client.paused = true) {r : Received}
    (hr : r.seq = s.received.length) (htick : r.isTick) : (s.keep r).Inv where
  toTidy := h.toTidy.keep hp hr htick
  inOrder := h.inOrder
  -- the tick is behind the buffer here and behind all received messages there
  alike ha hover hfresh g := by
    have hf : s.Fresh := fun t ht => hfresh t (List.mem_append_left _ ht)
    have halike := h.alike_concat ha hover hf r g
    rwa [List.append_assoc] at halike
  replaced hrep := absurd hrep <| not_replaced (List.mem_append_right _ (List.mem_singleton_self r))
    htick fun _ hm => hr ▸ (h.handed_lt hm).le

/-- A hello sets the length of new rings, which is none of the nodes and edges. -/
theorem drive_hello (g : GraphState) {l : List Received} {r : Received} {h : Hello}
    (hr : r.msg = .hello h) : (g.drive (l ++ [r])).Alike (g.drive l) := by
  rw [drive_append]
  show ((g.drive l).onMessage r.msg).Alike _
  rw [hr]
  exact ⟨rfl, fun _ => rfl⟩

theorem exists_hello {r : Received} (hsnap : ¬ r.isSnapshot) (htick : ¬ r.isTick) :
    ∃ hello, r.msg = .hello hello := by
  cases hmsg : r.msg with
  | hello hello => exact ⟨hello, rfl⟩
  | snapshot n => exact absurd ⟨n, hmsg⟩ hsnap
  | tick t => exact absurd ⟨t, hmsg⟩ htick

/-- A tick or a hello is handed over. The tick finds an empty buffer; a hello may overtake
what is in it. -/
theorem Inv.handOver {s : Session} (h : s.Inv) {r : Received} (hr : r.seq = s.received.length)
    (hsnap : ¬ r.isSnapshot) (hpass : s.client.paused = true → ¬ r.isTick) :
    (s.handOver r).Inv where
  toTidy := h.toTidy.handOver hr
  inOrder := (inOrder_concat h.toTidy hr).2 h.inOrder
  alike ha hover hfresh g := by
    have hf : s.Fresh := fun t ht a hamem => hfresh t ht a (List.mem_append_left _ hamem)
    show (g.drive (s.handed ++ [r] ++ s.client.buffer)).Alike (g.drive (s.received ++ [r]))
    -- in a pause only a hello comes through, and it commutes with the ticks kept back
    cases hp : s.client.paused with
    | false =>
      have halike := h.alike_concat ha hover hf r g
      rw [(h.idle hp).1, List.append_nil] at halike ⊢
      exact halike
    | true =>
      obtain ⟨hello, hhello⟩ := exists_hello hsnap (hpass hp)
      have hleft : (g.drive (s.handed ++ [r] ++ s.client.buffer)).Alike
          (g.drive (s.handed ++ s.client.buffer)) := by
        rw [drive_append g (s.handed ++ [r]), drive_append g s.handed s.client.buffer]
        exact (drive_hello g hhello).drive s.client.buffer
      exact (hleft.trans (h.alike ha hover hf g)).trans (drive_hello g hhello).symm
  replaced hrep g := by
    have hlast : ∀ m ∈ s.handed ++ [r], m.seq ≤ r.seq := fun m hm =>
      (List.mem_append.1 hm).elim (fun hm => hr ▸ (h.handed_lt hm).le)
        fun hm => (List.mem_singleton.1 hm) ▸ le_rfl
    by_cases htick : r.isTick
    · exact absurd hrep
        (not_replaced (List.mem_append_right _ (List.mem_singleton_self r)) htick hlast)
    -- a hello replaces nothing, so the snapshots were there before
    · have hold : s.Replaced := fun t ht htick' => by
        obtain ⟨m, hm, hmsnap, hlt⟩ := hrep t (List.mem_append_left _ ht) htick'
        rcases List.mem_append.1 hm with hm | hm
        · exact ⟨m, hm, hmsnap, hlt⟩
        · exact absurd (List.mem_singleton.1 hm ▸ hmsnap) hsnap
      show (g.drive (s.handed ++ [r])).Alike (g.drive (s.received ++ [r]))
      rw [drive_append, drive_append]
      exact (h.replaced hold g).drive [r]

theorem drive_snapshot (g : GraphState) (l l' : List Received) {r : Received}
    (hsnap : r.isSnapshot) : (g.drive (l ++ [r])).Alike (g.drive (l' ++ [r])) := by
  obtain ⟨n, hn⟩ := hsnap
  rw [drive_append, drive_append g l']
  show ((g.drive l).onMessage r.msg).Alike ((g.drive l').onMessage r.msg)
  rw [hn]
  exact GraphState.alike_applySnapshot _ _ n

/-- A snapshot is handed over. If the buffer is still fresh behind it, it is empty. -/
theorem Inv.restart {s : Session} (h : s.Inv) {r : Received} (hr : r.seq = s.received.length)
    (hsnap : r.isSnapshot) : ({ s.handOver r with awaiting := false } : Session).Inv where
  toTidy := h.toTidy.handOver hr
  inOrder := (inOrder_concat h.toTidy hr).2 h.inOrder
  alike _ _ hfresh g := by
    -- every tick in the buffer came in before the snapshot
    have hempty : s.client.buffer = [] := by
      apply List.eq_nil_iff_forall_not_mem.2
      intro t ht
      have hnew : r.seq < t.seq :=
        hfresh t ht r (List.mem_append_right _ (List.mem_singleton_self r)) hsnap
      have hold := h.arrived t (List.mem_append_right _ ht)
      omega
    show (g.drive (s.handed ++ [r] ++ s.client.buffer)).Alike (g.drive (s.received ++ [r]))
    rw [hempty, List.append_nil]
    exact drive_snapshot g _ _ hsnap
  replaced _ g := drive_snapshot g _ _ hsnap

theorem Inv.receive {s : Session} (h : s.Inv) (m : Message) : (s.receive m).Inv := by
  obtain ⟨r, hr, -, ⟨hp, htick, heq⟩ | ⟨hp, htick, heq⟩ | ⟨hpass, hsnap, heq⟩ | ⟨hsnap, heq⟩⟩ :=
    receive_cases s m <;> rw [heq]
  · exact h.lose hp hr htick
  · exact h.keep hp hr htick
  · exact h.handOver hr hsnap hpass
  · exact h.restart hr hsnap

theorem buffer_eq_nil {s : Session} (h : s.Tidy) (hfresh : s.Fresh) (hrep : s.Replaced) :
    s.client.buffer = [] := by
  apply List.eq_nil_iff_forall_not_mem.2
  intro t ht
  obtain ⟨m, hm, hsnap, hlt⟩ := hrep t (h.kept t ht) (h.ticks t ht)
  exact lt_asymm hlt (hfresh t ht m hm hsnap)

/-- The end of a pause hands the buffer over, or gives it up for a snapshot. -/
theorem Inv.pause {s : Session} (h : s.Inv) {p : Bool} (hc : s.EndsPausesFresh (.setPaused p)) :
    (s.pause p).Inv := by
  have htidy : (s.pause p).Tidy := h.toTidy.pause p
  rcases pause_cases s p with ⟨-, heq⟩ | ⟨-, heq⟩ | ⟨rfl, ho, heq⟩ | ⟨rfl, ho, heq⟩ <;>
    rw [heq] at htidy ⊢
  · exact h
  · exact { h with idle := nofun }
  · refine { htidy with inOrder := h.inOrder, alike := fun ha _ _ g => ?_, replaced := h.replaced }
    -- the client neither waited for a snapshot nor does it now, so one has replaced the buffer
    obtain ⟨hwait, hnone⟩ := Bool.or_eq_false_iff.1 ha
    have hrep : s.Replaced := by
      rcases hc.2 ho with ha' | hconn | hrep
      · cases hwait.symm.trans ha'
      · cases hnone.symm.trans hconn
      · exact hrep
    rw [List.append_nil]
    exact h.replaced hrep g
  · have hf : s.Fresh := hc.1 ho
    exact { htidy with
      inOrder := (inOrder_append_iff h.toTidy h.inOrder).2 hf
      alike := fun ha _ _ g => by
        rw [List.append_nil]
        exact h.alike ha ho hf g
      replaced := fun hrep g => by
        have hold : s.Replaced := fun t ht htick => by
          obtain ⟨m, hm, hsnap, hlt⟩ := hrep t ht htick
          rcases List.mem_append.1 hm with hm | hm
          · exact ⟨m, hm, hsnap, hlt⟩
          · exact absurd hsnap (not_isSnapshot_of_isTick (h.ticks m hm))
        show (g.drive (s.handed ++ s.client.buffer)).Alike _
        rw [buffer_eq_nil h.toTidy hf hold, List.append_nil]
        exact h.replaced hold g }

/-- A client that is closed for good, unless it closes the connection that it waits for. -/
theorem Inv.shut {s : Session} (h : s.Inv) (hc : s.awaiting = true → s.client.ws = none) :
    s.shut.Inv := by
  have hwait : (s.awaiting && s.client.ws.isNone) = s.awaiting := by
    cases ha : s.awaiting with
    | false => rfl
    | true => simp [hc ha]
  have heq : s.shut = { s with client := s.client.close } := by rw [Session.shut, hwait]
  rw [heq]
  exact h.client rfl rfl rfl

/-- A session keeps its invariant as long as its pauses end with a fresh buffer. -/
theorem Inv.step {s s' : Session} {e : Event} (h : s.Inv) (hc : s.EndsPausesFresh e)
    (hstep : step s e = some s') : s'.Inv := by
  rcases step_cases hstep with ⟨m, rfl, rfl⟩ | ⟨p, rfl, rfl⟩ | ⟨rfl, rfl⟩ | ⟨c, hb, ho, hp, -, rfl⟩
  · exact h.receive m
  · exact h.pause hc
  · exact h.shut hc
  · exact h.client hb ho hp

/-- **The pause is transparent as long as no snapshot overtakes a tick and no tick is given up
for nothing.** If every pause ends with a buffer that no snapshot has passed, or with one that is
given up for a snapshot, then in every state of the session the messages handed over are in
order, and make of any graph what the messages received would have made of it. They are in order
exactly when every pause that hands a buffer over ends before a snapshot has passed it. -/
theorem always_transparent (events : List Event) :
    (Run.EveryStep step EndsPausesFresh start events → Run.Always step Transparent start events) ∧
    (Run.Always step (fun s => InOrder s.handed) start events ↔
      Run.EveryStep step EndsPausesInOrder start events) := by
  constructor
  · intro hevery
    exact Run.always_of_everyStep (fun _ h => Inv.transparent h)
      (fun _ _ _ h hc hstep => Inv.step h hc hstep) inv_start hevery
  · exact Run.always_iff_everyStep (J := Tidy) (fun _ _ _ h hstep => h.step hstep)
      (fun _ _ _ h hord hstep => inOrder_step_iff h hord hstep) tidy_start List.Pairwise.nil

/-- A pause in which a pod expires. -/
theorem always_transparent_pause : Run.Always step Transparent start
    [.connect, .opened, .message (.snapshot Scene.onePod), .setPaused true,
      .message (.tick Scene.podGone), .setPaused false] := by
  refine (always_transparent _).1 ?_
  rintro _ ⟨⟩
  refine ⟨trivial, ?_⟩
  rintro _ ⟨⟩
  refine ⟨trivial, ?_⟩
  rintro _ ⟨⟩
  refine ⟨trivial, ?_⟩
  rintro _ ⟨⟩
  refine ⟨trivial, ?_⟩
  rintro _ ⟨⟩
  refine ⟨trivial, ?_⟩
  rintro _ ⟨⟩
  refine ⟨⟨fun _ t ht m hm _ => ?_, nofun⟩, trivial⟩
  -- the snapshot came in before the tick
  obtain rfl := List.mem_singleton.1 ht
  obtain rfl := List.mem_singleton.1 hm
  exact Nat.zero_lt_one

set_option maxRecDepth 10000 in
/-- **A tick can be handed over after the snapshot that replaces it.** The client is paused
while a pod expires and comes back with the next snapshot; after the pause the pod is gone. -/
theorem not_transparent_of_run :
    ¬ ∀ (events : List Event) (s : Session),
      Run.run step start events = some s → s.Transparent := by
  intro h
  have htrans := h [.connect, .opened, .setPaused true, .message (.tick Scene.podGone),
    .message (.snapshot Scene.onePod), .setPaused false] _ rfl
  obtain ⟨hnodes, -⟩ := htrans.2 rfl rfl (GraphState.new 300)
  have hhanded : "shop/Pod/cart-0" ∉ ((GraphState.new 300).drive
      [⟨1, .snapshot Scene.onePod⟩, ⟨0, .tick Scene.podGone⟩]).nodes := by decide
  have hreceived : "shop/Pod/cart-0" ∈ ((GraphState.new 300).drive
      [⟨0, .tick Scene.podGone⟩, ⟨1, .snapshot Scene.onePod⟩]).nodes := by decide
  exact hhanded (hnodes ▸ hreceived)

/-! A pause that ends while there is no connection. -/

/-- The pod is shown, the client is paused, and the pod expires again and again. -/
def expiring (n : Nat) : List Event :=
  [.connect, .opened, .message (.snapshot Scene.onePod), .setPaused true] ++
    List.replicate n (.message (.tick Scene.podGone))

/-- Each tick finds room in the buffer, until one does not. -/
theorem run_expiring (n : Nat) : ∃ s, Run.run step start (expiring n) = some s ∧
    s.client.ws = some .opened ∧ s.client.paused = true ∧ s.awaiting = false ∧
    s.handed = [⟨0, .snapshot Scene.onePod⟩] ∧ s.client.buffer.length ≤ maxBuffer ∧
    (s.client.overflowed = true ∨ s.client.buffer.length = n) ∧
    (0 < n → ∃ (l : List Received) (seq : Nat),
      s.received = l ++ [⟨seq, .tick Scene.podGone⟩]) := by
  induction n with
  | zero => exact ⟨_, rfl, rfl, rfl, rfl, rfl, Nat.zero_le _, Or.inr rfl, nofun⟩
  | succ n ih =>
    obtain ⟨s, hrun, hws, hp, ha, hhanded, hlen, hfull, -⟩ := ih
    refine ⟨s.receive (.tick Scene.podGone), ?_, ?_⟩
    · rw [expiring, List.replicate_succ', ← List.append_assoc]
      exact Run.run_concat_eq_some.2 ⟨s, hrun, by rw [step, if_pos hws]⟩
    -- a full buffer loses the tick and notes it; another one keeps it
    by_cases hroom : maxBuffer ≤ s.client.buffer.length
    · have heq : s.receive (.tick Scene.podGone) =
          s.lose ⟨s.received.length, .tick Scene.podGone⟩ := by
        simp [receive, lose, WSClient.onmessage, hp, hroom]
      rw [heq]
      exact ⟨hws, hp, ha, hhanded, hlen, Or.inl rfl, fun _ => ⟨_, _, rfl⟩⟩
    · have heq : s.receive (.tick Scene.podGone) =
          s.keep ⟨s.received.length, .tick Scene.podGone⟩ := by
        simp [receive, keep, WSClient.onmessage, hp, hroom]
      rw [heq]
      refine ⟨hws, hp, ha, hhanded, ?_, hfull.imp_right fun h => ?_, fun _ => ⟨_, _, rfl⟩⟩
      · show (s.client.buffer ++ [_]).length ≤ maxBuffer
        rw [List.length_append, List.length_singleton]
        exact not_le.1 hroom
      · show (s.client.buffer ++ [_]).length = n + 1
        rw [List.length_append, List.length_singleton, h]

theorem podGone_of_drive (g : GraphState) (l : List Received) (seq : Nat) :
    "shop/Pod/cart-0" ∉ (g.drive (l ++ [⟨seq, .tick Scene.podGone⟩])).nodes := by
  rw [drive_append]
  show _ ∉ ((g.drive l).removeNode "shop/Pod/cart-0").nodes
  rw [GraphState.removeNode_erase, OrdMap.mem_erase]
  exact fun h => h.1 rfl

/-- **A buffer that is given up without a connection is lost.** No snapshot passes a tick, but
the connection breaks in the pause, and after the pause the pod that has expired is still
there. -/
theorem not_transparent_of_lost : ∃ (events : List Event) (s : Session),
    Run.EveryStep step EndsPausesInOrder start events ∧
    Run.run step start events = some s ∧ ¬ s.Transparent := by
  obtain ⟨s, hrun, hws, hp, ha, hhanded, hlen, hfull, hlast⟩ := run_expiring 601
  -- the buffer holds 600
  have ho : s.client.overflowed = true := by
    rcases hfull with ho | h
    · exact ho
    · rw [h] at hlen
      exact absurd hlen (by decide)
  let d : Session := { s with client := s.client.onclose }
  have hd : step s .disconnected = some d := by rw [step, if_pos (by rw [hws]; nofun)]
  have hend : d.pause false = { d with
      client := { d.client with paused := false, buffer := [], overflowed := false, ws := none }
      awaiting := false } := by
    rw [pause_false_of_overflowed (s := d) hp ho]
    simp [d, WSClient.onclose, WSClient.connected, ha]
  refine ⟨expiring 601 ++ [.disconnected, .setPaused false], d.pause false, ?_, ?_, ?_⟩
  · refine Run.everyStep_append.2 ⟨Run.everyStep_of_forall fun e he s' => ?_, fun t ht => ?_⟩
    · simp only [expiring, List.mem_append, List.mem_cons, List.not_mem_nil, or_false,
        List.mem_replicate] at he
      rcases he with (rfl | rfl | rfl | rfl) | ⟨-, rfl⟩ <;> trivial
    · obtain rfl : s = t := Option.some.inj (hrun.symm.trans ht)
      intro d' hd'
      obtain rfl : d = d' := Option.some.inj (hd.symm.trans hd')
      exact ⟨trivial, fun _ _ => ⟨fun hover => (nomatch ho.symm.trans hover), trivial⟩⟩
  · exact Run.run_append_eq_some.2 ⟨s, hrun, Run.run_cons_eq_some.2 ⟨d, hd, rfl⟩⟩
  · rintro ⟨-, htrans⟩
    rw [hend] at htrans
    obtain ⟨hnodes, -⟩ := htrans rfl rfl (GraphState.new 300)
    obtain ⟨l, seq, hreceived⟩ := hlast (by decide)
    have hshown : "shop/Pod/cart-0" ∈ ((GraphState.new 300).drive s.handed).nodes := by
      rw [hhanded]
      decide
    have hgone : "shop/Pod/cart-0" ∉ ((GraphState.new 300).drive s.received).nodes := by
      rw [hreceived]
      exact podGone_of_drive _ l seq
    exact hgone (hnodes ▸ hshown)

end Session

end Flowscape
