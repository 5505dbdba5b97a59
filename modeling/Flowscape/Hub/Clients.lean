import Flowscape.Lib.Run
import Flowscape.Protocol
import Mathlib.Data.List.Chain

/-!
# Flowscape: the send queue of a client (`internal/hub/hub.go`)

A registered client has a bounded queue. Every tick of the hub offers it one message and never
waits: a tick that does not fit is counted in `behind`, and after `resyncAfter` of them in a
row the client is offered snapshots until one fits.

Messages are numbered: tick `n` is the `n`-th that the hub has built, and snapshot `n` was
taken when `n` ticks had been built. The log of a client has what was queued and, for each
tick at which nothing was, that it was missed.
-/

namespace Flowscape

namespace Hub

/-! ## Source definitions -/

/-- `sendQueue` -/
def sendQueue : Nat := 32

/-- `resyncAfter` -/
def resyncAfter : Nat := 8

/-- An encoded message, with its number. -/
inductive Frame where
  | hello (m : Hello)
  | snapshot (n : Nat) (m : Snapshot)
  | tick (n : Nat) (m : Tick)

/-- `client`; the channel `send` is a queue that can be closed. -/
structure Client where
  send : List Frame
  closed : Bool := false
  behind : Nat := 0
  resync : Bool := false

/-- `Hub.offer` on a channel of the capacity: the client and whether the message was queued.
A send on a closed channel panics. -/
def offer (capacity : Nat) (c : Client) (f : Frame) : Option (Client × Bool) :=
  if c.closed then none
  else if c.send.length < capacity then some ({ c with send := c.send ++ [f] }, true)
  else some (c, false)

/-- The body of the loop over the clients in `Hub.tick`, with the message that was queued. -/
def serve (capacity : Nat) (snapshot msg : Frame) (c : Client) :
    Option (Client × Option Frame) :=
  if c.resync then do
    let (c, ok) ← offer capacity c snapshot
    if ok then some ({ c with resync := false, behind := 0 }, some snapshot) else some (c, none)
  else do
    let (c, ok) ← offer capacity c msg
    if ok then some ({ c with behind := 0 }, some msg)
    else
      let behind := c.behind + 1
      some ({ c with behind := behind, resync := resyncAfter ≤ behind }, none)

/-! ## What a client is served -/

/-- What the hub does to a client at a tick, one case for each path through the loop. -/
inductive Served (capacity : Nat) (snapshot msg : Frame) (c : Client) :
    Client → Option Frame → Prop where
  | resynced (hresync : c.resync = true) (hroom : c.send.length < capacity) :
      Served capacity snapshot msg c
        { c with send := c.send ++ [snapshot], resync := false, behind := 0 } (some snapshot)
  | stuck (hresync : c.resync = true) (hfull : capacity ≤ c.send.length) :
      Served capacity snapshot msg c c none
  | queued (hresync : c.resync = false) (hroom : c.send.length < capacity) :
      Served capacity snapshot msg c { c with send := c.send ++ [msg], behind := 0 } (some msg)
  | missed (hresync : c.resync = false) (hfull : capacity ≤ c.send.length) :
      Served capacity snapshot msg c
        { c with behind := c.behind + 1, resync := resyncAfter ≤ c.behind + 1 } none

/-- A client with an open channel is served. -/
theorem serve_spec (capacity : Nat) (snapshot msg : Frame) {c : Client}
    (hopen : c.closed = false) : ∃ c' queued, serve capacity snapshot msg c = some (c', queued) ∧
      Served capacity snapshot msg c c' queued := by
  by_cases hroom : c.send.length < capacity
  · cases hresync : c.resync with
    | true => exact ⟨_, _, by simp [serve, offer, hopen, hresync, hroom], .resynced hresync hroom⟩
    | false => exact ⟨_, _, by simp [serve, offer, hopen, hresync, hroom], .queued hresync hroom⟩
  · have hfull : capacity ≤ c.send.length := Nat.le_of_not_lt hroom
    cases hresync : c.resync with
    | true => exact ⟨_, _, by simp [serve, offer, hopen, hresync, hroom], .stuck hresync hfull⟩
    | false => exact ⟨_, _, by simp [serve, offer, hopen, hresync, hroom], .missed hresync hfull⟩

/-! ## The feed of a client -/

/-- What became of a tick, or of the messages before the first one. -/
inductive Entry where
  | queued (f : Frame)
  | missed (n : Nat)

/-- A client, the number of ticks built so far, and its log. -/
structure Feed where
  client : Client
  built : Nat
  log : List Entry

/-- A tick of the hub, with the message it builds and the snapshot it would take; or the client
takes a message from its queue. -/
inductive Feed.Event where
  | tick (snapshot : Snapshot) (t : Tick)
  | drain

/-- The entry for tick `n`. -/
def entry (n : Nat) : Option Frame → Entry
  | some f => .queued f
  | none => .missed n

namespace Feed

/-- What a tick of the hub, or the write loop of the connection, does to one client. -/
def step (capacity : Nat) (f : Feed) : Event → Option Feed
  | .tick s t =>
    let n := f.built + 1
    (serve capacity (.snapshot n s) (.tick n t) f.client).map fun (c, queued) =>
      { client := c, built := n, log := f.log ++ [entry n queued] }
  | .drain =>
    match f.client.send with
    | [] => none
    | _ :: rest => some { f with client := { f.client with send := rest } }

/-- A client that has just been registered, with a snapshot as of now. -/
def registered (hello : Hello) (snapshot : Snapshot) (built : Nat) : Feed where
  client := { send := [.hello hello, .snapshot built snapshot] }
  built := built
  log := [.queued (.hello hello), .queued (.snapshot built snapshot)]

end Feed

/-- What may come after an entry of the log. A queued tick comes right after the tick or
snapshot before it; after a missed tick, ticks are missed until a snapshot is queued that was
taken after it. -/
def Entry.Follows : Entry → Entry → Prop
  | .queued (.snapshot k _), .queued (.tick n _) => n = k + 1
  | .queued (.tick k _), .queued (.tick n _) => n = k + 1
  | .queued (.hello _), .queued (.tick _ _) => False
  | .queued _, _ => True
  | .missed k, .queued (.snapshot n _) => k ≤ n
  | .missed _, .queued _ => False
  | .missed k, .missed n => k ≤ n

namespace Feed

/-- The messages queued to the client have no hole. -/
def NoHole (f : Feed) : Prop := f.log.IsChain Entry.Follows

/-- The hub does not offer a tick to a client with a free place that has missed some, but too
few to be resynced. -/
def NoLateTick (capacity : Nat) (f : Feed) : Event → Prop
  | .tick _ _ =>
    ¬ (0 < f.client.behind ∧ f.client.resync = false ∧ f.client.send.length < capacity)
  | .drain => True

end Feed

/-- The entry is a message that brings its receiver up to tick `n`. -/
def Entry.UpTo (n : Nat) : Entry → Prop
  | .queued (.snapshot k _) => k = n
  | .queued (.tick k _) => k = n
  | _ => False

/-- After a message that brings the client up to date, the next tick may come, and only it. -/
theorem Entry.UpTo.follows_tick {n m : Nat} {e : Entry} (h : e.UpTo n) (t : Tick) :
    e.Follows (.queued (.tick m t)) ↔ m = n + 1 := by
  cases e with
  | missed k => cases h
  | queued f =>
    cases f with
    | hello => cases h
    | snapshot k s => rw [show n = k from h.symm]; rfl
    | tick k t => rw [show n = k from h.symm]; rfl

/-- Anything but a tick may follow. -/
theorem Entry.UpTo.follows {n : Nat} {e : Entry} (h : e.UpTo n) {e' : Entry}
    (hne : ∀ m t, e' ≠ .queued (.tick m t)) : e.Follows e' := by
  cases e with
  | missed k => cases h
  | queued f =>
    cases e' with
    | missed k => cases f <;> trivial
    | queued f' =>
      cases f' with
      | tick m t => exact absurd rfl (hne m t)
      | _ => cases f <;> trivial

namespace Feed

/-- The last entry of the log is about the last tick, and `behind` and `resync` tell which
kind it is. -/
structure Current (f : Feed) : Prop where
  isOpen : f.client.closed = false
  last : ∃ log e, f.log = log ++ [e] ∧
    ((e.UpTo f.built ∧ f.client.behind = 0 ∧ f.client.resync = false) ∨
      (e = .missed f.built ∧ (0 < f.client.behind ∨ f.client.resync = true)))

theorem current_registered (hello : Hello) (snapshot : Snapshot) (built : Nat) :
    (registered hello snapshot built).Current where
  isOpen := rfl
  last := ⟨[.queued (.hello hello)], .queued (.snapshot built snapshot), rfl,
    Or.inl ⟨rfl, rfl, rfl⟩⟩

theorem noHole_registered (hello : Hello) (snapshot : Snapshot) (built : Nat) :
    (registered hello snapshot built).NoHole :=
  List.isChain_cons_cons.2 ⟨trivial, List.isChain_singleton _⟩

/-- The entry that a tick adds to the log. -/
theorem step_tick {capacity : Nat} {f f' : Feed} {s : Snapshot} {t : Tick} (h : f.Current)
    (hstep : f.step capacity (.tick s t) = some f') :
    ∃ c queued, Served capacity (.snapshot (f.built + 1) s) (.tick (f.built + 1) t) f.client c
        queued ∧
      f' = { client := c, built := f.built + 1, log := f.log ++ [entry (f.built + 1) queued] } := by
  obtain ⟨c, queued, hserve, hs⟩ := serve_spec capacity (.snapshot (f.built + 1) s)
    (.tick (f.built + 1) t) h.isOpen
  obtain ⟨p, hp, rfl⟩ := Option.map_eq_some_iff.1 hstep
  obtain rfl : (c, queued) = p := Option.some.inj (hserve.symm.trans hp)
  exact ⟨c, queued, hs, rfl⟩

/-- The write loop takes the oldest message. -/
theorem step_drain {capacity : Nat} {f f' : Feed}
    (hstep : f.step capacity .drain = some f') :
    ∃ m rest, f.client.send = m :: rest ∧
      f' = { f with client := { f.client with send := rest } } := by
  unfold step at hstep
  cases hsend : f.client.send with
  | nil =>
    rw [hsend] at hstep
    cases hstep
  | cons m rest =>
    rw [hsend] at hstep
    exact ⟨m, rest, rfl, (Option.some.inj hstep).symm⟩

/-- Every event keeps the numbers of the log at or below the last tick. -/
theorem current_step {capacity : Nat} {f f' : Feed} {e : Event} (h : f.Current)
    (hstep : f.step capacity e = some f') : f'.Current := by
  cases e with
  | drain =>
    obtain ⟨m, rest, -, rfl⟩ := step_drain hstep
    exact ⟨h.isOpen, h.last⟩
  | tick s t =>
    obtain ⟨c, queued, hserved, rfl⟩ := step_tick h hstep
    cases hserved with
    | resynced => exact ⟨h.isOpen, _, _, rfl, Or.inl ⟨rfl, rfl, rfl⟩⟩
    | stuck hresync => exact ⟨h.isOpen, _, _, rfl, Or.inr ⟨rfl, Or.inr hresync⟩⟩
    | queued hresync => exact ⟨h.isOpen, _, _, rfl, Or.inl ⟨rfl, rfl, hresync⟩⟩
    | missed => exact ⟨h.isOpen, _, _, rfl, Or.inr ⟨rfl, Or.inl (Nat.succ_pos _)⟩⟩

theorem isChain_concat {log : List Entry} {e e' : Entry} :
    (log ++ [e] ++ [e']).IsChain Entry.Follows ↔
      (log ++ [e]).IsChain Entry.Follows ∧ e.Follows e' := by
  rw [List.isChain_append]
  simp

/-- **A step makes a hole** exactly when it is a tick that is queued over one that was missed. -/
theorem noHole_step_iff {capacity : Nat} {f f' : Feed} {e : Event} (h : f.Current)
    (hp : f.NoHole) (hstep : f.step capacity e = some f') :
    f'.NoHole ↔ f.NoLateTick capacity e := by
  cases e with
  | drain =>
    obtain ⟨m, rest, -, rfl⟩ := step_drain hstep
    exact iff_of_true hp trivial
  | tick s t =>
    obtain ⟨log, last, hlog, hlast⟩ := h.last
    obtain ⟨c, queued, hserved, rfl⟩ := step_tick h hstep
    rw [NoHole, hlog] at hp
    rw [NoHole, hlog, isChain_concat, and_iff_right hp]
    rcases hlast with ⟨hupTo, hbehind, hresync⟩ | ⟨rfl, hlate⟩
    · -- the client is up to date, so whatever comes next leaves no hole
      refine iff_of_true ?_ fun hlate => absurd hlate.1 (by omega)
      cases hserved with
      | queued => exact (hupTo.follows_tick t).2 rfl
      | resynced => exact hupTo.follows (by simp [entry])
      | stuck => exact hupTo.follows (by simp [entry])
      | missed => exact hupTo.follows (by simp [entry])
    · cases hserved with
      | resynced hresync =>
        apply iff_of_true (Nat.le_succ _)
        intro hl
        rw [hresync] at hl
        exact nomatch hl.2.1
      | stuck _ hfull =>
        exact iff_of_true (Nat.le_succ _) fun hl => absurd hl.2.2 (by omega)
      | missed _ hfull =>
        exact iff_of_true (Nat.le_succ _) fun hl => absurd hl.2.2 (by omega)
      | queued hresync hroom =>
        -- the tick follows one that was missed
        refine iff_of_false id fun hl => hl ⟨hlate.resolve_right ?_, hresync, hroom⟩
        rw [hresync]
        exact nofun

/-- **A slow browser gets no hole, exactly when it gets no late tick.** For any capacity of the
queue and any order of ticks and drains, the log of a registered client has no hole in any
state, if and only if no tick is offered to a free place of a client that has missed ticks and
is not up for a resync yet. -/
theorem always_noHole_iff (capacity : Nat) (hello : Hello) (snapshot : Snapshot) (built : Nat)
    (events : List Event) :
    Run.Always (step capacity) NoHole (registered hello snapshot built) events ↔
      Run.EveryStep (step capacity) (NoLateTick capacity) (registered hello snapshot built) events :=
  Run.always_iff_everyStep (J := Current) (fun _ _ _ h hstep => current_step h hstep)
    (fun _ _ _ h hp hstep => noHole_step_iff h hp hstep)
    (current_registered hello snapshot built) (noHole_registered hello snapshot built)

/-- A greeting. -/
def hello : Hello := ⟨"1", "relay", 300, 60, 100, 0⟩

/-- A snapshot of an empty graph. -/
def emptySnapshot : Snapshot := ⟨0, [], []⟩

/-- A tick in which nothing happened. -/
def emptyTick : Tick := ⟨100, [], [], ⟨[], []⟩, []⟩

/-- **A client that misses one tick and catches up is sent the next one.** With room for two
messages, the first tick finds the greeting and the snapshot still in the queue. -/
theorem not_noHole_of_run :
    ¬ ∀ (capacity built : Nat) (hello : Hello) (snapshot : Snapshot) (events : List Event)
        (f : Feed), Run.run (step capacity) (registered hello snapshot built) events = some f →
      f.NoHole := by
  intro h
  let log : List Entry := [.queued (.hello hello), .queued (.snapshot 0 emptySnapshot),
    .missed 1, .queued (.tick 2 emptyTick)]
  have hhole : log.IsChain Entry.Follows := h 2 0 hello emptySnapshot
    [.tick emptySnapshot emptyTick, .drain, .tick emptySnapshot emptyTick]
    ⟨{ send := [.snapshot 0 emptySnapshot, .tick 2 emptyTick] }, 2, log⟩ rfl
  exact (List.isChain_cons_cons.1 hhole.tail.tail).1

end Feed

end Hub

end Flowscape
