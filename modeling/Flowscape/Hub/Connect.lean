import Flowscape.Graph.State
import Flowscape.Hub.Clients
import Mathlib.Tactic.Tauto

/-!
# Flowscape: clients come and go (`internal/hub/hub.go`)

The hub between its sources and its clients. A connecting client takes two steps: it takes a
snapshot of the graph and queues it, and it is registered. In between it is nobody to the hub,
and a tick that is made there is missed, which the log of the client notes.

The sparks and the status line of a tick are left out, so are the metrics.
-/

namespace Flowscape

namespace Hub

/-! ## Source definitions -/

/-- How far the handler of a connection has come in `ServeHTTP`. -/
inductive Phase where
  /-- No such connection yet. -/
  | absent
  /-- The greeting and the snapshot are queued. -/
  | connecting
  /-- The client was registered, and the handler sends what is queued. -/
  | serving
  /-- The handler has returned. -/
  | done
deriving DecidableEq

end Hub

/-- `Hub`, with the client objects under the numbers of their connections. -/
structure Hub where
  g : Graph
  objects : Nat → Hub.Client
  phase : Nat → Hub.Phase
  /-- The registered clients. -/
  clients : OrdSet Nat
  /-- `Run` has not returned. -/
  running : Bool
  /-- The number of ticks built so far. -/
  built : Nat
  logs : Nat → List Hub.Entry

namespace Hub

/-- A hub over a new graph, without clients. -/
def new (retention : Time) : Hub where
  g := Graph.new retention
  objects := fun _ => { send := [] }
  phase := fun _ => .absent
  clients := ∅
  running := true
  built := 0
  logs := fun _ => []

/-- The loop over the clients in `Hub.tick`. -/
def serveAll (snapshot msg : Frame) : List Nat → Hub → Option Hub
  | [], h => some h
  | id :: rest, h =>
    (serve sendQueue snapshot msg (h.objects id)).bind fun (c, queued) =>
      serveAll snapshot msg rest { h with
        objects := Function.update h.objects id c
        logs := Function.update h.logs id (h.logs id ++ [entry h.built queued]) }

/-- A tick that is built now is missed by everybody who is about to be registered. -/
def miss (h : Hub) : Hub :=
  { h with
    built := h.built + 1
    logs := fun id =>
      if h.phase id = .connecting then h.logs id ++ [.missed (h.built + 1)] else h.logs id }

/-- `Hub.tick`; the clients are visited in the order `order`. -/
def tick (ρ ρ' : RangeOrder) (order : Nat → Nat) (now : Time) (h : Hub) : Option Hub :=
  (h.g.tick ρ now).bind fun (g, t) =>
    let h := { h with g := g }.miss
    serveAll (.snapshot h.built (g.snapshot ρ' now)) (.tick h.built t)
      ((h.clients.range order).map Prod.fst) h

/-- The start of `ServeHTTP`: the client gets a snapshot. -/
def accept (id : Nat) (hello : Hello) (ρ : RangeOrder) (now : Time) (h : Hub) : Hub :=
  let snapshot := Frame.snapshot h.built (h.g.snapshot ρ now)
  { h with
    objects := Function.update h.objects id { send := [.hello hello, snapshot] }
    phase := Function.update h.phase id .connecting
    logs := Function.update h.logs id [.queued (.hello hello), .queued snapshot] }

/-- The client is registered. -/
def register (id : Nat) (h : Hub) : Hub :=
  { h with phase := Function.update h.phase id .serving, clients := h.clients.add id }

/-- The handler takes a message from the queue. -/
def drain (id : Nat) (h : Hub) : Hub :=
  let c := h.objects id
  { h with objects := Function.update h.objects id { c with send := c.send.tail } }

/-- `close(c.send)`; closing a closed channel panics. -/
def closeSend (id : Nat) (h : Hub) : Option Hub :=
  if (h.objects id).closed then none
  else some { h with objects := Function.update h.objects id { h.objects id with closed := true } }

/-- The end of `ServeHTTP`. -/
def leave (id : Nat) (h : Hub) : Option Hub :=
  let h := { h with phase := Function.update h.phase id .done }
  if id ∈ h.clients then { h with clients := h.clients.erase id }.closeSend id else some h

/-- The loop over the clients at the end of `Run`. -/
def closeAll : List Nat → Hub → Option Hub
  | [], h => some h
  | id :: rest, h =>
    (h.closeSend id).bind fun h => closeAll rest { h with clients := h.clients.erase id }

/-- The end of `Run`. -/
def shutdown (order : Nat → Nat) (h : Hub) : Option Hub :=
  (closeAll ((h.clients.range order).map Prod.fst) h).map fun h => { h with running := false }

/-- The steps of the hub and of the handlers of its connections, each one atomic. -/
inductive Step where
  | flow (ρ : RangeOrder) (f : Flow)
  | nodes (ρ : RangeOrder) (addrs : OrdMap String String)
  | tick (ρ ρ' : RangeOrder) (order : Nat → Nat) (now : Time)
  | accept (id : Nat) (hello : Hello) (ρ : RangeOrder) (now : Time)
  | register (id : Nat)
  | drain (id : Nat)
  | leave (id : Nat)
  | shutdown (order : Nat → Nat)

/-- What a step does, if it can be taken. -/
def next (h : Hub) : Step → Option Hub
  | .flow ρ f => (h.g.ingest ρ f).map fun p => { h with g := p.1 }
  | .nodes ρ addrs => (h.g.learnMachines ρ addrs).map fun g => { h with g := g }
  | .tick ρ ρ' order now => if h.running then h.tick ρ ρ' order now else none
  | .accept id hello ρ now =>
    if h.phase id = .absent then some (h.accept id hello ρ now) else none
  | .register id => if h.phase id = .connecting then some (h.register id) else none
  | .drain id =>
    if h.phase id = .serving ∧ (h.objects id).send ≠ [] then some (h.drain id) else none
  | .leave id => if h.phase id = .serving then h.leave id else none
  | .shutdown order => if h.running then h.shutdown order else none

/-! ## What the steps do -/

/-- A step that is taken, with what made it possible. -/
inductive Taken (h : Hub) : Step → Hub → Prop where
  | flow {ρ : RangeOrder} {f : Flow} {p : Graph × Result}
      (hingest : h.g.ingest ρ f = some p) : Taken h (.flow ρ f) { h with g := p.1 }
  | nodes {ρ : RangeOrder} {addrs : OrdMap String String} {g : Graph}
      (hlearn : h.g.learnMachines ρ addrs = some g) : Taken h (.nodes ρ addrs) { h with g := g }
  | tick {ρ ρ' : RangeOrder} {order : Nat → Nat} {now : Time} {h' : Hub}
      (hres : h.tick ρ ρ' order now = some h') : Taken h (.tick ρ ρ' order now) h'
  | accept {id : Nat} {hello : Hello} {ρ : RangeOrder} {now : Time}
      (habsent : h.phase id = .absent) :
      Taken h (.accept id hello ρ now) (h.accept id hello ρ now)
  | register {id : Nat} (hphase : h.phase id = .connecting) : Taken h (.register id) (h.register id)
  | drain {id : Nat} : Taken h (.drain id) (h.drain id)
  | leave {id : Nat} {h' : Hub} (hres : h.leave id = some h') : Taken h (.leave id) h'
  | shutdown {order : Nat → Nat} {h' : Hub} (hres : h.shutdown order = some h') :
      Taken h (.shutdown order) h'

/-- A step that was taken is one of these. -/
theorem taken_of_next {h h' : Hub} {s : Step} (hnext : h.next s = some h') : Taken h s h' := by
  cases s with
  | flow ρ f =>
    obtain ⟨p, hp, rfl⟩ := Option.map_eq_some_iff.1 hnext
    exact .flow hp
  | nodes ρ addrs =>
    obtain ⟨g, hg, rfl⟩ := Option.map_eq_some_iff.1 hnext
    exact .nodes hg
  -- a tick needs a hub that is not shut down
  | tick ρ ρ' order now => exact .tick (Option.ite_none_right_eq_some.1 hnext).2
  | accept id hello ρ now =>
    obtain ⟨habsent, heq⟩ := Option.ite_none_right_eq_some.1 hnext
    obtain rfl := Option.some.inj heq
    exact .accept habsent
  | register id =>
    obtain ⟨hphase, heq⟩ := Option.ite_none_right_eq_some.1 hnext
    obtain rfl := Option.some.inj heq
    exact .register hphase
  | drain id =>
    obtain ⟨-, heq⟩ := Option.ite_none_right_eq_some.1 hnext
    obtain rfl := Option.some.inj heq
    exact .drain
  | leave id => exact .leave (Option.ite_none_right_eq_some.1 hnext).2
  | shutdown order => exact .shutdown (Option.ite_none_right_eq_some.1 hnext).2

/-- The loops over the clients visit the registered ones. -/
theorem mem_visited {clients : OrdSet Nat} {order : Nat → Nat} {id : Nat} :
    id ∈ (clients.range order).map Prod.fst ↔ id ∈ clients := by
  simp [OrdMap.mem_range, OrdMap.mem_iff]

/-- What the fan-out does: every client of the list is served once. -/
structure FannedOut (snapshot msg : Frame) (l : List Nat) (h h' : Hub) : Prop where
  phase : h'.phase = h.phase
  clients : h'.clients = h.clients
  others : ∀ id, id ∉ l → h'.objects id = h.objects id ∧ h'.logs id = h.logs id
  served : ∀ id, id ∈ l → ∃ queued,
    serve sendQueue snapshot msg (h.objects id) = some (h'.objects id, queued) ∧
      h'.logs id = h.logs id ++ [entry h.built queued]

/-- The loop serves every client of the list once. -/
theorem fannedOut_of_serveAll {snapshot msg : Frame} {l : List Nat} (hnd : l.Nodup) {h h' : Hub}
    (hres : serveAll snapshot msg l h = some h') : FannedOut snapshot msg l h h' := by
  induction l generalizing h with
  | nil =>
    obtain rfl : h = h' := Option.some.inj hres
    exact ⟨rfl, rfl, fun _ _ => ⟨rfl, rfl⟩, fun _ hid => nomatch hid⟩
  | cons id rest ih =>
    obtain ⟨hnot, hrest⟩ := List.nodup_cons.1 hnd
    obtain ⟨⟨c, queued⟩, hserve, hres⟩ := Option.bind_eq_some_iff.1 hres
    have hfan := ih hrest hres
    refine ⟨hfan.phase, hfan.clients, fun id' hid' => ?_, fun id' hid' => ?_⟩
    · obtain ⟨hne, hout⟩ := not_or.1 (mt List.mem_cons.2 hid')
      obtain ⟨hobj, hlog⟩ := hfan.others id' hout
      exact ⟨hobj.trans (Function.update_of_ne hne _ _), hlog.trans (Function.update_of_ne hne _ _)⟩
    · -- the client at the head is not in the rest, so nothing touches it again
      by_cases heq : id' = id
      · subst heq
        obtain ⟨hobj, hlog⟩ := hfan.others id' hnot
        have hc : h'.objects id' = c := hobj.trans (Function.update_self _ _ _)
        exact ⟨queued, by rw [hc]; exact hserve, hlog.trans (Function.update_self _ _ _)⟩
      · obtain ⟨queued', hserve', hlog'⟩ :=
          hfan.served id' ((List.mem_cons.1 hid').resolve_left heq)
        have hobj : Function.update h.objects id c id' = h.objects id' :=
          Function.update_of_ne heq _ _
        have hlog : Function.update h.logs id (h.logs id ++ [entry h.built queued]) id'
            = h.logs id' := Function.update_of_ne heq _ _
        exact ⟨queued', hobj ▸ hserve', hlog'.trans (congrArg (· ++ _) hlog)⟩

/-- What closing the channels of a list of clients leaves alone. -/
structure ClosedAll (l : List Nat) (h h' : Hub) : Prop where
  phase : h'.phase = h.phase
  clients : ∀ id, id ∈ h'.clients ↔ id ∈ h.clients ∧ id ∉ l
  logs : h'.logs = h.logs
  others : ∀ id, id ∉ l → h'.objects id = h.objects id
  queues : ∀ id, (h'.objects id).send = (h.objects id).send ∧
    (h'.objects id).resync = (h.objects id).resync

/-- Closing a channel leaves the queues alone. -/
theorem closeSend_queues (id id' : Nat) (h : Hub) :
    let objects := Function.update h.objects id { h.objects id with closed := true }
    (objects id').send = (h.objects id').send ∧ (objects id').resync = (h.objects id').resync := by
  by_cases heq : id' = id
  · subst heq
    simp
  · simp [heq]

/-- The loop closes every channel of the list, and forgets the clients. -/
theorem closedAll_of_closeAll {l : List Nat} {h h' : Hub} (hres : closeAll l h = some h') :
    ClosedAll l h h' := by
  induction l generalizing h with
  | nil =>
    obtain rfl : h = h' := Option.some.inj hres
    exact ⟨rfl, fun id => by simp, rfl, fun _ _ => rfl, fun _ => ⟨rfl, rfl⟩⟩
  | cons id rest ih =>
    obtain ⟨h₁, hclose, hres⟩ := Option.bind_eq_some_iff.1 hres
    obtain ⟨-, heq⟩ := Option.ite_none_left_eq_some.1 hclose
    obtain rfl := Option.some.inj heq
    -- the rest of the list leaves the queues, so they are as the first close left them
    have hc := ih hres
    refine ⟨hc.phase, fun id' => ?_, hc.logs, fun id' hid' => ?_, fun id' => ?_⟩
    · rw [hc.clients, OrdMap.mem_erase, List.mem_cons, not_or]
      tauto
    · obtain ⟨hne, hout⟩ := not_or.1 (mt List.mem_cons.2 hid')
      rw [hc.others id' hout]
      exact Function.update_of_ne hne _ _
    · obtain ⟨hsend, hresync⟩ := hc.queues id'
      rw [hsend, hresync]
      exact closeSend_queues id id' h

/-! ## The first tick of a client -/

/-- The number of a queued tick. -/
def Entry.tickNumber : Entry → Option Nat
  | .queued (.tick n _) => some n
  | _ => none

/-- The number of a queued snapshot. -/
def Entry.snapshotNumber : Entry → Option Nat
  | .queued (.snapshot n _) => some n
  | _ => none

/-- The number of the first tick in a log. -/
def firstTick (log : List Entry) : Option Nat := log.findSome? Entry.tickNumber

/-- The snapshot that the connection began with. -/
def firstSnapshot (log : List Entry) : Option Nat := log.findSome? Entry.snapshotNumber

theorem firstTick_concat (log : List Entry) (e : Entry) :
    firstTick (log ++ [e]) = (firstTick log).or e.tickNumber := by
  rw [firstTick, List.findSome?_append, List.findSome?_singleton]
  rfl

theorem firstSnapshot_concat (log : List Entry) (e : Entry) :
    firstSnapshot (log ++ [e]) = (firstSnapshot log).or e.snapshotNumber := by
  rw [firstSnapshot, List.findSome?_append, List.findSome?_singleton]
  rfl

/-- The first tick in the log was the next one to be built after the snapshot. -/
def Joined (log : List Entry) : Prop :=
  ∀ n, firstTick log = some n → ∃ k, firstSnapshot log = some k ∧ n = k + 1

/-- No client loses a tick between its snapshot and the first tick it is sent. -/
def LosesNoTick (h : Hub) : Prop := ∀ id, Joined (h.logs id)

/-- At a tick, a client that was not sent one yet took its snapshot after the last one. -/
def JoinsInTime (h : Hub) : Step → Prop
  | .tick _ _ _ _ => ∀ id ∈ h.clients, firstTick (h.logs id) = none →
      firstSnapshot (h.logs id) = some h.built
  | _ => True

/-- What holds of the clients at any time. -/
structure Inv (h : Hub) : Prop where
  serving : ∀ id ∈ h.clients, h.phase id = .serving
  /-- The channel of a client is open while it is registered, and before. -/
  isOpen : ∀ id, id ∈ h.clients ∨ h.phase id = .connecting → (h.objects id).closed = false
  /-- A client that was not sent a tick yet has room for one. -/
  waiting : ∀ id, firstTick (h.logs id) = none →
    (h.objects id).send.length ≤ 2 ∧ (h.objects id).resync = false

theorem inv_new (retention : Time) : (new retention).Inv where
  serving _ hid := nomatch hid
  isOpen _ _ := rfl
  waiting _ _ := ⟨Nat.zero_le _, rfl⟩

/-- A missed tick says nothing about the snapshot and the first tick. -/
theorem miss_logs (h : Hub) (id : Nat) : firstTick (h.miss.logs id) = firstTick (h.logs id) ∧
    firstSnapshot (h.miss.logs id) = firstSnapshot (h.logs id) := by
  unfold miss
  dsimp only
  split
  · rw [firstTick_concat, firstSnapshot_concat]
    exact ⟨Option.or_none, Option.or_none⟩
  · exact ⟨rfl, rfl⟩

/-- What a tick does to the client of one connection. -/
theorem tick_spec {ρ ρ' : RangeOrder} {order : Nat → Nat} {now : Time} {h h' : Hub}
    (hinv : h.Inv) (hres : h.tick ρ ρ' order now = some h') :
    h'.phase = h.phase ∧ h'.clients = h.clients ∧
    (∀ id, id ∉ h.clients → h'.objects id = h.objects id ∧ h'.logs id = h.miss.logs id) ∧
    (∀ id ∈ h.clients, ∃ s t queued,
      Served sendQueue (.snapshot (h.built + 1) s) (.tick (h.built + 1) t) (h.objects id)
        (h'.objects id) queued ∧ h'.logs id = h.miss.logs id ++ [entry (h.built + 1) queued]) := by
  obtain ⟨⟨g, t⟩, -, hserve⟩ := Option.bind_eq_some_iff.1 hres
  have hfan := fannedOut_of_serveAll (OrdMap.nodup_range h.clients order) hserve
  refine ⟨hfan.phase, hfan.clients, fun id hid => hfan.others id (mt mem_visited.1 hid),
    fun id hid => ?_⟩
  obtain ⟨queued, hserved, hlog⟩ := hfan.served id (mem_visited.2 hid)
  -- the channel of a client is open, so serving it cannot fail
  obtain ⟨c', queued', hserve', hcase⟩ := serve_spec sendQueue
    (.snapshot (h.built + 1) (g.snapshot ρ' now)) (.tick (h.built + 1) t) (hinv.isOpen id (Or.inl hid))
  obtain ⟨rfl, rfl⟩ := Prod.mk.inj (Option.some.inj (hserve'.symm.trans hserved))
  exact ⟨_, t, queued', hcase, hlog⟩

/-- A client that was not sent a tick yet is sent the next one. -/
theorem Served.first {n : Nat} {s : Snapshot} {t : Tick} {c c' : Client} {queued : Option Frame}
    (h : Served sendQueue (.snapshot n s) (.tick n t) c c' queued)
    (hwait : c.send.length ≤ 2 ∧ c.resync = false) : queued = some (.tick n t) := by
  obtain ⟨hlen, hresync⟩ := hwait
  cases h with
  | queued => rfl
  | resynced htrue => exact absurd (hresync.symm.trans htrue) nofun
  | stuck htrue => exact absurd (hresync.symm.trans htrue) nofun
  | missed _ hfull =>
    rw [sendQueue] at hfull
    omega

theorem Served.closed {snapshot msg : Frame} {capacity : Nat} {c c' : Client}
    {queued : Option Frame} (h : Served capacity snapshot msg c c' queued) :
    c'.closed = c.closed := by
  cases h <;> rfl

/-- A tick keeps it: a client that gets its first tick has room for it. -/
theorem Inv.tick {ρ ρ' : RangeOrder} {order : Nat → Nat} {now : Time} {h h' : Hub}
    (hinv : h.Inv) (hres : h.tick ρ ρ' order now = some h') : h'.Inv := by
  obtain ⟨hphase, hclients, hothers, hserved⟩ := tick_spec hinv hres
  constructor
  · rw [hclients, hphase]
    exact hinv.serving
  · intro id hid
    rw [hclients, hphase] at hid
    have hopen := hinv.isOpen id hid
    by_cases hreg : id ∈ h.clients
    · obtain ⟨s, t, queued, hs, -⟩ := hserved id hreg
      rw [hs.closed, hopen]
    · rw [(hothers id hreg).1, hopen]
  · intro id hnone
    by_cases hid : id ∈ h.clients
    · -- whoever waited for a first tick has had it now
      obtain ⟨s, t, queued, hs, hlog⟩ := hserved id hid
      rw [hlog, firstTick_concat, (miss_logs h id).1, Option.or_eq_none_iff] at hnone
      rw [hs.first (hinv.waiting id hnone.1)] at hnone
      exact nomatch hnone.2
    · obtain ⟨hobj, hlog⟩ := hothers id hid
      rw [hlog, (miss_logs h id).1] at hnone
      rw [hobj]
      exact hinv.waiting id hnone

/-- A tick keeps the log of a registered client right exactly when it is not its first one, or
the next one after the snapshot. -/
theorem joined_tick_iff {ρ ρ' : RangeOrder} {order : Nat → Nat} {now : Time} {h h' : Hub}
    (hinv : h.Inv) (hres : h.tick ρ ρ' order now = some h') {id : Nat} (hid : id ∈ h.clients)
    (hj : Joined (h.logs id)) : Joined (h'.logs id) ↔
      (firstTick (h.logs id) = none → firstSnapshot (h.logs id) = some h.built) := by
  obtain ⟨s, t, queued, hs, hlog⟩ := (tick_spec hinv hres).2.2.2 id hid
  obtain ⟨htick, hsnap⟩ := miss_logs h id
  rw [Joined, hlog, firstTick_concat, firstSnapshot_concat, htick, hsnap]
  cases hfirst : firstTick (h.logs id) with
  | some n =>
    obtain ⟨k, hk, rfl⟩ := hj n hfirst
    rw [hk]
    simp
  -- the first tick that a client gets: the snapshot before it must be of the last tick
  | none =>
    rw [hs.first (hinv.waiting id hfirst)]
    simp [entry, Entry.tickNumber, Entry.snapshotNumber, eq_comm]

/-- A client that comes has two messages in its queue. -/
theorem Inv.accept {h : Hub} (hinv : h.Inv) {id : Nat} (habsent : h.phase id = .absent)
    (hello : Hello) (ρ : RangeOrder) (now : Time) : (h.accept id hello ρ now).Inv := by
  have hout : id ∉ h.clients := fun hid => absurd ((hinv.serving id hid).symm.trans habsent) nofun
  constructor
  · intro id' hid'
    have hne : id' ≠ id := ne_of_mem_of_not_mem hid' hout
    simpa [Hub.accept, hne] using hinv.serving id' hid'
  · intro id' hid'
    by_cases heq : id' = id
    · subst heq
      simp [Hub.accept]
    · simp only [Hub.accept, Function.update_of_ne heq] at hid' ⊢
      exact hinv.isOpen id' hid'
  · -- hello and snapshot are the two messages of a client that was sent no tick yet
    intro id' hnone
    by_cases heq : id' = id
    · subst heq
      simp [Hub.accept]
    · simp only [Hub.accept, Function.update_of_ne heq] at hnone ⊢
      exact hinv.waiting id' hnone

/-- Registering changes only who the hub knows. -/
theorem Inv.register {h : Hub} (hinv : h.Inv) {id : Nat} (hphase : h.phase id = .connecting) :
    (h.register id).Inv := by
  constructor
  · intro id' hid'
    -- only the client that registers changes its phase
    by_cases heq : id' = id
    · subst heq
      simp [Hub.register]
    · have hold : id' ∈ h.clients := (OrdSet.mem_add.1 hid').resolve_left heq
      simpa [Hub.register, heq] using hinv.serving id' hold
  · intro id' hid'
    by_cases heq : id' = id
    · exact heq ▸ hinv.isOpen id (Or.inr hphase)
    · simp only [Hub.register, OrdSet.mem_add, heq, false_or, Function.update_of_ne heq] at hid'
      exact hinv.isOpen id' hid'
  · exact hinv.waiting

/-- The write loop makes room. -/
theorem Inv.drain {h : Hub} (hinv : h.Inv) (id : Nat) : (h.drain id).Inv := by
  -- it touches the queue of one client, and shortens it
  have hobj : ∀ id', ((h.drain id).objects id').closed = (h.objects id').closed ∧
      ((h.drain id).objects id').resync = (h.objects id').resync ∧
      ((h.drain id).objects id').send.length ≤ (h.objects id').send.length := by
    intro id'
    by_cases heq : id' = id
    · subst heq
      simp [Hub.drain]
    · simp [Hub.drain, heq]
  constructor
  · exact hinv.serving
  · intro id' hid'
    rw [(hobj id').1]
    exact hinv.isOpen id' hid'
  · intro id' hnone
    obtain ⟨-, hresync, hlen⟩ := hobj id'
    obtain ⟨hlen', hresync'⟩ := hinv.waiting id' hnone
    exact ⟨hlen.trans hlen', hresync.trans hresync'⟩

/-- **What `leave` does**: the client is gone, and its log and its queue are left. -/
theorem leave_spec {h h' : Hub} {id : Nat} (hres : h.leave id = some h') :
    h'.phase = Function.update h.phase id .done ∧
      (∀ id', id' ∈ h'.clients ↔ id' ∈ h.clients ∧ id' ≠ id) ∧ h'.logs = h.logs ∧
      (∀ id', id' ≠ id → h'.objects id' = h.objects id') ∧
      ∀ id', (h'.objects id').send = (h.objects id').send ∧
        (h'.objects id').resync = (h.objects id').resync := by
  unfold Hub.leave at hres
  dsimp only at hres
  split at hres
  · obtain ⟨-, heq⟩ := Option.ite_none_left_eq_some.1 hres
    obtain rfl := Option.some.inj heq
    refine ⟨rfl, fun id' => ?_, rfl, fun id' hne => Function.update_of_ne hne _ _,
      fun id' => closeSend_queues id id' h⟩
    rw [OrdMap.mem_erase, and_comm]
  · next hout =>
    -- the hub closed the channel already when it shut down, and took the client out
    obtain rfl := Option.some.inj hres
    refine ⟨rfl, fun id' => ?_, rfl, fun _ _ => rfl, fun _ => ⟨rfl, rfl⟩⟩
    exact (and_iff_left_of_imp fun hid' => ne_of_mem_of_not_mem hid' hout).symm

/-- A client that leaves is not served any more. -/
theorem Inv.leave {h h' : Hub} (hinv : h.Inv) {id : Nat} (hres : h.leave id = some h') :
    h'.Inv := by
  obtain ⟨hphase, hclients, hlogs, hothers, hqueues⟩ := leave_spec hres
  constructor
  · intro id' hid'
    obtain ⟨hold, hne⟩ := (hclients id').1 hid'
    rw [hphase, Function.update_of_ne hne]
    exact hinv.serving id' hold
  · intro id' hid'
    have hne : id' ≠ id := by
      rintro rfl
      -- its channel may be closed now, but it is neither registered nor on its way
      rcases hid' with hid' | hid'
      · exact ((hclients id').1 hid').2 rfl
      · rw [hphase, Function.update_self] at hid'
        cases hid'
    rw [hphase, Function.update_of_ne hne, hclients] at hid'
    rw [hothers id' hne]
    exact hinv.isOpen id' (hid'.imp_left And.left)
  · intro id' hnone
    rw [hlogs] at hnone
    rw [(hqueues id').1, (hqueues id').2]
    exact hinv.waiting id' hnone

/-- After a shutdown there is no client whose channel would have to be open. -/
theorem Inv.shutdown {h h' : Hub} (hinv : h.Inv) {order : Nat → Nat}
    (hres : h.shutdown order = some h') : h'.Inv := by
  obtain ⟨h₁, hclose, rfl⟩ := Option.map_eq_some_iff.1 hres
  have hc := closedAll_of_closeAll hclose
  constructor
  · intro id hid
    show h₁.phase id = _
    rw [hc.phase]
    exact hinv.serving id ((hc.clients id).1 hid).1
  · intro id hid
    have hphase : h₁.phase id = h.phase id := congrFun hc.phase id
    have hout : id ∉ (h.clients.range order).map Prod.fst := by
      rcases hid with hid | hid
      · exact ((hc.clients id).1 hid).2
      · -- a connecting client is not in the loop over the registered ones
        intro hmem
        have hserving := hinv.serving id (mem_visited.1 hmem)
        exact absurd (hserving.symm.trans (hphase.symm.trans hid)) nofun
    show (h₁.objects id).closed = false
    rw [hc.others id hout]
    exact hinv.isOpen id (hid.imp (fun hid => ((hc.clients id).1 hid).1) hphase.symm.trans)
  · intro id hnone
    rw [show h₁.logs = _ from hc.logs] at hnone
    show (h₁.objects id).send.length ≤ 2 ∧ (h₁.objects id).resync = false
    rw [(hc.queues id).1, (hc.queues id).2]
    exact hinv.waiting id hnone

/-- **Every step keeps the invariant.** -/
theorem Inv.next {h h' : Hub} {s : Step} (hinv : h.Inv) (hnext : h.next s = some h') : h'.Inv := by
  cases taken_of_next hnext with
  | flow => exact ⟨hinv.serving, hinv.isOpen, hinv.waiting⟩
  | nodes => exact ⟨hinv.serving, hinv.isOpen, hinv.waiting⟩
  | tick hres => exact hinv.tick hres
  | accept habsent => exact hinv.accept habsent _ _ _
  | register hphase => exact hinv.register hphase
  | drain => exact hinv.drain _
  | leave hres => exact hinv.leave hres
  | shutdown hres => exact hinv.shutdown hres

/-! ## Connecting -/

/-- Only ticks and new connections write to the logs. -/
theorem logs_next {h h' : Hub} {s : Step} (hnext : h.next s = some h')
    (htick : ∀ ρ ρ' order now, s ≠ .tick ρ ρ' order now)
    (haccept : ∀ id hello ρ now, s ≠ .accept id hello ρ now) : h'.logs = h.logs := by
  cases taken_of_next hnext with
  | flow => rfl
  | nodes => rfl
  | tick => exact absurd rfl (htick _ _ _ _)
  | accept => exact absurd rfl (haccept _ _ _ _)
  | register => rfl
  | drain => rfl
  | leave hres => exact (leave_spec hres).2.2.1
  | shutdown hres =>
    obtain ⟨h₁, hclose, rfl⟩ := Option.map_eq_some_iff.1 hres
    exact (closedAll_of_closeAll hclose).logs

/-- **A step loses a tick** exactly when a client registers after a tick that its snapshot does not
have. -/
theorem losesNoTick_next_iff {h h' : Hub} {s : Step} (hinv : h.Inv) (hp : h.LosesNoTick)
    (hnext : h.next s = some h') : h'.LosesNoTick ↔ h.JoinsInTime s := by
  have hquiet : h'.logs = h.logs → h'.LosesNoTick := fun hlogs id => by
    rw [hlogs]
    exact hp id
  cases s with
  | tick ρ ρ' order now =>
    obtain ⟨-, hres⟩ := Option.ite_none_right_eq_some.1 hnext
    constructor
    · intro hp' id hid
      exact (joined_tick_iff hinv hres hid (hp id)).1 (hp' id)
    · intro hc id
      by_cases hid : id ∈ h.clients
      · exact (joined_tick_iff hinv hres hid (hp id)).2 (hc id hid)
      · -- nobody else is sent anything
        obtain ⟨htick, hsnap⟩ := miss_logs h id
        rw [Joined, ((tick_spec hinv hres).2.2.1 id hid).2, htick, hsnap]
        exact hp id
  | accept id hello ρ now =>
    obtain ⟨-, heq⟩ := Option.ite_none_right_eq_some.1 hnext
    obtain rfl := Option.some.inj heq
    refine iff_of_true (fun id' => ?_) trivial
    by_cases heq : id' = id
    · subst heq
      intro n hn
      simp only [accept, Function.update_self] at hn
      cases hn
    · simpa [accept, heq] using hp id'
  | flow => exact iff_of_true (hquiet (logs_next hnext nofun nofun)) trivial
  | nodes => exact iff_of_true (hquiet (logs_next hnext nofun nofun)) trivial
  | register => exact iff_of_true (hquiet (logs_next hnext nofun nofun)) trivial
  | drain => exact iff_of_true (hquiet (logs_next hnext nofun nofun)) trivial
  | leave => exact iff_of_true (hquiet (logs_next hnext nofun nofun)) trivial
  | shutdown => exact iff_of_true (hquiet (logs_next hnext nofun nofun)) trivial

/-- **Connecting loses no tick, exactly when no tick comes in between.** In every state of a
run of the hub, with any number of connections, the first tick that a client was sent is the
next one after its snapshot, if and only if every tick of the run finds the waiting clients
with a snapshot that no other tick has been built after. -/
theorem always_losesNoTick_iff (retention : Time) (steps : List Step) :
    Run.Always next LosesNoTick (new retention) steps ↔
      Run.EveryStep next JoinsInTime (new retention) steps :=
  Run.always_iff_everyStep (J := Inv) (fun _ _ _ h hnext => h.next hnext)
    (fun _ _ _ h hp hnext => losesNoTick_next_iff h hp hnext) (inv_new retention)
    fun _ _ hnone => nomatch hnone

set_option maxRecDepth 10000 in
/-- **A tick between the two steps of a connection is lost.** The first tick that the client is
sent is the second one after its snapshot. -/
theorem not_losesNoTick_of_run :
    ¬ ∀ (retention : Time) (steps : List Step) (h : Hub),
      Run.run next (new retention) steps = some h → h.LosesNoTick := by
  intro hall
  -- the client connects before the first tick and registers after it
  have heval : (Run.run next (new (300 * second))
      [.accept 0 Feed.hello (fun _ _ => 0) 0, .tick (fun _ _ => 0) (fun _ _ => 0) id 1,
        .register 0, .tick (fun _ _ => 0) (fun _ _ => 0) id 2]).map
          (fun h => (firstSnapshot (h.logs 0), firstTick (h.logs 0))) = some (some 0, some 2) := by
    decide
  obtain ⟨h, hrun, hlog⟩ := Option.map_eq_some_iff.1 heval
  obtain ⟨hsnap, htick⟩ := Prod.mk.inj hlog
  obtain ⟨k, hk, htwo⟩ := hall _ _ h hrun 0 2 htick
  obtain rfl : 0 = k := Option.some.inj (hsnap.symm.trans hk)
  cases htwo

end Hub

end Flowscape
