import Flowscape.Graph.Representation
import Flowscape.Hub.Connect

/-!
# Flowscape: the send channels of the clients (`internal/hub/hub.go`)

Three parties use the send channel of a client: the handler fills and drains it, a tick offers
messages to it, and it is closed by the handler when that returns or by the hub when it shuts
down. A send on a closed channel and a second close would stop the server.

A client is registered only while its channel is open, and whoever closes the channel takes the
client out in the same critical section. So nobody touches a closed channel, and no step of the
hub or of a handler stops the server.
-/

namespace Flowscape

namespace Hub

/-! ## What is done to the channels -/

/-- An operation on the send channel of a connection. -/
inductive ChanOp where
  | send (id : Nat)
  | close (id : Nat)
deriving DecidableEq

/-- The connection. -/
def ChanOp.id : ChanOp → Nat
  | send id => id
  | close id => id

/-- The operations of a step, in their order. -/
def ops (h : Hub) : Step → List ChanOp
  | .tick _ _ order _ => ((h.clients.range order).map Prod.fst).map .send
  -- hello and snapshot
  | .accept id _ _ _ => [.send id, .send id]
  | .leave id => if id ∈ h.clients then [.close id] else []
  | .shutdown order => ((h.clients.range order).map Prod.fst).map .close
  | _ => []

/-- The operations of a run. -/
def trace (h : Hub) : List Step → List ChanOp
  | [] => []
  | s :: rest =>
    match h.next s with
    | none => []
    | some h' => h.ops s ++ trace h' rest

/-- A step that is due: its party has come to it. Whether a flow can be taken in is up to the
graph. -/
def Ready (h : Hub) : Step → Prop
  | .flow ρ f => ∃ p, h.g.ingest ρ f = some p
  | .nodes _ _ => True
  | .tick _ _ _ _ => h.running = true
  | .accept id _ _ _ => h.phase id = .absent
  | .register id => h.phase id = .connecting
  | .drain id => h.phase id = .serving ∧ (h.objects id).send ≠ []
  | .leave id => h.phase id = .serving
  | .shutdown _ => h.running = true

/-! ## Loops over the clients -/

/-- The fan-out to open channels comes to its end. -/
theorem serveAll_isSome (snapshot msg : Frame) {l : List Nat} (hnd : l.Nodup) {h : Hub}
    (hopen : ∀ id ∈ l, (h.objects id).closed = false) :
    ∃ h', serveAll snapshot msg l h = some h' := by
  induction l generalizing h with
  | nil => exact ⟨h, rfl⟩
  | cons id rest ih =>
    obtain ⟨hnot, hrest⟩ := List.nodup_cons.1 hnd
    obtain ⟨c, queued, hserve, -⟩ := serve_spec sendQueue snapshot msg (hopen id List.mem_cons_self)
    -- the channels of the rest are as they were
    have hopen' : ∀ id' ∈ rest, (Function.update h.objects id c id').closed = false := by
      intro id' hid'
      rw [Function.update_of_ne (ne_of_mem_of_not_mem hid' hnot)]
      exact hopen id' (List.mem_cons_of_mem _ hid')
    obtain ⟨h', hres⟩ := ih hrest (h := { h with
      objects := Function.update h.objects id c
      logs := Function.update h.logs id (h.logs id ++ [entry h.built queued]) }) hopen'
    exact ⟨h', by rw [serveAll, hserve]; exact hres⟩

/-- Open channels can be closed one after the other. -/
theorem closeAll_isSome {l : List Nat} (hnd : l.Nodup) {h : Hub}
    (hopen : ∀ id ∈ l, (h.objects id).closed = false) : ∃ h', closeAll l h = some h' := by
  induction l generalizing h with
  | nil => exact ⟨h, rfl⟩
  | cons id rest ih =>
    obtain ⟨hnot, hrest⟩ := List.nodup_cons.1 hnd
    -- the ones that are still to be closed are other channels
    let objects := Function.update h.objects id { h.objects id with closed := true }
    have hclose : h.closeSend id = some { h with objects := objects } := by
      rw [closeSend, hopen id List.mem_cons_self]
      rfl
    have hopen' : ∀ id' ∈ rest, (objects id').closed = false := by
      intro id' hid'
      show (Function.update h.objects id _ id').closed = false
      rw [Function.update_of_ne (ne_of_mem_of_not_mem hid' hnot)]
      exact hopen id' (List.mem_cons_of_mem _ hid')
    obtain ⟨h', hres⟩ := ih hrest (h := { h with
      objects := objects
      clients := h.clients.erase id }) hopen'
    exact ⟨h', by rw [closeAll, hclose]; exact hres⟩

/-- Which channels are closed after the loop. -/
theorem closed_closeAll {l : List Nat} {h h' : Hub} (hres : closeAll l h = some h') (id : Nat) :
    (h'.objects id).closed = true ↔ (h.objects id).closed = true ∨ id ∈ l := by
  induction l generalizing h with
  | nil =>
    obtain rfl : h = h' := Option.some.inj hres
    simp
  | cons id' rest ih =>
    obtain ⟨h₁, hclose, hres⟩ := Option.bind_eq_some_iff.1 hres
    obtain ⟨-, heq⟩ := Option.ite_none_left_eq_some.1 hclose
    obtain rfl := Option.some.inj heq
    rw [ih hres]
    by_cases heq : id = id'
    · subst heq
      simp
    · simp [heq]

/-- Neither loop changes the graph. -/
theorem g_serveAll {snapshot msg : Frame} {l : List Nat} {h h' : Hub}
    (hres : serveAll snapshot msg l h = some h') : h'.g = h.g := by
  induction l generalizing h with
  | nil =>
    obtain rfl : h = h' := Option.some.inj hres
    rfl
  | cons id rest ih =>
    obtain ⟨⟨c, queued⟩, -, hres⟩ := Option.bind_eq_some_iff.1 hres
    have hg := ih hres
    exact hg

/-- Closing the channels leaves the graph. -/
theorem g_closeAll {l : List Nat} {h h' : Hub} (hres : closeAll l h = some h') : h'.g = h.g := by
  induction l generalizing h with
  | nil =>
    obtain rfl : h = h' := Option.some.inj hres
    rfl
  | cons id rest ih =>
    obtain ⟨h₁, hclose, hres⟩ := Option.bind_eq_some_iff.1 hres
    obtain ⟨-, heq⟩ := Option.ite_none_left_eq_some.1 hclose
    obtain rfl := Option.some.inj heq
    have hg := ih hres
    exact hg

/-! ## The invariant -/

/-- What every hub that is reached has. -/
structure Sound (h : Hub) : Prop where
  inv : h.Inv
  graph : h.g.Inv
  /-- The channel of a connection that has not come yet is open. -/
  fresh : ∀ id, h.phase id = .absent → (h.objects id).closed = false

theorem sound_new (retention : Time) : (new retention).Sound where
  inv := inv_new retention
  graph := Graph.inv_new retention
  fresh _ _ := rfl

/-- A tick sends, and closes nothing. -/
theorem tick_closed {ρ ρ' : RangeOrder} {order : Nat → Nat} {now : Time} {h h' : Hub}
    (hinv : h.Inv) (hres : h.tick ρ ρ' order now = some h') (id : Nat) :
    (h'.objects id).closed = (h.objects id).closed := by
  obtain ⟨-, -, hothers, hserved⟩ := tick_spec hinv hres
  by_cases hid : id ∈ h.clients
  · obtain ⟨s, t, queued, hs, -⟩ := hserved id hid
    exact hs.closed
  · rw [(hothers id hid).1]

/-- A client that leaves closes its own channel, unless the hub has done so. -/
theorem leave_closed {h h' : Hub} {id : Nat} (hres : h.leave id = some h') (id' : Nat) :
    (h'.objects id').closed = true ↔
      (h.objects id').closed = true ∨ .close id' ∈ h.ops (.leave id) := by
  unfold Hub.leave at hres
  dsimp only at hres
  split at hres
  -- the client is still registered, so nobody has closed its channel
  · next hid =>
    obtain ⟨-, heq⟩ := Option.ite_none_left_eq_some.1 hres
    obtain rfl := Option.some.inj heq
    rw [show h.ops (.leave id) = [.close id] from if_pos hid]
    by_cases heq : id' = id
    · subst heq
      simp
    · simp [heq]
  · next hid =>
    obtain rfl := Option.some.inj hres
    rw [show h.ops (.leave id) = [] from if_neg hid]
    simp

/-- **The channels that a step closes**: those that it closes for sure, and no other. -/
theorem closed_next_iff {h h' : Hub} {s : Step} (hs : h.Sound) (hnext : h.next s = some h')
    (id : Nat) :
    (h'.objects id).closed = true ↔ (h.objects id).closed = true ∨ .close id ∈ h.ops s := by
  cases taken_of_next hnext with
  | flow => simp [ops]
  | nodes => simp [ops]
  | tick hres =>
    rw [tick_closed hs.inv hres]
    simp [ops]
  | @accept id' hello ρ now habsent =>
    -- the channel is a new one, and the one it takes the place of was open
    by_cases heq : id = id'
    · subst heq
      simp [accept, ops, hs.fresh id habsent]
    · simp [accept, ops, heq]
  | register => simp [register, ops]
  | @drain id' =>
    by_cases heq : id = id'
    · subst heq
      simp [drain, ops]
    · simp [drain, ops, heq]
  | leave hres => exact leave_closed hres id
  | shutdown hres =>
    obtain ⟨h₁, hclose, rfl⟩ := Option.map_eq_some_iff.1 hres
    simp only [closed_closeAll hclose, ops, List.mem_map, ChanOp.close.injEq, exists_eq_right]

/-- A connection that has not come yet had not come before. -/
theorem absent_of_next {h h' : Hub} {s : Step} (hs : h.Sound) (hnext : h.next s = some h') {id : Nat}
    (habsent : h'.phase id = .absent) : h.phase id = .absent := by
  have hupdate : ∀ (id' : Nat) (p : Phase), p ≠ .absent →
      Function.update h.phase id' p id = .absent → h.phase id = .absent := by
    intro id' p hp hid
    by_cases heq : id = id'
    · subst heq
      rw [Function.update_self] at hid
      exact absurd hid hp
    · rwa [Function.update_of_ne heq] at hid
  -- only three steps write a phase, and none of them writes that nobody has come
  cases taken_of_next hnext with
  | flow => exact habsent
  | nodes => exact habsent
  | tick hres => rwa [(tick_spec hs.inv hres).1] at habsent
  | accept => exact hupdate _ .connecting nofun habsent
  | register => exact hupdate _ .serving nofun habsent
  | drain => exact habsent
  | leave hres =>
    rw [(leave_spec hres).1] at habsent
    exact hupdate _ .done nofun habsent
  | shutdown hres =>
    obtain ⟨h₁, hclose, rfl⟩ := Option.map_eq_some_iff.1 hres
    rwa [show h₁.phase = h.phase from (closedAll_of_closeAll hclose).phase] at habsent

/-- Whatever a step does to a channel, it finds the channel open. -/
theorem open_of_mem_ops {h : Hub} (hs : h.Sound) {s : Step} (hr : h.Ready s) {op : ChanOp}
    (hop : op ∈ h.ops s) : (h.objects op.id).closed = false := by
  -- every operation is on the channel of a client that is registered, or has not come yet
  cases s with
  | tick ρ ρ' order now =>
    obtain ⟨id, hid, rfl⟩ := List.mem_map.1 hop
    exact hs.inv.isOpen id (Or.inl (mem_visited.1 hid))
  | accept id hello ρ now =>
    obtain rfl : op = .send id := by simpa [ops] using hop
    exact hs.fresh id hr
  | leave id =>
    by_cases hid : id ∈ h.clients
    · rw [show h.ops (.leave id) = [.close id] from if_pos hid, List.mem_singleton] at hop
      subst hop
      exact hs.inv.isOpen id (Or.inl hid)
    · rw [show h.ops (.leave id) = [] from if_neg hid] at hop
      cases hop
  | shutdown order =>
    obtain ⟨id, hid, rfl⟩ := List.mem_map.1 hop
    exact hs.inv.isOpen id (Or.inl (mem_visited.1 hid))
  | _ => cases hop

/-- A step that was taken could be taken. -/
theorem ready_of_next {h h' : Hub} {s : Step} (hnext : h.next s = some h') : h.Ready s := by
  cases s with
  | flow ρ f =>
    obtain ⟨p, hp, -⟩ := Option.map_eq_some_iff.1 hnext
    exact ⟨p, hp⟩
  | nodes ρ addrs => trivial
  | tick | accept | register | drain | leave | shutdown =>
    exact (Option.ite_none_right_eq_some.1 hnext).1

/-- Every step keeps the invariant of the graph. -/
theorem graph_next {h h' : Hub} {s : Step} (hs : h.Sound) (hnext : h.next s = some h') :
    h'.g.Inv := by
  cases taken_of_next hnext with
  | flow hingest => exact (Graph.ingest_inv hs.graph hingest).1
  | @nodes ρ addrs g hlearn =>
    have hstep : h.g.step (.learnMachines ρ addrs) = some g := hlearn
    exact Graph.step_inv hs.graph hstep
  | tick hres =>
    obtain ⟨⟨g, t⟩, htick, hserve⟩ := Option.bind_eq_some_iff.1 hres
    obtain ⟨g₁, rfl, -, hinv₁, -⟩ := Graph.tick_inv hs.graph htick
    rw [g_serveAll hserve]
    exact hinv₁.settle
  | accept => exact hs.graph
  | register => exact hs.graph
  | drain => exact hs.graph
  -- serving leaves the graph alone
  | leave hres =>
    unfold Hub.leave at hres
    dsimp only at hres
    split at hres
    · obtain ⟨-, heq⟩ := Option.ite_none_left_eq_some.1 hres
      obtain rfl := Option.some.inj heq
      exact hs.graph
    · obtain rfl := Option.some.inj hres
      exact hs.graph
  | shutdown hres =>
    obtain ⟨h₁, hclose, rfl⟩ := Option.map_eq_some_iff.1 hres
    rw [show h₁.g = h.g from g_closeAll hclose]
    exact hs.graph

/-- **Every step keeps the invariant of the hub.** -/
theorem Sound.next {h h' : Hub} {s : Step} (hs : h.Sound) (hnext : h.next s = some h') :
    h'.Sound where
  inv := hs.inv.next hnext
  graph := graph_next hs hnext
  fresh id habsent := by
    have hold : h.phase id = .absent := absent_of_next hs hnext habsent
    by_contra hclosed
    rw [Bool.not_eq_false, closed_next_iff hs hnext, hs.fresh id hold] at hclosed
    -- nothing is closed that has not come
    have hop : ChanOp.close id ∈ h.ops s := hclosed.resolve_left nofun
    cases s with
    | leave id' =>
      by_cases hid : id' ∈ h.clients
      · rw [show h.ops (.leave id') = [.close id'] from if_pos hid, List.mem_singleton] at hop
        obtain rfl := ChanOp.close.inj hop
        exact nomatch (hs.inv.serving id hid).symm.trans hold
      · rw [show h.ops (.leave id') = [] from if_neg hid] at hop
        cases hop
    | shutdown order =>
      obtain ⟨id', hid', heq⟩ := List.mem_map.1 hop
      obtain rfl := ChanOp.close.inj heq
      exact nomatch (hs.inv.serving id' (mem_visited.1 hid')).symm.trans hold
    | _ => simp [ops] at hop

/-- **No step stops the server.** A step that is due is taken: it sends on no closed channel and
closes none twice. -/
theorem Sound.next_isSome {h : Hub} {s : Step} (hs : h.Sound) (hr : h.Ready s) :
    ∃ h', h.next s = some h' := by
  cases s with
  | flow ρ f =>
    obtain ⟨p, hp⟩ := hr
    exact ⟨_, by rw [Hub.next, hp, Option.map_some]⟩
  | nodes ρ addrs =>
    obtain ⟨g, hg, -⟩ := Graph.learnMachines_spec ρ addrs hs.graph
    exact ⟨_, by rw [Hub.next, hg, Option.map_some]⟩
  | tick ρ ρ' order now =>
    have hrunning : h.running = true := hr
    obtain ⟨g, hg, -⟩ := Graph.tick_spec ρ now hs.graph
    obtain ⟨h', hserve⟩ := serveAll_isSome
      (.snapshot (h.built + 1) (g.settle.snapshot ρ' now)) (.tick (h.built + 1) (g.delta ρ now))
      (OrdMap.nodup_range h.clients order) (h := { h with g := g.settle }.miss)
      fun id hid => hs.inv.isOpen id (Or.inl (mem_visited.1 hid))
    -- every client that is registered has an open channel, so the fan-out comes to its end
    refine ⟨h', ?_⟩
    rw [Hub.next, if_pos hrunning, Hub.tick, hg]
    exact hserve
  | accept id hello ρ now => exact ⟨_, if_pos hr⟩
  | register id => exact ⟨_, if_pos hr⟩
  | drain id => exact ⟨_, if_pos hr⟩
  | leave id =>
    have hserving : h.phase id = .serving := hr
    rw [Hub.next, if_pos hserving]
    unfold Hub.leave
    dsimp only
    split
    · next hid =>
      have hopen : (h.objects id).closed = false := hs.inv.isOpen id (Or.inl hid)
      exact ⟨_, if_neg (by rw [hopen]; exact nofun)⟩
    · exact ⟨_, rfl⟩
  | shutdown order =>
    have hrunning : h.running = true := hr
    obtain ⟨h', hclose⟩ := closeAll_isSome (OrdMap.nodup_range h.clients order) (h := h)
      fun id hid => hs.inv.isOpen id (Or.inl (mem_visited.1 hid))
    exact ⟨_, by rw [Hub.next, if_pos hrunning, Hub.shutdown, hclose, Option.map_some]⟩

/-! ## Runs -/

/-- Nothing is done to a channel after it was closed. -/
def Orderly (l : List ChanOp) : Prop := l.Pairwise fun op op' => ∀ id, op = .close id → op'.id ≠ id

/-- The operations of one step are on different channels, or none of them is a close. -/
theorem orderly_ops (h : Hub) (s : Step) : Orderly (h.ops s) := by
  cases s with
  | tick ρ ρ' order now =>
    refine List.pairwise_map.2 (List.pairwise_of_forall fun id id' id'' heq => ?_)
    cases heq
  | shutdown order =>
    -- the loop of the shutdown comes to every client once
    refine List.pairwise_map.2 ((OrdMap.nodup_range h.clients order).imp ?_)
    rintro id id' hne _ ⟨⟩
    exact hne.symm
  | accept id hello ρ now =>
    refine List.pairwise_cons.2 ⟨fun op _ id' heq => ?_, List.pairwise_singleton _ _⟩
    cases heq
  | leave id =>
    unfold Orderly ops
    dsimp only
    split
    · exact List.pairwise_singleton _ _
    · exact List.Pairwise.nil
  | _ => exact List.Pairwise.nil

/-- A run from a sound state touches no channel that was closed before, and none that it has
closed. -/
theorem orderly_trace {steps : List Step} {h : Hub} (hs : h.Sound) :
    Orderly (h.trace steps) ∧ ∀ op ∈ h.trace steps, (h.objects op.id).closed = false := by
  induction steps generalizing h with
  | nil => exact ⟨List.Pairwise.nil, fun op hop => nomatch hop⟩
  | cons s rest ih =>
    rw [trace]
    cases hnext : h.next s with
    | none => exact ⟨List.Pairwise.nil, fun op hop => nomatch hop⟩
    | some h' =>
      obtain ⟨horderly, hopen⟩ := ih (hs.next hnext)
      have hready := ready_of_next hnext
      refine ⟨List.pairwise_append.2 ⟨orderly_ops h s, horderly, ?_⟩, fun op hop => ?_⟩
      · -- what this step closes stays closed, and the rest of the run touches open channels only
        rintro op hop op' hop' id rfl rfl
        have hclosed := (closed_next_iff hs hnext op'.id).2 (Or.inr hop)
        rw [hopen op' hop'] at hclosed
        cases hclosed
      · rcases List.mem_append.1 hop with hop | hop
        · exact open_of_mem_ops hs hready hop
        · -- a channel that is open after the step was open before it
          by_contra hclosed
          rw [Bool.not_eq_false] at hclosed
          have hstill := (closed_next_iff hs hnext op.id).2 (Or.inl hclosed)
          rw [hopen op hop] at hstill
          cases hstill

/-- What the hub and the handlers have done to the channels is in order. -/
structure ChannelsSafe (h : Hub) (trace : List ChanOp) : Prop where
  /-- A client is registered only while its channel is open. -/
  isOpen : ∀ id ∈ h.clients, (h.objects id).closed = false
  closedOnce : ∀ id, trace.count (.close id) ≤ 1
  noSend : ∀ id before after, trace = before ++ .send id :: after → ChanOp.close id ∉ before

/-- **No send on a closed channel.** Whatever the order in which clients connect and leave, the
hub ticks and it shuts down, a client is registered only while its channel is open, no channel
is closed twice and none is sent on after it was closed; and no step that is due fails. -/
theorem channels_safe {retention : Time} {steps : List Step} {h : Hub}
    (hrun : Run.run next (new retention) steps = some h) :
    ChannelsSafe h ((new retention).trace steps) ∧ ∀ s, h.Ready s → ∃ h', h.next s = some h' := by
  have hs : h.Sound := Run.invariant (I := Sound) (fun _ _ _ hs hnext => hs.next hnext) hrun
    (sound_new retention)
  have horderly : Orderly ((new retention).trace steps) := (orderly_trace (sound_new retention)).1
  refine ⟨⟨fun id hid => hs.inv.isOpen id (Or.inl hid), fun id => ?_, ?_⟩,
    fun s hr => hs.next_isSome hr⟩
  · by_contra htwo
    -- two closes would come one after the other somewhere in the run
    have hdup : [ChanOp.close id, .close id].Sublist ((new retention).trace steps) :=
      List.replicate_sublist_iff.2 (Nat.lt_of_not_le htwo)
    exact List.rel_of_pairwise_cons (horderly.sublist hdup) List.mem_cons_self id rfl rfl
  · intro id before after htrace hmem
    rw [htrace] at horderly
    exact (List.pairwise_append.1 horderly).2.2 _ hmem _ List.mem_cons_self id rfl rfl

/-- The hub shuts down while a client is being served. -/
def shutdownSteps : List Step :=
  [.accept 0 Feed.hello (fun _ _ => 0) 0, .register 0,
    .tick (fun _ _ => 0) (fun _ _ => 0) id 1, .shutdown id, .leave 0]

set_option maxRecDepth 10000 in
/-- Clients that leave before and after a shutdown. -/
theorem channels_safe_shutdown : ∃ h, Run.run next (new (300 * second)) shutdownSteps = some h ∧
    ChannelsSafe h ((new (300 * second)).trace shutdownSteps) := by
  have hsome : (Run.run next (new (300 * second)) shutdownSteps).isSome = true := by decide
  obtain ⟨h, hrun⟩ := Option.isSome_iff_exists.1 hsome
  exact ⟨h, hrun, (channels_safe hrun).1⟩

end Hub

end Flowscape
