import Flowscape.Protocol
import Flowscape.Lib.Rounding
import Flowscape.Lib.Seconds

/-!
# Flowscape: the browser's graph (`web/src/graph-state.ts`)

`GraphState` folds the messages of the server into maps of nodes and edges, and collects what
changed between two frames of the scene.

* The object that `upsertEdge` returns is the one in the map, so a write to it is a `modify`
  of the entry.
* The typed arrays of an edge have the length they were made with. A write outside of it
  is lost, as `List.set` has it, and a read gives nothing.
-/

namespace Flowscape

/-- A node as the page knows it. -/
structure NodeState where
  id : String
  ns : String
  kind : String
  name : String
  fqdn : String
  machine : String
  labels : OrdMap String String
  first : Int
  last : Int
  /-- Edge ids touching this node. -/
  edges : OrdSet String

/-- An edge as the page knows it. -/
structure EdgeState where
  id : String
  src : String
  dst : String
  proto : String
  port : Nat
  totals : Counters
  last : Int
  latencyMs : Rat
  l7 : Option L7
  drops : OrdMap String UInt32
  /-- One second per slot, four verdict counters each. -/
  ring : List UInt32
  epochs : List Int

/-- Everything that changed since the last `consume`. -/
structure Changes where
  addedNodes : List String
  removedNodes : List String
  addedEdges : List String
  removedEdges : List String
  touchedEdges : List String
  touchedNodes : List String
  sparks : List Spark
  ts : Int
  reset : Bool

/-- What the page knows of the graph, and what changed since the last frame. -/
structure GraphState where
  nodes : OrdMap String NodeState
  edges : OrdMap String EdgeState
  retention : Nat
  addedNodes : OrdSet String
  removedNodes : OrdSet String
  addedEdges : OrdSet String
  removedEdges : OrdSet String
  touchedEdges : OrdSet String
  touchedNodes : OrdSet String
  sparks : List Spark
  ts : Int
  reset : Bool

namespace GraphState

/-- The constructor. -/
def new (retentionSeconds : Nat) : GraphState where
  nodes := ∅
  edges := ∅
  retention := max 10 retentionSeconds
  addedNodes := ∅
  removedNodes := ∅
  addedEdges := ∅
  removedEdges := ∅
  touchedEdges := ∅
  touchedNodes := ∅
  sparks := []
  ts := 0
  reset := false

/-! ## Rings -/

/-- The slot of a second. With an empty window the index is `NaN`, which is no index. -/
def slot (retention : Nat) (sec : Int) : Option Nat :=
  if retention = 0 then none
  else some ((sec.tmod retention + retention).tmod retention).toNat

/-- Write four counters from index `i * 4` on. -/
def writeSlot (ring : List UInt32) (i : Nat) (c : Counters) : List UInt32 :=
  (((ring.set (i * 4) (UInt32.ofNat (c verdictForwarded))).set (i * 4 + 1)
    (UInt32.ofNat (c verdictDropped))).set (i * 4 + 2) (UInt32.ofNat (c verdictAudit))).set
      (i * 4 + 3) (UInt32.ofNat (c verdictError))

/-- The four counters from index `i * 4` on. -/
def readSlot (ring : List UInt32) (i : Nat) : Counters := fun v => (ring.getD (i * 4 + v) 0).toNat

/-- `setBucket` -/
def setBucket (retention : Nat) (e : EdgeState) (b : Bucket) : EdgeState :=
  match slot retention b.sec with
  | none => e
  | some i => { e with epochs := e.epochs.set i b.sec, ring := writeSlot e.ring i b.counts }

/-- `addBucket` -/
def addBucket (retention : Nat) (e : EdgeState) (sec : Int) (c : Counters) : EdgeState :=
  match slot retention sec with
  | none => e
  | some i =>
    let e := if e.epochs[i]? ≠ some sec then
      { e with epochs := e.epochs.set i sec, ring := writeSlot e.ring i fun _ => 0 } else e
    { e with ring := writeSlot e.ring i fun v => readSlot e.ring i v + c v }

/-! ## Rates

The loops go over the seconds from `nowSec - w + 1` to `nowSec`. -/

/-- `rate`: events per second over the last `windowSec` seconds ending at `nowSec`. The sums are
whole numbers, which the browser has exactly (it would take `2 ^ 53` flows on one edge to lose a
digit), and the quotients are rounded. By an empty window they are `NaN` in the browser. -/
def rate (s : GraphState) (e : EdgeState) (windowSec : Nat) (nowSec : Int) : VerdictCode → Rat :=
  let n := s.retention
  let w := min windowSec n
  let out := (SecondRing.window w nowSec).foldl (fun (out : Counters) sec =>
    match slot n sec with
    | none => out
    | some i => if e.epochs[i]? ≠ some sec then out else fun v => out v + readSlot e.ring i v)
    fun _ => 0
  fun v => Rounding.binary64.round (out v / w)

/-- `series`: the same per second, oldest first. -/
def series (s : GraphState) (e : EdgeState) (windowSec : Nat) (nowSec : Int) : List Nat :=
  let n := s.retention
  let w := min windowSec n
  (SecondRing.window w nowSec).map fun sec =>
    match slot n sec with
    | none => 0
    | some i =>
      if e.epochs[i]? ≠ some sec then 0
      else readSlot e.ring i verdictForwarded + readSlot e.ring i verdictDropped +
        readSlot e.ring i verdictAudit + readSlot e.ring i verdictError

/-! ## Upserts and removals -/

/-- The node that `upsertNode` makes for an id it does not know. -/
def freshNode (n : WireNode) : NodeState where
  id := n.id
  ns := n.ns
  kind := n.kind
  name := n.name
  fqdn := n.fqdn
  machine := n.machine
  labels := n.labels
  first := n.first
  last := n.last
  edges := ∅

/-- The message names another machine than the one the node has. -/
def movesNode (n : WireNode) (ns : NodeState) : Bool := n.machine ≠ "" ∧ n.machine ≠ ns.machine

/-- What `upsertNode` does to a node it knows. -/
def mergeNode (n : WireNode) (ns : NodeState) : NodeState :=
  { ns with
    last := max ns.last n.last
    labels := if n.labels.size ≠ 0 then n.labels else ns.labels
    machine := if movesNode n ns then n.machine else ns.machine }

/-- `upsertNode` -/
def upsertNode (s : GraphState) (n : WireNode) : GraphState :=
  match s.nodes.get? n.id with
  | none => { s with
      nodes := s.nodes.set n.id (freshNode n)
      addedNodes := s.addedNodes.add n.id
      removedNodes := s.removedNodes.erase n.id }
  | some ns => { s with
      nodes := s.nodes.set n.id (mergeNode n ns)
      touchedNodes := if movesNode n ns then s.touchedNodes.add n.id else s.touchedNodes }

/-- The edge that `upsertEdge` makes for an id it does not know. -/
def freshEdge (retention : Nat) (e : WireEdge) : EdgeState where
  id := e.id
  src := e.src
  dst := e.dst
  proto := e.proto
  port := e.port
  totals := fun _ => 0
  last := e.last
  latencyMs := e.latencyMs
  l7 := e.l7
  drops := e.drops
  ring := List.replicate (retention * 4) 0
  epochs := List.replicate retention (-1)

/-- `nodes.get(id)?.edges.add(eid)` -/
def link (nodes : OrdMap String NodeState) (id eid : String) : OrdMap String NodeState :=
  nodes.modify id fun n => { n with edges := n.edges.add eid }

/-- `nodes.get(id)?.edges.delete(eid)` -/
def unlink (nodes : OrdMap String NodeState) (id eid : String) : OrdMap String NodeState :=
  nodes.modify id fun n => { n with edges := n.edges.erase eid }

/-- `upsertEdge` -/
def upsertEdge (s : GraphState) (e : WireEdge) : GraphState :=
  if e.id ∈ s.edges then s
  else { s with
    edges := s.edges.set e.id (freshEdge s.retention e)
    addedEdges := s.addedEdges.add e.id
    removedEdges := s.removedEdges.erase e.id
    nodes := link (link s.nodes e.src e.id) e.dst e.id }

/-- `removeEdge` -/
def removeEdge (s : GraphState) (id : String) : GraphState :=
  match s.edges.get? id with
  | none => s
  | some e => { s with
      edges := s.edges.erase id
      nodes := unlink (unlink s.nodes e.src id) e.dst id
      touchedEdges := s.touchedEdges.erase id
      addedEdges := s.addedEdges.erase id
      removedEdges := if id ∈ s.addedEdges then s.removedEdges else s.removedEdges.add id }

/-- `removeNode` -/
def removeNode (s : GraphState) (id : String) : GraphState :=
  if id ∉ s.nodes then s
  else { s with
    nodes := s.nodes.erase id
    touchedNodes := s.touchedNodes.erase id
    addedNodes := s.addedNodes.erase id
    removedNodes := if id ∈ s.addedNodes then s.removedNodes else s.removedNodes.add id }

/-! ## Snapshots -/

/-- The start of `applySnapshot`: everything goes. -/
def clear (s : GraphState) : GraphState :=
  { s with
    removedNodes := s.removedNodes.addAll s.nodes.keys
    removedEdges := s.removedEdges.addAll s.edges.keys
    nodes := ∅
    edges := ∅
    addedNodes := ∅
    addedEdges := ∅
    touchedEdges := ∅
    touchedNodes := ∅ }

/-- What a snapshot does to the edge it has just upserted. -/
def resetEdge (retention : Nat) (e : WireEdge) (es : EdgeState) : EdgeState :=
  e.buckets.foldl (setBucket retention) { es with totals := e.counts }

/-- The body of the edge loop of `applySnapshot`. -/
def snapshotEdge (s : GraphState) (e : WireEdge) : GraphState :=
  let s := s.upsertEdge e
  { s with edges := s.edges.modify e.id (resetEdge s.retention e) }

/-- `for (const id of added) if (removed.delete(id)) added.delete(id)`, on the pair of both
sets. -/
def cancel (added removed : OrdSet String) : OrdSet String × OrdSet String :=
  added.keys.foldl (fun p id => if id ∈ p.2 then (p.1.erase id, p.2.erase id) else p)
    (added, removed)

/-- `applySnapshot` -/
def applySnapshot (s : GraphState) (m : Snapshot) : GraphState :=
  let s := s.clear
  let s := m.nodes.foldl upsertNode s
  let s := m.edges.foldl snapshotEdge s
  -- A node that was removed and re-added in the same snapshot is neither.
  let (addedNodes, removedNodes) := cancel s.addedNodes s.removedNodes
  let (addedEdges, removedEdges) := cancel s.addedEdges s.removedEdges
  { s with
    addedNodes := addedNodes
    removedNodes := removedNodes
    addedEdges := addedEdges
    removedEdges := removedEdges
    ts := m.ts
    reset := true }

/-! ## Ticks -/

/-- What a tick does to the edge it has just upserted. -/
def countEdge (retention : Nat) (sec : Int) (e : WireEdge) (es : EdgeState) : EdgeState :=
  let es := addBucket retention { es with totals := fun v => es.totals v + e.counts v } sec e.counts
  { es with
    last := if es.last < e.last then e.last else es.last
    l7 := match e.l7 with
      | some l7 => some l7
      | none => es.l7
    drops := if e.drops.size ≠ 0 then e.drops else es.drops
    latencyMs := if e.latencyMs ≠ 0 then e.latencyMs else es.latencyMs }

/-- The body of the edge loop of `applyTick`. -/
def tickEdge (sec : Int) (s : GraphState) (e : WireEdge) : GraphState :=
  let s := s.upsertEdge e
  { s with
    edges := s.edges.modify e.id (countEdge s.retention sec e)
    touchedEdges := s.touchedEdges.add e.id }

/-- `applyTick` -/
def applyTick (s : GraphState) (t : Tick) : GraphState :=
  let sec := t.ts / 1000
  let s := t.nodes.foldl upsertNode s
  let s := t.edges.foldl (tickEdge sec) s
  let s := t.gone.edges.foldl removeEdge s
  let s := t.gone.nodes.foldl removeNode s
  { s with sparks := s.sparks ++ t.sparks, ts := t.ts }

/-- `consume` -/
def consume (s : GraphState) : Changes × GraphState :=
  ({ addedNodes := s.addedNodes.keys
     removedNodes := s.removedNodes.keys
     addedEdges := s.addedEdges.keys
     removedEdges := s.removedEdges.keys
     touchedEdges := s.touchedEdges.keys
     touchedNodes := s.touchedNodes.keys
     sparks := s.sparks
     ts := s.ts
     reset := s.reset },
   { s with
     addedNodes := ∅
     removedNodes := ∅
     addedEdges := ∅
     removedEdges := ∅
     touchedEdges := ∅
     touchedNodes := ∅
     sparks := []
     reset := false })

end GraphState

end Flowscape
