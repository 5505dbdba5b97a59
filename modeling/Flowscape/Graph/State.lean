import Flowscape.Graph.Buckets
import Flowscape.Graph.L7

/-!
# Flowscape: the graph (`internal/graph/graph.go`)

`Graph` with its four operations `ingest`, `learnMachines`, `tick` and `snapshot`. Each is one
critical section under `g.mu`, so a history of the graph is a sequence of them (`Graph.step`).

* Nodes are shared: `g.nodes`, `g.newNodes` and `g.dirtyNode` hold pointers to the same
  objects. They are references into `heap` here, so that a forgotten map entry leaves a
  reference to an object that is no longer a node.
* A lookup `g.nodes[id].edges` of a missing id is a nil dereference. It has no result
  (`none`), and neither has an operation that runs into one.
* A loop over a Go map visits the entries in any order. Each operation takes a
  `RangeOrder`, which ranks the keys for every loop it makes.
-/

namespace Flowscape

/-- The iteration orders of the map loops of one operation: `ρ n key` is the position of
`key` in the `n`-th loop. -/
abbrev RangeOrder := Nat → String → Nat

/-- The address of a node object. -/
abbrev Ref := Nat

/-- A vertex of the graph. -/
structure Node where
  key : NodeKey
  id : String
  labels : OrdMap String String
  fqdn : String
  firstSeen : Time
  lastSeen : Time
  edges : Int
  /-- How often the workload's pods were seen on each cluster node. -/
  machines : OrdMap String UInt32
  /-- The most frequent of them. -/
  machine : String
deriving Inhabited

/-- A directed conversation. -/
structure Edge where
  key : EdgeKey
  id : String
  counts : Counters
  lastSeen : Time
  drops : TopCounter
  l7 : L7Summary
  ring : Ring

/-- The result of ingesting one flow. -/
structure Result where
  edgeID : String := ""
  verdict : VerdictCode := verdictForwarded
  /-- Non-empty when the flow was ignored, with the reason. -/
  skipped : String := ""
deriving DecidableEq

/-- `Graph`: the nodes and edges, and what the next tick is to report of them. -/
structure Graph where
  retention : Time
  heap : Ref → Node
  /-- The address of the next node object. -/
  next : Ref
  nodes : OrdMap String Ref
  edges : OrdMap String Edge
  newNodes : OrdMap String Ref
  dirtyNode : OrdMap String Ref
  dirty : OrdMap String Counters
  dirtyL7 : OrdSet String
  goneNodes : List String
  goneEdges : List String
  unknown : Nat
  nodeIPs : OrdMap String String

namespace Graph

/-- `New`: an empty graph keeping `retention` of history, at least ten seconds. -/
def new (retention : Time) : Graph where
  retention := if retention < 10 * second then 10 * second else retention
  heap := fun _ => default
  next := 0
  nodes := ∅
  edges := ∅
  newNodes := ∅
  dirtyNode := ∅
  dirty := ∅
  dirtyL7 := ∅
  goneNodes := []
  goneEdges := []
  unknown := 0
  nodeIPs := ∅

/-- Write to a node object. -/
def update (g : Graph) (r : Ref) (f : Node → Node) : Graph :=
  { g with heap := Function.update g.heap r (f (g.heap r)) }

/-- `g.nodes[id].edges += d` -/
def addDegree (g : Graph) (id : String) (d : Int) : Option Graph :=
  (g.nodes.get? id).map fun r => g.update r fun n => { n with edges := n.edges + d }

/-! ## Removal of edges -/

/-- The body of the two loops that delete edges. -/
def dropEdge (g : Graph) (eid : String) (e : Edge) : Option Graph := do
  let g := { g with
    edges := g.edges.erase eid
    dirty := g.dirty.erase eid
    dirtyL7 := g.dirtyL7.erase eid }
  let g ← g.addDegree e.key.src.id (-1)
  let g ← g.addDegree e.key.dst.id (-1)
  some { g with goneEdges := g.goneEdges ++ [eid] }

/-- Drop the edges of a loop that meet the condition. -/
def dropEdges (cond : Edge → Bool) : List (String × Edge) → Graph → Option Graph
  | [], g => some g
  | (eid, e) :: rest, g =>
    if cond e then (g.dropEdge eid e).bind (dropEdges cond rest) else dropEdges cond rest g

/-- The anchor of a machine that is only known by its address. -/
def anchorKey (ip : String) : NodeKey := ⟨reservedNamespace, "remote-node", ip⟩

/-- The end of `retireAddress` and of the loop that expires nodes: the clients hear of a node
that goes unless they have not heard of it yet. -/
def forgetNode (id : String) (g : Graph) : Graph :=
  let g := { g with nodes := g.nodes.erase id, dirtyNode := g.dirtyNode.erase id }
  if id ∈ g.newNodes then { g with newNodes := g.newNodes.erase id }
  else { g with goneNodes := g.goneNodes ++ [id] }

/-- `retireAddress`: drop the anchor a machine had while it was only known by address. -/
def retireAddress (ρ : String → Nat) (ip : String) (g : Graph) : Option Graph :=
  let id := (anchorKey ip).id
  if id ∉ g.nodes then some g
  else
    (dropEdges (fun e => e.key.src.id = id ∨ e.key.dst.id = id) (g.edges.range ρ) g).map
      (forgetNode id)

/-! ## Key derivation -/

/-- `learnMachine`: record that `ip` belongs to `machine` and, when it is news, retire the
anchor the address had. -/
def learnMachine (ρ : String → Nat) (ip machine : String) (g : Graph) : Option Graph :=
  if ip = "" ∨ machine = "" then some g
  else if g.nodeIPs.get? ip = some machine then some g
  else { g with nodeIPs := g.nodeIPs.set ip machine }.retireAddress ρ ip

/-- `endpointKey`: the node for one side of a flow. A reserved host is the observer
itself, which teaches the machine's address; a remote node is looked up by address. -/
def endpointKey (ρ : String → Nat) (ep : Option Endpoint) (names : List String)
    (ip observer : String) (g : Graph) : Option (NodeKey × Graph) :=
  match ep with
  | none => some (⟨"unknown", "ip", ip⟩, g)
  | some ep =>
    if ep.namespace ≠ "" then some (workloadKey ep, g)
    else
      let (cidr, reserved) := scanLabels ep.labels
      if reserved = "" then
        if cidr ≠ "" then some (⟨reservedNamespace, "world", cidr⟩, g)
        else some (⟨"unknown", "ip", ip⟩, g)
      else if reserved = "world" ∨ reserved = "world-ipv4" ∨ reserved = "world-ipv6" then
        let name := match names with
          | name :: _ => name
          | [] => if cidr ≠ "" then cidr else "world"
        some (⟨reservedNamespace, "world", name⟩, g)
      else if reserved = "host" then
        if observer ≠ "" then
          (g.learnMachine ρ ip observer).map fun g => (⟨reservedNamespace, "node", observer⟩, g)
        else some (⟨reservedNamespace, "host", "host"⟩, g)
      else if reserved = "remote-node" then
        match g.nodeIPs.get? ip with
        | some name => some (⟨reservedNamespace, "node", name⟩, g)
        | none =>
          if ip ≠ "" then some (anchorKey ip, g)
          else some (⟨reservedNamespace, "remote-node", "remote-node"⟩, g)
      else some (⟨reservedNamespace, reserved, reserved⟩, g)

/-! ## Ingest -/

/-- The object that `touchNode` makes for a key it does not know. -/
def newNode (k : NodeKey) (labels : List String) (t : Time) (fqdn : Bool) : Node where
  key := k
  id := k.id
  labels := labelSubset labels
  fqdn := if fqdn then k.name else ""
  firstSeen := t
  lastSeen := zeroTime
  edges := 0
  machines := ∅
  machine := ""

/-- A node was seen at `t`. -/
def seen (t : Time) (n : Node) : Node :=
  { n with lastSeen := if n.lastSeen < t then t else n.lastSeen }

/-- `touchNode` -/
def touchNode (k : NodeKey) (labels : List String) (t : Time) (fqdn : Bool) (g : Graph) :
    Graph × Ref :=
  let id := k.id
  let (g, r) := match g.nodes.get? id with
    | some r => (g, r)
    | none => ({ g with
        heap := Function.update g.heap g.next (newNode k labels t fqdn)
        next := g.next + 1
        nodes := g.nodes.set id g.next
        newNodes := g.newNodes.set id g.next }, g.next)
  (g.update r (seen t), r)

/-- `n.machines[machine]++` -/
def countedOn (machine : String) (n : Node) : OrdMap String UInt32 :=
  n.machines.set machine ((n.machines.get? machine).getD 0 + 1)

/-- With one more sighting on it, `machine` becomes the machine of the node. -/
def movesTo (machine : String) (n : Node) : Bool :=
  let count := fun m => ((countedOn machine n).get? m).getD 0
  (count n.machine < count machine || n.machine = "") && n.machine ≠ machine

/-- `placeOn`: record that a workload's pod runs on `machine`; a change of the most
frequent machine is sent to the clients with the next tick. -/
def placeOn (r : Ref) (machine : String) (g : Graph) : Graph :=
  let n := g.heap r
  if machine = "" ∨ n.key.namespace = reservedNamespace ∨ n.key.namespace = "unknown" then g
  else
    let g := g.update r fun n => { n with machines := countedOn machine n }
    if movesTo machine n then
      let g := g.update r fun n => { n with machine := machine }
      if n.id ∈ g.newNodes then g else { g with dirtyNode := g.dirtyNode.set n.id r }
    else g

/-- The drop reason a flow adds to its edge. -/
def dropReason (f : Flow) (v : VerdictCode) : Option String :=
  match f.dropReasonDesc with
  | .unknown => none
  | .named name => if v = verdictDropped then some name else none

/-- The flow changes the details of its edge, so the next tick carries them. -/
def detailsChanged (f : Flow) (v : VerdictCode) : Bool :=
  (dropReason f v).isSome || f.l7.isSome

/-- What a flow does to the edge it lands on. -/
def countOnEdge (f : Flow) (t : Time) (v : VerdictCode) (e : Edge) : Option Edge :=
  (e.ring.add t.unix v).map fun ring => { e with
    counts := Function.update e.counts v (e.counts v + 1)
    lastSeen := if e.lastSeen < t then t else e.lastSeen
    ring := ring
    drops := match dropReason f v with
      | some reason => e.drops.add reason
      | none => e.drops
    l7 := match f.l7 with
      | some l7 => e.l7.observe l7
      | none => e.l7 }

/-- The edge object that `Ingest` makes for a key it does not know. -/
def newEdge (retention : Time) (ek : EdgeKey) : Edge where
  key := ek
  id := ek.id
  counts := fun _ => 0
  lastSeen := zeroTime
  drops := ∅
  l7 := {}
  ring := newRing (retention / second)

/-- The edge for `ek`, made when it is missing. -/
def touchEdge (ek : EdgeKey) (g : Graph) : Option (Graph × Edge) :=
  match g.edges.get? ek.id with
  | some e => some (g, e)
  | none => do
    let e := newEdge g.retention ek
    let g := { g with edges := g.edges.set ek.id e }
    let g ← g.addDegree ek.src.id 1
    let g ← g.addDegree ek.dst.id 1
    some (g, e)

/-- The part of `Ingest` from the edge on. -/
def countFlow (f : Flow) (t : Time) (v : VerdictCode) (ek : EdgeKey) (g : Graph) :
    Option Graph := do
  let (g, e) ← g.touchEdge ek
  let e ← countOnEdge f t v e
  let d := (g.dirty.get? ek.id).getD fun _ => 0
  some { g with
    edges := g.edges.set ek.id e
    dirtyL7 := if detailsChanged f v then g.dirtyL7.add ek.id else g.dirtyL7
    dirty := g.dirty.set ek.id (Function.update d v (d v + 1)) }

/-- `GetLabels()`, also of a missing endpoint. -/
def endpointLabels (ep : Option Endpoint) : List String := (ep.map (·.labels)).getD []

/-- The part of `Ingest` after the key derivation. -/
def addFlow (f : Flow) (v : VerdictCode) (src dst : NodeKey) (g : Graph) :
    Option (Graph × Result) :=
  let t := f.asTime
  let observer := observerName f.nodeName
  let (proto, port) := l4Key f.l4
  let ek : EdgeKey := ⟨src, dst, proto, port⟩
  let g := if src.namespace = "unknown" ∨ dst.namespace = "unknown" then
    { g with unknown := g.unknown + 1 } else g
  let (g, sn) := g.touchNode src (endpointLabels f.source) t (!f.sourceNames.isEmpty)
  let (g, dn) := g.touchNode dst (endpointLabels f.destination) t (!f.destinationNames.isEmpty)
  -- the agent that saw the flow runs on the source's machine for egress and on the
  -- destination's for ingress
  let g := match f.trafficDirection with
    | .egress => g.placeOn sn observer
    | .ingress => g.placeOn dn observer
    | .unknown => g
  (g.countFlow f t v ek).map fun g => (g, { edgeID := ek.id, verdict := v })

/-- Why a flow is ignored before its endpoints are looked at, or its verdict code. -/
def accept (f : Flow) : Except String VerdictCode :=
  if f.isReply then .error "reply"
  else match verdictCode f.verdict with
    | none => .error "verdict"
    | some v => if f.asTime = zeroTime then .error "time" else .ok v

/-- The keys of both sides of a flow, the source first; machines are learned on the way. -/
def endpointKeys (ρ : RangeOrder) (f : Flow) (g : Graph) :
    Option (NodeKey × NodeKey × Graph) := do
  let observer := observerName f.nodeName
  let (src, g) ← g.endpointKey (ρ 0) f.source f.sourceNames f.ip.source observer
  let (dst, g) ← g.endpointKey (ρ 1) f.destination f.destinationNames f.ip.destination observer
  some (src, dst, g)

/-- `Ingest` -/
def ingest (ρ : RangeOrder) (f : Flow) (g : Graph) : Option (Graph × Result) :=
  match accept f with
  | .error reason => some (g, { skipped := reason })
  | .ok v => do
    let (src, dst, g) ← g.endpointKeys ρ f
    if src = dst then some (g, { skipped := "self" }) else g.addFlow f v src dst

/-! ## LearnMachines -/

/-- Learn the entries of a loop, numbering the inner loops from `n` on. -/
def learnAll (ρ : RangeOrder) : Nat → List (String × String) → Graph → Option Graph
  | _, [], g => some g
  | n, (ip, name) :: rest, g => (g.learnMachine (ρ n) ip name).bind (learnAll ρ (n + 1) rest)

/-- `LearnMachines` -/
def learnMachines (ρ : RangeOrder) (addrs : OrdMap String String) (g : Graph) : Option Graph :=
  learnAll ρ 1 (addrs.range (ρ 0)) g

/-! ## Snapshot and tick -/

/-- `nodeJSON` -/
def nodeJSON (n : Node) : WireNode where
  id := n.id
  ns := n.key.namespace
  kind := n.key.kind
  name := n.key.name
  fqdn := n.fqdn
  machine := n.machine
  labels := n.labels
  first := n.firstSeen.unixMilli
  last := n.lastSeen.unixMilli

/-- `Edge.json` -/
def edgeJSON (e : Edge) (counts : Counters) (withL7 : Bool) : WireEdge where
  id := e.id
  src := e.key.src.id
  dst := e.key.dst.id
  proto := e.key.proto
  port := e.key.port
  counts := counts
  last := e.lastSeen.unixMilli
  latencyMs := if withL7 then e.l7.latency else 0
  l7 := if withL7 then e.l7.wire else none
  drops := if withL7 then e.drops else ∅
  buckets := []

/-- `sort.Slice` by id. -/
def sortNodes (l : List WireNode) : List WireNode := l.insertionSort fun a b => a.id ≤ b.id

/-- `sort.Slice` by id. -/
def sortEdges (l : List WireEdge) : List WireEdge := l.insertionSort fun a b => a.id ≤ b.id

/-- `Snapshot`: the whole graph with sparse buckets for the retention window. -/
def snapshot (ρ : RangeOrder) (now : Time) (g : Graph) : Snapshot where
  ts := now.unixMilli
  nodes := sortNodes ((g.nodes.range (ρ 0)).map fun p => nodeJSON (g.heap p.2))
  edges := sortEdges ((g.edges.range (ρ 1)).map fun p =>
    { edgeJSON p.2 p.2.counts true with
      buckets := p.2.ring.sparse (now - g.retention).unix })

/-- The body of the loop that expires idle nodes. -/
def expireNode (cutoff : Time) (g : Graph) (id : String) (r : Ref) : Graph :=
  if (g.heap r).edges ≤ 0 ∧ (g.heap r).lastSeen < cutoff then g.forgetNode id else g

/-- The loop of `Tick` over the nodes, as the range visits them. -/
def expireNodes (cutoff : Time) (l : List (String × Ref)) (g : Graph) : Graph :=
  l.foldl (fun g p => g.expireNode cutoff p.1 p.2) g

/-- The message of a tick: everything that changed since the previous one. -/
def delta (ρ : RangeOrder) (now : Time) (g : Graph) : Tick where
  ts := now.unixMilli
  nodes := sortNodes
    (((g.newNodes.range (ρ 2)).map fun p => nodeJSON (g.heap p.2)) ++
      ((g.dirtyNode.range (ρ 3)).filter fun p => p.1 ∉ g.newNodes).map fun p =>
        nodeJSON (g.heap p.2))
  edges := sortEdges ((g.dirty.range (ρ 4)).filterMap fun p =>
    (g.edges.get? p.1).map fun e => edgeJSON e p.2 (p.1 ∈ g.dirtyL7))
  gone := ⟨g.goneNodes, g.goneEdges⟩
  sparks := []

/-- Forget what the tick has reported. -/
def settle (g : Graph) : Graph :=
  { g with
    newNodes := ∅
    dirtyNode := ∅
    dirty := ∅
    dirtyL7 := ∅
    goneNodes := []
    goneEdges := [] }

/-- The part of `Tick` that expires idle edges and nodes. -/
def expire (ρ : RangeOrder) (now : Time) (g : Graph) : Option Graph := do
  let cutoff := now - g.retention
  let g ← dropEdges (fun e => e.lastSeen < cutoff) (g.edges.range (ρ 0)) g
  some (expireNodes cutoff (g.nodes.range (ρ 1)) g)

/-- `Tick`; the sparks are filled in by the hub. -/
def tick (ρ : RangeOrder) (now : Time) (g : Graph) : Option (Graph × Tick) :=
  (g.expire ρ now).map fun g => (g.settle, g.delta ρ now)

/-! ## Histories -/

/-- The calls that the rest of the program makes. -/
inductive Op where
  | ingest (ρ : RangeOrder) (f : Flow)
  | learnMachines (ρ : RangeOrder) (addrs : OrdMap String String)
  | tick (ρ : RangeOrder) (now : Time)
  | snapshot (ρ : RangeOrder) (now : Time)

/-- The state after a call. -/
def step (g : Graph) : Op → Option Graph
  | .ingest ρ f => (g.ingest ρ f).map Prod.fst
  | .learnMachines ρ addrs => g.learnMachines ρ addrs
  | .tick ρ now => (g.tick ρ now).map Prod.fst
  | .snapshot _ _ => some g

end Graph

end Flowscape
