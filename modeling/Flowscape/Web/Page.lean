import Mathlib.Analysis.SpecialFunctions.Log.Basic
import Flowscape.Web.Filters
import Flowscape.Web.NodeMesh

/-!
# Flowscape: the page (`web/src/main.ts`, `web/src/platforms.ts`, `web/src/theme.ts`)

`main.ts` puts the browser together. A message goes into the graph; a frame takes what has changed
since the last one and brings the layout, the platforms, the chips and the slots of the nodes and
the arcs up to date; the controls decide what of it is shown, which a refresh works out from the
rates of the edges.

* The particles, the selection and the detail panel have modules of their own.
* The clocks are inputs, and so is whether a refresh is due in a frame.
* `status` is the list of the unavailable machines; that there is none yet reads as an empty list.
* The rates are the exact quotients; `exp`, `log1p` and the colours are parameters.
-/

namespace Flowscape

/-! ## Source definitions -/

/-- What the page takes from the browser and from `theme.ts`. -/
structure Browser (K : Type*) where
  math : Math K
  exp : K → K
  log1p : K → K
  localeCompare : String → String → Int
  forwarded : Color K
  dropped : Color K
  audit : Color K
  error : Color K

/-- Exact real arithmetic, with the colours of the theme as a parameter. -/
noncomputable def Browser.real (localeCompare : String → String → Int)
    (forwarded dropped audit error : Color ℝ) : Browser ℝ where
  math := Math.real
  exp := Real.exp
  log1p := fun x => Real.log (1 + x)
  localeCompare := localeCompare
  forwarded := forwarded
  dropped := dropped
  audit := audit
  error := error

/-- `PlatformObjects`: where the disc of a platform is, and how it looks. -/
structure PlatformItem (K : Type*) where
  kind : GroupBy
  center : Vec3 K
  radius : K
  dimmed : Bool

/-- `Filters`; the sets of the hidden namespaces and machines are in the panel. -/
structure Filters where
  groupBy : GroupBy
  verdicts : VerdictCode → Bool
  /-- disabled protocols -/
  protocols : OrdSet String
  hideReserved : Bool
  windowSec : Nat
  paused : Bool

/-- What the page is made of, but for what the pointer is on. -/
structure Page (K : Type*) where
  state : GraphState
  layout : Layout K
  /-- `platforms.items` -/
  platforms : OrdMap String (PlatformItem K)
  nodes : NodeMesh K
  edges : Edges K
  filters : Filters
  panel : FiltersPanel
  machines : OrdSet String
  /-- `status?.unavailable ?? []` -/
  unavailable : List String
  membershipDirty : Bool
  rates : OrdMap String (VerdictCode → K)

/-- What a refresh has worked out so far. -/
structure Refresh (K : Type*) where
  edges : Edges K
  rates : OrdMap String (VerdictCode → K)
  activity : OrdMap String K

/-- What the reader does with the controls. -/
inductive Control where
  | groupBy (mode : GroupBy)
  | namespace (ns : String) (alt : Bool)
  | machine (name : String)
  | verdict (v : VerdictCode)
  | protocol (proto : String)
  | reserved (checked : Bool)
  | window (seconds : Nat)
  | pause

/-- The clocks of a frame. -/
structure Clock (K : Type*) where
  nowSec : Int
  nowMs : Int
  /-- Seconds since the last frame. -/
  dt : K
  /-- A quarter of a second has passed since the last refresh. -/
  due : Bool
  /-- The layout changed a moment ago. -/
  moving : Bool

/-- `id.split("/")[0]` -/
def firstPart (id : String) : String := String.ofList (id.toList.takeWhile (· ≠ '/'))

/-- `samePlatform`: two workloads share a platform in the current grouping. -/
def samePlatform (mode : GroupBy) (nodes : OrdMap String NodeState) (src dst : String) : Bool :=
  match nodes.get? src, nodes.get? dst with
  | some a, some b =>
    if a.ns = "reserved" ∨ b.ns = "reserved" then false else groupOf mode a = groupOf mode b
  | _, _ => firstPart src = firstPart dst

/-- The machines of the graph: those that workloads run on, and the anchors. -/
def addMachine (machines : OrdSet String) (n : NodeState) : OrdSet String :=
  let machines := if n.machine ≠ "" then machines.add n.machine else machines
  if n.ns = "reserved" ∧ n.kind = "node" then machines.add n.name else machines

/-- The namespaces of the workloads. -/
def namespacesOf (nodes : OrdMap String NodeState) : List String :=
  (nodes.values.filter fun n => n.ns ≠ "reserved").map (·.ns)

namespace Platforms

variable {K : Type*} [Zero K]

/-- The platform of the layout has gone, or stands for something else now. -/
def stale (L : Layout K) (key : String) (item : PlatformItem K) : Bool :=
  match L.platforms.get? key with
  | none => true
  | some p => p.kind ≠ item.kind

/-- One round of the second loop of `sync`. -/
def put (items : OrdMap String (PlatformItem K)) (p : Platform K) :
    OrdMap String (PlatformItem K) :=
  let item := (items.get? p.group).getD ⟨p.kind, p.center, p.radius, false⟩
  items.set p.group { item with center := ⟨p.center.x, 0, p.center.z⟩, radius := p.radius }

/-- `sync` -/
def sync (items : OrdMap String (PlatformItem K)) (L : Layout K) :
    OrdMap String (PlatformItem K) :=
  let gone := (items.entries.filter fun e => stale L e.1 e.2).map Prod.fst
  L.platforms.values.foldl put (gone.foldl OrdMap.erase items)

/-- `setDimmed` -/
def setDimmed (items : OrdMap String (PlatformItem K)) (group : String) (dimmed : Bool) :
    OrdMap String (PlatformItem K) :=
  items.modify group fun item => { item with dimmed := dimmed }

end Platforms

section

variable {K : Type*} [Field K] [LinearOrder K]

/-- `verdictColor`: blend the verdict colours by their share of an edge's traffic. -/
def verdictColor (B : Browser K) (v : VerdictCode → K) : Color K :=
  let f := v verdictForwarded
  let d := v verdictDropped
  let a := v verdictAudit
  let e := v verdictError
  let total := f + d + a + e
  if total ≤ 0 then B.forwarded
  else
    { r := B.forwarded.r * (f / total) +
        (B.dropped.r * d + B.audit.r * a + B.error.r * e) / total
      g := B.forwarded.g * (f / total) +
        (B.dropped.g * d + B.audit.g * a + B.error.g * e) / total
      b := B.forwarded.b * (f / total) +
        (B.dropped.b * d + B.audit.b * a + B.error.b * e) / total }

namespace Page

/-- The page before its first message. -/
def start : Page K where
  state := GraphState.new 300
  layout := Layout.new
  platforms := ∅
  nodes := NodeMesh.new
  edges := Edges.new Edges.capacity
  filters :=
    { groupBy := .ns
      verdicts := fun _ => true
      protocols := ∅
      hideReserved := false
      windowSec := 60
      paused := false }
  panel := FiltersPanel.new
  machines := ∅
  unavailable := []
  membershipDirty := false
  rates := ∅

/-! ### Messages -/

/-- A greeting sets how many seconds are kept. -/
def onHello (p : Page K) (m : Hello) : Page K :=
  { p with state := { p.state with retention := m.retentionS } }

/-- A snapshot replaces what is known. -/
def onSnapshot (p : Page K) (m : Snapshot) : Page K :=
  { p with state := p.state.applySnapshot m }

/-- A tick, with the machines that its status line calls unavailable. -/
def onTick (p : Page K) (t : Tick) (unavailable : List String) : Page K :=
  { p with
    state := p.state.applyTick t
    unavailable := unavailable
    nodes := p.nodes.setUnavailable unavailable
    panel := if unavailable ≠ [] then p.panel.syncMachines p.machines.keys unavailable
      else p.panel }

/-! ### Changes -/

/-- The two loops that take what has gone out of the scene. -/
def removeGone (p : Page K) (c : Changes) : Page K :=
  { p with
    edges := c.removedEdges.foldl Edges.remove p.edges
    nodes := c.removedNodes.foldl NodeMesh.remove p.nodes }

/-- The loop over `touchedNodes`. -/
def showMachine (s : GraphState) (nodes : NodeMesh K) (id : String) : NodeMesh K :=
  match s.nodes.get? id with
  | none => nodes
  | some n => if n.machine ≠ "" then nodes.setMachine id n.machine else nodes

/-- The loop over `layout.targets`. -/
def placeNode (s : GraphState) (nodes : NodeMesh K) (e : String × Vec3 K) : NodeMesh K :=
  if nodes.has e.1 then nodes.setTarget e.1 e.2
  else match s.nodes.get? e.1 with
    | none => nodes
    | some n => nodes.add n e.2

/-- What a change of the membership calls for. -/
def relayout (B : Browser K) (p : Page K) : Page K :=
  let layout := p.layout.rebuild B.math B.localeCompare p.state.nodes
  let machines := p.state.nodes.values.foldl addMachine ∅
  { p with
    layout := layout
    platforms := Platforms.sync p.platforms layout
    machines := machines
    panel := (p.panel.syncMachines machines.keys p.unavailable).syncNamespaces
      (namespacesOf p.state.nodes)
    edges := p.edges.setSame (samePlatform layout.groupBy p.state.nodes) p.state.edges
    nodes := layout.targets.entries.foldl (placeNode p.state) p.nodes
    membershipDirty := false }

/-- The loop over `addedEdges`. -/
def addArc (mode : GroupBy) (s : GraphState) (edges : Edges K) (id : String) : Edges K :=
  match s.edges.get? id with
  | none => edges
  | some e => edges.add Edges.capacity e.id (samePlatform mode s.nodes e.src e.dst)

/-- Whether the changes call for another layout. -/
def callsForLayout (p : Page K) (c : Changes) : Bool :=
  p.membershipDirty || !c.addedNodes.isEmpty || !c.removedNodes.isEmpty || c.reset ||
    (!c.touchedNodes.isEmpty && decide (p.layout.groupBy = .machine))

/-- `applyChanges`, up to its sparks. -/
def applyChanges (B : Browser K) (p : Page K) : Page K :=
  let (c, s) := p.state.consume
  let dirty := p.callsForLayout c
  let p := { p with state := s }
  let p := if c.reset then p.removeGone c else p
  let p := p.removeGone c
  let p := { p with nodes := c.touchedNodes.foldl (showMachine s) p.nodes }
  let p := if dirty then p.relayout B else p
  { p with edges := c.addedEdges.foldl (addArc p.layout.groupBy s) p.edges }

/-! ### What is shown -/

/-- `machineAnchorHidden`: a reserved machine anchor whose machine chip is switched off. -/
def machineAnchorHidden (p : Page K) (id : String) : Bool :=
  match p.state.nodes.get? id with
  | none => false
  | some n => n.ns = "reserved" ∧ n.kind = "node" ∧ n.name ∈ p.panel.machines

/-- Whether an edge with so much traffic is hidden. -/
def edgeHidden (p : Page K) (e : EdgeState) (total : K) : Bool :=
  let srcNs := firstPart e.src
  let dstNs := firstPart e.dst
  srcNs ∈ p.panel.namespaces || dstNs ∈ p.panel.namespaces ||
    p.nodes.machineOf e.src ∈ p.panel.machines || p.nodes.machineOf e.dst ∈ p.panel.machines ||
    (p.panel.machines.size > 0 && (p.machineAnchorHidden e.src || p.machineAnchorHidden e.dst)) ||
    e.proto ∈ p.filters.protocols ||
    (p.filters.hideReserved && (srcNs = "reserved" || dstNs = "reserved")) ||
    total = 0

/-- `nodeHidden` -/
def nodeHidden (p : Page K) (n : NodeState) : Bool :=
  n.ns ∈ p.panel.namespaces || (p.filters.hideReserved && n.ns = "reserved") ||
    (n.machine ≠ "" && n.machine ∈ p.panel.machines) || p.machineAnchorHidden n.id

/-- The rate of an edge by verdict, as far as the verdict is shown. -/
def shownRate (p : Page K) (nowSec : Int) (e : EdgeState) : VerdictCode → K := fun v =>
  if p.filters.verdicts v then (p.state.rate e p.filters.windowSec nowSec v : ℚ) else 0

/-- `v[0] + v[1] + v[2] + v[3]` -/
def total (v : VerdictCode → K) : K :=
  v verdictForwarded + v verdictDropped + v verdictAudit + v verdictError

/-- `activity.set(id, Math.max(activity.get(id) ?? 0, a))` -/
def raise (activity : OrdMap String K) (id : String) (a : K) : OrdMap String K :=
  activity.set id (max ((activity.get? id).getD 0) a)

/-- How bright the traffic of an edge makes its ends. -/
def glow (B : Browser K) (total : K) : K := min 1 (B.log1p total / 3.5)

/-- The body of the loop over the edges. -/
def refreshEdge (B : Browser K) (p : Page K) (c : Clock K) (r : Refresh K) (e : EdgeState) :
    Refresh K :=
  let v := p.shownRate c.nowSec e
  let hidden := p.edgeHidden e (total v)
  let idle : K := max 0 (((c.nowMs - e.last : Int) : K) / 1000.0)
  let alpha := 0.18 + 0.82 * B.exp (-idle / 25.0)
  { rates := r.rates.set e.id v
    edges := ((r.edges.setHidden e.id hidden).setRate Edges.capacity e.id (total v)).setColor e.id
      (verdictColor B v) alpha
    activity := if hidden then r.activity
      else raise (raise r.activity e.src (glow B (total v))) e.dst (glow B (total v)) }

/-- The body of the loop over the nodes. -/
def refreshNode (p : Page K) (activity : OrdMap String K) (nodes : NodeMesh K) (n : NodeState) :
    NodeMesh K :=
  (nodes.setHidden n.id (p.nodeHidden n)).setActivity n.id ((activity.get? n.id).getD 0)

/-- The body of the loop over the platforms. -/
def refreshPlatform (p : Page K) (items : OrdMap String (PlatformItem K)) (q : Platform K) :
    OrdMap String (PlatformItem K) :=
  Platforms.setDimmed items q.group (match q.kind with
    | .ns => q.group ∈ p.panel.namespaces
    | .machine => q.group ∈ p.panel.machines)

/-- `refreshRates`, when it is due. -/
def refreshRates (B : Browser K) (p : Page K) (c : Clock K) : Page K :=
  let r := p.state.edges.values.foldl (refreshEdge B p c) ⟨p.edges, p.rates, ∅⟩
  { p with
    rates := r.rates
    edges := r.edges
    nodes := p.state.nodes.values.foldl (refreshNode p r.activity) p.nodes
    platforms := p.layout.platforms.values.foldl (refreshPlatform p) p.platforms }

/-! ### Frames and controls -/

/-- A frame, up to the sparks. -/
def frame (B : Browser K) (p : Page K) (c : Clock K) : Page K :=
  let p := p.applyChanges B
  let p := if c.due then p.refreshRates B c else p
  let p := { p with nodes := p.nodes.update c.dt }
  { p with edges := p.edges.update B.math p.state.edges p.nodes.positionOf c.moving }

/-- What a control does to the filters. Only a chip that is there can be clicked. -/
def use (p : Page K) : Control → Option (Page K)
  | .groupBy mode => some { p with filters := { p.filters with groupBy := mode } }
  | .namespace ns alt =>
    (FiltersPanel.step p.panel (.clickNamespace ns alt)).map fun panel => { p with panel }
  | .machine name =>
    (FiltersPanel.step p.panel (.clickMachine name)).map fun panel => { p with panel }
  | .verdict v => some { p with filters := { p.filters with
      verdicts := Function.update p.filters.verdicts v (!p.filters.verdicts v) } }
  | .protocol proto => some { p with filters := { p.filters with
      protocols := FiltersPanel.flip p.filters.protocols proto } }
  | .reserved checked => some { p with filters := { p.filters with hideReserved := checked } }
  | .window seconds => some { p with filters := { p.filters with windowSec := seconds } }
  | .pause => some { p with filters := { p.filters with paused := !p.filters.paused } }

/-- `filters.onChange` -/
def onChange (B : Browser K) (p : Page K) (c : Clock K) : Page K :=
  let p := if p.layout.groupBy ≠ p.filters.groupBy then
      applyChanges B { p with
        layout := { p.layout with groupBy := p.filters.groupBy }
        membershipDirty := true }
    else p
  p.refreshRates B c

/-- What happens to the page. -/
inductive Input (K : Type*) where
  | hello (m : Hello)
  | snapshot (m : Snapshot)
  | tick (t : Tick) (unavailable : List String)
  | frame (c : Clock K)
  | control (u : Control) (c : Clock K)

/-- One input: a message, a frame, or a control and the change it makes. -/
def step (B : Browser K) (p : Page K) : Input K → Option (Page K)
  | .hello m => some (p.onHello m)
  | .snapshot m => some (p.onSnapshot m)
  | .tick t unavailable => some (p.onTick t unavailable)
  | .frame c => some (p.frame B c)
  | .control u c => (p.use u).map fun p => p.onChange B c

end Page

end

end Flowscape
