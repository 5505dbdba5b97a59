import Flowscape.Hub.Status
import Flowscape.Lib.JsonRecord
import Flowscape.Web.Page

/-!
# Flowscape: the messages as text (`internal/protocol/protocol.go`, `web/src/protocol.ts`)

The hub marshals a message by the tags of its struct: a field with `omitempty` is left out when it
has its zero value, and the keys of a map are sorted. The browser parses the text and reads the
message by the interfaces that mirror the structs, where a field that may be absent is optional.

* The two sides have binary64 numbers for latencies and rates, and the browser has them for the
  counters too; what its parser makes of a number is a parameter (`Json.Numbers`).
* A message that does not have the type of its interface is `none` here; the code does not check.
* The maps of a message are plain objects in the browser, which list their properties in an order
  of their own (`Json.propertyOrder`): a label or a status code that looks like an array index comes
  first. The detail panel shows the entries in this order.
-/

namespace Flowscape

open Json

/-! ## Source definitions -/

/-- A message as it is sent, a tick with its status line. -/
inductive Sent where
  | hello (m : Hello)
  | snapshot (m : Snapshot)
  | tick (m : Tick) (status : Hub.StatusLine)

namespace Wire

/-- A field with the tag `omitempty`. -/
def omitempty (empty : Bool) (v : Value) : Option Value := if empty then none else some v

/-- A whole number, as `encoding/json` writes it. -/
def int (n : Int) : Value := .num (Numeral.ofInt n)

/-- A `[]string` -/
def strings (l : List String) : Value := .arr (l.map .str)

/-- The entries of a map in the order of their keys. -/
def byKey {α : Type*} (m : OrdMap String α) : List (String × α) :=
  Sorting.sort (Sorting.byKey Prod.fst) m.entries

/-- A `map[string]T`: its keys come sorted. -/
def mapValue {α : Type*} (f : α → Value) (m : OrdMap String α) : Value :=
  .obj ((byKey m).map fun e => (e.1, f e.2))

/-- A `uint32` counter. -/
def count (n : UInt32) : Value := int n.toNat

/-! ### What the hub writes -/

/-- `Hello` -/
def helloJson (m : Hello) : Value :=
  record [
    ("t", some (.str "hello")),
    ("version", some (.str m.version)),
    ("source", some (.str m.source)),
    ("retention_s", some (int m.retentionS)),
    ("window_s", some (int m.windowS)),
    ("tick_ms", some (int m.tickMs)),
    ("server_time", some (int m.serverTime))]

/-- `Node` -/
def nodeJson (n : WireNode) : Value :=
  record [
    ("id", some (.str n.id)),
    ("ns", some (.str n.ns)),
    ("kind", some (.str n.kind)),
    ("name", some (.str n.name)),
    ("fqdn", omitempty (n.fqdn = "") (.str n.fqdn)),
    ("machine", omitempty (n.machine = "") (.str n.machine)),
    ("labels", omitempty (n.labels.size = 0) (mapValue .str n.labels)),
    ("first", some (int n.first)),
    ("last", some (int n.last))]

/-- `[5]int64`: the second and a counter for each verdict. -/
def bucketJson (b : Bucket) : Value :=
  .arr [int b.sec, int (b.counts verdictForwarded), int (b.counts verdictDropped),
    int (b.counts verdictAudit), int (b.counts verdictError)]

/-- `L7` -/
def l7Json (m : L7) : Value :=
  record [
    ("http", omitempty (m.http.size = 0) (mapValue count m.http)),
    ("dns", omitempty (m.dns.size = 0) (mapValue count m.dns)),
    ("status", omitempty (m.status = 0) (int m.status))]

/-- `Edge` -/
def edgeJson (N : Numbers) (e : WireEdge) : Value :=
  record [
    ("id", some (.str e.id)),
    ("src", some (.str e.src)),
    ("dst", some (.str e.dst)),
    ("proto", some (.str e.proto)),
    ("port", some (int e.port)),
    ("f", some (int (e.counts verdictForwarded))),
    ("d", some (int (e.counts verdictDropped))),
    ("a", some (int (e.counts verdictAudit))),
    ("e", some (int (e.counts verdictError))),
    ("last", some (int e.last)),
    ("latency_ms", omitempty (e.latencyMs = 0) (.num (N.format e.latencyMs))),
    ("l7", e.l7.map l7Json),
    ("drops", omitempty (e.drops.size = 0) (mapValue count e.drops)),
    ("buckets", omitempty e.buckets.isEmpty (.arr (e.buckets.map bucketJson)))]

/-- `Snapshot` -/
def snapshotJson (N : Numbers) (m : Snapshot) : Value :=
  record [
    ("t", some (.str "snapshot")),
    ("ts", some (int m.ts)),
    ("nodes", some (.arr (m.nodes.map nodeJson))),
    ("edges", some (.arr (m.edges.map (edgeJson N))))]

/-- `Spark` -/
def sparkJson (s : Spark) : Value :=
  record [("e", some (.str s.e)), ("v", some (int s.v))]

/-- `Gone` -/
def goneJson (g : Gone) : Value :=
  record [
    ("nodes", omitempty g.nodes.isEmpty (strings g.nodes)),
    ("edges", omitempty g.edges.isEmpty (strings g.edges))]

/-- `Status` -/
def statusJson (N : Numbers) (s : Hub.StatusLine) : Value :=
  record [
    ("source", some (.str s.source)),
    ("relay", some (.str s.relay)),
    ("unavailable", omitempty s.unavailable.isEmpty (strings s.unavailable)),
    ("flows_s", some (.num (N.format s.flowsPerS))),
    ("clients", some (int s.clients))]

/-- `Tick` -/
def tickJson (N : Numbers) (t : Tick) (status : Hub.StatusLine) : Value :=
  record [
    ("t", some (.str "tick")),
    ("ts", some (int t.ts)),
    ("nodes", omitempty t.nodes.isEmpty (.arr (t.nodes.map nodeJson))),
    ("edges", omitempty t.edges.isEmpty (.arr (t.edges.map (edgeJson N)))),
    ("gone", some (goneJson t.gone)),
    ("sparks", omitempty t.sparks.isEmpty (.arr (t.sparks.map sparkJson))),
    ("status", some (statusJson N status))]

/-- A message of any of the three kinds. -/
def sentJson (N : Numbers) : Sent → Value
  | .hello m => helloJson m
  | .snapshot m => snapshotJson N m
  | .tick m status => tickJson N m status

/-- `json.Marshal` -/
def marshal (N : Numbers) (m : Sent) : List Char := write (sentJson N m)

/-! ### What the browser reads -/

section

variable (N : Numbers)

/-- An object with the properties of a text. Of two with one name the later one stays. -/
def object {α : Type*} (l : List (String × α)) : OrdMap String α :=
  (∅ : OrdMap String α).setAll (propertyOrder ((∅ : OrdMap String α).setAll l).entries)

/-- A record of strings or of counts. -/
def readMap {α : Type*} (read : Value → Option α) (v : Value) : Option (OrdMap String α) :=
  (v.fieldsOf read).map object

/-- A counter is a whole number. -/
def readCount (v : Value) : Option UInt32 := (N.nat v).map UInt32.ofNat

/-- A greeting, as the page reads it. -/
def readHello (v : Value) : Option Hello := do
  let version ← v.get "version" Value.toStr?
  let source ← v.get "source" Value.toStr?
  let retentionS ← v.get "retention_s" N.nat
  let windowS ← v.get "window_s" N.nat
  let tickMs ← v.get "tick_ms" N.nat
  let serverTime ← v.get "server_time" N.int
  some { version, source, retentionS, windowS, tickMs, serverTime }

/-- A node: what is left out is read as empty. -/
def readNode (v : Value) : Option WireNode := do
  let id ← v.get "id" Value.toStr?
  let ns ← v.get "ns" Value.toStr?
  let kind ← v.get "kind" Value.toStr?
  let name ← v.get "name" Value.toStr?
  let fqdn ← v.getD "fqdn" Value.toStr? ""
  let machine ← v.getD "machine" Value.toStr? ""
  let labels ← v.getD "labels" (readMap Value.toStr?) ∅
  let first ← v.get "first" N.int
  let last ← v.get "last" N.int
  some { id, ns, kind, name, fqdn, machine, labels, first, last }

/-- A tuple of five numbers. -/
def readBucket (v : Value) : Option Bucket := do
  match ← v.toItems? with
  | [sec, f, d, a, e] => do
    let sec ← N.int sec
    let f ← N.nat f
    let d ← N.nat d
    let a ← N.nat a
    let e ← N.nat e
    some ⟨sec, ![f, d, a, e]⟩
  | _ => none

/-- The requests of an edge. -/
def readL7 (v : Value) : Option L7 := do
  let http ← v.getD "http" (readMap (readCount N)) ∅
  let dns ← v.getD "dns" (readMap (readCount N)) ∅
  let status ← v.getD "status" N.nat 0
  some { http, dns, status }

/-- An edge. -/
def readEdge (v : Value) : Option WireEdge := do
  let id ← v.get "id" Value.toStr?
  let src ← v.get "src" Value.toStr?
  let dst ← v.get "dst" Value.toStr?
  let proto ← v.get "proto" Value.toStr?
  let port ← v.get "port" N.nat
  let f ← v.get "f" N.nat
  let d ← v.get "d" N.nat
  let a ← v.get "a" N.nat
  let e ← v.get "e" N.nat
  let last ← v.get "last" N.int
  let latencyMs ← v.getD "latency_ms" N.number 0
  let l7 ← v.getD "l7" (fun w => (readL7 N w).map some) none
  let drops ← v.getD "drops" (readMap (readCount N)) ∅
  let buckets ← v.getD "buckets" (Value.listOf (readBucket N)) []
  some { id, src, dst, proto, port, counts := ![f, d, a, e], last, latencyMs, l7, drops, buckets }

/-- A snapshot. -/
def readSnapshot (v : Value) : Option Snapshot := do
  let ts ← v.get "ts" N.int
  let nodes ← v.get "nodes" (Value.listOf (readNode N))
  let edges ← v.get "edges" (Value.listOf (readEdge N))
  some { ts, nodes, edges }

/-- A verdict is one of four. -/
def readVerdict (v : Value) : Option VerdictCode :=
  (N.nat v).bind fun n => if h : n < 4 then some ⟨n, h⟩ else none

/-- A spark. -/
def readSpark (v : Value) : Option Spark := do
  let e ← v.get "e" Value.toStr?
  let code ← v.get "v" (readVerdict N)
  some ⟨e, code⟩

/-- The ids that are gone. -/
def readGone (v : Value) : Option Gone := do
  let nodes ← v.getD "nodes" (Value.listOf Value.toStr?) []
  let edges ← v.getD "edges" (Value.listOf Value.toStr?) []
  some ⟨nodes, edges⟩

/-- The status line. -/
def readStatus (v : Value) : Option Hub.StatusLine := do
  let source ← v.get "source" Value.toStr?
  let relay ← v.get "relay" Value.toStr?
  let unavailable ← v.getD "unavailable" (Value.listOf Value.toStr?) []
  let flowsPerS ← v.get "flows_s" N.number
  let clients ← v.get "clients" N.nat
  some { source, relay, unavailable, flowsPerS, clients }

/-- A tick with its status line. -/
def readTick (v : Value) : Option (Tick × Hub.StatusLine) := do
  let ts ← v.get "ts" N.int
  let nodes ← v.getD "nodes" (Value.listOf (readNode N)) []
  let edges ← v.getD "edges" (Value.listOf (readEdge N)) []
  let gone ← v.get "gone" readGone
  let sparks ← v.getD "sparks" (Value.listOf (readSpark N)) []
  let status ← v.get "status" (readStatus N)
  some (⟨ts, nodes, edges, gone, sparks⟩, status)

/-- The branches of `onMessage`. -/
def readMessage (v : Value) : Option Sent := do
  let t ← v.get "t" Value.toStr?
  if t = "hello" then (readHello N v).map .hello
  else if t = "snapshot" then (readSnapshot N v).map .snapshot
  else (readTick N v).map fun p => .tick p.1 p.2

/-- `JSON.parse(ev.data) as Message` -/
def parse (text : List Char) : Option Sent := (Json.read text).bind (readMessage N)

end

/-! ## A message as the browser has it -/

/-- The map as an object of the browser. -/
def objectOf {α : Type*} (m : OrdMap String α) : OrdMap String α := object (byKey m)

/-- A node as the browser has it: its labels are an object. -/
def browserNode (n : WireNode) : WireNode := { n with labels := objectOf n.labels }

/-- The requests of an edge as the browser has them. -/
def browserL7 (m : L7) : L7 := { m with http := objectOf m.http, dns := objectOf m.dns }

def browserEdge (e : WireEdge) : WireEdge :=
  { e with l7 := e.l7.map browserL7, drops := objectOf e.drops }

/-- A snapshot as the browser has it. -/
def browserSnapshot (m : Snapshot) : Snapshot :=
  { m with nodes := m.nodes.map browserNode, edges := m.edges.map browserEdge }

/-- A tick as the browser has it. -/
def browserTick (t : Tick) : Tick :=
  { t with nodes := t.nodes.map browserNode, edges := t.edges.map browserEdge }

/-- The message as the browser has it: with each of its maps as an object. -/
def inBrowser : Sent → Sent
  | .hello m => .hello m
  | .snapshot m => .snapshot (browserSnapshot m)
  | .tick m status => .tick (browserTick m) status

theorem perm_byKey {α : Type*} (m : OrdMap String α) : (byKey m).Perm m.entries :=
  Sorting.perm_sort _ _

theorem nodup_byKey {α : Type*} (m : OrdMap String α) : ((byKey m).map Prod.fst).Nodup :=
  ((perm_byKey m).map Prod.fst).nodup_iff.2 m.nodup

theorem entries_objectOf {α : Type*} (m : OrdMap String α) :
    (objectOf m).entries = propertyOrder (byKey m) := by
  have htext : ((∅ : OrdMap String α).setAll (byKey m)).entries = byKey m :=
    OrdMap.entries_setAll_empty (nodup_byKey m)
  rw [objectOf, object, htext]
  exact OrdMap.entries_setAll_empty
    (((perm_propertyOrder _).map Prod.fst).nodup_iff.2 (nodup_byKey m))

/-- It is the same map. -/
theorem get?_objectOf {α : Type*} (m : OrdMap String α) (k : String) :
    (objectOf m).get? k = m.get? k := by
  refine Option.ext fun v => ?_
  rw [← OrdMap.mem_entries, ← OrdMap.mem_entries, entries_objectOf,
    (perm_propertyOrder _).mem_iff, (perm_byKey m).mem_iff]

/-! ### Numbers that the browser has -/

/-- A whole number that binary64 has, up to the size of its mantissa. -/
def Safe (n : Int) : Prop := n.natAbs ≤ 2 ^ 53

instance (n : Int) : Decidable (Safe n) := inferInstanceAs (Decidable (n.natAbs ≤ 2 ^ 53))

/-- The numbers of a greeting are ones that a double can tell apart. -/
structure SafeHello (m : Hello) : Prop where
  retentionS : Safe m.retentionS
  windowS : Safe m.windowS
  tickMs : Safe m.tickMs
  serverTime : Safe m.serverTime

/-- The numbers of a node are such numbers. -/
structure SafeNode (n : WireNode) : Prop where
  first : Safe n.first
  last : Safe n.last

structure SafeBucket (b : Bucket) : Prop where
  sec : Safe b.sec
  counts : ∀ v, Safe (b.counts v)

/-- The numbers of an edge are such numbers. -/
structure SafeEdge (e : WireEdge) : Prop where
  port : Safe e.port
  counts : ∀ v, Safe (e.counts v)
  last : Safe e.last
  latencyMs : Double e.latencyMs
  l7 : ∀ m ∈ e.l7, Safe m.status
  buckets : ∀ b ∈ e.buckets, SafeBucket b

structure SafeSnapshot (m : Snapshot) : Prop where
  ts : Safe m.ts
  nodes : ∀ n ∈ m.nodes, SafeNode n
  edges : ∀ e ∈ m.edges, SafeEdge e

structure SafeStatus (s : Hub.StatusLine) : Prop where
  flowsPerS : Double s.flowsPerS
  clients : Safe s.clients

/-- The numbers of a tick are such numbers. -/
structure SafeTick (t : Tick) : Prop where
  ts : Safe t.ts
  nodes : ∀ n ∈ t.nodes, SafeNode n
  edges : ∀ e ∈ t.edges, SafeEdge e

/-- The browser has all the numbers of the message. -/
def SafeSent : Sent → Prop
  | .hello m => SafeHello m
  | .snapshot m => SafeSnapshot m
  | .tick m status => SafeTick m ∧ SafeStatus status

/-! ### Fields -/

section

variable {α : Type*} {v w : Value} {k : String} {read : Value → Option α} {a absent : α}

theorem get_eq_some (hfield : v.field k = some w) (hread : read w = some a) :
    v.get k read = some a := by
  rw [Value.get, hfield]
  exact hread

/-- A field that is left out when it is empty reads as if it were there. -/
theorem getD_eq_some {empty : Bool} (hfield : v.field k = omitempty empty w)
    (hempty : empty = true → absent = a) (hread : read w = some a) :
    v.getD k read absent = some a := by
  rw [Value.getD, hfield]
  cases empty with
  | true => exact congrArg some (hempty rfl)
  | false => exact hread

end

/-! ### Maps and lists -/

theorem mapM_eq_some {α β : Type*} {f : α → β} {read : β → Option α} {l : List α}
    (h : ∀ a ∈ l, read (f a) = some a) : (l.map f).mapM read = some l := by
  have hmap : (l.map f).mapM read = some (l.map id) := mapM_map_eq_some h
  rwa [List.map_id] at hmap

/-- **A map is read back as the object of its entries.** -/
theorem readMap_mapValue {α : Type*} {f : α → Value} {read : Value → Option α}
    (h : ∀ a, read (f a) = some a) (m : OrdMap String α) :
    readMap read (mapValue f m) = some (objectOf m) := by
  have hfields : (mapValue f m).fieldsOf read = some (byKey m) := by
    refine mapM_eq_some (f := fun e : String × α => (e.1, f e.2)) fun e _ => ?_
    rw [h]
    rfl
  rw [readMap, hfields]
  rfl

theorem objectOf_of_size {α : Type*} {m : OrdMap String α} (h : m.size = 0) : ∅ = objectOf m := by
  rw [OrdMap.size_eq_zero_iff.1 h]
  rfl

theorem strings_eq_some (l : List String) : (strings l).listOf Value.toStr? = some l :=
  mapM_eq_some fun _ _ => rfl

variable {N : Numbers}

theorem int_int {n : Int} (h : Safe n) : N.int (int n) = some n := Numbers.int_ofInt h

theorem nat_int {n : Nat} (h : Safe n) : N.nat (int n) = some n :=
  Numbers.nat_ofInt (by simpa [Safe] using h)

theorem readCount_count (n : UInt32) : readCount N (count n) = some n := by
  have hsafe : Safe (n.toNat : Int) := by
    have hlt := n.toNat_lt
    simp only [Safe, Int.natAbs_natCast]
    omega
  rw [readCount, count, nat_int hsafe, Option.map_some, UInt32.ofNat_toNat]

/-! ## What is written reads back -/

/-- A greeting is read back. -/
theorem readHello_helloJson {m : Hello} (h : SafeHello m) :
    readHello N (helloJson m) = some m := by
  have hfield : ∀ k, (helloJson m).field k = _ := field_record (by simp)
  have hversion : (helloJson m).get "version" Value.toStr? = some m.version :=
    get_eq_some (hfield _) rfl
  have hsource : (helloJson m).get "source" Value.toStr? = some m.source :=
    get_eq_some (hfield _) rfl
  have hretention : (helloJson m).get "retention_s" N.nat = some m.retentionS :=
    get_eq_some (hfield _) (nat_int h.retentionS)
  have hwindow : (helloJson m).get "window_s" N.nat = some m.windowS :=
    get_eq_some (hfield _) (nat_int h.windowS)
  have htick : (helloJson m).get "tick_ms" N.nat = some m.tickMs :=
    get_eq_some (hfield _) (nat_int h.tickMs)
  have htime : (helloJson m).get "server_time" N.int = some m.serverTime :=
    get_eq_some (hfield _) (int_int h.serverTime)
  simp only [readHello, hversion, hsource, hretention, hwindow, htick, htime,
    Option.bind_eq_bind, Option.bind_some]

theorem readNode_nodeJson {n : WireNode} (h : SafeNode n) :
    readNode N (nodeJson n) = some (browserNode n) := by
  have hfield : ∀ k, (nodeJson n).field k = _ := field_record (by simp)
  have hid : (nodeJson n).get "id" Value.toStr? = some n.id := get_eq_some (hfield _) rfl
  have hns : (nodeJson n).get "ns" Value.toStr? = some n.ns := get_eq_some (hfield _) rfl
  have hkind : (nodeJson n).get "kind" Value.toStr? = some n.kind := get_eq_some (hfield _) rfl
  have hname : (nodeJson n).get "name" Value.toStr? = some n.name := get_eq_some (hfield _) rfl
  -- an empty name, an empty machine and no labels are left out, and are the defaults
  have hfqdn : (nodeJson n).getD "fqdn" Value.toStr? "" = some n.fqdn :=
    getD_eq_some (hfield _) (fun h => (of_decide_eq_true h).symm) rfl
  have hmachine : (nodeJson n).getD "machine" Value.toStr? "" = some n.machine :=
    getD_eq_some (hfield _) (fun h => (of_decide_eq_true h).symm) rfl
  have hlabels : (nodeJson n).getD "labels" (readMap Value.toStr?) ∅ = some (objectOf n.labels) :=
    getD_eq_some (hfield _) (fun h => objectOf_of_size (of_decide_eq_true h))
      (readMap_mapValue (f := Value.str) (fun _ => rfl) n.labels)
  have hfirst : (nodeJson n).get "first" N.int = some n.first :=
    get_eq_some (hfield _) (int_int h.first)
  have hlast : (nodeJson n).get "last" N.int = some n.last :=
    get_eq_some (hfield _) (int_int h.last)
  simp only [readNode, hid, hns, hkind, hname, hfqdn, hmachine, hlabels, hfirst, hlast,
    Option.bind_eq_bind, Option.bind_some]
  rfl

theorem four_counts (counts : Counters) : ![counts verdictForwarded, counts verdictDropped,
    counts verdictAudit, counts verdictError] = counts := by
  funext v
  fin_cases v <;> rfl

theorem readBucket_bucketJson {b : Bucket} (h : SafeBucket b) :
    readBucket N (bucketJson b) = some b := by
  simp only [readBucket, bucketJson, Value.toItems?, Option.bind_eq_bind, Option.bind_some,
    int_int h.sec, nat_int (h.counts _), four_counts]

theorem readL7_l7Json {m : L7} (h : Safe m.status) : readL7 N (l7Json m) = some (browserL7 m) := by
  have hfield : ∀ k, (l7Json m).field k = _ := field_record (by simp)
  have hhttp : (l7Json m).getD "http" (readMap (readCount N)) ∅ = some (objectOf m.http) :=
    getD_eq_some (hfield _) (fun h => objectOf_of_size (of_decide_eq_true h))
      (readMap_mapValue readCount_count m.http)
  have hdns : (l7Json m).getD "dns" (readMap (readCount N)) ∅ = some (objectOf m.dns) :=
    getD_eq_some (hfield _) (fun h => objectOf_of_size (of_decide_eq_true h))
      (readMap_mapValue readCount_count m.dns)
  have hstatus : (l7Json m).getD "status" N.nat 0 = some m.status :=
    getD_eq_some (hfield _) (fun h => (of_decide_eq_true h).symm) (nat_int h)
  simp only [readL7, hhttp, hdns, hstatus, Option.bind_eq_bind, Option.bind_some]
  rfl

theorem readEdge_edgeJson {e : WireEdge} (h : SafeEdge e) :
    readEdge N (edgeJson N e) = some (browserEdge e) := by
  have hfield : ∀ k, (edgeJson N e).field k = _ := field_record (by simp)
  have hid : (edgeJson N e).get "id" Value.toStr? = some e.id := get_eq_some (hfield _) rfl
  have hsrc : (edgeJson N e).get "src" Value.toStr? = some e.src := get_eq_some (hfield _) rfl
  have hdst : (edgeJson N e).get "dst" Value.toStr? = some e.dst := get_eq_some (hfield _) rfl
  have hproto : (edgeJson N e).get "proto" Value.toStr? = some e.proto :=
    get_eq_some (hfield _) rfl
  have hport : (edgeJson N e).get "port" N.nat = some e.port :=
    get_eq_some (hfield _) (nat_int h.port)
  have hf : (edgeJson N e).get "f" N.nat = some (e.counts verdictForwarded) :=
    get_eq_some (hfield _) (nat_int (h.counts _))
  have hd : (edgeJson N e).get "d" N.nat = some (e.counts verdictDropped) :=
    get_eq_some (hfield _) (nat_int (h.counts _))
  have ha : (edgeJson N e).get "a" N.nat = some (e.counts verdictAudit) :=
    get_eq_some (hfield _) (nat_int (h.counts _))
  have he : (edgeJson N e).get "e" N.nat = some (e.counts verdictError) :=
    get_eq_some (hfield _) (nat_int (h.counts _))
  have hlast : (edgeJson N e).get "last" N.int = some e.last :=
    get_eq_some (hfield _) (int_int h.last)
  have hlatency : (edgeJson N e).getD "latency_ms" N.number 0 = some e.latencyMs :=
    getD_eq_some (hfield _) (fun h => (of_decide_eq_true h).symm)
      (Numbers.number_format h.latencyMs)
  -- requests that there are none of are not written, and are read as none
  have hl7 : (edgeJson N e).getD "l7" (fun w => (readL7 N w).map some) none
      = some (e.l7.map browserL7) := by
    rw [Value.getD, show (edgeJson N e).field "l7" = e.l7.map l7Json from hfield _]
    cases hm : e.l7 with
    | none => rfl
    | some m =>
      show (readL7 N (l7Json m)).map some = _
      rw [readL7_l7Json (h.l7 m hm)]
      rfl
  have hdrops : (edgeJson N e).getD "drops" (readMap (readCount N)) ∅
      = some (objectOf e.drops) :=
    getD_eq_some (hfield _) (fun h => objectOf_of_size (of_decide_eq_true h))
      (readMap_mapValue readCount_count e.drops)
  -- the edges of a tick have no seconds
  have hbuckets : (edgeJson N e).getD "buckets" (Value.listOf (readBucket N)) []
      = some e.buckets :=
    getD_eq_some (hfield _) (fun h => (List.isEmpty_iff.1 h).symm)
      (mapM_eq_some fun b hb => readBucket_bucketJson (h.buckets b hb))
  simp only [readEdge, hid, hsrc, hdst, hproto, hport, hf, hd, ha, he, hlast, hlatency, hl7, hdrops,
    hbuckets, four_counts, Option.bind_eq_bind, Option.bind_some]
  rfl

theorem listOf_nodes {l : List WireNode} (h : ∀ n ∈ l, SafeNode n) :
    (Value.arr (l.map nodeJson)).listOf (readNode N) = some (l.map browserNode) :=
  mapM_map_eq_some fun n hn => readNode_nodeJson (h n hn)

theorem listOf_edges {l : List WireEdge} (h : ∀ e ∈ l, SafeEdge e) :
    (Value.arr (l.map (edgeJson N))).listOf (readEdge N) = some (l.map browserEdge) :=
  mapM_map_eq_some fun e he => readEdge_edgeJson (h e he)

/-- A snapshot is read back. -/
theorem readSnapshot_snapshotJson {m : Snapshot} (h : SafeSnapshot m) :
    readSnapshot N (snapshotJson N m) = some (browserSnapshot m) := by
  have hfield : ∀ k, (snapshotJson N m).field k = _ := field_record (by simp)
  have hts : (snapshotJson N m).get "ts" N.int = some m.ts :=
    get_eq_some (hfield _) (int_int h.ts)
  have hnodes : (snapshotJson N m).get "nodes" (Value.listOf (readNode N))
      = some (m.nodes.map browserNode) := get_eq_some (hfield _) (listOf_nodes h.nodes)
  have hedges : (snapshotJson N m).get "edges" (Value.listOf (readEdge N))
      = some (m.edges.map browserEdge) := get_eq_some (hfield _) (listOf_edges h.edges)
  simp only [readSnapshot, hts, hnodes, hedges, Option.bind_eq_bind, Option.bind_some]
  rfl

theorem readSpark_sparkJson (s : Spark) : readSpark N (sparkJson s) = some s := by
  have hfield : ∀ k, (sparkJson s).field k = _ := field_record (by simp)
  have he : (sparkJson s).get "e" Value.toStr? = some s.e := get_eq_some (hfield _) rfl
  have hsafe : Safe (s.v.val : Int) := by
    have hlt := s.v.isLt
    simp only [Safe, Int.natAbs_natCast]
    omega
  have hv : (sparkJson s).get "v" (readVerdict N) = some s.v := by
    refine get_eq_some (hfield _) ?_
    show (N.nat (int (s.v.val : Int))).bind _ = _
    rw [nat_int hsafe, Option.bind_some, dif_pos s.v.isLt]
  simp only [readSpark, he, hv, Option.bind_eq_bind, Option.bind_some]

theorem readGone_goneJson (g : Gone) : readGone (goneJson g) = some g := by
  have hfield : ∀ k, (goneJson g).field k = _ := field_record (by simp)
  have hnodes : (goneJson g).getD "nodes" (Value.listOf Value.toStr?) [] = some g.nodes :=
    getD_eq_some (hfield _) (fun h => (List.isEmpty_iff.1 h).symm) (strings_eq_some g.nodes)
  have hedges : (goneJson g).getD "edges" (Value.listOf Value.toStr?) [] = some g.edges :=
    getD_eq_some (hfield _) (fun h => (List.isEmpty_iff.1 h).symm) (strings_eq_some g.edges)
  simp only [readGone, hnodes, hedges, Option.bind_eq_bind, Option.bind_some]

theorem readStatus_statusJson {s : Hub.StatusLine} (h : SafeStatus s) :
    readStatus N (statusJson N s) = some s := by
  have hfield : ∀ k, (statusJson N s).field k = _ := field_record (by simp)
  have hsource : (statusJson N s).get "source" Value.toStr? = some s.source :=
    get_eq_some (hfield _) rfl
  have hrelay : (statusJson N s).get "relay" Value.toStr? = some s.relay :=
    get_eq_some (hfield _) rfl
  have hunavailable : (statusJson N s).getD "unavailable" (Value.listOf Value.toStr?) []
      = some s.unavailable :=
    getD_eq_some (hfield _) (fun h => (List.isEmpty_iff.1 h).symm) (strings_eq_some s.unavailable)
  have hflows : (statusJson N s).get "flows_s" N.number = some s.flowsPerS :=
    get_eq_some (hfield _) (Numbers.number_format h.flowsPerS)
  have hclients : (statusJson N s).get "clients" N.nat = some s.clients :=
    get_eq_some (hfield _) (nat_int h.clients)
  simp only [readStatus, hsource, hrelay, hunavailable, hflows, hclients, Option.bind_eq_bind,
    Option.bind_some]

theorem readTick_tickJson {t : Tick} {status : Hub.StatusLine} (h : SafeTick t)
    (hstatus : SafeStatus status) :
    readTick N (tickJson N t status) = some (browserTick t, status) := by
  have hfield : ∀ k, (tickJson N t status).field k = _ := field_record (by simp)
  have hts : (tickJson N t status).get "ts" N.int = some t.ts :=
    get_eq_some (hfield _) (int_int h.ts)
  -- empty lists are left out, and are the defaults
  have hnodes : (tickJson N t status).getD "nodes" (Value.listOf (readNode N)) []
      = some (t.nodes.map browserNode) :=
    getD_eq_some (hfield _) (fun h => by rw [List.isEmpty_iff.1 h]; rfl) (listOf_nodes h.nodes)
  have hedges : (tickJson N t status).getD "edges" (Value.listOf (readEdge N)) []
      = some (t.edges.map browserEdge) :=
    getD_eq_some (hfield _) (fun h => by rw [List.isEmpty_iff.1 h]; rfl) (listOf_edges h.edges)
  have hgone : (tickJson N t status).get "gone" readGone = some t.gone :=
    get_eq_some (hfield _) (readGone_goneJson t.gone)
  have hsparks : (tickJson N t status).getD "sparks" (Value.listOf (readSpark N)) []
      = some t.sparks :=
    getD_eq_some (hfield _) (fun h => (List.isEmpty_iff.1 h).symm)
      (mapM_eq_some fun s _ => readSpark_sparkJson s)
  have hline : (tickJson N t status).get "status" (readStatus N) = some status :=
    get_eq_some (hfield _) (readStatus_statusJson hstatus)
  simp only [readTick, hts, hnodes, hedges, hgone, hsparks, hline, Option.bind_eq_bind,
    Option.bind_some]
  rfl

/-- **Each kind of message is read as what it is.** -/
theorem readMessage_sentJson {m : Sent} (h : SafeSent m) :
    readMessage N (sentJson N m) = some (inBrowser m) := by
  cases m with
  | hello m =>
    have hfield : ∀ k, (helloJson m).field k = _ := field_record (by simp)
    have ht : (helloJson m).get "t" Value.toStr? = some "hello" := get_eq_some (hfield _) rfl
    simp only [sentJson, readMessage, ht, Option.bind_eq_bind, Option.bind_some]
    rw [if_pos trivial, readHello_helloJson h]
    rfl
  -- the kinds are told apart by `t`, in this order
  | snapshot m =>
    have hfield : ∀ k, (snapshotJson N m).field k = _ := field_record (by simp)
    have ht : (snapshotJson N m).get "t" Value.toStr? = some "snapshot" :=
      get_eq_some (hfield _) rfl
    simp only [sentJson, readMessage, ht, Option.bind_eq_bind, Option.bind_some]
    rw [if_neg (by decide), if_pos trivial, readSnapshot_snapshotJson h]
    rfl
  | tick t status =>
    have hfield : ∀ k, (tickJson N t status).field k = _ := field_record (by simp)
    have ht : (tickJson N t status).get "t" Value.toStr? = some "tick" :=
      get_eq_some (hfield _) rfl
    simp only [sentJson, readMessage, ht, Option.bind_eq_bind, Option.bind_some]
    rw [if_neg (by decide), if_neg (by decide), readTick_tickJson h.1 h.2]
    rfl

/-- **The browser reads what the hub has written**, as long as it has the numbers: the message with
each of its maps as an object. Such an object has the entries of the map, and lists those that look
like array indices first. -/
theorem parse_marshal (N : Numbers) {m : Sent} (h : SafeSent m) :
    parse N (marshal N m) = some (inBrowser m) ∧
    (∀ (o : OrdMap String String), (∀ k, (objectOf o).get? k = o.get? k) ∧
      (objectOf o).entries = propertyOrder (byKey o)) ∧
    ∀ (o : OrdMap String UInt32), (∀ k, (objectOf o).get? k = o.get? k) ∧
      (objectOf o).entries = propertyOrder (byKey o) := by
  refine ⟨?_, fun o => ⟨get?_objectOf o, entries_objectOf o⟩,
    fun o => ⟨get?_objectOf o, entries_objectOf o⟩⟩
  rw [parse, marshal, read_write, Option.bind_some, readMessage_sentJson h]

/-- Labels of which one looks like an array index. -/
def shopLabels : OrdMap String String :=
  (∅ : OrdMap String String).setAll [("tier", "front"), ("app", "<cart>"), ("1", "first")]

/-- A tick with a workload, a conversation that has a latency, and a machine that is lost. -/
def shopTick : Sent :=
  .tick
    { ts := 10100
      nodes := [{
        id := "shop/Pod/cart"
        ns := "shop"
        kind := "Pod"
        name := "cart"
        fqdn := ""
        machine := "m1"
        labels := shopLabels
        first := 1
        last := 10 }]
      edges := [{
        id := "shop/Pod/cart|shop/Pod/till|TCP|443"
        src := "shop/Pod/cart"
        dst := "shop/Pod/till"
        proto := "TCP"
        port := 443
        counts := fun _ => 5
        last := 10
        latencyMs := 3 / 2
        l7 := some ⟨(∅ : OrdMap String UInt32).setAll [("GET /", 3)], ∅, 200⟩
        drops := ∅
        buckets := [] }]
      gone := ⟨["shop/Pod/old"], []⟩
      sparks := [⟨"shop/Pod/cart|shop/Pod/till|TCP|443", verdictDropped⟩] }
    { source := "relay", relay := "connected", unavailable := ["m2"], flowsPerS := 40,
      clients := 1 }

/-- The label `1` comes first in the browser, though Go writes it where it sorts, and `<` comes
back. -/
theorem parse_marshal_shopTick :
    parse Numbers.exact (marshal Numbers.exact shopTick) = some (inBrowser shopTick) ∧
      (objectOf shopLabels).entries = [("1", "first"), ("app", "<cart>"), ("tier", "front")] := by
  have hlatency : Double (3 / 2) := ⟨⟨3, -1, by decide, by decide, by norm_num⟩,
    lt_of_lt_of_le (b := 2 ^ 1) (by norm_num) (pow_le_pow_right₀ one_le_two (by decide))⟩
  have hrate : Double 40 := ⟨⟨40, 0, by decide, by decide, by norm_num⟩,
    lt_of_lt_of_le (b := 2 ^ 6) (by norm_num) (pow_le_pow_right₀ one_le_two (by decide))⟩
  -- its numbers are small
  have hsafe : SafeSent shopTick := by
    refine ⟨⟨by decide, ?_, ?_⟩, ⟨hrate, by decide⟩⟩
    · intro n hn
      obtain rfl := List.mem_singleton.1 hn
      exact ⟨by decide, by decide⟩
    · intro e he
      obtain rfl := List.mem_singleton.1 he
      have hfive : Safe 5 := by decide
      refine ⟨by decide, fun _ => hfive, by decide, hlatency, ?_, fun _ h => nomatch h⟩
      intro m hm
      obtain rfl := Option.some.inj hm
      decide
  obtain ⟨hparse, hobjects, -⟩ := parse_marshal Numbers.exact hsafe
  exact ⟨hparse, (hobjects shopLabels).2.trans (by decide +kernel)⟩

end Wire

end Flowscape
