import Flowscape.Lib.OrdMap
import Mathlib.Data.Rat.Defs

/-!
# Flowscape: the messages of the WebSocket

The records of `internal/protocol/protocol.go`, which `web/src/protocol.ts` mirrors: the
server builds them, the browser folds them. A field that Go's encoder omits when it is empty
keeps its Go zero value here, and the browser's test for an absent field is a test for that
zero value. The status line of a tick is apart (`Hub.StatusLine`): the graph sends a tick without
it, and only the machines that it names as lost go any further than the page header.
-/

namespace Flowscape

/-- A verdict code, as sent in sparks and used as bucket index. -/
abbrev VerdictCode := Fin 4

/-- The codes of the verdicts, as they are sent. -/
def verdictForwarded : VerdictCode := 0
def verdictDropped : VerdictCode := 1
def verdictAudit : VerdictCode := 2
def verdictError : VerdictCode := 3

/-- One counter for each verdict. -/
abbrev Counters := VerdictCode → Nat

/-- Nanoseconds since the Unix epoch (`time.Time`), or between two instants
(`time.Duration`). -/
abbrev Time := Int

/-- `time.Time{}`, the first of January of the year 1. -/
def zeroTime : Time := -62135596800 * 10 ^ 9

/-- `time.Second` -/
def second : Time := 10 ^ 9

/-- `Time.Unix`: whole seconds, rounded towards the past. -/
def Time.unix (t : Time) : Int := t / 10 ^ 9

/-- `Time.UnixMilli`: whole milliseconds, rounded towards the past. -/
def Time.unixMilli (t : Time) : Int := t / 10 ^ 6

theorem Time.unixMilli_mono {t t' : Time} (h : t ≤ t') : t.unixMilli ≤ t'.unixMilli :=
  Int.ediv_le_ediv (by decide) h

/-- The first message a client receives. -/
structure Hello where
  version : String
  source : String
  retentionS : Nat
  windowS : Nat
  tickMs : Nat
  serverTime : Int

/-- A workload, pod or reserved entity. -/
structure WireNode where
  id : String
  ns : String
  kind : String
  name : String
  fqdn : String
  machine : String
  labels : OrdMap String String
  first : Int
  last : Int

/-- One second of counters. -/
structure Bucket where
  sec : Int
  counts : Counters

/-- The proxied requests seen on an edge. -/
structure L7 where
  http : OrdMap String UInt32
  dns : OrdMap String UInt32
  status : Nat

/-- A directed conversation. In a snapshot the counters are totals; in a tick they are
increments since the previous tick. -/
structure WireEdge where
  id : String
  src : String
  dst : String
  proto : String
  port : Nat
  /-- `f`, `d`, `a` and `e` of the message. -/
  counts : Counters
  last : Int
  latencyMs : Rat
  l7 : Option L7
  drops : OrdMap String UInt32
  buckets : List Bucket

/-- The whole graph, sent on connect and to a client that fell behind. -/
structure Snapshot where
  ts : Int
  nodes : List WireNode
  edges : List WireEdge

/-- One sampled flow event. -/
structure Spark where
  e : String
  v : VerdictCode
deriving DecidableEq

/-- Ids expired since the previous tick. -/
structure Gone where
  nodes : List String
  edges : List String

/-- The periodic delta. -/
structure Tick where
  ts : Int
  nodes : List WireNode
  edges : List WireEdge
  gone : Gone
  sparks : List Spark

/-- What travels over the WebSocket. -/
inductive Message where
  | hello (m : Hello)
  | snapshot (m : Snapshot)
  | tick (m : Tick)

end Flowscape
