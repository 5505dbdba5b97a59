import Flowscape.Protocol

/-!
# Flowscape: the flow records of Hubble

The fields of `flow.Flow` (Cilium's API) that the graph reads, with the defaults its nil-safe
getters give: a flow without an IP layer has empty addresses, a flow without a timestamp
has the Unix epoch. An endpoint can be missing, which the key derivation tells apart
from an empty one.
-/

namespace Flowscape

/-- `flow.Verdict`; `other` is any number without a name in the API. -/
inductive Verdict where
  | unknown | forwarded | dropped | error | audit | redirected | traced | translated | other
deriving DecidableEq

/-- `flow.TrafficDirection` -/
inductive TrafficDirection where
  | unknown | ingress | egress
deriving DecidableEq

/-- `flow.DropReason`: unknown, or one of the named reasons with its `String()`. -/
inductive DropReason where
  | unknown
  | named (name : String)
deriving DecidableEq

/-- `flow.Workload` -/
structure Workload where
  name : String
  kind : String
deriving DecidableEq

/-- `flow.Endpoint`, as far as keys and labels are made from it. -/
structure Endpoint where
  «namespace» : String := ""
  podName : String := ""
  labels : List String := []
  workloads : List Workload := []
deriving DecidableEq

/-- `flow.IP` -/
structure IP where
  source : String := ""
  destination : String := ""
deriving DecidableEq

/-- `flow.Layer4`; `none` also stands for the protocols the graph does not tell apart. -/
inductive Layer4 where
  | none
  | tcp (destinationPort : Nat)
  | udp (destinationPort : Nat)
  | sctp (destinationPort : Nat)
  | icmpv4 (type : Nat)
  | icmpv6 (type : Nat)
deriving DecidableEq

/-- `flow.L7FlowType` -/
inductive L7FlowType where
  | unknown | request | response | sample
deriving DecidableEq

/-- The records of layer 7 that `observe` looks at, and the others. -/
inductive L7Record where
  | http (code : Nat) (method url : String)
  | dns (query : String)
  | other
deriving DecidableEq

/-- `flow.Layer7` -/
structure Layer7 where
  type : L7FlowType
  record : L7Record
  latencyNs : Nat
deriving DecidableEq

/-- `flow.Flow` -/
structure Flow where
  isReply : Bool := false
  verdict : Verdict
  time : Option Time
  nodeName : String := ""
  l4 : Layer4 := .none
  l7 : Option Layer7 := none
  ip : IP := {}
  source : Option Endpoint := none
  destination : Option Endpoint := none
  sourceNames : List String := []
  destinationNames : List String := []
  trafficDirection : TrafficDirection := .unknown
  dropReasonDesc : DropReason := .unknown
deriving DecidableEq

/-- `GetTime().AsTime()` -/
def Flow.asTime (f : Flow) : Time := f.time.getD 0

end Flowscape
