import Flowscape.Hub.Nodes
import Flowscape.Lib.Loop
import Flowscape.Lib.Sorting
import Mathlib.Data.String.Basic

/-!
# Flowscape: the status of the source (`internal/hubble/source.go`, `internal/hub/hub.go`)

What the source says about itself goes three ways into one record: the stream is up or down, Relay
reports that some machines have changed their state, and its peer list says the state of every
machine. Each tick carries a status line read off that record. How the hub averages the rate of
flows that the line shows is left out; the rate is an argument.

`observer.Node` is a peer with its state. A state of Relay that the enumeration does not name is
`unknown`; the code asks for two of the states and treats all others alike. The set of machines is
empty from the start here, where the code makes it on the first write.
-/

namespace Flowscape

namespace Hubble

/-! ## Source definitions -/

/-- `relay.NodeState` -/
inductive NodeState where
  | unknown
  | connected
  | unavailable
  | gone
  | error
deriving DecidableEq

/-- The states of the first arm of both switches. -/
def NodeState.lost : NodeState → Bool
  | .unavailable => true
  | .error => true
  | _ => false

/-- `relay.NodeStatusEvent`: machines that have come into a state. -/
structure NodeStatusEvent where
  stateChange : NodeState
  nodeNames : List String

/-- `observer.Node` -/
structure Node extends Hub.Peer where
  state : NodeState

/-- What the page shows about the source. -/
structure Status where
  connected : Bool
  unavailable : OrdSet String

namespace Status

/-- The stream is not up yet, and no machine is lost. -/
def new : Status := ⟨false, ∅⟩

/-- `SetConnected` -/
def setConnected (s : Status) (v : Bool) : Status := { s with connected := v }

/-- One round of the loop of `Apply`. -/
def applyTo (change : NodeState) (s : Status) (n : String) : Status :=
  if change.lost then { s with unavailable := s.unavailable.add n }
  else { s with unavailable := s.unavailable.erase n }

/-- `Apply`: fold a node status event into the set. -/
def apply (s : Status) (ev : NodeStatusEvent) : Status :=
  ev.nodeNames.foldl (applyTo ev.stateChange) s

/-- One round of the loop of `SetNodes`. -/
def setNode (s : Status) (n : Node) : Status :=
  if n.state.lost then { s with unavailable := s.unavailable.add n.name } else s

/-- `SetNodes`: replace the set with what the peer list says. -/
def setNodes (s : Status) (nodes : List Node) : Status :=
  nodes.foldl setNode { s with unavailable := ∅ }

/-- `Unavailable`: the machines that Relay cannot reach, sorted. -/
def listUnavailable (ρ : String → Nat) (s : Status) : List String :=
  Sorting.sort (Sorting.byKey id) ((s.unavailable.range ρ).map Prod.fst)

end Status

/-- What the source says about itself. -/
inductive Word where
  | connected (v : Bool)
  | nodeStatus (ev : NodeStatusEvent)
  | nodes (nodes : List Node)

/-- What one word changes. -/
def Status.hear (s : Status) : Word → Status
  | .connected v => s.setConnected v
  | .nodeStatus ev => s.apply ev
  | .nodes list => s.setNodes list

/-- The record after all that the source has said. -/
def Status.heard (words : List Word) : Status := words.foldl hear new

end Hubble

namespace Hub

/-- `protocol.Status` -/
structure StatusLine where
  source : String
  relay : String
  unavailable : List String
  flowsPerS : ℚ
  clients : Nat

/-- `statusLocked`, which `Status` repeats with its own reads of the clients and the rate. -/
def statusLocked (sourceName : String) (ρ : String → Nat) (s : Hubble.Status) (rate : ℚ)
    (clients : Nat) : StatusLine :=
  let relayState := if s.connected then "connected" else "reconnecting"
  let relayState := if sourceName ≠ "relay" then "n/a" else relayState
  { source := sourceName
    relay := relayState
    unavailable := s.listUnavailable ρ
    flowsPerS := rate
    clients := clients }

end Hub

/-! ## The machines that Relay has lost -/

namespace Hubble

/-- Whether a word of the source calls the machine lost, when it was called so before or not. -/
def Word.calls (name : String) (lost : Prop) : Word → Prop
  | .connected _ => lost
  | .nodeStatus ev => if name ∈ ev.nodeNames then ev.stateChange.lost = true else lost
  | .nodes list => ∃ n ∈ list, n.name = name ∧ n.state.lost = true

/-- The last word about the machine calls it lost. A peer list is a word about every machine. -/
def Lost (words : List Word) (name : String) : Prop := words.foldl (Word.calls name) False

namespace Status

variable {s : Status} {name : String}

theorem mem_applyTo {change : NodeState} {n : String} :
    name ∈ (s.applyTo change n).unavailable ↔
      if name = n then change.lost = true else name ∈ s.unavailable := by
  by_cases hlost : change.lost <;> by_cases hn : name = n <;>
    simp [applyTo, hlost, hn]

/-- An event speaks of the machines that it names, and says nothing of the others. -/
theorem mem_apply (ev : NodeStatusEvent) : name ∈ (s.apply ev).unavailable ↔
    if name ∈ ev.nodeNames then ev.stateChange.lost = true else name ∈ s.unavailable := by
  obtain ⟨change, names⟩ := ev
  show name ∈ (names.foldl (applyTo change) s).unavailable ↔ _
  induction names generalizing s with
  | nil => simp
  | cons n rest ih =>
    rw [List.foldl_cons, ih]
    by_cases hrest : name ∈ rest
    · simp [hrest]
    · simp [hrest, mem_applyTo]

theorem mem_setNode {n : Node} : name ∈ (s.setNode n).unavailable ↔
    (n.name = name ∧ n.state.lost = true) ∨ name ∈ s.unavailable := by
  by_cases hlost : n.state.lost
  · simp [setNode, hlost, eq_comm]
  · simp [setNode, hlost]

/-- A peer list says the state of every machine. -/
theorem mem_setNodes (list : List Node) : name ∈ (s.setNodes list).unavailable ↔
    ∃ n ∈ list, n.name = name ∧ n.state.lost = true := by
  have hgen : ∀ t : Status, name ∈ (list.foldl setNode t).unavailable ↔
      (∃ n ∈ list, n.name = name ∧ n.state.lost = true) ∨ name ∈ t.unavailable := by
    -- each node of the list adds its name when it is lost, and takes none away
    induction list with
    | nil => simp
    | cons n rest ih =>
      intro t
      rw [List.foldl_cons, ih, mem_setNode]
      simp only [List.mem_cons, exists_eq_or_imp]
      rw [← or_assoc, or_comm (b := n.name = name ∧ n.state.lost = true)]
  rw [setNodes, hgen]
  simp

theorem mem_hear (w : Word) :
    name ∈ (s.hear w).unavailable ↔ w.calls name (name ∈ s.unavailable) := by
  cases w with
  | connected v => rfl
  | nodeStatus ev => exact mem_apply ev
  | nodes list => exact mem_setNodes list

/-- **The set holds the machines whose last word was bad.** -/
theorem mem_heard (words : List Word) :
    name ∈ (heard words).unavailable ↔ Lost words name := by
  have hrel := Loop.foldl_rel (R := fun (s : Status) (lost : Prop) =>
    name ∈ s.unavailable ↔ lost) (f := hear) (g := Word.calls name)
    (fun s lost w h => by rw [mem_hear, propext h]) (l := words) (s := new) (t := False)
    (iff_of_false (OrdMap.not_mem_empty name) id)
  exact hrel

theorem mem_listUnavailable (ρ : String → Nat) :
    name ∈ s.listUnavailable ρ ↔ name ∈ s.unavailable := by
  rw [listUnavailable, Sorting.mem_sort, ((s.unavailable.range_perm ρ).map Prod.fst).mem_iff]
  exact OrdMap.mem_keys

end Status

end Hubble

end Flowscape
