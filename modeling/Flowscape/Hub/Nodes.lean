import Flowscape.Graph.Anchors

/-!
# Flowscape: the peer list (`internal/hub/hub.go`, `Hub.Nodes`)

Two paths name a machine by its address. A flow with a `host` end teaches the address of the
agent that saw it, under the node name without its cluster prefix; the peer list of Relay
teaches the names that it lists, as they stand. Only the address table is modelled; what
`Hub.Nodes` does to the status line is left out.
-/

namespace Flowscape

namespace Hub

/-! ## Source definitions -/

/-- A node of Relay's peer list (`observer.Node`). -/
structure Peer where
  name : String
  address : String

/-- `net.SplitHostPort`: the host and the port, or nothing where it returns an error. -/
def splitHostPort (hostport : String) : Option (String × String) :=
  let l := hostport.toList
  match Text.cutAtLast ':' l with
  | none => none
  | some (before, port) =>
    if l.head? = some '[' then
      match Text.cutAt ']' l with
      | none => none
      | some (bracketed, rest) =>
        -- the first ']' has to stand just before the last ':'
        if rest ≠ ':' :: port then none
        else if '[' ∈ l.drop 1 ∨ ']' ∈ rest then none
        else some (String.ofList (bracketed.drop 1), String.ofList port)
    else if ':' ∈ before then none
    else if '[' ∈ l ∨ ']' ∈ l then none
    else some (String.ofList before, String.ofList port)

/-- The address of a peer without its port, if it has one. -/
def peerHost (address : String) : String :=
  match splitHostPort address with
  | some (host, _) => host
  | none => address

/-- One round of the loop of `Hub.Nodes`. -/
def addPeer (addrs : OrdMap String String) (n : Peer) : OrdMap String String :=
  if n.name = "" then addrs
  else if peerHost n.address ≠ "" then addrs.set (peerHost n.address) n.name
  else addrs

/-- The machines of a peer list by address. -/
def peerAddrs (nodes : List Peer) : OrdMap String String := nodes.foldl addPeer ∅

/-- What the source hands to the hub, and the two calls of the hub itself. -/
inductive Call where
  | flow (ρ : RangeOrder) (f : Flow)
  | nodes (ρ : RangeOrder) (peers : List Peer)
  | tick (ρ : RangeOrder) (now : Time)
  | snapshot (ρ : RangeOrder) (now : Time)

/-- The call on the graph that the hub makes. -/
def Call.op : Call → Graph.Op
  | .flow ρ f => .ingest ρ f
  | .nodes ρ peers => .learnMachines ρ (peerAddrs peers)
  | .tick ρ now => .tick ρ now
  | .snapshot ρ now => .snapshot ρ now

/-- What the graph makes of a call of the source. -/
def step (g : Graph) (c : Call) : Option Graph := g.step c.op

/-! ## Machines at an address -/

/-- The endpoint is a machine: the observing one, or another. -/
def isMachine : Option Endpoint → Bool
  | none => false
  | some ep => ep.namespace = "" &&
      ((scanLabels ep.labels).2 = "host" || (scanLabels ep.labels).2 = "remote-node")

/-- Taking in `c`, the graph resolves a machine at `ip` to the anchor `k` of a named machine. -/
def Resolves (ip : String) (g : Graph) (c : Call) (k : NodeKey) : Prop :=
  k.kind = "node" ∧ ∃ ρ f v src dst g', c = .flow ρ f ∧ Graph.accept f = .ok v ∧
    g.endpointKeys ρ f = some (src, dst, g') ∧
    ((isMachine f.source = true ∧ f.ip.source = ip ∧ k = src) ∨
      (isMachine f.destination = true ∧ f.ip.destination = ip ∧ k = dst))

/-- As far as the call tells, the machine at `ip` has the name: a peer at the address has it
(or none), and a host at the address was seen by the agent of that name. -/
def Call.Names (ip name : String) : Call → Prop
  | .nodes _ peers => ∀ n ∈ peers, n.name ≠ "" → peerHost n.address = ip → n.name = name
  | .flow _ f =>
    (Graph.isHost f.source = true → f.ip.source = ip → f.nodeName = name) ∧
      (Graph.isHost f.destination = true → f.ip.destination = ip → f.nodeName = name)
  | _ => True

/-- The calls, from an empty graph on, resolve a machine at `ip` to `k`. -/
def ResolvedIn (retention : Time) (calls : List Call) (ip : String) (k : NodeKey) : Prop :=
  ∃ before c after g, calls = before ++ c :: after ∧
    Run.run step (Graph.new retention) before = some g ∧ Resolves ip g c k

/-- The machine with the name, at `ip`, never gets two anchors. -/
def OneAnchor (ip name : String) : Prop :=
  ∀ (retention : Time) (calls : List Call), (∀ c ∈ calls, c.Names ip name) →
    ∀ k k', ResolvedIn retention calls ip k → ResolvedIn retention calls ip k' → k = k'

/-! ## The address table -/

/-- A peer adds its own name under its own address, if it has both. -/
theorem get?_addPeer {addrs : OrdMap String String} {n : Peer} {ip m : String}
    (h : (addPeer addrs n).get? ip = some m) :
    addrs.get? ip = some m ∨ (n.name = m ∧ m ≠ "" ∧ peerHost n.address = ip) := by
  unfold addPeer at h
  split at h
  · exact Or.inl h
  -- a peer without a name teaches nothing
  · next hname =>
    split at h
    · rw [OrdMap.get?_set] at h
      split at h
      · next heq =>
        obtain rfl : n.name = m := Option.some.inj h
        exact Or.inr ⟨rfl, hname, heq.symm⟩
      · exact Or.inl h
    · exact Or.inl h

/-- What the peer list says of an address, one of its entries says. -/
theorem exists_peer {peers : List Peer} {ip m : String}
    (h : (peerAddrs peers).get? ip = some m) :
    ∃ n ∈ peers, n.name = m ∧ m ≠ "" ∧ peerHost n.address = ip := by
  -- the loop starts from an empty map, and the induction needs any
  have hgen : ∀ (l : List Peer) (addrs : OrdMap String String),
      (l.foldl addPeer addrs).get? ip = some m →
      addrs.get? ip = some m ∨ ∃ n ∈ l, n.name = m ∧ m ≠ "" ∧ peerHost n.address = ip := by
    intro l
    induction l with
    | nil => exact fun addrs h => Or.inl h
    | cons n rest ih =>
      intro addrs h
      rcases ih (addPeer addrs n) h with h | ⟨n', hn', hm⟩
      · rcases get?_addPeer h with h | hm
        · exact Or.inl h
        · exact Or.inr ⟨n, List.mem_cons_self, hm⟩
      · exact Or.inr ⟨n', List.mem_cons_of_mem n hn', hm⟩
  exact (hgen peers ∅ h).resolve_left (by simp)

/-- The address is unnamed, or has the name; the empty address is unnamed. -/
def NamedOnly (ip name : String) (g : Graph) : Prop :=
  ∀ m, g.nodeIPs.get? ip = some m → ip ≠ "" ∧ m = name

/-- An endpoint teaches the name as well, when it is on the address. -/
theorem NamedOnly.teaches {ip name addr observer : String} {ep : Option Endpoint}
    {g g' : Graph} (h : NamedOnly ip name g) (ht : Graph.Teaches ep addr observer g g')
    (hobs : Graph.isHost ep = true → addr = ip → ip ≠ "" → observer ≠ "" → observer = name) :
    NamedOnly ip name g' := by
  intro m hm
  rw [ht.nodeIPs] at hm
  split at hm
  · next hc =>
    obtain ⟨hhost, rfl, hne, hobserver⟩ := hc
    obtain rfl : observer = m := Option.some.inj hm
    exact ⟨hne, hobs hhost rfl hne hobserver⟩
  · exact h m hm

/-! ## Names that the agents keep -/

/-- The name that an agent of the name teaches for `ip`, if any, is the name itself. -/
def Kept (ip name : String) : Prop :=
  ip ≠ "" → observerName name ≠ "" → observerName name = name

theorem Kept.observer {ip name : String} {f : Flow} (h : Kept ip name)
    (hname : f.nodeName = name) (hip : ip ≠ "") (hobs : observerName f.nodeName ≠ "") :
    observerName f.nodeName = name := by
  subst hname
  exact h hip hobs

/-- Only the two sides of a flow teach, each under the name of its observer. -/
theorem NamedOnly.keysDerived {ip name : String} {ρ : RangeOrder} {f : Flow} {g g' : Graph}
    {src dst : NodeKey} (hkept : Kept ip name) (hc : Call.Names ip name (.flow ρ f))
    (h : NamedOnly ip name g) (hkeys : Graph.KeysDerived f g src dst g') :
    NamedOnly ip name g' := by
  obtain ⟨hsrc, hdst⟩ := hc
  obtain ⟨g₁, -, ht₁, ht₂, -, -⟩ := hkeys
  have h₁ : NamedOnly ip name g₁ :=
    h.teaches ht₁ fun hhost hip => hkept.observer (hsrc hhost hip)
  exact h₁.teaches ht₂ fun hhost hip => hkept.observer (hdst hhost hip)

/-- An entry of the peer list for another address leaves the entry of `ip` alone. -/
theorem NamedOnly.learnStep {ip name ip' m' : String} {ρ : RangeOrder} {peers : List Peer}
    {g g' : Graph} (hc : Call.Names ip name (.nodes ρ peers))
    (hget : (peerAddrs peers).get? ip' = some m') (h : NamedOnly ip name g)
    (hl : Graph.LearnStep ip' m' g g') : NamedOnly ip name g' := by
  intro m hm
  rw [hl.nodeIPs] at hm
  split at hm
  · next heq =>
    obtain rfl : m' = m := Option.some.inj hm
    obtain ⟨rfl, hip, -⟩ := heq
    obtain ⟨n, hn, rfl, hne, hhost⟩ := exists_peer hget
    exact ⟨hip, hc n hn hne hhost⟩
  · exact h m hm

/-- **Every call keeps the address to one name.** -/
theorem NamedOnly.step {ip name : String} {g g' : Graph} {c : Call} (hkept : Kept ip name)
    (hc : c.Names ip name) (hinv : g.Inv) (h : NamedOnly ip name g)
    (hstep : Hub.step g c = some g') : NamedOnly ip name g' := by
  cases c with
  | flow ρ f =>
    obtain ⟨⟨g₁, res⟩, hres, rfl⟩ := Option.map_eq_some_iff.1 hstep
    cases (Graph.ingest_inv hinv hres).2 with
    | skipped => exact h
    | self _ _ hkeys => exact h.keysDerived hkept hc hkeys
    | added _ _ hkeys hinv₁ _ hadd =>
      -- adding the flow teaches nothing more
      intro m hm
      rw [(hadd.frame hinv₁).1] at hm
      exact h.keysDerived hkept hc hkeys m hm
  | nodes ρ peers =>
    obtain ⟨g₁, hres, -, h₁⟩ := Graph.learnMachines_rule (P := NamedOnly ip name) ρ
      (peerAddrs peers) (fun hget _ h₂ _ hl => h₂.learnStep hc hget hl) hinv h
    obtain rfl : g₁ = g' := Option.some.inj (hres.symm.trans hstep)
    exact h₁
  | tick ρ now =>
    obtain ⟨⟨g₁, t⟩, hres, rfl⟩ := Option.map_eq_some_iff.1 hstep
    obtain ⟨g₂, rfl, -, -, g₃, -, hd, hf⟩ := Graph.tick_inv hinv hres
    intro m hm
    apply h m
    rw [← hd.nodeIPs, ← hf.nodeIPs]
    exact hm
  | snapshot ρ now =>
    obtain rfl : g = g' := Option.some.inj hstep
    exact h

/-- A machine is the one that saw the flow, or one that the table names. -/
theorem resolve_isMachine {nodeIPs : OrdMap String String} {ep : Option Endpoint}
    {names : List String} {ip observer : String} (hmachine : isMachine ep = true)
    (hkind : (Graph.resolve nodeIPs ep names ip observer).kind = "node") :
    ∃ m, Graph.resolve nodeIPs ep names ip observer = ⟨reservedNamespace, "node", m⟩ ∧
      ((Graph.isHost ep = true ∧ observer ≠ "" ∧ m = observer) ∨ nodeIPs.get? ip = some m) := by
  cases ep with
  | none => cases hmachine
  | some ep =>
    simp only [isMachine, Bool.and_eq_true, Bool.or_eq_true, decide_eq_true_eq] at hmachine
    obtain ⟨hns, hhost | hremote⟩ := hmachine
    · have hisHost : Graph.isHost (some ep) = true := by simp [Graph.isHost, hns, hhost]
      by_cases hobs : observer = ""
      · rw [hobs, Graph.resolve] at hkind
        rcases hscan : scanLabels ep.labels with ⟨cidr, reserved⟩
        rw [hscan] at hhost
        obtain rfl : reserved = "host" := hhost
        simp [hns, hscan] at hkind
      · exact ⟨observer, Graph.resolve_of_host hisHost hobs, Or.inl ⟨hisHost, hobs, rfl⟩⟩
    · rcases hscan : scanLabels ep.labels with ⟨cidr, reserved⟩
      rw [hscan] at hremote
      obtain rfl : reserved = "remote-node" := hremote
      cases hget : nodeIPs.get? ip with
      | some m => exact ⟨m, by simp [Graph.resolve, hns, hscan, hget], Or.inr rfl⟩
      | none =>
        -- an address without a name is resolved to an anchor of another kind
        by_cases hip : ip = ""
        · subst hip
          simp [Graph.resolve, hns, hscan, hget] at hkind
        · simp [Graph.resolve, hns, hscan, hget, hip, Graph.anchorKey] at hkind

/-- The name of the anchor of a machine at `ip`: without an address, only its own agent can
tell what it is called. -/
def anchorName (ip name : String) : String := if ip = "" then observerName name else name

/-- While the address has only the one name, its machine has only the one anchor. -/
theorem NamedOnly.resolves {ip name : String} {g : Graph} {c : Call} {k : NodeKey}
    (hkept : Kept ip name) (hc : c.Names ip name) (hinv : g.Inv) (h : NamedOnly ip name g)
    (hres : Resolves ip g c k) : k = ⟨reservedNamespace, "node", anchorName ip name⟩ := by
  obtain ⟨hkind, ρ, f, v, src, dst, g', rfl, -, hkeys, hend⟩ := hres
  obtain ⟨src', dst', g'', hkeys', -, g₁, -, ht₁, -, rfl, rfl⟩ :=
    Graph.endpointKeys_spec ρ f hinv
  rw [hkeys, Option.some.injEq, Prod.mk.injEq, Prod.mk.injEq] at hkeys'
  obtain ⟨rfl, rfl, -⟩ := hkeys'
  obtain ⟨hsrc, hdst⟩ := hc
  have h₁ : NamedOnly ip name g₁ :=
    h.teaches ht₁ fun hhost hip => hkept.observer (hsrc hhost hip)
  -- the observer's name for a host, the table's for another machine
  have hobserved : f.nodeName = name → observerName f.nodeName ≠ "" →
      observerName f.nodeName = anchorName ip name := by
    intro hname hobs
    unfold anchorName
    split
    · rw [hname]
    · next hip => exact hkept.observer hname hip hobs
  have htable : ∀ {g : Graph} {m}, NamedOnly ip name g → g.nodeIPs.get? ip = some m →
      m = anchorName ip name := by
    intro g m h hm
    obtain ⟨hip, rfl⟩ := h m hm
    rw [anchorName, if_neg hip]
  rcases hend with ⟨hmachine, rfl, rfl⟩ | ⟨hmachine, rfl, rfl⟩
  · obtain ⟨m, heq, ⟨hhost, hobs, rfl⟩ | hget⟩ := resolve_isMachine hmachine hkind
    · rw [heq, hobserved (hsrc hhost rfl) hobs]
    · rw [heq, htable h hget]
  · obtain ⟨m, heq, ⟨hhost, hobs, rfl⟩ | hget⟩ := resolve_isMachine hmachine hkind
    · rw [heq, hobserved (hdst hhost rfl) hobs]
    · rw [heq, htable h₁ hget]

/-- A name that no call changes gives one anchor. -/
theorem oneAnchor_of_kept {ip name : String} (hkept : Kept ip name) : OneAnchor ip name := by
  intro retention calls hcalls
  have hone : ∀ k, ResolvedIn retention calls ip k →
      k = ⟨reservedNamespace, "node", anchorName ip name⟩ := by
    rintro k ⟨before, c, after, g, rfl, hrun, hres⟩
    -- the calls before the flow have taught this name only
    have hbefore : Run.EveryStep step (fun _ c => c.Names ip name) (Graph.new retention) before :=
      Run.everyStep_of_forall fun c hc _ => hcalls c (List.mem_append_left _ hc)
    have hc : c.Names ip name := hcalls c (List.mem_append_right _ List.mem_cons_self)
    obtain ⟨hinv, h⟩ := Run.invariant_of_everyStep (I := fun g => g.Inv ∧ NamedOnly ip name g)
      (fun _ _ _ h hc hstep => ⟨Graph.step_inv h.1 hstep, h.2.step hkept hc h.1 hstep⟩)
      hbefore hrun ⟨Graph.inv_new retention, fun m hm => nomatch hm⟩
    exact h.resolves hkept hc hinv hres
  intro k k' hk hk'
  rw [hone k hk, hone k' hk']

/-! ## Names that the agents cut -/

/-- A machine as other machines see it. -/
def remoteEnd : Endpoint := { labels := ["reserved:remote-node"] }

/-- A machine as its own agent sees it. -/
def hostEnd : Endpoint := { labels := ["reserved:host"] }

/-- A pod hears from a machine at `ip`, which the agent of another machine calls remote. -/
def fromRemote (ip : String) : Flow where
  verdict := .forwarded
  time := some (100 * second)
  l4 := .tcp 80
  ip := ⟨ip, "10.1.0.7"⟩
  source := some remoteEnd
  destination := some { «namespace» := "shop", podName := "cart-0" }

/-- A pod hears from its own machine at `ip`, and the agent there says so. -/
def fromHost (ip nodeName : String) : Flow where
  verdict := .forwarded
  time := some (100 * second)
  nodeName := nodeName
  l4 := .tcp 80
  ip := ⟨ip, "10.1.0.7"⟩
  source := some hostEnd
  destination := some { «namespace» := "shop", podName := "cart-0" }

/-- A peer list with one machine teaches its address. -/
theorem named_of_listed {address name : String} (hip : peerHost address ≠ "") (hname : name ≠ "") :
    ∃ g, Run.run step (Graph.new (300 * second)) [.nodes (fun _ _ => 0) [⟨name, address⟩]] = some g ∧
      g.Inv ∧ g.nodeIPs.get? (peerHost address) = some name := by
  obtain ⟨g, hlearn, hinv, hl⟩ := Graph.learnMachine_spec (fun _ => 0) (peerHost address) name
    (Graph.inv_new (300 * second))
  refine ⟨g, ?_, hinv, ?_⟩
  · have haddrs : peerAddrs [⟨name, address⟩]
        = (∅ : OrdMap String String).set (peerHost address) name := by
      show addPeer ∅ ⟨name, address⟩ = _
      rw [addPeer, if_neg hname, if_pos hip]
    -- a peer list of one machine is one step of learning
    show (Graph.learnMachines (fun _ _ => 0) (peerAddrs [⟨name, address⟩]) _).bind _ = _
    rw [haddrs]
    show ((Graph.learnMachine (fun _ => 0) (peerHost address) name _).bind _).bind _ = _
    rw [hlearn]
    rfl
  · rw [hl.nodeIPs, if_pos ⟨rfl, hip, hname⟩]

/-- A side without a name is resolved by the table. -/
theorem resolves_fromRemote {ip name : String} {g : Graph} (hinv : g.Inv)
    (hget : g.nodeIPs.get? ip = some name) :
    Resolves ip g (.flow (fun _ _ => 0) (fromRemote ip)) ⟨reservedNamespace, "node", name⟩ := by
  obtain ⟨src, dst, g', hkeys, -, g₂, -, -, -, rfl, -⟩ :=
    Graph.endpointKeys_spec (fun _ _ => 0) (fromRemote ip) hinv
  refine ⟨rfl, _, _, _, _, _, _, rfl, rfl, hkeys,
    Or.inl ⟨show isMachine (some remoteEnd) = true by decide, rfl, ?_⟩⟩
  have hscan : scanLabels remoteEnd.labels = ("", "remote-node") := by decide
  have hns : remoteEnd.namespace = "" := rfl
  show _ = Graph.resolve g.nodeIPs (some remoteEnd) [] ip _
  simp [Graph.resolve, hns, hscan, hget]

/-- The observing machine is resolved by the name of its agent. -/
theorem resolves_fromHost {ip name : String} {g : Graph} (hinv : g.Inv)
    (hobs : observerName name ≠ "") :
    Resolves ip g (.flow (fun _ _ => 0) (fromHost ip name))
      ⟨reservedNamespace, "node", observerName name⟩ := by
  obtain ⟨src, dst, g', hkeys, -, g₃, -, -, -, rfl, -⟩ :=
    Graph.endpointKeys_spec (fun _ _ => 0) (fromHost ip name) hinv
  refine ⟨rfl, _, _, _, _, _, _, rfl, rfl, hkeys,
    Or.inl ⟨show isMachine (some hostEnd) = true by decide, rfl, ?_⟩⟩
  exact (Graph.resolve_of_host (show Graph.isHost (some hostEnd) = true by decide) hobs).symm

/-- The peer list, then a flow from elsewhere, then a flow from the machine itself: the first
flow is resolved to the listed name, the second to what is left of it. -/
theorem not_oneAnchor {address name : String} (hip : peerHost address ≠ "")
    (hobs : observerName name ≠ "") (hcut : observerName name ≠ name) :
    ¬ OneAnchor (peerHost address) name := by
  have hname : name ≠ "" := by
    rintro rfl
    exact hobs rfl
  intro h
  let ip := peerHost address
  let listed : Call := .nodes (fun _ _ => 0) [⟨name, address⟩]
  let remote : Call := .flow (fun _ _ => 0) (fromRemote ip)
  let host : Call := .flow (fun _ _ => 0) (fromHost ip name)
  -- the peer list names the address, so the first flow is resolved by the table
  obtain ⟨g₁, hrun₁, hinv₁, hget₁⟩ := named_of_listed hip hname
  obtain ⟨g₂, hstep₂, hinv₂⟩ := Graph.step_isSome hinv₁
    (show remote.op.Timed from (show (0 : Int) ≤ 100 * second by decide))
  have hnames : ∀ c ∈ [listed, remote, host], c.Names ip name := by
    simp only [List.mem_cons, List.not_mem_nil, or_false, forall_eq_or_imp, forall_eq]
    refine ⟨fun n hn _ _ => ?_, ⟨fun hhost => ?_, fun hhost => ?_⟩, fun _ _ => rfl, fun hhost => ?_⟩
    · rw [List.mem_singleton.1 hn]
    · exact absurd hhost (show ¬ Graph.isHost (fromRemote "").source = true by decide)
    · exact absurd hhost (show ¬ Graph.isHost (fromRemote "").destination = true by decide)
    · exact absurd hhost (show ¬ Graph.isHost (fromHost "" "").destination = true by decide)
  have heq := h (300 * second) [listed, remote, host] hnames _ _
    ⟨[listed], remote, [host], g₁, rfl, hrun₁, resolves_fromRemote hinv₁ hget₁⟩
    ⟨[listed, remote], host, [], g₂, rfl,
      Run.run_concat_eq_some.2 ⟨g₁, hrun₁, hstep₂⟩, resolves_fromHost hinv₂ hobs⟩
  exact hcut (congrArg NodeKey.name heq).symm

/-- An observer keeps its name unless it has a slash, which would be taken for the one after a
cluster. -/
theorem observerName_eq_self_iff {name : String} : observerName name = name ↔ '/' ∉ name.toList := by
  rw [← Text.cutAt_eq_none_iff, observerName]
  cases hcut : Text.cutAt '/' name.toList with
  | none => simp
  | some p =>
    obtain ⟨before, after⟩ := p
    obtain ⟨hname, -⟩ := Text.cutAt_eq_some_iff.1 hcut
    have hlen := congrArg List.length hname
    rw [List.length_append, List.length_cons] at hlen
    refine iff_of_false (fun h => ?_) (by simp)
    rw [← String.toList_inj, String.toList_ofList] at h
    rw [← h] at hlen
    omega

/-- **One anchor per machine, exactly for the names that the agents keep.** Whatever the order
of peer lists, flows and ticks, a machine never gets two anchors if and only if its address is
empty, its name has no cluster prefix, or nothing follows the prefix. -/
theorem oneAnchor_iff (name address : String) : OneAnchor (peerHost address) name ↔
    peerHost address = "" ∨ '/' ∉ name.toList ∨ observerName name = "" := by
  rw [← observerName_eq_self_iff]
  constructor
  · intro h
    by_contra hnot
    obtain ⟨hip, hcut, hobs⟩ : peerHost address ≠ "" ∧ observerName name ≠ name ∧
        observerName name ≠ "" := by simpa only [not_or] using hnot
    exact not_oneAnchor hip hobs hcut h
  · intro hcond
    apply oneAnchor_of_kept
    intro hip hobs
    exact (hcond.resolve_left hip).resolve_right hobs

/-- **A machine of a named cluster can get two anchors.** -/
theorem not_oneAnchor_clustered :
    ¬ ∀ name address : String, OneAnchor (peerHost address) name := by
  intro h
  exact not_oneAnchor (show peerHost "10.0.0.1:4244" ≠ "" by decide)
    (show observerName "prod/n1" ≠ "" by decide) (show observerName "prod/n1" ≠ "prod/n1" by decide)
    (h "prod/n1" "10.0.0.1:4244")

end Hub

end Flowscape
