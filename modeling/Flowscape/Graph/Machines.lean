import Flowscape.Graph.Invariant

/-!
# Flowscape: retiring addresses, learning machines, deriving keys

What `retireAddress`, `learnMachine` and `endpointKey` do to a graph with the representation
invariant. The key of an endpoint is a function of the address table (`resolve`); the only
effect of deriving it is that a host endpoint teaches its address (`LearnStep`).
-/

namespace Flowscape

namespace Graph

/-- The node id of the anchor of an unnamed machine. -/
def anchorId (ip : String) : String := (anchorKey ip).id

/-- The edge under `eid` has an end with the id. -/
def Incident (g : Graph) (id eid : String) : Prop :=
  ∃ e, g.edges.get? eid = some e ∧ e.key.touches id

/-! ## Retiring an address -/

/-- What retiring the anchor of `ip` leaves behind: nothing changes when there is none, else
its edges are dropped and then the anchor is forgotten. -/
inductive Retired (ip : String) (g : Graph) : Graph → Prop where
  | absent (h : anchorId ip ∉ g.nodes) : Retired ip g g
  | retired {g₁ g' : Graph} (h : anchorId ip ∈ g.nodes) (hinv : g₁.Inv)
      (hdrop : Dropped (g.Incident (anchorId ip)) g g₁)
      (hforget : Forgotten (· = anchorId ip) g₁ g') : Retired ip g g'

theorem Retired.nodeIPs {ip : String} {g g' : Graph} (h : Retired ip g g') :
    g'.nodeIPs = g.nodeIPs := by
  cases h with
  | absent => rfl
  | retired _ _ hd hf => exact hf.nodeIPs.trans hd.nodeIPs

/-- Retiring an address always has a result and keeps the invariant. -/
theorem retireAddress_spec (ρ : String → Nat) (ip : String) {g : Graph} (hinv : g.Inv) :
    ∃ g', g.retireAddress ρ ip = some g' ∧ g'.Inv ∧ Retired ip g g' := by
  by_cases hmem : anchorId ip ∈ g.nodes
  swap
  · -- the early return
    refine ⟨g, ?_, hinv, .absent hmem⟩
    show (if anchorId ip ∉ g.nodes then _ else _) = _
    rw [if_pos hmem]
  obtain ⟨g₁, hdrop, hinv₁, hd⟩ := dropEdges_range_spec
    (fun e => e.key.src.id = anchorId ip ∨ e.key.dst.id = anchorId ip) ρ hinv
  replace hd : Dropped (g.Incident (anchorId ip)) g g₁ := by
    apply hd.congr
    intro id
    simp only [Incident, EdgeKey.touches, decide_eq_true_eq]
  -- no edge is left at the anchor when it is deleted
  have hfree : ∀ {id e}, g₁.edges.get? id = some e → ¬ e.key.touches (anchorId ip) := by
    intro id e he ht
    by_cases hi : g.Incident (anchorId ip) id
    · rw [hd.edges_gone hi] at he; cases he
    · rw [hd.edges_kept hi] at he
      exact hi ⟨e, he, ht⟩
  refine ⟨g₁.forgetNode (anchorId ip), ?_, hinv₁.forgetNode hfree,
    .retired hmem hinv₁ hd (forgotten_forgetNode _ _)⟩
  show (if anchorId ip ∉ g.nodes then _ else (dropEdges _ _ g).map _) = _
  rw [if_neg (not_not.2 hmem), show (anchorKey ip).id = anchorId ip from rfl, hdrop]
  rfl

/-! ## Learning a machine -/

/-- What learning that `ip` belongs to `machine` does: nothing when it is not news, else the
table is extended and the anchor of the address retired. -/
inductive LearnStep (ip machine : String) (g : Graph) : Graph → Prop where
  | known (h : ip = "" ∨ machine = "" ∨ g.nodeIPs.get? ip = some machine) :
      LearnStep ip machine g g
  | news {g' : Graph} (hip : ip ≠ "") (hmachine : machine ≠ "")
      (h : g.nodeIPs.get? ip ≠ some machine)
      (hret : Retired ip { g with nodeIPs := g.nodeIPs.set ip machine } g') :
      LearnStep ip machine g g'

/-- The address table is not part of the invariant. -/
theorem Inv.setNodeIPs {g : Graph} (h : g.Inv) (nodeIPs : OrdMap String String) :
    ({ g with nodeIPs := nodeIPs } : Graph).Inv where
  retention := h.retention
  alloc := h.alloc
  named := h.named
  edgeNamed := h.edgeNamed
  closed := h.closed
  counter := h.counter
  newNodes := h.newNodes
  dirtyNode := h.dirtyNode
  dirty := h.dirty
  dirtyL7 := h.dirtyL7
  edgeSound := h.edgeSound

/-- **What `learnMachine` does**: it fills the table, and retires the address when the name is new
to it. -/
theorem learnMachine_spec (ρ : String → Nat) (ip machine : String) {g : Graph} (hinv : g.Inv) :
    ∃ g', g.learnMachine ρ ip machine = some g' ∧ g'.Inv ∧ LearnStep ip machine g g' := by
  unfold learnMachine
  by_cases h₁ : ip = "" ∨ machine = ""
  · rw [if_pos h₁]
    exact ⟨g, rfl, hinv, .known (h₁.imp_right Or.inl)⟩
  · rw [if_neg h₁]
    rw [not_or] at h₁
    -- an address that is known with this machine is no news
    by_cases h₂ : g.nodeIPs.get? ip = some machine
    · rw [if_pos h₂]
      exact ⟨g, rfl, hinv, .known (Or.inr (Or.inr h₂))⟩
    · rw [if_neg h₂]
      obtain ⟨g', hres, hinv', hret⟩ :=
        retireAddress_spec ρ ip (hinv.setNodeIPs (g.nodeIPs.set ip machine))
      exact ⟨g', hres, hinv', .news h₁.1 h₁.2 h₂ hret⟩

/-- Learning only ever adds to the address table, or renames in it. -/
theorem LearnStep.nodeIPs {ip machine : String} {g g' : Graph} (h : LearnStep ip machine g g')
    (ip' : String) : g'.nodeIPs.get? ip'
      = if ip' = ip ∧ ip ≠ "" ∧ machine ≠ "" then some machine else g.nodeIPs.get? ip' := by
  cases h with
  | known hk =>
    split
    · next hc =>
      obtain ⟨rfl, hip, hm⟩ := hc
      exact (hk.resolve_left hip).resolve_left hm
    · rfl
  | news hip hm _ hret =>
    rw [hret.nodeIPs]
    simp [OrdMap.get?_set, hip, hm]

theorem LearnStep.mem_nodeIPs {ip machine : String} {g g' : Graph}
    (h : LearnStep ip machine g g') {ip' : String} (hmem : ip' ∈ g.nodeIPs) :
    ip' ∈ g'.nodeIPs := by
  obtain ⟨m, hm⟩ := OrdMap.mem_iff.1 hmem
  rw [OrdMap.mem_iff_isSome, h.nodeIPs]
  split <;> simp [hm]

/-- What dropping edges and forgetting nodes keeps, learning keeps. -/
theorem Stable.learnStep {R : Graph → Prop} (hR : Stable R) {ip machine : String}
    {g g' : Graph} (h : LearnStep ip machine g g') (hg : R g) : R g' := by
  cases h with
  | known => exact hg
  | news _ _ _ hret =>
    have hset := hR.nodeIPs (g.nodeIPs.set ip machine) hg
    cases hret with
    | absent => exact hset
    | retired _ _ hd hf => exact hR.forgotten hf (hR.dropped hd hset)

/-- The rule for the loop of `LearnMachines`: what learning one of the entries keeps, the
loop keeps, and it has a result. -/
theorem learnAll_rule {P : Graph → Prop} (ρ : RangeOrder) {l : List (String × String)}
    (hstep : ∀ {g g' ip name}, (ip, name) ∈ l → g.Inv → P g → g'.Inv →
      LearnStep ip name g g' → P g')
    (n : Nat) {g : Graph} (hinv : g.Inv) (hp : P g) :
    ∃ g', learnAll ρ n l g = some g' ∧ g'.Inv ∧ P g' := by
  induction l generalizing n g with
  | nil => exact ⟨g, rfl, hinv, hp⟩
  | cons entry rest ih =>
    obtain ⟨ip, name⟩ := entry
    obtain ⟨g₁, hres, hinv₁, hl⟩ := learnMachine_spec (ρ n) ip name hinv
    have hp₁ : P g₁ := hstep List.mem_cons_self hinv hp hinv₁ hl
    obtain ⟨g₂, hrest, hinv₂, hp₂⟩ :=
      ih (fun hmem => hstep (List.mem_cons_of_mem _ hmem)) (n + 1) hinv₁ hp₁
    exact ⟨g₂, by rw [learnAll, hres, Option.bind_some, hrest], hinv₂, hp₂⟩

theorem learnMachines_rule {P : Graph → Prop} (ρ : RangeOrder) (addrs : OrdMap String String)
    (hstep : ∀ {g g' ip name}, addrs.get? ip = some name → g.Inv → P g → g'.Inv →
      LearnStep ip name g g' → P g')
    {g : Graph} (hinv : g.Inv) (hp : P g) :
    ∃ g', g.learnMachines ρ addrs = some g' ∧ g'.Inv ∧ P g' :=
  learnAll_rule ρ (fun hmem => hstep (OrdMap.mem_range.1 hmem)) 1 hinv hp

/-! ## Deriving keys -/

/-- The endpoint is a machine that shows itself as host. -/
def isHost : Option Endpoint → Bool
  | none => false
  | some ep => ep.namespace = "" && (scanLabels ep.labels).2 = "host"

/-- The key of an endpoint under an address table. -/
def resolve (nodeIPs : OrdMap String String) (ep : Option Endpoint) (names : List String)
    (ip observer : String) : NodeKey :=
  match ep with
  | none => ⟨"unknown", "ip", ip⟩
  | some ep =>
    if ep.namespace ≠ "" then workloadKey ep
    else
      let (cidr, reserved) := scanLabels ep.labels
      if reserved = "" then
        if cidr ≠ "" then ⟨reservedNamespace, "world", cidr⟩ else ⟨"unknown", "ip", ip⟩
      else if reserved = "world" ∨ reserved = "world-ipv4" ∨ reserved = "world-ipv6" then
        ⟨reservedNamespace, "world", match names with
          | name :: _ => name
          | [] => if cidr ≠ "" then cidr else "world"⟩
      else if reserved = "host" then
        if observer ≠ "" then ⟨reservedNamespace, "node", observer⟩
        else ⟨reservedNamespace, "host", "host"⟩
      else if reserved = "remote-node" then
        match nodeIPs.get? ip with
        | some name => ⟨reservedNamespace, "node", name⟩
        | none => if ip ≠ "" then anchorKey ip else ⟨reservedNamespace, "remote-node", "remote-node"⟩
      else ⟨reservedNamespace, reserved, reserved⟩

theorem workloadKey_namespace (ep : Endpoint) : (workloadKey ep).namespace = ep.namespace := by
  unfold workloadKey
  split
  · split
    · rfl
    · split <;> rfl
  · split <;> rfl

/-- What an IP address never looks like: a path, or the name of the anchor of machines
without an address. -/
def AddressLike (ip : String) : Prop := '/' ∉ ip.toList ∧ ip ≠ "remote-node"

instance (ip : String) : Decidable (AddressLike ip) := inferInstanceAs (Decidable (_ ∧ _))

/-- An address determines its anchor's id, and the id the anchor. -/
theorem anchorKey_of_id {k : NodeKey} {ip : String} (hip : AddressLike ip)
    (h : k.id = anchorId ip) : k = anchorKey ip :=
  NodeKey.eq_of_id_eq h (show '/' ∉ "reserved".toList by decide)
    (show '/' ∉ "remote-node".toList by decide) hip.1

/-- A host is the machine of the observer. -/
theorem resolve_of_host {nodeIPs : OrdMap String String} {ep : Option Endpoint}
    {names : List String} {ip observer : String} (hhost : isHost ep = true)
    (hobs : observer ≠ "") :
    resolve nodeIPs ep names ip observer = ⟨reservedNamespace, "node", observer⟩ := by
  cases ep with
  | none => cases hhost
  | some ep =>
    simp only [isHost, Bool.and_eq_true, decide_eq_true_eq] at hhost
    obtain ⟨hns, hreserved⟩ := hhost
    unfold resolve
    rcases hscan : scanLabels ep.labels with ⟨cidr, reserved⟩
    rw [hscan] at hreserved
    obtain rfl : reserved = "host" := hreserved
    simp [hns, hscan, hobs]

/-- Only a machine that is not known by name is resolved to the anchor of its address. -/
theorem resolve_eq_anchor {nodeIPs : OrdMap String String} {ep : Option Endpoint}
    {names : List String} {addr observer ip : String} (hip : AddressLike ip)
    (hns : ∀ e ∈ ep, e.namespace ≠ reservedNamespace)
    (h : (resolve nodeIPs ep names addr observer).id = anchorId ip) :
    addr = ip ∧ nodeIPs.get? ip = none ∧ isHost ep = false := by
  have hkey : resolve nodeIPs ep names addr observer = anchorKey ip := anchorKey_of_id hip h
  cases ep with
  | none => exact absurd (congrArg NodeKey.namespace hkey) (show ¬ "unknown" = "reserved" by decide)
  | some ep =>
    unfold resolve at hkey
    unfold isHost
    by_cases hep : ep.namespace ≠ ""
    · -- the key of a workload stays in its own namespace
      simp only [hep, if_true, ne_eq, not_false_eq_true] at hkey
      have := congrArg NodeKey.namespace hkey
      rw [workloadKey_namespace] at this
      exact absurd this (hns ep rfl)
    rw [not_not] at hep
    rcases hscan : scanLabels ep.labels with ⟨cidr, reserved⟩
    simp only [hep, hscan, ne_eq, not_true_eq_false, if_false] at hkey
    by_cases h₀ : reserved = ""
    · by_cases hc : cidr = ""
      · simp [h₀, hc, anchorKey, reservedNamespace] at hkey
      · simp [h₀, hc, anchorKey] at hkey
    by_cases h₁ : reserved = "world" ∨ reserved = "world-ipv4" ∨ reserved = "world-ipv6"
    · simp [h₀, h₁, anchorKey] at hkey
    by_cases h₂ : reserved = "host"
    · by_cases ho : observer = ""
      · simp [h₂, ho, anchorKey] at hkey
      · simp [h₂, ho, anchorKey] at hkey
    by_cases h₃ : reserved = "remote-node"
    · subst h₃
      cases hget : nodeIPs.get? addr with
      | some name => simp [hget, anchorKey] at hkey
      | none =>
        by_cases haddr : addr = ""
        · -- all machines without an address share one anchor, which is not that of an address
          subst haddr
          simp only [hget] at hkey
          exact absurd (congrArg NodeKey.name hkey).symm hip.2
        · simp only [hget, haddr, not_false_eq_true, if_true] at hkey
          obtain rfl : addr = ip := congrArg NodeKey.name hkey
          exact ⟨rfl, hget, by simp [hscan]⟩
    · -- the other reserved identities are their own kind
      simp only [h₀, h₁, h₂, h₃, if_false] at hkey
      exact absurd (congrArg NodeKey.kind hkey) h₃

/-- Deriving a key reads the address table, and teaches the address of a host. -/
theorem endpointKey_eq (ρ : String → Nat) (ep : Option Endpoint) (names : List String)
    (ip observer : String) (g : Graph) :
    g.endpointKey ρ ep names ip observer =
      (if isHost ep then g.learnMachine ρ ip observer else some g).map
        fun g' => (resolve g.nodeIPs ep names ip observer, g') := by
  cases ep with
  | none => rfl
  | some ep =>
    unfold endpointKey resolve isHost
    by_cases hns : ep.namespace ≠ ""
    · simp [hns]
    rw [not_not] at hns
    rcases hscan : scanLabels ep.labels with ⟨cidr, reserved⟩
    by_cases h₀ : reserved = ""
    · by_cases hc : cidr = "" <;> simp [hscan, hns, h₀, hc]
    by_cases h₁ : reserved = "world" ∨ reserved = "world-ipv4" ∨ reserved = "world-ipv6"
    · have hne : reserved ≠ "host" := by rintro rfl; simp at h₁
      cases names <;> simp [hscan, hns, h₀, h₁, hne]
    by_cases h₂ : reserved = "host"
    · subst h₂
      by_cases ho : observer = ""
      · -- `learnMachine` has nothing to learn from an empty name
        simp [hscan, hns, ho, learnMachine]
      · simp [hscan, hns, ho]
    by_cases h₃ : reserved = "remote-node"
    · subst h₃
      cases g.nodeIPs.get? ip with
      | some name => simp [hscan, hns]
      | none => by_cases hip : ip = "" <;> simp [hscan, hns, hip]
    · simp [hscan, hns, h₀, h₁, h₂, h₃]

/-- What deriving the key of an endpoint does to the graph. -/
def Teaches (ep : Option Endpoint) (ip observer : String) (g g' : Graph) : Prop :=
  if isHost ep then LearnStep ip observer g g' else g' = g

theorem Stable.teaches {R : Graph → Prop} (hR : Stable R) {ep : Option Endpoint}
    {ip observer : String} {g g' : Graph} (h : Teaches ep ip observer g g') (hg : R g) : R g' := by
  unfold Teaches at h
  split at h
  · exact hR.learnStep h hg
  · rw [h]
    exact hg

/-- **What `endpointKey` does**: it learns from the endpoint of a machine, and resolves the key from
the table after that. -/
theorem endpointKey_spec (ρ : String → Nat) (ep : Option Endpoint) (names : List String)
    (ip observer : String) {g : Graph} (hinv : g.Inv) :
    ∃ g', g.endpointKey ρ ep names ip observer
        = some (resolve g.nodeIPs ep names ip observer, g') ∧
      g'.Inv ∧ Teaches ep ip observer g g' := by
  rw [endpointKey_eq]
  unfold Teaches
  by_cases h : isHost ep = true
  · obtain ⟨g', hres, hinv', hl⟩ := learnMachine_spec ρ ip observer hinv
    exact ⟨g', by rw [if_pos h, hres]; rfl, hinv', by rw [if_pos h]; exact hl⟩
  · exact ⟨g, by rw [if_neg h]; rfl, hinv, by rw [if_neg h]⟩

/-- The table after deriving a key. -/
theorem Teaches.nodeIPs {ep : Option Endpoint} {ip observer : String} {g g' : Graph}
    (h : Teaches ep ip observer g g') (ip' : String) : g'.nodeIPs.get? ip'
      = if isHost ep = true ∧ ip' = ip ∧ ip ≠ "" ∧ observer ≠ "" then some observer
        else g.nodeIPs.get? ip' := by
  unfold Teaches at h
  split at h
  · next hhost =>
    rw [h.nodeIPs]
    simp [hhost]
  · next hhost =>
    rw [h]
    simp [hhost]

/-- What deriving both keys of a flow does: the source is resolved and teaches first, the
destination is resolved in the table the source has left. -/
def KeysDerived (f : Flow) (g : Graph) (src dst : NodeKey) (g' : Graph) : Prop :=
  ∃ g₁, g₁.Inv ∧
    Teaches f.source f.ip.source (observerName f.nodeName) g g₁ ∧
    Teaches f.destination f.ip.destination (observerName f.nodeName) g₁ g' ∧
    src = resolve g.nodeIPs f.source f.sourceNames f.ip.source (observerName f.nodeName) ∧
    dst = resolve g₁.nodeIPs f.destination f.destinationNames f.ip.destination
      (observerName f.nodeName)

/-! ### The same, on the address table alone -/

/-- The table after an endpoint was looked at. -/
def learn (nodeIPs : OrdMap String String) (ep : Option Endpoint) (ip observer : String) :
    OrdMap String String :=
  if isHost ep = true ∧ ip ≠ "" ∧ observer ≠ "" then nodeIPs.set ip observer else nodeIPs

theorem learn_of_not_host {nodeIPs : OrdMap String String} {ep : Option Endpoint}
    {ip observer : String} (h : isHost ep = false) : learn nodeIPs ep ip observer = nodeIPs := by
  rw [learn, h, if_neg]
  rintro ⟨hhost, -⟩
  cases hhost

/-- The table after the source of a flow was looked at. -/
def sourceTable (f : Flow) (nodeIPs : OrdMap String String) : OrdMap String String :=
  learn nodeIPs f.source f.ip.source (observerName f.nodeName)

/-- The table after both sides of a flow were looked at. -/
def flowTable (f : Flow) (nodeIPs : OrdMap String String) : OrdMap String String :=
  learn (sourceTable f nodeIPs) f.destination f.ip.destination (observerName f.nodeName)

/-- The key of the source under a table. -/
def sourceKey (f : Flow) (nodeIPs : OrdMap String String) : NodeKey :=
  resolve nodeIPs f.source f.sourceNames f.ip.source (observerName f.nodeName)

/-- The key of the destination; the source was looked at before. -/
def destinationKey (f : Flow) (nodeIPs : OrdMap String String) : NodeKey :=
  resolve (sourceTable f nodeIPs) f.destination f.destinationNames f.ip.destination
    (observerName f.nodeName)

/-- The table after the endpoint is the one that `learn` makes. -/
theorem Teaches.get?_learn {ep : Option Endpoint} {ip observer : String} {g g' : Graph}
    (h : Teaches ep ip observer g g') {nodeIPs : OrdMap String String}
    (htable : ∀ ip, g.nodeIPs.get? ip = nodeIPs.get? ip) (ip' : String) :
    g'.nodeIPs.get? ip' = (learn nodeIPs ep ip observer).get? ip' := by
  rw [h.nodeIPs, learn, htable]
  by_cases hc : isHost ep = true ∧ ip ≠ "" ∧ observer ≠ ""
  · rw [if_pos hc, OrdMap.get?_set]
    by_cases heq : ip' = ip
    · rw [if_pos heq, if_pos ⟨hc.1, heq, hc.2⟩]
    · rw [if_neg heq, if_neg fun h => heq h.2.1]
  · rw [if_neg hc, if_neg fun h => hc ⟨h.1, h.2.2⟩]

/-- A key depends on the entries of the table only. -/
theorem resolve_congr {nodeIPs nodeIPs' : OrdMap String String}
    (h : ∀ ip, nodeIPs.get? ip = nodeIPs'.get? ip) (ep : Option Endpoint) (names : List String)
    (ip observer : String) :
    resolve nodeIPs ep names ip observer = resolve nodeIPs' ep names ip observer := by
  unfold resolve
  rw [h ip]

/-- The keys and the table are functions of the flow and the table before. -/
theorem KeysDerived.eq {f : Flow} {g g' : Graph} {src dst : NodeKey}
    (h : KeysDerived f g src dst g') :
    src = sourceKey f g.nodeIPs ∧ dst = destinationKey f g.nodeIPs ∧
      ∀ ip, g'.nodeIPs.get? ip = (flowTable f g.nodeIPs).get? ip := by
  obtain ⟨g₁, -, ht₁, ht₂, rfl, rfl⟩ := h
  have h₁ : ∀ ip, g₁.nodeIPs.get? ip = (sourceTable f g.nodeIPs).get? ip :=
    ht₁.get?_learn fun _ => rfl
  exact ⟨rfl, resolve_congr h₁ _ _ _ _, ht₂.get?_learn h₁⟩

theorem Stable.keysDerived {R : Graph → Prop} (hR : Stable R) {f : Flow} {src dst : NodeKey}
    {g g' : Graph} (h : KeysDerived f g src dst g') (hg : R g) : R g' := by
  obtain ⟨g₁, -, h₁, h₂, -, -⟩ := h
  exact hR.teaches h₂ (hR.teaches h₁ hg)

/-- The source is looked at before the destination, whose key can depend on what the source has
taught. -/
theorem endpointKeys_spec (ρ : RangeOrder) (f : Flow) {g : Graph} (hinv : g.Inv) :
    ∃ src dst g', g.endpointKeys ρ f = some (src, dst, g') ∧ g'.Inv ∧
      KeysDerived f g src dst g' := by
  obtain ⟨g₁, h₁, hinv₁, ht₁⟩ := endpointKey_spec (ρ 0) f.source f.sourceNames f.ip.source
    (observerName f.nodeName) hinv
  obtain ⟨g₂, h₂, hinv₂, ht₂⟩ := endpointKey_spec (ρ 1) f.destination f.destinationNames
    f.ip.destination (observerName f.nodeName) hinv₁
  refine ⟨_, _, g₂, ?_, hinv₂, g₁, hinv₁, ht₁, ht₂, rfl, rfl⟩
  show (g.endpointKey (ρ 0) _ _ _ _).bind _ = _
  rw [h₁, Option.bind_some]
  show (g₁.endpointKey (ρ 1) _ _ _ _).bind _ = _
  rw [h₂]
  rfl

end Graph

end Flowscape
