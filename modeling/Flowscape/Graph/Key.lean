import Flowscape.Lib.Text
import Flowscape.Graph.Flow

/-!
# Flowscape: node and edge keys (`internal/graph/key.go`)

The parts of the key derivation that only read a flow: ids, the reserved identity of an
endpoint, the pod-template hash, the layer 4 key and the label subset. The derivation itself,
which also learns machine addresses, works on the graph (`Flowscape.Graph.State`).
-/

namespace Flowscape

/-- A workload, a pod without a known workload, or a reserved entity. -/
structure NodeKey where
  «namespace» : String
  kind : String
  name : String
deriving DecidableEq, Inhabited

/-- The pseudo namespace of reserved identities. -/
def reservedNamespace : String := "reserved"

/-- The id used on the wire. -/
def NodeKey.id (k : NodeKey) : String := k.namespace ++ "/" ++ k.kind ++ "/" ++ k.name

/-- A directed conversation on one protocol and port. -/
structure EdgeKey where
  src : NodeKey
  dst : NodeKey
  proto : String
  port : Nat
deriving DecidableEq

/-- The id used on the wire. -/
def EdgeKey.id (k : EdgeKey) : String :=
  k.src.id ++ "|" ++ k.dst.id ++ "|" ++ k.proto ++ "|" ++ toString k.port

/-! ## Reading ids

A part without the separator is read off an id, whatever the parts of the other id are. -/

theorem NodeKey.toList_id (k : NodeKey) :
    k.id.toList = Text.join '/' [k.namespace.toList, k.kind.toList, k.name.toList] := by
  simp [id, Text.join]

/-- **A node's id tells its key**, when its parts have no slash. -/
theorem NodeKey.eq_of_id_eq {k k' : NodeKey} (h : k.id = k'.id) (hns : '/' ∉ k'.namespace.toList)
    (hkind : '/' ∉ k'.kind.toList) (hname : '/' ∉ k'.name.toList) : k = k' := by
  have hlist := congrArg String.toList h
  rw [toList_id, toList_id] at hlist
  have hfree : ∀ p ∈ [k'.namespace.toList, k'.kind.toList, k'.name.toList], '/' ∉ p := by
    simp [hns, hkind, hname]
  have hparts := Text.join_inj (by rfl) hfree hlist
  obtain ⟨ns, kind, name⟩ := k
  obtain ⟨ns', kind', name'⟩ := k'
  simpa [String.toList_inj] using hparts

theorem EdgeKey.toList_id (k : EdgeKey) : k.id.toList =
    Text.join '|' [k.src.id.toList, k.dst.id.toList, k.proto.toList,
      (toString k.port).toList] := by
  simp [id, Text.join]

theorem bar_not_mem_toString (n : Nat) : '|' ∉ (toString n).toList := by
  intro h
  have hdigit : '|'.isDigit := by
    rw [show toString n = n.repr from rfl, Nat.toList_repr] at h
    exact Nat.isDigit_of_mem_toDigits (by decide) (by decide) h
  exact absurd hdigit (by decide)

/-- An edge's id tells its parts, when none of them has a bar. -/
theorem EdgeKey.parts_of_id_eq {k k' : EdgeKey} (h : k.id = k'.id)
    (hsrc : '|' ∉ k'.src.id.toList) (hdst : '|' ∉ k'.dst.id.toList)
    (hproto : '|' ∉ k'.proto.toList) :
    k.src.id = k'.src.id ∧ k.dst.id = k'.dst.id ∧ k.proto = k'.proto ∧ k.port = k'.port := by
  have hlist := congrArg String.toList h
  rw [toList_id, toList_id] at hlist
  have hfree : ∀ p ∈ [k'.src.id.toList, k'.dst.id.toList, k'.proto.toList,
      (toString k'.port).toList], '|' ∉ p := by
    simp only [List.mem_cons, List.not_mem_nil, or_false, forall_eq_or_imp, forall_eq]
    exact ⟨hsrc, hdst, hproto, bar_not_mem_toString _⟩
  have hparts := Text.join_inj (by rfl) hfree hlist
  simp only [List.cons.injEq, String.toList_inj, and_true] at hparts
  obtain ⟨hs, hd, hp, hport⟩ := hparts
  exact ⟨hs, hd, hp, Text.eq_of_toString_eq hport⟩

theorem EdgeKey.ends_of_id_eq {k k' : EdgeKey} (h : k.id = k'.id) (hsrc : '|' ∉ k'.src.id.toList)
    (hdst : '|' ∉ k'.dst.id.toList) (hproto : '|' ∉ k'.proto.toList) :
    k.src.id = k'.src.id ∧ k.dst.id = k'.dst.id := by
  obtain ⟨hs, hd, -⟩ := parts_of_id_eq h hsrc hdst hproto
  exact ⟨hs, hd⟩

/-! ### Ids and keys

The keys of Kubernetes and Cilium keep the separators to themselves, but for the slash of a CIDR
in a name. -/

/-- No separator is in a part where it would be taken for one. A name may have slashes, since it
comes last. -/
structure NodeKey.Clean (k : NodeKey) : Prop where
  namespaceSlash : '/' ∉ k.namespace.toList
  namespaceBar : '|' ∉ k.namespace.toList
  kindSlash : '/' ∉ k.kind.toList
  kindBar : '|' ∉ k.kind.toList
  nameBar : '|' ∉ k.name.toList

/-- The keys of both ends are clean, and so is the protocol. -/
structure EdgeKey.Clean (k : EdgeKey) : Prop where
  src : k.src.Clean
  dst : k.dst.Clean
  protoSlash : '/' ∉ k.proto.toList
  protoBar : '|' ∉ k.proto.toList

/-- `id.split("/")[0]` (`web/src/main.ts`): the namespace of an end of an edge. -/
def endNamespace (id : String) : String := String.ofList ((id.toList.splitOn '/').headD [])

theorem NodeKey.Clean.bar_not_mem_id {k : NodeKey} (h : k.Clean) : '|' ∉ k.id.toList := by
  simp [NodeKey.id, h.namespaceBar, h.kindBar, h.nameBar]

/-- The first two parts end at the first two slashes, and the name is all of the rest. -/
theorem NodeKey.Clean.eq_of_id_eq {k k' : NodeKey} (h : k.Clean) (h' : k'.Clean)
    (hid : k.id = k'.id) : k = k' := by
  have hlist := congrArg String.toList hid
  rw [toList_id, toList_id] at hlist
  simp only [Text.join] at hlist
  obtain ⟨hns, hrest⟩ := Text.append_cons_inj h.namespaceSlash h'.namespaceSlash hlist
  obtain ⟨hkind, hname⟩ := Text.append_cons_inj h.kindSlash h'.kindSlash hrest
  rw [String.toList_inj] at hns hkind hname
  obtain ⟨ns, kind, name⟩ := k
  obtain ⟨ns', kind', name'⟩ := k'
  obtain ⟨rfl, rfl, rfl⟩ : ns = ns' ∧ kind = kind' ∧ name = name' := ⟨hns, hkind, hname⟩
  rfl

/-- **An edge's id tells its key.** -/
theorem EdgeKey.Clean.eq_of_id_eq {k k' : EdgeKey} (h : k.Clean) (h' : k'.Clean)
    (hid : k.id = k'.id) : k = k' := by
  obtain ⟨hsrc, hdst, hproto, hport⟩ := parts_of_id_eq hid h'.src.bar_not_mem_id
    h'.dst.bar_not_mem_id h'.protoBar
  have hs : k.src = k'.src := h.src.eq_of_id_eq h'.src hsrc
  have hd : k.dst = k'.dst := h.dst.eq_of_id_eq h'.dst hdst
  obtain ⟨src, dst, proto, port⟩ := k
  obtain ⟨src', dst', proto', port'⟩ := k'
  obtain ⟨rfl, rfl, rfl, rfl⟩ : src = src' ∧ dst = dst' ∧ proto = proto' ∧ port = port' :=
    ⟨hs, hd, hproto, hport⟩
  rfl

theorem NodeKey.Clean.endNamespace_id {k : NodeKey} (h : k.Clean) :
    endNamespace k.id = k.namespace := by
  rw [endNamespace, NodeKey.toList_id]
  simp only [Text.join]
  rw [List.splitOn_append_cons_self_of_not_mem h.namespaceSlash, List.headD_cons,
    String.ofList_toList]

/-- **Ids stand for keys.** Two edge keys of one id are one key, so are two node keys, and the
browser reads the namespace of a node off its id. -/
theorem ids_injective :
    (∀ k k' : EdgeKey, k.Clean → k'.Clean → k.id = k'.id → k = k') ∧
      (∀ k k' : NodeKey, k.Clean → k'.Clean → k.id = k'.id → k = k') ∧
      ∀ k : NodeKey, k.Clean → endNamespace k.id = k.namespace :=
  ⟨fun _ _ h h' => h.eq_of_id_eq h', fun _ _ h h' => h.eq_of_id_eq h', fun _ h => h.endNamespace_id⟩

/-- A block of addresses outside of the cluster has a slash in its name. -/
theorem ids_injective_cidr : endNamespace "reserved/world/10.0.0.0/8" = "reserved" :=
  ids_injective.2.2 ⟨"reserved", "world", "10.0.0.0/8"⟩
    ⟨by decide, by decide, by decide, by decide, by decide⟩

/-- The workload kinds that Cilium reports and the display kind they collapse to; the
empty string for any other kind. -/
def workloadKinds : String → String
  | "Deployment" => "Deployment"
  | "StatefulSet" => "StatefulSet"
  | "DaemonSet" => "DaemonSet"
  | "Job" => "Job"
  | "CronJob" => "CronJob"
  | "ReplicaSet" => "Deployment"
  | "Cluster" => "Cluster"
  | "Pod" => "Pod"
  | _ => ""

/-- The machine labels beat the roles that an identity also carries. -/
def reservedRank (r : String) : Nat :=
  if r = "remote-node" then 1 else if r = "host" then 2 else 0

/-- One round of the label loop of `endpointKey`, on the pair of the CIDR and the reserved
identity found so far. -/
def scanLabel (acc : String × String) (l : String) : String × String :=
  if Text.hasPrefix l "reserved:" then
    let r := Text.trimPrefix l "reserved:"
    if reservedRank acc.2 ≤ reservedRank r then (acc.1, r) else acc
  else if Text.hasPrefix l "cidr:" then (Text.trimPrefix l "cidr:", acc.2)
  else acc

/-- The label loop of `endpointKey`: the CIDR and the reserved identity. -/
def scanLabels (labels : List String) : String × String := labels.foldl scanLabel ("", "")

/-- Remove the pod-template hash from a ReplicaSet name. -/
def stripHash (name : String) : String :=
  match Text.cutAtLast '-' name.toList with
  | none => name
  | some (before, suffix) =>
    if before = [] then name
    else if suffix.length < 5 ∨ 10 < suffix.length then name
    else if suffix.any fun c => !(('0' ≤ c && c ≤ '9') || ('a' ≤ c && c ≤ 'z')) then name
    else String.ofList before

/-- The protocol name and destination port (ICMP type for ICMP). -/
def l4Key : Layer4 → String × Nat
  | .tcp port => ("TCP", port)
  | .udp port => ("UDP", port)
  | .sctp port => ("SCTP", port)
  | .icmpv4 type => ("ICMP", type)
  | .icmpv6 type => ("ICMP", type)
  | .none => ("L3", 0)

/-- The labels worth showing in the UI. -/
def labelSubset (labels : List String) : OrdMap String String :=
  labels.foldl (fun out l =>
    match Text.cutAt '=' (Text.trimPrefix l "k8s:").toList with
    | none => out
    | some (k, v) =>
      let k := String.ofList k
      if Text.hasPrefix k "app.kubernetes.io/" then
        out.set (Text.trimPrefix k "app.kubernetes.io/") (String.ofList v)
      else out) ∅

/-- The node name of a flow without its cluster prefix. -/
def observerName (nodeName : String) : String :=
  match Text.cutAt '/' nodeName.toList with
  | none => nodeName
  | some (_, node) => String.ofList node

/-- The key of a namespaced endpoint. -/
def workloadKey (ep : Endpoint) : NodeKey :=
  match ep.workloads with
  | wl :: _ =>
    if wl.name ≠ "" then
      let kind := if workloadKinds wl.kind = "" then wl.kind else workloadKinds wl.kind
      let name := if wl.kind = "ReplicaSet" then stripHash wl.name else wl.name
      ⟨ep.namespace, kind, name⟩
    else if ep.podName ≠ "" then ⟨ep.namespace, "Pod", ep.podName⟩
    else ⟨ep.namespace, "Namespace", ep.namespace⟩
  | [] =>
    if ep.podName ≠ "" then ⟨ep.namespace, "Pod", ep.podName⟩
    else ⟨ep.namespace, "Namespace", ep.namespace⟩

/-- `verdictCode`: the code of a verdict, or nothing for a verdict that is not counted. -/
def verdictCode : Verdict → Option VerdictCode
  | .forwarded | .redirected | .traced | .translated => some verdictForwarded
  | .dropped => some verdictDropped
  | .audit => some verdictAudit
  | .error => some verdictError
  | .unknown | .other => none

/-! ## Which reserved identity an endpoint gets

The comment on `reservedRank` lets the machine labels win in any position and the rest tie on
first-seen. The loop keeps the later one of two labels of equal rank. -/

/-- The reserved identities that the labels name, in their order. -/
def reservedLabels (labels : List String) : List String :=
  (labels.filter fun l => Text.hasPrefix l "reserved:").map fun l => Text.trimPrefix l "reserved:"

/-- The earliest one of highest rank; empty if there is none. -/
def earliestOfHighest (ids : List String) : String :=
  (ids.find? fun r => ids.all fun r' => reservedRank r' ≤ reservedRank r).getD ""

/-- One of the identities is a machine. -/
def NamesMachine (ids : List String) : Prop := ∃ r ∈ ids, reservedRank r ≠ 0

/-- What a reserved label does to the identity found so far. -/
def preferLater (found r : String) : String :=
  if reservedRank found ≤ reservedRank r then r else found

/-- The reserved identity that the scan ends with depends on the reserved labels only. -/
theorem foldl_scanLabel_snd (labels : List String) (acc : String × String) :
    (labels.foldl scanLabel acc).2 = (reservedLabels labels).foldl preferLater acc.2 := by
  induction labels generalizing acc with
  | nil => rfl
  | cons l rest ih =>
    rw [List.foldl_cons, ih]
    -- a label that is not reserved leaves it, whatever else the scan makes of the label
    by_cases hl : Text.hasPrefix l "reserved:" = true
    · have hstep : (scanLabel acc l).2 = preferLater acc.2 (Text.trimPrefix l "reserved:") := by
        simp only [scanLabel, hl, if_true, preferLater]
        split <;> rfl
      rw [hstep, reservedLabels, reservedLabels,
        List.filter_cons_of_pos (p := fun l => Text.hasPrefix l "reserved:") hl]
      rfl
    · have hstep : (scanLabel acc l).2 = acc.2 := by
        simp only [scanLabel, hl, Bool.false_eq_true, if_false]
        split <;> rfl
      rw [hstep, reservedLabels, reservedLabels,
        List.filter_cons_of_neg (p := fun l => Text.hasPrefix l "reserved:") hl]

/-- The rank of what is found is the highest of all. -/
theorem le_reservedRank_foldl (ids : List String) (found : String) :
    (∀ r ∈ ids, reservedRank r ≤ reservedRank (ids.foldl preferLater found)) ∧
      reservedRank found ≤ reservedRank (ids.foldl preferLater found) := by
  induction ids generalizing found with
  | nil => exact ⟨fun r hr => absurd hr List.not_mem_nil, le_refl _⟩
  | cons r rest ih =>
    obtain ⟨hrest, hstart⟩ := ih (preferLater found r)
    -- preferring the later one never lowers the rank
    have hr : reservedRank r ≤ reservedRank (preferLater found r) := by
      unfold preferLater; split <;> omega
    have hfound : reservedRank found ≤ reservedRank (preferLater found r) := by
      unfold preferLater; split <;> omega
    refine ⟨fun r' hr' => ?_, hfound.trans hstart⟩
    rcases List.mem_cons.1 hr' with rfl | hr'
    · exact hr.trans hstart
    · exact hrest r' hr'

/-- The scan ends with an identity that it has come by. -/
theorem foldl_preferLater_mem (ids : List String) (found : String) :
    ids.foldl preferLater found = found ∨ ids.foldl preferLater found ∈ ids := by
  induction ids generalizing found with
  | nil => exact Or.inl rfl
  | cons r rest ih =>
    rw [List.foldl_cons]
    rcases ih (preferLater found r) with h | h
    · rw [h]
      unfold preferLater
      split
      · exact Or.inr List.mem_cons_self
      · exact Or.inl rfl
    · exact Or.inr (List.mem_cons_of_mem r h)

/-- Two machines of one rank are one identity. -/
theorem eq_of_reservedRank_eq {r r' : String} (h : reservedRank r = reservedRank r')
    (hr : reservedRank r ≠ 0) : r = r' := by
  unfold reservedRank at h hr
  -- only `remote-node` and `host` have a rank of their own
  by_cases h₁ : r = "remote-node"
  · by_cases h₂ : r' = "remote-node"
    · rw [h₁, h₂]
    · rw [if_pos h₁, if_neg h₂] at h
      split at h <;> cases h
  · rw [if_neg h₁] at h hr
    by_cases h₂ : r = "host"
    · rw [if_pos h₂] at h
      by_cases h₃ : r' = "remote-node"
      · rw [if_pos h₃] at h
        cases h
      · rw [if_neg h₃] at h
        by_cases h₄ : r' = "host"
        · rw [h₂, h₄]
        · rw [if_neg h₄] at h
          cases h
    · rw [if_neg h₂] at hr
      exact absurd rfl hr

/-- Without a machine the last label wins. -/
theorem foldl_preferLater_of_roles {ids : List String} (h : ∀ r ∈ ids, reservedRank r = 0)
    (found : String) (hfound : reservedRank found = 0) :
    ids.foldl preferLater found = ids.getLast?.getD found := by
  induction ids generalizing found with
  | nil => rfl
  | cons r rest ih =>
    have hr : reservedRank r = 0 := h r List.mem_cons_self
    rw [List.foldl_cons, show preferLater found r = r by simp [preferLater, hr, hfound],
      ih (fun r' hr' => h r' (List.mem_cons_of_mem r hr')) r hr, List.getLast?_cons]
    rfl

/-- Where a machine is named, the first identity of highest rank is found wherever it stands. -/
theorem earliestOfHighest_of_machine {ids : List String} (h : NamesMachine ids) :
    ids.foldl preferLater "" = earliestOfHighest ids := by
  obtain ⟨r, hr, hrank⟩ := h
  obtain ⟨hmax, -⟩ := le_reservedRank_foldl ids ""
  have hne : reservedRank (ids.foldl preferLater "") ≠ 0 := by
    have := hmax r hr
    omega
  have hmem : ids.foldl preferLater "" ∈ ids := by
    refine (foldl_preferLater_mem ids "").resolve_left fun heq => hne ?_
    rw [heq]
    rfl
  have hfound : (ids.find? fun r => ids.all fun r' => reservedRank r' ≤ reservedRank r).isSome :=
    List.find?_isSome.2 ⟨_, hmem, by simpa using hmax⟩
  obtain ⟨first, hfirst⟩ := Option.isSome_iff_exists.1 hfound
  rw [earliestOfHighest, hfirst]
  -- the first one and the one that was found have the same rank
  have hfirstMax := List.find?_some hfirst
  simp only [List.all_eq_true, decide_eq_true_eq] at hfirstMax
  exact eq_of_reservedRank_eq
    (le_antisymm (hfirstMax _ hmem) (hmax first (List.mem_of_find?_eq_some hfirst))) hne

/-- Among identities of rank zero the earliest is the first one. -/
theorem earliestOfHighest_of_roles {ids : List String} (h : ∀ r ∈ ids, reservedRank r = 0) :
    earliestOfHighest ids = ids.head?.getD "" := by
  cases ids with
  | nil => rfl
  | cons r rest =>
    rw [earliestOfHighest, List.find?_cons_of_pos]
    · rfl
    · simp only [List.all_eq_true, decide_eq_true_eq]
      intro r' hr'
      rw [h r' hr']
      exact Nat.zero_le _

/-- **Which identity wins.** The label loop finds the earliest of the reserved identities of
highest rank exactly when a machine is among them, or the first and the last one are the same. -/
theorem scanLabels_eq_earliest_iff (labels : List String) :
    (scanLabels labels).2 = earliestOfHighest (reservedLabels labels) ↔
      NamesMachine (reservedLabels labels) ∨
        (reservedLabels labels).head? = (reservedLabels labels).getLast? := by
  rw [scanLabels, foldl_scanLabel_snd]
  generalize reservedLabels labels = ids
  -- an identity that names a machine has a rank that no other one shares; among the others `>=`
  -- lets the last one win where the comment wants the first one
  by_cases hm : NamesMachine ids
  · exact iff_of_true (earliestOfHighest_of_machine hm) (Or.inl hm)
  · have hroles : ∀ r ∈ ids, reservedRank r = 0 := fun r hr => by
      by_contra hne
      exact hm ⟨r, hr, hne⟩
    rw [foldl_preferLater_of_roles hroles "" rfl, earliestOfHighest_of_roles hroles,
      or_iff_right hm]
    cases ids with
    | nil => exact iff_of_true rfl rfl
    | cons r rest =>
      rw [List.head?_cons, List.getLast?_cons]
      exact ⟨fun h => congrArg some h.symm, fun h => (Option.some.inj h).symm⟩

/-- **The later one of two roles wins.** An API server outside of the cluster is also world. -/
theorem not_scanLabels_eq_earliest :
    ¬ ∀ labels : List String,
      (scanLabels labels).2 = earliestOfHighest (reservedLabels labels) := by
  intro h
  have hlast : (scanLabels ["reserved:kube-apiserver", "reserved:world"]).2 = "world" := by decide
  have hfirst : earliestOfHighest (reservedLabels ["reserved:kube-apiserver", "reserved:world"])
      = "kube-apiserver" := by decide
  have heq := h ["reserved:kube-apiserver", "reserved:world"]
  rw [hlast, hfirst] at heq
  exact absurd heq (by decide)

end Flowscape
