import Flowscape.Graph.Representation

/-!
# Flowscape: the machine of a workload (`Graph.placeOn` in `internal/graph/graph.go`)

A node remembers how often its pods were seen on each machine, and the machine they were seen on
most. The maximum is not searched for: after every spotting the machine just seen is compared with
the one that is held.

`spottings` is what a run has told about each node object: the machines that it was placed on, in
their order. The invariant reads the counts of a node off it, and from the counts the machine.
-/

namespace Flowscape

/-- `n.machines[m]`, zero for a machine that it does not have. -/
def Node.count (n : Node) (m : String) : UInt32 := (n.machines.get? m).getD 0

namespace Graph

/-! ## What a run tells about the machines -/

/-- `placeOn` does not leave the node alone. -/
def Placeable (machine : String) (n : Node) : Prop :=
  ¬ (machine = "" ∨ n.key.namespace = reservedNamespace ∨ n.key.namespace = "unknown")

instance (machine : String) (n : Node) : Decidable (Placeable machine n) :=
  inferInstanceAs (Decidable (¬ _))

/-- Both nodes of a flow, touched, with their objects. -/
def touchBoth (f : Flow) (src dst : NodeKey) (g : Graph) : Graph × Ref × Ref :=
  let g := if src.namespace = "unknown" ∨ dst.namespace = "unknown" then
    { g with unknown := g.unknown + 1 } else g
  let p := g.touchNode src (endpointLabels f.source) f.asTime (!f.sourceNames.isEmpty)
  let q := p.1.touchNode dst (endpointLabels f.destination) f.asTime
    (!f.destinationNames.isEmpty)
  (q.1, p.2, q.2)

/-- The node object that a flow is about to place. -/
def placedRef (f : Flow) (sn dn : Ref) : Option Ref :=
  match f.trafficDirection with
  | .egress => some sn
  | .ingress => some dn
  | .unknown => none

/-- The node object that adding a flow places, with the machine. -/
def addSpotting (f : Flow) (src dst : NodeKey) (g : Graph) : Option (Ref × String) :=
  let t := g.touchBoth f src dst
  (placedRef f t.2.1 t.2.2).bind fun r =>
    if Placeable (observerName f.nodeName) (t.1.heap r) then some (r, observerName f.nodeName)
    else none

/-- The node object that a call places, with the machine. -/
def spotting (g : Graph) : Op → Option (Ref × String)
  | .ingest ρ f =>
    match accept f with
    | .error _ => none
    | .ok _ => (g.endpointKeys ρ f).bind fun (src, dst, g) =>
      if src = dst then none else g.addSpotting f src dst
  | .learnMachines _ _ => none
  | .tick _ _ => none
  | .snapshot _ _ => none

/-- The machine of a spotting, if it is about the object. -/
def machineAt (r : Ref) : Option (Ref × String) → List String
  | none => []
  | some (r', m) => if r' = r then [m] else []

/-- The machines that a run places an object on, in their order. -/
def spottings : Graph → List Op → Ref → List String
  | _, [], _ => []
  | g, op :: ops, r => machineAt r (g.spotting op) ++
    match g.step op with
    | none => []
    | some g' => spottings g' ops r

/-- One more operation adds its own spotting, if it has one. -/
theorem spottings_concat {g g' : Graph} {ops : List Op} (hr : Run.run step g ops = some g')
    (op : Op) (r : Ref) :
    spottings g (ops ++ [op]) r = spottings g ops r ++ machineAt r (g'.spotting op) := by
  induction ops generalizing g with
  | nil =>
    obtain rfl : g = g' := by simpa using hr
    rw [List.nil_append, spottings, spottings]
    cases g.step op <;> simp [spottings]
  | cons o ops ih =>
    obtain ⟨g₁, hstep, hrest⟩ := Run.run_cons_eq_some.1 hr
    rw [List.cons_append, spottings, spottings, hstep, List.append_assoc]
    exact congrArg _ (ih hrest)

/-! ## What a call does to the machines -/

/-- What `placeOn` reads and writes is the same. -/
def AsPlaced (n n' : Node) : Prop :=
  n'.key = n.key ∧ n'.machines = n.machines ∧ n'.machine = n.machine

/-- No object of `g` has been placed on the way to `g'`, and no new one. -/
structure Extends (g g' : Graph) : Prop where
  next : g.next ≤ g'.next
  heap : ∀ r, r < g.next → AsPlaced (g.heap r) (g'.heap r)
  fresh : ∀ r, g.next ≤ r → r < g'.next → (g'.heap r).machines = ∅ ∧ (g'.heap r).machine = ""

theorem AsPlaced.trans {n n' n'' : Node} (h : AsPlaced n n') (h' : AsPlaced n' n'') :
    AsPlaced n n'' := ⟨h'.1.trans h.1, h'.2.1.trans h.2.1, h'.2.2.trans h.2.2⟩

theorem Extends.refl (g : Graph) : Extends g g where
  next := le_refl _
  heap _ _ := ⟨rfl, rfl, rfl⟩
  fresh _ hle hlt := absurd hlt (Nat.not_lt.2 hle)

/-- One thing happens after the other. -/
theorem Extends.trans {g g' g'' : Graph} (h : Extends g g') (h' : Extends g' g'') :
    Extends g g'' where
  next := h.next.trans h'.next
  heap r hr := (h.heap r hr).trans (h'.heap r (hr.trans_le h.next))
  fresh r hle hlt := by
    by_cases hr : r < g'.next
    · -- it was new in the first part, and the second one leaves it alone
      obtain ⟨hmachines, hmachine⟩ := h.fresh r hle hr
      obtain ⟨-, hmachines', hmachine'⟩ := h'.heap r hr
      exact ⟨hmachines'.trans hmachines, hmachine'.trans hmachine⟩
    · exact h'.fresh r (Nat.le_of_not_lt hr) hlt

/-- Writes to other fields of the objects. -/
theorem Extends.of_heap {g g' : Graph} (hnext : g'.next = g.next)
    (hheap : ∀ r, AsPlaced (g.heap r) (g'.heap r)) : Extends g g' where
  next := hnext.ge
  heap r _ := hheap r
  fresh r hle hlt := absurd hlt (by rw [hnext]; exact Nat.not_lt.2 hle)

theorem AsPlaced.of_edges {n n' : Node} (h : n' = { n with edges := n'.edges }) :
    AsPlaced n n' := by
  rw [h]
  exact ⟨rfl, rfl, rfl⟩

theorem stable_extends (g : Graph) : Stable (Extends g) where
  nodeIPs _ h := h.trans (.of_heap rfl fun _ => ⟨rfl, rfl, rfl⟩)
  dropped hd h := h.trans (.of_heap hd.next fun r => .of_edges (hd.heap r))
  forgotten hf h := h.trans (.of_heap hf.next fun r => by rw [hf.heap]; exact ⟨rfl, rfl, rfl⟩)

/-- Touching a node places none, and returns an object that there is. -/
theorem extends_touchNode (k : NodeKey) (labels : List String) (t : Time) (fqdn : Bool)
    {g : Graph} (hinv : g.Inv) : Extends g (g.touchNode k labels t fqdn).1 ∧
      (g.touchNode k labels t fqdn).2 < (g.touchNode k labels t fqdn).1.next := by
  have hseen : ∀ (g : Graph) (r : Ref), Extends g (g.update r (seen t)) := by
    intro g r
    refine .of_heap rfl fun r' => ?_
    show AsPlaced (g.heap r') (Function.update g.heap r (seen t (g.heap r)) r')
    by_cases h : r' = r
    · subst h
      rw [Function.update_self]
      exact ⟨rfl, rfl, rfl⟩
    · rw [Function.update_of_ne h]
      exact ⟨rfl, rfl, rfl⟩
  cases hget : g.nodes.get? k.id with
  -- an object that is there is kept, and a new one has been placed nowhere
  | some r =>
    have heq : g.touchNode k labels t fqdn = (g.update r (seen t), r) := by
      simp [touchNode, hget]
    rw [heq]
    exact ⟨hseen g r, hinv.alloc hget⟩
  | none =>
    have heq : g.touchNode k labels t fqdn
        = ((g.withNode k.id (newNode k labels t fqdn)).update g.next (seen t), g.next) := by
      simp [touchNode, hget, withNode]
    rw [heq]
    refine ⟨Extends.trans ?_ (hseen _ _), Nat.lt_succ_self _⟩
    constructor
    · exact Nat.le_succ _
    · intro r hr
      have hheap : (g.withNode k.id (newNode k labels t fqdn)).heap r = g.heap r :=
        Function.update_of_ne hr.ne _ _
      rw [hheap]
      exact ⟨rfl, rfl, rfl⟩
    · intro r hle hlt
      obtain rfl : r = g.next := Nat.le_antisymm (Nat.lt_succ_iff.1 hlt) hle
      rw [withNode_heap_next]
      exact ⟨rfl, rfl⟩

/-- What a call with a given spotting does to the machines: between two stretches that place no
node it places one. -/
def Places (s : Option (Ref × String)) (g g' : Graph) : Prop :=
  match s with
  | none => Extends g g'
  | some (r, m) => ∃ g₁, Extends g g₁ ∧ r < g₁.next ∧ Placeable m (g₁.heap r) ∧
      Extends (g₁.update r (placed m)) g'

theorem Places.extends {s : Option (Ref × String)} {g g₁ g₂ g' : Graph} (h : Extends g g₁)
    (hs : Places s g₁ g₂) (h' : Extends g₂ g') : Places s g g' := by
  cases s with
  | none => exact (h.trans hs).trans h'
  | some p =>
    obtain ⟨g₃, hext, hlt, hplace, hext'⟩ := hs
    exact ⟨g₃, h.trans hext, hlt, hplace, hext'.trans h'⟩

/-- `placeOn` with a guard. -/
theorem places_placeOn {g : Graph} {r : Ref} (hr : r < g.next) (m : String) :
    Places (if Placeable m (g.heap r) then some (r, m) else none) g (g.placeOn r m) := by
  have hext : Extends (g.update r (placed m)) (g.placeOn r m) := by
    rw [placeOn_eq]
    exact .of_heap rfl fun _ => ⟨rfl, rfl, rfl⟩
  by_cases h : Placeable m (g.heap r)
  · rw [if_pos h]
    exact ⟨g, .refl g, hr, h, hext⟩
  · rw [if_neg h]
    have hplaced : placed m (g.heap r) = g.heap r := by rw [placed, if_pos (not_not.1 h)]
    have hupdate : g.update r (placed m) = g := by
      rw [update, hplaced, Function.update_eq_self]
    rwa [hupdate] at hext

theorem staged_eq (f : Flow) (src dst : NodeKey) (g : Graph) : g.staged f src dst
    = match placedRef f (g.touchBoth f src dst).2.1 (g.touchBoth f src dst).2.2 with
      | none => (g.touchBoth f src dst).1
      | some r => (g.touchBoth f src dst).1.placeOn r (observerName f.nodeName) := by
  unfold staged placedRef touchBoth
  cases f.trafficDirection <;> rfl

/-- Both ends of a flow have objects, and nothing has been placed. -/
theorem extends_touchBoth (f : Flow) (src dst : NodeKey) {g : Graph} (hinv : g.Inv) :
    Extends g (g.touchBoth f src dst).1 ∧
      (g.touchBoth f src dst).2.1 < (g.touchBoth f src dst).1.next ∧
      (g.touchBoth f src dst).2.2 < (g.touchBoth f src dst).1.next := by
  -- counting an unknown end touches no object
  have hcount : ∀ u, Extends g { g with unknown := u } := fun u =>
    .of_heap rfl fun _ => ⟨rfl, rfl, rfl⟩
  let u := if src.namespace = "unknown" ∨ dst.namespace = "unknown" then g.unknown + 1
    else g.unknown
  have hu : (if src.namespace = "unknown" ∨ dst.namespace = "unknown" then
      { g with unknown := g.unknown + 1 } else g) = { g with unknown := u } := by
    simp only [u]
    split <;> rfl
  simp only [touchBoth, hu]
  obtain ⟨hinv₁, -⟩ := touchNode_spec src (endpointLabels f.source) f.asTime
    (!f.sourceNames.isEmpty) (hinv.setUnknown u)
  obtain ⟨hsrc, hsn⟩ := extends_touchNode src (endpointLabels f.source) f.asTime
    (!f.sourceNames.isEmpty) (hinv.setUnknown u)
  obtain ⟨hdst, hdn⟩ := extends_touchNode dst (endpointLabels f.destination) f.asTime
    (!f.destinationNames.isEmpty) hinv₁
  exact ⟨((hcount u).trans hsrc).trans hdst, hsn.trans_le hdst.next, hdn⟩

/-- A flow places the node that it was seen at. -/
theorem places_staged (f : Flow) (src dst : NodeKey) {g : Graph} (hinv : g.Inv) :
    Places (g.addSpotting f src dst) g (g.staged f src dst) := by
  obtain ⟨hext, hsn, hdn⟩ := extends_touchBoth f src dst hinv
  rw [staged_eq, addSpotting]
  cases href : placedRef f (g.touchBoth f src dst).2.1 (g.touchBoth f src dst).2.2 with
  | none =>
    simp only [Option.bind_none]
    exact hext
  | some r =>
    -- the node that is placed is one of the two ends
    have hr : r < (g.touchBoth f src dst).1.next := by
      unfold placedRef at href
      split at href
      · cases href; exact hsn
      · cases href; exact hdn
      · cases href
    simp only [Option.bind_some]
    exact Places.extends hext (places_placeOn hr _) (.refl _)

/-- Counting a flow on its edge places no node. -/
theorem extends_countFlow {f : Flow} {t : Time} {v : VerdictCode} (ek : EdgeKey) {g g' : Graph}
    (hinv : g.Inv) (hs : ek.src.id ∈ g.nodes) (hd : ek.dst.id ∈ g.nodes)
    (h : g.countFlow f t v ek = some g') : Extends g g' := by
  obtain ⟨heap, htouch, hheap, -⟩ := touchEdge_spec hinv hs hd
  replace h : (g.touchEdge ek).bind _ = some g' := h
  rw [htouch, Option.bind_some] at h
  obtain ⟨e, -, hend⟩ := Option.bind_eq_some_iff.1 h
  cases hend
  exact .of_heap rfl fun r => .of_edges (hheap r)

/-- **What a call does to the machines of the nodes** is told by its spotting. -/
theorem places_step {g g' : Graph} {op : Op} (hinv : g.Inv) (h : g.step op = some g') :
    Places (g.spotting op) g g' := by
  have hstable := stable_extends g
  have hsettle : ∀ {g₁ : Graph}, Extends g g₁ → Extends g g₁.settle := fun h =>
    h.trans (.of_heap rfl fun _ => ⟨rfl, rfl, rfl⟩)
  cases op with
  | ingest ρ f =>
    obtain ⟨⟨g₁, res⟩, hres, rfl⟩ := Option.map_eq_some_iff.1 h
    obtain ⟨-, hing⟩ := ingest_inv hinv hres
    rw [spotting]
    cases hing with
    | skipped haccept =>
      rw [haccept]
      exact .refl g
    | self haccept hkeys hderived =>
      simp only [haccept, hkeys, Option.bind_some, if_true]
      exact hstable.keysDerived hderived (.refl g)
    -- the placing stands between the keys, which may learn, and the count on the edge
    | @added v src dst g₂ _ haccept hkeys hderived hinv₂ hne hadd =>
      rw [ingest_eq haccept hkeys, if_neg hne, addFlow_eq] at hres
      obtain ⟨g₃, hcount, heq⟩ := Option.map_eq_some_iff.1 hres
      obtain ⟨rfl, -⟩ := Prod.mk.inj heq
      obtain ⟨-, hinv₃, hs, hd⟩ := staged_spec f src dst hinv₂
      simp only [haccept, hkeys, Option.bind_some, if_neg hne]
      exact Places.extends (hstable.keysDerived hderived (.refl g)) (places_staged f src dst hinv₂)
        (extends_countFlow (flowKey f src dst) hinv₃ hs hd hcount)
  | learnMachines ρ addrs =>
    show Extends g g'
    exact hstable.step hinv h (.refl g) (fun heq => nomatch heq) hsettle
  | tick ρ now =>
    show Extends g g'
    exact hstable.step hinv h (.refl g) (fun heq => nomatch heq) hsettle
  | snapshot ρ now =>
    obtain rfl : g = g' := Option.some.inj h
    exact .refl g

/-! ## The machine of a node -/

/-- What a node object has when it was placed on the machines of a list. -/
structure Placement (l : List String) (n : Node) : Prop where
  counts : ∀ m, n.machines.get? m
    = if l.count m = 0 then none else some (UInt32.ofNat (l.count m))
  unplaced : n.machine = "" ↔ l = []
  most : ∀ m, l.count m ≤ l.count n.machine
  named : ∀ m ∈ l, m ≠ ""
  workload : l ≠ [] → n.key.namespace ≠ reservedNamespace ∧ n.key.namespace ≠ "unknown"

/-- A placement is about where a node stands and was counted. -/
theorem Placement.congr {l : List String} {n n' : Node} (h : Placement l n) (hn : AsPlaced n n') :
    Placement l n' := by
  obtain ⟨hkey, hmachines, hmachine⟩ := hn
  constructor
  · rw [hmachines]; exact h.counts
  · rw [hmachine]; exact h.unplaced
  · rw [hmachine]; exact h.most
  · exact h.named
  · rw [hkey]; exact h.workload

theorem placement_nil {n : Node} (hmachines : n.machines = ∅) (hmachine : n.machine = "") :
    Placement [] n where
  counts m := by rw [hmachines]; rfl
  unplaced := iff_of_true hmachine rfl
  most m := le_refl 0
  named m h := absurd h List.not_mem_nil
  workload h := absurd rfl h

theorem Placement.count {l : List String} {n : Node} (h : Placement l n) (m : String) :
    n.count m = UInt32.ofNat (l.count m) := by
  unfold Node.count
  rw [h.counts]
  split
  · next hzero => rw [hzero]; rfl
  · rfl

/-- The counts of a node are the counts of its spottings, so they compare alike. -/
theorem Placement.count_lt_iff {l : List String} {n : Node} (h : Placement l n)
    (hb : ∀ m, l.count m < 2 ^ 32) (m m' : String) :
    n.count m < n.count m' ↔ l.count m < l.count m' := by
  rw [h.count, h.count, UInt32.lt_iff_toNat_lt, UInt32.toNat_ofNat_of_lt' (hb m),
    UInt32.toNat_ofNat_of_lt' (hb m')]

theorem Placement.count_le_iff {l : List String} {n : Node} (h : Placement l n)
    (hb : ∀ m, l.count m < 2 ^ 32) (m m' : String) :
    n.count m ≤ n.count m' ↔ l.count m ≤ l.count m' := by
  rw [← UInt32.not_lt, h.count_lt_iff hb, Nat.not_lt]

section

variable {l : List String} {n : Node} {m : String}

theorem count_concat (k : String) : (l ++ [m]).count k = l.count k + if m = k then 1 else 0 := by
  rw [List.count_append, List.count_singleton]
  simp only [beq_iff_eq]

/-- The counters after one more spotting. -/
theorem Placement.counts_countedOn (h : Placement l n) (k : String) :
    (countedOn m n).get? k
      = if (l ++ [m]).count k = 0 then none else some (UInt32.ofNat ((l ++ [m]).count k)) := by
  rw [countedOn, OrdMap.get?_set, count_concat]
  by_cases hk : k = m
  · subst hk
    have hcount : (n.machines.get? k).getD 0 = UInt32.ofNat (l.count k) := h.count k
    rw [if_pos rfl, if_pos rfl, if_neg (Nat.succ_ne_zero _), hcount, UInt32.ofNat_add]
    rfl
  · rw [if_neg hk, if_neg (Ne.symm hk), Nat.add_zero]
    exact h.counts k

/-- The machine changes when its count is overtaken, or when there is none yet. -/
theorem Placement.movesTo_iff (h : Placement l n) (hb : ∀ k, (l ++ [m]).count k < 2 ^ 32) :
    movesTo m n = true ↔
      ((l ++ [m]).count n.machine < (l ++ [m]).count m ∨ n.machine = "") ∧ n.machine ≠ m := by
  have hcount : ∀ k, ((countedOn m n).get? k).getD 0 = UInt32.ofNat ((l ++ [m]).count k) := by
    intro k
    rw [h.counts_countedOn]
    split
    · next hzero => rw [hzero]; rfl
    · rfl
  simp only [movesTo, hcount, Bool.and_eq_true, Bool.or_eq_true, decide_eq_true_eq,
    UInt32.lt_iff_toNat_lt, UInt32.toNat_ofNat_of_lt' (hb _)]

theorem placed_of_placeable (hp : Placeable m n) : placed m n = { n with
    machines := countedOn m n
    machine := if movesTo m n then m else n.machine } := by
  rw [placed, if_neg hp]

/-- The node has been placed on the machine it ends up with as often as on any other one. -/
theorem Placement.most_placed (h : Placement l n) (hp : Placeable m n)
    (hb : ∀ k, (l ++ [m]).count k < 2 ^ 32) (k : String) :
    (l ++ [m]).count k ≤ (l ++ [m]).count (if movesTo m n then m else n.machine) := by
  have hm : m ≠ "" := fun he => hp (Or.inl he)
  have hother : k ≠ m → (l ++ [m]).count k ≤ (l ++ [m]).count n.machine := by
    intro hk
    rw [count_concat, count_concat, if_neg (Ne.symm hk)]
    exact (h.most k).trans (Nat.le_add_right _ _)
  by_cases hk : k = m
  · subst hk
    split
    · exact le_refl _
    · next hstays =>
      by_cases hsame : n.machine = k
      · rw [hsame]
      · exact Nat.le_of_not_lt fun hlt => hstays ((h.movesTo_iff hb).2 ⟨Or.inl hlt, hsame⟩)
  · apply (hother hk).trans
    split
    · next hmoves =>
      rcases ((h.movesTo_iff hb).1 hmoves).1 with hlt | hempty
      · exact hlt.le
      · -- there was no machine before
        obtain rfl := h.unplaced.1 hempty
        rw [hempty, count_concat, if_neg hm]
        exact Nat.zero_le _
    · exact le_refl _

/-- The step of the invariant: the machine just seen is the only one whose count has grown. -/
theorem Placement.placed (h : Placement l n) (hp : Placeable m n)
    (hb : ∀ k, (l ++ [m]).count k < 2 ^ 32) : Placement (l ++ [m]) (placed m n) := by
  have hm : m ≠ "" := fun he => hp (Or.inl he)
  rw [placed_of_placeable hp]
  constructor
  case counts => exact h.counts_countedOn
  case unplaced =>
    refine iff_of_false ?_ (by simp)
    show ¬ (if movesTo m n then m else n.machine) = ""
    split
    · exact hm
    · next hmoves =>
      -- a node without a machine moves to the first one
      intro hempty
      exact hmoves ((h.movesTo_iff hb).2 ⟨Or.inr hempty, fun he => hm (he.symm.trans hempty)⟩)
  case most => exact h.most_placed hp hb
  case named =>
    intro k hmem
    rcases List.mem_append.1 hmem with hmem | hmem
    · exact h.named k hmem
    · rw [List.mem_singleton.1 hmem]
      exact hm
  case workload =>
    intro _
    exact ⟨fun he => hp (Or.inr (Or.inl he)), fun he => hp (Or.inr (Or.inr he))⟩

/-- The machine of the node changes only when it is overtaken. -/
def MovesUp (n n' : Node) : Prop :=
  n'.machine ≠ n.machine →
    n.count n'.machine ≤ n.count n.machine ∧ n'.count n.machine < n'.count n'.machine

theorem AsPlaced.movesUp {n' n'' : Node} (h : MovesUp n n') (hn : AsPlaced n' n'') :
    MovesUp n n'' := by
  obtain ⟨-, hmachines, hmachine⟩ := hn
  unfold MovesUp Node.count
  rw [hmachines, hmachine]
  exact h

/-- **A move goes up**: the machine that a node moves to has been seen more often than the one it
leaves. -/
theorem Placement.movesUp (h : Placement l n) (hp : Placeable m n)
    (hb : ∀ k, (l ++ [m]).count k < 2 ^ 32) : MovesUp n (Graph.placed m n) := by
  have hplaced := h.placed hp hb
  have hb₀ : ∀ k, l.count k < 2 ^ 32 := fun k =>
    (List.Sublist.count_le k (List.sublist_append_left l [m])).trans_lt (hb k)
  intro hne
  refine ⟨(h.count_le_iff hb₀ _ _).2 (h.most _), (hplaced.count_lt_iff hb _ _).2 ?_⟩
  have hmachine : (Graph.placed m n).machine = m := (placed_machine hne).1
  have hmoves : movesTo m n = true := by
    by_contra hstays
    rw [placed_of_placeable hp] at hne
    exact hne (if_neg hstays)
  rw [hmachine]
  rcases ((h.movesTo_iff hb).1 hmoves).1 with hlt | hempty
  · exact hlt
  · -- the first machine of a node overtakes none
    obtain rfl := h.unplaced.1 hempty
    have hm : m ≠ "" := fun he => hp (Or.inl he)
    rw [hempty, count_concat, count_concat, if_neg hm, if_pos rfl]
    exact Nat.lt_succ_self _

end

/-! ## Runs -/

/-- `placed r` is what the object at `r` has been placed on. -/
structure Recorded (placed : Ref → List String) (g : Graph) : Prop where
  placement : ∀ r, r < g.next → Placement (placed r) (g.heap r)
  fresh : ∀ r, g.next ≤ r → placed r = []

section

variable {placed : Ref → List String} {g g' : Graph} (h : Recorded placed g)
include h

/-- What places no node keeps the record. -/
theorem Recorded.extends (hext : Extends g g') : Recorded placed g' where
  placement r hr := by
    by_cases hold : r < g.next
    · exact (h.placement r hold).congr (hext.heap r hold)
    · obtain ⟨hmachines, hmachine⟩ := hext.fresh r (Nat.le_of_not_lt hold) hr
      rw [h.fresh r (Nat.le_of_not_lt hold)]
      exact placement_nil hmachines hmachine
  fresh r hr := h.fresh r (hext.next.trans hr)

variable {s : Option (Ref × String)} (hs : Places s g g')
  (hb : ∀ r k, (placed r ++ machineAt r s).count k < 2 ^ 32)
include hs hb

/-- A call adds its spotting to the record. -/
theorem Recorded.places : Recorded (fun r => placed r ++ machineAt r s) g' := by
  cases s with
  | none => simpa only [machineAt, List.append_nil] using h.extends hs
  | some p =>
    obtain ⟨r₀, m⟩ := p
    obtain ⟨g₁, hext, hlt, hplaceable, hext'⟩ := hs
    have h₁ := h.extends hext
    have hself : placed r₀ ++ machineAt r₀ (some (r₀, m)) = placed r₀ ++ [m] := by
      rw [machineAt, if_pos rfl]
    have hother : ∀ r, r ≠ r₀ → placed r ++ machineAt r (some (r₀, m)) = placed r := by
      intro r hr
      rw [machineAt, if_neg (Ne.symm hr), List.append_nil]
    -- only the object that was placed has a new spotting
    refine Recorded.extends ⟨fun r hr => ?_, fun r hr => ?_⟩ hext'
    · show Placement _ (Function.update g₁.heap r₀ (Graph.placed m (g₁.heap r₀)) r)
      by_cases heq : r = r₀
      · subst heq
        rw [Function.update_self, hself]
        apply (h₁.placement r hlt).placed hplaceable
        intro k
        rw [← hself]
        exact hb r k
      · rw [Function.update_of_ne heq, hother r heq]
        exact h₁.placement r hr
    · have hne : r ≠ r₀ := fun heq => absurd hlt (Nat.not_lt.2 (heq ▸ hr))
      rw [hother r hne]
      exact h₁.fresh r hr

/-- An object that there was before a call moves up or stays. -/
theorem Recorded.movesUp {r : Ref} (hr : r < g.next) : MovesUp (g.heap r) (g'.heap r) := by
  have hstays : ∀ {n n' : Node}, AsPlaced n n' → MovesUp n n' := fun hn hne =>
    absurd hn.2.2 hne
  cases s with
  | none => exact hstays (hs.heap r hr)
  | some p =>
    obtain ⟨r₀, m⟩ := p
    obtain ⟨g₁, hext, hlt, hplaceable, hext'⟩ := hs
    have hafter := hext'.heap r (hr.trans_le hext.next)
    replace hafter : AsPlaced (Function.update g₁.heap r₀ (Graph.placed m (g₁.heap r₀)) r)
      (g'.heap r) := hafter
    by_cases heq : r = r₀
    · subst heq
      rw [Function.update_self] at hafter
      have hbefore := hext.heap r hr
      have hmoves : MovesUp (g₁.heap r) (Graph.placed m (g₁.heap r)) := by
        apply ((h.extends hext).placement r hlt).movesUp hplaceable
        intro k
        have := hb r k
        rwa [machineAt, if_pos rfl] at this
      -- up to the spotting the object is the one from before the call
      have hmoves' : MovesUp (g.heap r) (Graph.placed m (g₁.heap r)) := by
        unfold MovesUp Node.count at hmoves ⊢
        rwa [hbefore.2.1, hbefore.2.2] at hmoves
      exact hafter.movesUp hmoves'
    · rw [Function.update_of_ne heq] at hafter
      exact hstays ((hext.heap r hr).trans hafter)

end

theorem recorded_new (retention : Time) : Recorded (fun _ => []) (new retention) where
  placement r hr := absurd hr (Nat.not_lt_zero r)
  fresh _ _ := rfl

/-- The counts only grow on the way. -/
theorem count_spottings_le {g g' : Graph} {is : List Op} (hr : Run.run step g is = some g')
    (js : List Op) (r : Ref) (k : String) :
    (spottings g is r).count k ≤ (spottings g (is ++ js) r).count k := by
  induction is generalizing g with
  | nil => exact Nat.zero_le _
  | cons i is ih =>
    obtain ⟨g₁, hstep, hrest⟩ := Run.run_cons_eq_some.1 hr
    rw [List.cons_append, spottings, spottings, hstep, List.count_append, List.count_append]
    exact Nat.add_le_add_left (ih hrest) _

/-- **The record is kept over a run**, from one operation to the next. -/
theorem recorded_run {retention : Time} {ops : List Op} {g : Graph}
    (hr : Run.run step (new retention) ops = some g)
    (hb : ∀ r k, (spottings (new retention) ops r).count k < 2 ^ 32) :
    Recorded (spottings (new retention) ops) g := by
  induction ops using List.reverseRecOn generalizing g with
  | nil =>
    obtain rfl : new retention = g := by simpa using hr
    exact recorded_new retention
  | append_singleton ops op ih =>
    obtain ⟨g₁, hrun, hstep⟩ := Run.run_concat_eq_some.1 hr
    have hrec := ih hrun fun r k => (count_spottings_le hrun [op] r k).trans_lt (hb r k)
    -- the step places what the last call spots
    have hplaces := places_step (reaches_inv ⟨ops, hrun⟩) hstep
    have hspottings : spottings (new retention) (ops ++ [op])
        = fun r => spottings (new retention) ops r ++ machineAt r (g₁.spotting op) :=
      funext fun r => spottings_concat hrun op r
    rw [hspottings] at hb ⊢
    exact hrec.places hplaces hb

/-- The machine of a node is the one that it was seen on most. -/
structure MostFrequent (placed : List String) (n : Node) : Prop where
  unplaced : n.machine = "" ↔ placed = []
  most : n.machine ≠ "" → ∀ m, n.count m ≤ n.count n.machine
  workload : n.key.namespace = reservedNamespace ∨ n.key.namespace = "unknown" → n.machine = ""

/-- The record says that a node stands where it was seen most. -/
theorem Placement.mostFrequent {l : List String} {n : Node} (h : Placement l n)
    (hb : ∀ k, l.count k < 2 ^ 32) : MostFrequent l n where
  unplaced := h.unplaced
  most _ m := (h.count_le_iff hb m _).2 (h.most m)
  workload hns := by
    refine h.unplaced.2 (Classical.byContradiction fun hne => ?_)
    obtain ⟨hreserved, hunknown⟩ := h.workload hne
    exact hns.elim hreserved hunknown

/-- An operation spots one node at most, so the bound on the counters holds of every run that is not
too long. -/
theorem length_spottings_le (g : Graph) (ops : List Op) (r : Ref) :
    (spottings g ops r).length ≤ ops.length := by
  induction ops generalizing g with
  | nil => exact le_refl 0
  | cons op ops ih =>
    -- a call spots one node at most
    have hone : (machineAt r (g.spotting op)).length ≤ 1 := by
      unfold machineAt
      split
      · exact Nat.zero_le 1
      · split
        · exact le_refl 1
        · exact Nat.zero_le 1
    rw [spottings, List.length_append, List.length_cons]
    cases g.step op with
    | none => simpa using hone.trans (Nat.le_add_left 1 _)
    | some g' =>
      have := ih g'
      simp only
      omega

/-- A pod is seen on one machine, then on another one. -/
def movedPod : List Op :=
  [.ingest (fun _ _ => 0) anchoredFlow,
    .ingest (fun _ _ => 0) { anchoredFlow with nodeName := "default/n3" },
    .tick (fun _ _ => 0) (101 * second)]

end Graph

end Flowscape
