import Flowscape.Web.Particles

/-!
# Flowscape: the arrays of the sparks (`web/src/particles.ts`)

The sparks are in arrays, one for each of their fields, and the first `alive` places of them are in
use. `update` goes over these places with an index. A spark that is over gets every field of the
last one, which is looked at next, and this happens at three places of the loop.

Read across the arrays, a place is a record. What the loop does to the records is a sweep of the
pool, so every spark is moved once, whatever the order, and keeps its fields together.

* `f32` rounds a number to what an array of 32 bits keeps of it, and can be anything here. A number
  that is copied from such an array is kept as it is.
* The colours of the theme are arguments.
* The arrays go on for ever here. The places in use are below `CAPACITY`.
-/

namespace Flowscape

/-! ## Source definitions -/

/-- The arrays of `Particles`. -/
structure ParticleArrays (K : Type*) where
  /-- Three numbers in a row for each place, as in `col`. -/
  pos : Nat → K
  col : Nat → K
  size : Nat → K
  t : Nat → K
  speed : Nat → K
  cp : Nat → Nat
  verdict : Nat → UInt8
  baseSize : Nat → K
  alive : Nat

namespace ParticleArrays

/-- The colours of the verdicts, and the rounding. -/
structure Look (K : Type*) where
  colors : VerdictCode → Color K
  f32 : K → K

section

variable {K : Type*}

/-- `colors[v] ?? colors[0]` -/
def Look.colorOf (look : Look K) (v : UInt8) : Color K :=
  if h : v.toNat < 4 then look.colors ⟨v.toNat, h⟩ else look.colors verdictForwarded

/-- The three numbers of a place are written. -/
def write3 (a : Nat → K) (i : Nat) (x y z : K) : Nat → K :=
  let a := Function.update a (i * 3) x
  let a := Function.update a (i * 3 + 1) y
  Function.update a (i * 3 + 2) z

/-- The three numbers of the last place are copied to another one. -/
def copy3 (a : Nat → K) (i last : Nat) : Nat → K :=
  let a := Function.update a (i * 3) (a (last * 3))
  let a := Function.update a (i * 3 + 1) (a (last * 3 + 1))
  Function.update a (i * 3 + 2) (a (last * 3 + 2))

/-- `kill` -/
def kill (s : ParticleArrays K) (i : Nat) : ParticleArrays K :=
  let last := s.alive - 1
  let s := { s with alive := last }
  if i = last then s
  else { s with
    t := Function.update s.t i (s.t last)
    speed := Function.update s.speed i (s.speed last)
    cp := Function.update s.cp i (s.cp last)
    verdict := Function.update s.verdict i (s.verdict last)
    baseSize := Function.update s.baseSize i (s.baseSize last)
    size := Function.update s.size i (s.size last)
    pos := copy3 s.pos i last
    col := copy3 s.col i last }

variable [Field K] [LinearOrder K]

/-- The constructor. -/
def new : ParticleArrays K where
  pos := fun _ => 0
  col := fun _ => 0
  size := fun _ => 0
  t := fun _ => 0
  speed := fun _ => 0
  cp := fun _ => 0
  verdict := fun _ => 0
  baseSize := fun _ => 0
  alive := 0

/-- `spawn`, with what `Math.random` tells about the speed and about the size. The position is
left as it is. -/
def spawn (look : Look K) (edges : Edges K) (s : ParticleArrays K) (cpSlot : Nat)
    (verdict : UInt8) (big : Bool) (random randomSize : K) : ParticleArrays K :=
  if s.alive ≥ Particles.capacity ∨ edges.cpValid cpSlot = false then s
  else
    let i := s.alive
    let base : K := if verdict = 2 then 0.55 else 0.8
    let baseSize := look.f32 ((if verdict = 0 then 0.55 else 0.8) * (if big then 1.6 else 1) *
      (0.8 + randomSize * 0.4))
    let color := look.colorOf verdict
    { s with
      alive := i + 1
      t := Function.update s.t i 0
      cp := Function.update s.cp i cpSlot
      verdict := Function.update s.verdict i verdict
      speed := Function.update s.speed i (look.f32 (base * (0.85 + random * 0.3)))
      baseSize := Function.update s.baseSize i baseSize
      size := Function.update s.size i baseSize
      col := write3 s.col i (look.f32 color.r) (look.f32 color.g) (look.f32 color.b) }

variable (look : Look K) (edges : Edges K)

/-- The end of the loop body, for a spark that lives on. -/
def move (s : ParticleArrays K) (i : Nat) (t fade : K) : ParticleArrays K :=
  let p := Particles.pointAt (edges.controlPoints (s.cp i)) t
  let color := look.colorOf (s.verdict i)
  { s with
    t := Function.update s.t i (look.f32 t)
    pos := write3 s.pos i (look.f32 p.x) (look.f32 p.y) (look.f32 p.z)
    col := write3 s.col i (look.f32 (color.r * fade)) (look.f32 (color.g * fade))
      (look.f32 (color.b * fade)) }

/-- The loop body, with the next index. -/
def body (dt : K) (s : ParticleArrays K) (i : Nat) : ParticleArrays K × Nat :=
  if edges.cpValid (s.cp i) = false then (s.kill i, i)
  else
    let t := s.t i + s.speed i * dt
    if s.verdict i = 1 then
      -- stops short and bursts
      if 0.72 < t then
        let k := (t - 0.72) / 0.14
        let s := { s with
          size := Function.update s.size i (look.f32 (s.baseSize i * (1 + k * 3.0))) }
        let fade := 1 - k
        if 1 ≤ k then (s.kill i, i)
        else (move look edges s i (min t (0.72 + 0.14)) fade, i + 1)
      else (move look edges s i t 1, i + 1)
    else if 1 ≤ t then (s.kill i, i)
    else
      let tail := 1 - max 0 ((t - 0.9) / 0.1)
      let fade := min 1 (t / 0.08) * tail
      let s := { s with size := Function.update s.size i (s.baseSize i) }
      (move look edges s i t fade, i + 1)

end

/-! ## The loop -/

section

variable {K : Type*}

@[simp] theorem alive_kill (s : ParticleArrays K) (i : Nat) : (s.kill i).alive = s.alive - 1 := by
  unfold kill
  dsimp only
  split <;> rfl

variable [Field K] (look : Look K) (edges : Edges K)

@[simp] theorem alive_move (s : ParticleArrays K) (i : Nat) (t fade : K) :
    (move look edges s i t fade).alive = s.alive := rfl

variable [LinearOrder K]

/-- A round moves on or kills. -/
theorem alive_body (dt : K) (s : ParticleArrays K) (i : Nat) :
    (body look edges dt s i).1.alive = s.alive ∧ (body look edges dt s i).2 = i + 1 ∨
      (body look edges dt s i).1.alive = s.alive - 1 ∧ (body look edges dt s i).2 = i := by
  unfold body
  dsimp only
  split_ifs <;> simp

/-- The `while` loop. Every round moves on or makes the pool smaller. -/
def loop (dt : K) (s : ParticleArrays K) (i : Nat) : ParticleArrays K :=
  if i < s.alive then loop dt (body look edges dt s i).1 (body look edges dt s i).2 else s
termination_by s.alive - i
decreasing_by
  rcases alive_body look edges dt s i with ⟨halive, hnext⟩ | ⟨halive, hnext⟩ <;> omega

/-- `update` -/
def update (dt : K) (s : ParticleArrays K) : ParticleArrays K := loop look edges dt s 0

end

/-! ## The records -/

/-- What the arrays have in one place. -/
structure Record (K : Type*) where
  t : K
  speed : K
  cp : Nat
  verdict : UInt8
  baseSize : K
  size : K
  pos : Vec3 K
  color : Color K

section

variable {K : Type*}

/-- The particle at a place of the arrays. -/
def get (s : ParticleArrays K) (i : Nat) : Record K where
  t := s.t i
  speed := s.speed i
  cp := s.cp i
  verdict := s.verdict i
  baseSize := s.baseSize i
  size := s.size i
  pos := ⟨s.pos (i * 3), s.pos (i * 3 + 1), s.pos (i * 3 + 2)⟩
  color := ⟨s.col (i * 3), s.col (i * 3 + 1), s.col (i * 3 + 2)⟩

/-- The sparks that are alive. -/
def records (s : ParticleArrays K) : List (Record K) := (List.range s.alive).map s.get

variable [Field K] [LinearOrder K] (look : Look K) (edges : Edges K)

/-- How far a spark comes, how bright it is there and of what size, unless it is over. -/
def Record.travel (dt : K) (p : Record K) : Option (K × K × K) :=
  let t := p.t + p.speed * dt
  if p.verdict = 1 then
    if 0.72 < t then
      let k := (t - 0.72) / 0.14
      if 1 ≤ k then none
      else some (min t (0.72 + 0.14), 1 - k, look.f32 (p.baseSize * (1 + k * 3.0)))
    else some (t, 1, p.size)
  else if 1 ≤ t then none
  else some (t, min 1 (t / 0.08) * (1 - max 0 ((t - 0.9) / 0.1)), p.baseSize)

/-- A spark on its arc. -/
def Record.on (arc : Arc K) (t fade : K) (p : Record K) : Record K :=
  let pos := Particles.pointAt arc t
  let color := look.colorOf p.verdict
  { p with
    t := look.f32 t
    pos := ⟨look.f32 pos.x, look.f32 pos.y, look.f32 pos.z⟩
    color := ⟨look.f32 (color.r * fade), look.f32 (color.g * fade), look.f32 (color.b * fade)⟩ }

/-- What becomes of a spark: it is moved on its arc, or it is over. -/
def Record.step (dt : K) (p : Record K) : Option (Record K) :=
  if edges.cpValid p.cp = false then none
  else (p.travel look dt).map fun (t, fade, size) =>
    Record.on look (edges.controlPoints p.cp) t fade { p with size := size }

end

/-! ## What is written -/

section

variable {K : Type*} {s s' : ParticleArrays K} {i j : Nat}

theorem write3_self (a : Nat → K) (i : Nat) (x y z : K) :
    write3 a i x y z (i * 3) = x ∧ write3 a i x y z (i * 3 + 1) = y ∧
      write3 a i x y z (i * 3 + 2) = z := by
  simp [write3]

/-- The numbers of the other places stay. -/
theorem write3_of_ne (a : Nat → K) (h : j ≠ i) (x y z : K) :
    write3 a i x y z (j * 3) = a (j * 3) ∧ write3 a i x y z (j * 3 + 1) = a (j * 3 + 1) ∧
      write3 a i x y z (j * 3 + 2) = a (j * 3 + 2) := by
  simp only [write3, Function.update_apply]
  refine ⟨?_, ?_, ?_⟩ <;> rw [if_neg (by omega), if_neg (by omega), if_neg (by omega)]

/-- No number is written before it is copied. -/
theorem copy3_eq (a : Nat → K) (i last : Nat) :
    copy3 a i last = write3 a i (a (last * 3)) (a (last * 3 + 1)) (a (last * 3 + 2)) := by
  have h1 : last * 3 + 1 ≠ i * 3 := by omega
  have h2 : last * 3 + 2 ≠ i * 3 := by omega
  have h2' : last * 3 + 2 ≠ i * 3 + 1 := by omega
  simp only [copy3, write3, Function.update_apply, if_neg h1, if_neg h2, if_neg h2']

/-- Only one place is written, and has a given record then. -/
structure Puts (s s' : ParticleArrays K) (i : Nat) (p : Record K) : Prop where
  alive : s'.alive = s.alive
  self : s'.get i = p
  other : ∀ j, j ≠ i → s'.get j = s.get j

@[simp] theorem length_records (s : ParticleArrays K) : s.records.length = s.alive := by
  simp [records]

theorem getElem?_records (h : i < s.alive) : s.records[i]? = some (s.get i) := by
  simp [records, h]

/-- Writing one place writes one entry of the list. -/
theorem Puts.records {p : Record K} (h : Puts s s' i p) : s'.records = s.records.set i p := by
  apply List.ext_getElem?'
  intro j hj
  have hlive : j < s.alive := by simpa [h.alive] using hj
  rw [getElem?_records (h.alive ▸ hlive), List.getElem?_set, length_records]
  by_cases hij : i = j
  · subst hij
    rw [if_pos rfl, if_pos hlive, h.self]
  · rw [if_neg hij, h.other j (Ne.symm hij), getElem?_records hlive]

/-- A place that is still in use has its own record, or the last one if it was freed. -/
theorem get_kill (hj : j < s.alive - 1) :
    (s.kill i).get j = if j = i then s.get (s.alive - 1) else s.get j := by
  unfold kill
  dsimp only
  -- the last one needs no copy; another one is overwritten with the last
  by_cases hlast : i = s.alive - 1
  · rw [if_pos hlast, if_neg (Nat.ne_of_lt (hlast ▸ hj))]
    rfl
  · rw [if_neg hlast]
    by_cases hij : j = i
    · subst hij
      rw [if_pos rfl]
      simp only [get, copy3_eq, Function.update_self, write3_self]
    · rw [if_neg hij]
      simp only [get, copy3_eq, Function.update_of_ne hij, write3_of_ne _ hij]

/-- A kill of the arrays is one of the list. -/
theorem records_kill (h : i < s.alive) : (s.kill i).records = Sweep.kill s.records i := by
  apply List.ext_getElem?'
  intro j hj
  have hlive : j < s.alive - 1 := by simpa using hj
  have hlast : s.alive - 1 < s.alive := by omega
  have hlen : j < s.records.length - 1 := by rwa [length_records]
  rw [getElem?_records (by rwa [alive_kill]), get_kill hlive, Sweep.getElem?_kill hlen,
    List.getLast?_eq_getElem?, length_records, getElem?_records hlast,
    getElem?_records (by omega)]
  split <;> rfl

theorem puts_size (s : ParticleArrays K) (i : Nat) (x : K) :
    Puts s { s with size := Function.update s.size i x } i { s.get i with size := x } where
  alive := rfl
  self := by simp only [get, Function.update_self]
  other j hj := by simp only [get, Function.update_of_ne hj]

/-- A spark whose size is written first is killed as any other one. -/
theorem records_kill_size (h : i < s.alive) (x : K) :
    ({ s with size := Function.update s.size i x }.kill i).records = Sweep.kill s.records i := by
  rw [records_kill (s := { s with size := Function.update s.size i x }) h,
    (puts_size s i x).records, Sweep.kill_set]

variable [Field K] (look : Look K) (edges : Edges K)

theorem puts_move (s : ParticleArrays K) (i : Nat) (t fade : K) :
    Puts s (move look edges s i t fade) i
      (Record.on look (edges.controlPoints (s.cp i)) t fade (s.get i)) where
  alive := rfl
  self := by simp only [get, move, Record.on, Function.update_self, write3_self]
  other j hj := by simp only [get, move, Function.update_of_ne hj, write3_of_ne _ hj]

theorem records_move (s : ParticleArrays K) (i : Nat) (t fade : K) :
    (move look edges s i t fade).records = s.records.set i
      (Record.on look (edges.controlPoints (s.cp i)) t fade (s.get i)) :=
  (puts_move look edges s i t fade).records

theorem records_move_size (s : ParticleArrays K) (i : Nat) (t fade x : K) :
    (move look edges { s with size := Function.update s.size i x } i t fade).records
      = s.records.set i
        (Record.on look (edges.controlPoints (s.cp i)) t fade { s.get i with size := x }) := by
  have hsize := puts_size s i x
  rw [records_move, hsize.records, List.set_set, hsize.self]

end

/-! ## The loop and the sweep -/

section

variable {K : Type*} [Field K] [LinearOrder K] (look : Look K) (edges : Edges K) (dt : K)

/-- **What a round does to the records.** -/
theorem records_body {s : ParticleArrays K} {i : Nat} (h : i < s.alive) :
    match (s.get i).step look edges dt with
    | some p => (body look edges dt s i).2 = i + 1 ∧
        (body look edges dt s i).1.records = s.records.set i p
    | none => (body look edges dt s i).2 = i ∧
        (body look edges dt s i).1.records = Sweep.kill s.records i := by
  have hcp : (s.get i).cp = s.cp i := rfl
  unfold body Record.step
  rw [hcp]
  cases hv : edges.cpValid (s.cp i) with
  | false => exact ⟨rfl, records_kill h⟩
  | true =>
    -- one case for each way through the loop body
    simp only [Bool.true_eq_false, if_false]
    have hverdict : (s.get i).verdict = s.verdict i := rfl
    have ht : (s.get i).t + (s.get i).speed * dt = s.t i + s.speed i * dt := rfl
    unfold Record.travel
    rw [hverdict, ht]
    dsimp only
    generalize s.t i + s.speed i * dt = t
    by_cases hdropped : s.verdict i = 1
    · simp only [if_pos hdropped]
      by_cases hfar : 0.72 < t
      · simp only [if_pos hfar]
        by_cases hover : 1 ≤ (t - 0.72) / 0.14
        · simp only [if_pos hover]
          exact ⟨trivial, records_kill_size h _⟩
        · simp only [if_neg hover]
          exact ⟨trivial, records_move_size look edges s i _ _ _⟩
      · simp only [if_neg hfar]
        exact ⟨trivial, records_move look edges s i _ _⟩
    · simp only [if_neg hdropped]
      by_cases hover : 1 ≤ t
      · simp only [if_pos hover]
        exact ⟨trivial, records_kill h⟩
      · simp only [if_neg hover]
        exact ⟨trivial, records_move_size look edges s i _ _ _⟩

theorem loop_of_lt {s : ParticleArrays K} {i : Nat} (h : i < s.alive) :
    loop look edges dt s i
      = loop look edges dt (body look edges dt s i).1 (body look edges dt s i).2 := by
  rw [loop, if_pos h]

theorem loop_of_not_lt {s : ParticleArrays K} {i : Nat} (h : ¬ i < s.alive) :
    loop look edges dt s i = s := by
  rw [loop, if_neg h]

/-- The loop sweeps the records from its index on. -/
theorem records_loop {n : Nat} {s : ParticleArrays K} {i : Nat} (h : s.alive - i ≤ n) :
    (loop look edges dt s i).records
      = Sweep.rounds (Record.step look edges dt) n i s.records := by
  induction n generalizing s i with
  | zero =>
    have hi : ¬ i < s.alive := by omega
    rw [loop_of_not_lt look edges dt hi]
    rfl
  | succ n ih =>
    by_cases hi : i < s.alive
    · have hbody := records_body look edges dt hi
      -- either the index grows or one dies, so less is left
      have hless : (body look edges dt s i).1.alive - (body look edges dt s i).2 ≤ n := by
        rcases alive_body look edges dt s i with ⟨halive, hnext⟩ | ⟨halive, hnext⟩ <;> omega
      rw [loop_of_lt look edges dt hi, ih hless, Sweep.rounds, getElem?_records hi]
      cases hp : (s.get i).step look edges dt with
      | some p =>
        rw [hp] at hbody
        simp only [hbody.1, hbody.2, hp]
      | none =>
        rw [hp] at hbody
        simp only [hbody.1, hbody.2, hp]
    · have hlen : s.records.length ≤ i := by
        rw [length_records]
        exact Nat.le_of_not_lt hi
      rw [loop_of_not_lt look edges dt hi, Sweep.rounds, List.getElem?_eq_none hlen]

/-- Read as records, `update` is a pass over the pool. -/
theorem records_update (s : ParticleArrays K) :
    (update look edges dt s).records = Sweep.pass (Record.step look edges dt) s.records := by
  have hn : s.alive - 0 ≤ s.records.length := by
    rw [length_records]
    exact Nat.sub_le _ _
  exact records_loop look edges dt hn

/-- The arrays and the index after so many rounds. -/
def rounds (s : ParticleArrays K) (n : Nat) : ParticleArrays K × Nat :=
  (fun c : ParticleArrays K × Nat => body look edges dt c.1 c.2)^[n] (s, 0)

theorem rounds_succ (s : ParticleArrays K) (n : Nat) : rounds look edges dt s (n + 1)
    = body look edges dt (rounds look edges dt s n).1 (rounds look edges dt s n).2 :=
  Function.iterate_succ_apply' _ n _

/-- A round leaves one spark less to look at, and the loop is on its way to the same end. -/
theorem rounds_left {s : ParticleArrays K} {n : Nat} (h : n ≤ s.alive) :
    (rounds look edges dt s n).1.alive = (rounds look edges dt s n).2 + (s.alive - n) ∧
      loop look edges dt (rounds look edges dt s n).1 (rounds look edges dt s n).2
        = update look edges dt s := by
  induction n with
  | zero => exact ⟨(Nat.zero_add s.alive).symm, rfl⟩
  | succ n ih =>
    obtain ⟨hleft, hloop⟩ := ih (Nat.le_of_succ_le h)
    have hi : (rounds look edges dt s n).2 < (rounds look edges dt s n).1.alive := by omega
    rw [rounds_succ]
    constructor
    -- a round moves on or kills, so what is left shrinks by one
    · rcases alive_body look edges dt (rounds look edges dt s n).1 (rounds look edges dt s n).2
        with ⟨halive, hnext⟩ | ⟨halive, hnext⟩ <;> omega
    · rw [← hloop, loop_of_lt look edges dt hi]

theorem alive_update_le (s : ParticleArrays K) : (update look edges dt s).alive ≤ s.alive := by
  have hperm : (update look edges dt s).records.length
      = (s.records.filterMap (Record.step look edges dt)).length := by
    rw [records_update, (Sweep.pass_perm _ _).length_eq]
  rw [← length_records, hperm, ← length_records s]
  exact List.length_filterMap_le _ _

/-- **Every spark is moved once**, in whole records, and the ones that are over are gone. The loop
takes as many rounds as there were sparks. -/
theorem update_perm (s : ParticleArrays K) :
    (∀ n < s.alive, (rounds look edges dt s n).2 < (rounds look edges dt s n).1.alive) ∧
    ¬ (rounds look edges dt s s.alive).2 < (rounds look edges dt s s.alive).1.alive ∧
    (rounds look edges dt s s.alive).1 = update look edges dt s ∧
    (update look edges dt s).records.Perm
      (s.records.filterMap (Record.step look edges dt)) := by
  obtain ⟨hleft, hloop⟩ := rounds_left look edges dt (Nat.le_refl s.alive)
  -- after as many rounds as there were particles nothing is left
  have hend : ¬ (rounds look edges dt s s.alive).2 < (rounds look edges dt s s.alive).1.alive := by
    omega
  refine ⟨fun n hn => ?_, hend, ?_, ?_⟩
  · have hmore := (rounds_left look edges dt hn.le).1
    omega
  · rw [← hloop, loop_of_not_lt look edges dt hend]
  · rw [records_update]
    exact Sweep.pass_perm _ _

end

/-! ## New sparks -/

section

variable {K : Type*} [Field K] {look : Look K} {edges : Edges K} {s : ParticleArrays K}
  {cpSlot : Nat}

theorem spawn_of_no_room (h : s.alive ≥ Particles.capacity ∨ edges.cpValid cpSlot = false)
    (verdict : UInt8) (big : Bool) (random randomSize : K) :
    s.spawn look edges cpSlot verdict big random randomSize = s := if_pos h

/-- A new spark is behind the others, which stay as they are. -/
theorem records_spawn (h : ¬ (s.alive ≥ Particles.capacity ∨ edges.cpValid cpSlot = false))
    (verdict : UInt8) (big : Bool) (random randomSize : K) :
    (s.spawn look edges cpSlot verdict big random randomSize).records = s.records ++
      [(s.spawn look edges cpSlot verdict big random randomSize).get s.alive] := by
  have halive : (s.spawn look edges cpSlot verdict big random randomSize).alive = s.alive + 1 := by
    simp only [spawn, if_neg h]
  rw [records, halive, List.range_succ, List.map_append, List.map_singleton, records]
  refine congrArg (· ++ _) (List.map_congr_left fun j hj => ?_)
  have hne : j ≠ s.alive := Nat.ne_of_lt (List.mem_range.1 hj)
  simp only [get, spawn, if_neg h, Function.update_of_ne hne, write3_of_ne _ hne]

/-- The places in use stay below `CAPACITY`. -/
theorem alive_spawn_le (h : s.alive ≤ Particles.capacity) (cpSlot : Nat) (verdict : UInt8)
    (big : Bool) (random randomSize : K) :
    (s.spawn look edges cpSlot verdict big random randomSize).alive ≤ Particles.capacity := by
  unfold spawn
  split
  · exact h
  · next hroom =>
    show s.alive + 1 ≤ Particles.capacity
    omega

end

/-! ## The sparks of the scene -/

/-- What decides where a spark goes. -/
structure Course (K : Type*) where
  t : K
  speed : K
  cp : Nat
  verdict : Nat

/-- What decides the way of a particle, from the arrays. -/
def Record.course {K : Type*} (p : Record K) : Course K := ⟨p.t, p.speed, p.cp, p.verdict.toNat⟩

def particleCourse {K : Type*} (p : Particle K) : Course K := ⟨p.t, p.speed, p.cp, p.verdict.val⟩

/-- A call to the sparks, with the arcs as they are then. -/
inductive Call (K : Type*) where
  | spawn (edges : Edges K) (edge : String) (cpSlot : Nat) (verdict : VerdictCode) (big : Bool)
    (random randomSize : K)
  | update (edges : Edges K) (dt : K)

/-- The arrays and the scene have the same sparks in the same order. -/
def Alike {K : Type*} (s : ParticleArrays K) (particles : List (Particle K)) : Prop :=
  s.records.map Record.course = particles.map particleCourse

theorem Alike.length {K : Type*} {s : ParticleArrays K} {particles : List (Particle K)}
    (h : Alike s particles) : s.alive = particles.length := by
  have hlen := congrArg List.length h
  rwa [List.length_map, List.length_map, length_records] at hlen

theorem alike_new {K : Type*} [Field K] : Alike (new : ParticleArrays K) [] := rfl

section

variable {K : Type*} [Field K] [LinearOrder K] (edges : Edges K) (dt : K)

/-- A call of the arrays. -/
def call (look : Look K) (s : ParticleArrays K) : Call K → ParticleArrays K
  | .spawn edges _ cpSlot verdict big random randomSize =>
    s.spawn look edges cpSlot (UInt8.ofNat verdict.val) big random randomSize
  | .update edges dt => update look edges dt s

/-- The call to the sparks of the scene. -/
def sceneCall (particles : List (Particle K)) : Call K → List (Particle K)
  | .spawn edges edge cpSlot verdict _ random _ =>
    Particles.spawn edges particles edge cpSlot verdict random
  | .update edges dt => Particles.update edges dt particles

/-- The places in use are places of the arrays, after any calls. -/
theorem alive_run_le (look : Look K) (calls : List (Call K)) :
    (calls.foldl (call look) new).alive ≤ Particles.capacity := by
  refine Loop.foldl_keeps (J := fun s : ParticleArrays K => s.alive ≤ Particles.capacity)
    (fun s c hs => ?_) (Nat.zero_le _)
  cases c with
  | spawn edges edge cpSlot verdict big random randomSize =>
    exact alive_spawn_le hs cpSlot _ big random randomSize
  | update edges dt => exact (alive_update_le look edges dt s).trans hs

/-- The way of a spark, as `update` decides about it. -/
def Course.step (c : Course K) : Option (Course K) :=
  let t := c.t + c.speed * dt
  if edges.cpValid c.cp = false then none
  else if c.verdict = 1 then
    if 0.72 < t then
      if 1 ≤ (t - 0.72) / 0.14 then none else some { c with t := min t (0.72 + 0.14) }
    else some { c with t := t }
  else if 1 ≤ t then none
  else some { c with t := t }

theorem course_advance (p : Particle K) :
    (Particles.advance edges dt p).map particleCourse = (particleCourse p).step edges dt := by
  have hdropped : p.verdict = verdictDropped ↔ p.verdict.val = 1 := Fin.ext_iff
  unfold Particles.advance Particles.travel Course.step particleCourse
  simp only [hdropped]
  split_ifs <;> rfl

end

section

variable {K : Type*} [Field K] {look : Look K} (edges : Edges K) (hexact : look.f32 = id)
include hexact

/-- Without rounding, a spark is spawned in both, -/
theorem Alike.spawn {s : ParticleArrays K} {particles : List (Particle K)} (h : Alike s particles)
    (edge : String) (cpSlot : Nat) (verdict : VerdictCode) (big : Bool) (random randomSize : K) :
    Alike (s.spawn look edges cpSlot (UInt8.ofNat verdict.val) big random randomSize)
      (Particles.spawn edges particles edge cpSlot verdict random) := by
  have haudit : UInt8.ofNat verdict.val = 2 ↔ verdict = verdictAudit := by
    revert verdict
    decide
  have hverdict : (UInt8.ofNat verdict.val).toNat = verdict.val := by
    revert verdict
    decide
  unfold Particles.spawn
  -- both have room at once: as many are alive, and the line is the same
  by_cases hroom : s.alive ≥ Particles.capacity ∨ edges.cpValid cpSlot = false
  · rw [spawn_of_no_room hroom, if_pos (h.length ▸ hroom)]
    exact h
  · rw [if_neg (h.length ▸ hroom), Alike, records_spawn hroom, List.map_append, List.map_append,
      show s.records.map Record.course = _ from h]
    simp only [List.map_singleton, Record.course, particleCourse, get, ParticleArrays.spawn,
      if_neg hroom, Function.update_self, hexact, id, haudit, hverdict]

variable [LinearOrder K] (dt : K)

theorem course_step (p : Record K) :
    (p.step look edges dt).map Record.course = p.course.step edges dt := by
  have hdropped : p.verdict = 1 ↔ p.verdict.toNat = 1 := UInt8.toNat_inj.symm
  unfold Record.step Record.travel Course.step Record.course Record.on
  simp only [hdropped, hexact, id]
  split_ifs <;> rfl

/-- `update` does to the arrays what it does to the scene, -/
theorem Alike.update {s : ParticleArrays K} {particles : List (Particle K)}
    (h : Alike s particles) :
    Alike (update look edges dt s) (Particles.update edges dt particles) := by
  have hpass := Sweep.map_pass Record.course (course_step edges hexact dt) s.records
  have hpass' := Sweep.map_pass particleCourse (course_advance edges dt) particles
  rw [Alike, records_update, hpass, Particles.update, hpass', show _ = _ from h]

/-- so that both have the same sparks after any calls, -/
theorem alike_run (calls : List (Call K)) :
    Alike (calls.foldl (call look) new) (calls.foldl sceneCall []) := by
  refine Loop.foldl_rel (R := Alike) (fun s particles c h => ?_) alike_new
  cases c with
  | spawn edges edge cpSlot verdict big random randomSize =>
    exact h.spawn edges hexact edge cpSlot verdict big random randomSize
  | update edges dt => exact h.update edges hexact dt

/-- and the sparks are where they are seen there. -/
theorem pos_of_mem_update {s : ParticleArrays K} {p : Record K}
    (h : p ∈ (ParticleArrays.update look edges dt s).records) :
    p.pos = Particles.pointAt (edges.controlPoints p.cp) p.t := by
  rw [records_update] at h
  obtain ⟨q, -, hq⟩ := Sweep.mem_pass.1 h
  unfold Record.step at hq
  split at hq
  · cases hq
  · obtain ⟨m, -, rfl⟩ := Option.map_eq_some_iff.1 hq
    simp only [Record.on, hexact, id]

end

end ParticleArrays

end Flowscape
