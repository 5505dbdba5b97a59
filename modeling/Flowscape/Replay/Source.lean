import Flowscape.Graph.Flow
import Mathlib.Algebra.Order.Field.Rat

/-!
# Flowscape: the replay of a capture (`internal/hubble/replay/replay.go`)

The source reads a file line by line and hands its flows to the sink, with their pacing shifted to
the present. At the end of the file it begins anew, which is what `--replay-loop` asks for unless
it is turned off. The context is looked at around a flow, and nowhere else: a pass that comes to no
flow ends without a look at it, and the next one begins.

* `decode` is the decoder of the lines, a package that is not part of the repository.
* `bufio.Scanner` cuts the file into lines, up to one that does not fit in its buffer.
* Clock, context and the choices of `select` come from outside, as a `Moment` for each line.
* The speed is a `float64` in Go and an exact rational here.
-/

namespace Flowscape

namespace Replay

/-! ## Source definitions -/

/-- `observer.GetFlowsResponse`, with the node status and the lost events as they are. -/
inductive Response (N L : Type*) where
  | flow (f : Flow)
  | nodeStatus (ev : N)
  | lostEvents (ev : L)
  | other

/-- What the source calls. -/
inductive Call (N L : Type*) where
  | setConnected
  | flow (f : Flow)
  | nodeStatus (ev : N)
  | lost (ev : L)

/-- What `Run` returns. -/
inductive Err where
  /-- `os.Open` -/
  | opening (err : String)
  | decoding (text : String)
  /-- `sc.Err()` -/
  | scanning (err : String)
  /-- `ctx.Err()` -/
  | context
deriving DecidableEq

/-- A file: what is in it, and whether reading it fails. -/
structure File where
  content : List UInt8
  /-- What reading stops with, other than the end of the file. -/
  err : Option String

/-- A capture to replay, as it is configured. -/
structure Source where
  path : String
  /-- What opening the path gives. -/
  file : Except String File
  /-- One is real time, zero as fast as possible. -/
  speed : Rat
  loop : Bool
  /-- Somebody asks whether the source delivers. -/
  status : Bool

/-- What `once` finds at a flow. -/
structure Moment where
  /-- `time.Now()` -/
  now : Time
  /-- The present when the wait is worked out. -/
  later : Time
  /-- The context is done. -/
  cancelled : Bool
  /-- Where both are ready, `select` takes the timer. -/
  timer : Bool

/-- What happens around the source. -/
structure World where
  /-- The moment of a line, by the pass and the line. -/
  moment : Nat → Nat → Moment
  /-- The context is done in the end. -/
  ends : Bool

/-- `'\n'` -/
def newline : UInt8 := 10

/-- `'\r'` -/
def carriageReturn : UInt8 := 13

/-- The end of a line is taken off. -/
def dropCR (line : List UInt8) : List UInt8 :=
  if line.getLast? = some carriageReturn then line.dropLast else line

/-- The size of the buffer, which a line has to fit in with its end. -/
def maxTokenSize : Nat := 2 ^ 24

/-- The lines of a file up to one that is too long, and whether there is one. -/
def scanLines (content : List UInt8) : List (List UInt8) × Bool :=
  let lines := content.splitOn newline
  -- there is no line after the last newline
  let lines := if lines.getLast? = some [] then lines.dropLast else lines
  let fits := fun line : List UInt8 => decide (line.length < maxTokenSize)
  ((lines.takeWhile fits).map dropCR, !lines.all fits)

/-- `time.Duration(float64(offset) / speed)` -/
def scaled (offset : Time) (speed : Rat) : Time :=
  let q := (offset : Rat) / speed
  q.num.tdiv q.den

/-- Where a pass has begun: the time of its first flow in the capture, and in the present. -/
structure Origin where
  first : Time
  start : Time

/-- No flow was seen yet. -/
def Origin.new : Origin := ⟨zeroTime, zeroTime⟩

/-- The first flow of a pass sets it. -/
def Origin.seen (o : Origin) (m : Moment) (t : Time) : Origin :=
  if o.first = zeroTime then ⟨t, m.now⟩ else o

/-- The time in the present of a flow that was captured at `t`. -/
def playedAt (s : Source) (o : Origin) (t : Time) : Time :=
  let offset := t - o.first
  o.start + if 0 < s.speed then scaled offset s.speed else offset

/-- The context ends the wait for a flow that is due at `t`. -/
def waitCancelled (s : Source) (m : Moment) (t : Time) : Bool :=
  0 < s.speed && 0 < t - m.later && m.cancelled && !m.timer

section

variable {N L : Type*} (decode : List UInt8 → Except String (Response N L))

/-- The loop of `once` from line `n` on: what it calls, and the error it stops with. -/
def readLines (s : Source) (moment : Nat → Moment) :
    Nat → Origin → List (List UInt8) → List (Call N L) × Option Err
  | _, _, [] => ([], none)
  | n, o, line :: rest =>
    let n := n + 1
    if line = [] then readLines s moment n o rest
    else match decode line with
      | .error err => ([], some (.decoding (s.path ++ " line " ++ toString n ++ ": " ++ err)))
      | .ok .other => readLines s moment n o rest
      | .ok (.nodeStatus ev) =>
        let (calls, err) := readLines s moment n o rest
        (.nodeStatus ev :: calls, err)
      | .ok (.lostEvents ev) =>
        let (calls, err) := readLines s moment n o rest
        (.lost ev :: calls, err)
      | .ok (.flow f) =>
        let m := moment n
        let o := o.seen m f.asTime
        let t := playedAt s o f.asTime
        if waitCancelled s m t then ([], some .context)
        else
          let call := Call.flow { f with time := some t }
          if m.cancelled then ([call], some .context)
          else
            let (calls, err) := readLines s moment n o rest
            (call :: calls, err)

/-- `once`: a pass over the file. -/
def once (s : Source) (moment : Nat → Moment) : List (Call N L) × Option Err :=
  match s.file with
  | .error err => ([], some (.opening err))
  | .ok file =>
    let (lines, tooLong) := scanLines file.content
    let (calls, err) := readLines decode s moment 0 .new lines
    let scanErr := if tooLong then some "bufio.Scanner: token too long" else file.err
    (if s.status then .setConnected :: calls else calls, err <|> scanErr.map .scanning)

/-- `Run` from pass `p` on, for so many passes at most. -/
def run (s : Source) (w : World) : Nat → Nat → Option (List (Call N L) × Err)
  | 0, _ => none
  | k + 1, p =>
    match once decode s (w.moment p) with
    | (calls, some err) => some (calls, err)
    | (calls, none) =>
      if s.loop then (run s w k (p + 1)).map fun r => (calls ++ r.1, r.2)
      else if w.ends then some (calls, .context)
      else none

/-! ## When a pass looks at the context -/

/-- The context was done before. -/
structure World.Cancelled (w : World) : Prop where
  moment : ∀ p n, (w.moment p n).cancelled = true
  ends : w.ends = true

/-- A line that a pass does not get past: it has a flow, or cannot be read. -/
def stopsAt (line : List UInt8) : Bool :=
  !line.isEmpty && match decode line with
    | .error _ => true
    | .ok (.flow _) => true
    | .ok _ => false

/-- Something in the file ends a pass. -/
def Stops (file : File) : Prop :=
  (∃ line ∈ (scanLines file.content).1, stopsAt decode line = true) ∨
    (scanLines file.content).2 = true ∨ file.err ≠ none

/-- The replay is not repeated, or there is something that ends a pass. -/
def Returns (s : Source) : Prop :=
  s.loop = false ∨ match s.file with
    | .error _ => True
    | .ok file => Stops decode file

variable {decode} {s : Source}

/-- A line that stops a cancelled pass stops it with an error. -/
theorem readLines_of_stopsAt {moment : Nat → Moment} (hc : ∀ n, (moment n).cancelled = true)
    {line : List UInt8} (h : stopsAt decode line = true) (n : Nat) (o : Origin)
    (rest : List (List UInt8)) :
    ∃ err, (readLines decode s moment n o (line :: rest)).2 = some err := by
  obtain ⟨hne, hstops⟩ := Bool.and_eq_true_iff.1 h
  have hline : line ≠ [] := by simpa using hne
  simp only [readLines, if_neg hline]
  cases hdecode : decode line with
  | error err => exact ⟨_, rfl⟩
  | ok r =>
    rw [hdecode] at hstops
    cases r with
    | flow f =>
      simp only [hc, if_true]
      refine ⟨.context, ?_⟩
      -- with the flow or without it, the context is seen to be done
      split
      · rfl
      · rfl
    | nodeStatus ev => cases hstops
    | lostEvents ev => cases hstops
    | other => cases hstops

/-- Any other line is passed. -/
theorem readLines_of_not_stopsAt (moment : Nat → Moment) {line : List UInt8}
    (h : stopsAt decode line = false) (n : Nat) (o : Origin)
    (rest : List (List UInt8)) :
    (readLines decode s moment n o (line :: rest)).2
      = (readLines decode s moment (n + 1) o rest).2 := by
  by_cases hline : line = []
  · simp only [readLines, if_pos hline]
  -- an empty line is skipped anyway; another one decodes, and not to a flow
  · have hstops : (match decode line with
        | .error _ => true
        | .ok (.flow _) => true
        | .ok _ => false) = false := by
      have hne : (!line.isEmpty) = true := by simpa using hline
      rwa [stopsAt, hne, Bool.true_and] at h
    simp only [readLines, if_neg hline]
    cases hdecode : decode line with
    | error err =>
      rw [hdecode] at hstops
      cases hstops
    | ok r =>
      rw [hdecode] at hstops
      cases r with
      | flow f => cases hstops
      | nodeStatus ev => rfl
      | lostEvents ev => rfl
      | other => rfl

/-- A pass gets through exactly the lines that it does not stop at. -/
theorem readLines_eq_none_iff {moment : Nat → Moment} (hc : ∀ n, (moment n).cancelled = true)
    (n : Nat) (o : Origin) (lines : List (List UInt8)) :
    (readLines decode s moment n o lines).2 = none ↔
      ∀ line ∈ lines, stopsAt decode line = false := by
  induction lines generalizing n o with
  | nil => exact iff_of_true rfl fun line h => absurd h List.not_mem_nil
  | cons line rest ih =>
    rw [List.forall_mem_cons]
    cases h : stopsAt decode line with
    -- the pass ends at this line
    | true =>
      obtain ⟨err, herr⟩ := readLines_of_stopsAt (s := s) hc h n o rest
      rw [herr]
      simp
    -- the line is passed over
    | false =>
      rw [readLines_of_not_stopsAt moment h, ih]
      simp

/-- A pass over a file ends without an error exactly when there is nothing in it to end it. -/
theorem once_eq_none_iff {moment : Nat → Moment} (hc : ∀ n, (moment n).cancelled = true)
    {file : File} (hfile : s.file = .ok file) :
    (once decode s moment).2 = none ↔ ¬ Stops decode file := by
  have hlines : (readLines decode s moment 0 .new (scanLines file.content).1).2 = none ↔
      ¬ ∃ line ∈ (scanLines file.content).1, stopsAt decode line = true := by
    rw [readLines_eq_none_iff hc]
    simp only [not_exists, not_and, Bool.not_eq_true]
  -- a pass is without an error when its lines are, no line is too long and reading does not fail
  have honce : (once decode s moment).2 = none ↔
      (readLines decode s moment 0 .new (scanLines file.content).1).2 = none ∧
        (scanLines file.content).2 = false ∧ file.err = none := by
    simp only [once, hfile]
    cases (readLines decode s moment 0 .new (scanLines file.content).1).2 <;>
      cases (scanLines file.content).2 <;> cases file.err <;> simp
  rw [honce, hlines, Stops]
  simp only [not_or, Bool.not_eq_true, not_not, ne_eq]

/-- A file that nothing ends a pass over is read for ever. -/
theorem run_eq_none {w : World} (hloop : s.loop = true)
    (hpass : ∀ p, (once decode s (w.moment p)).2 = none) (k p : Nat) :
    run decode s w k p = none := by
  induction k generalizing p with
  | zero => rfl
  | succ k ih =>
    have heq : once decode s (w.moment p) = ((once decode s (w.moment p)).1, none) :=
      Prod.ext rfl (hpass p)
    simp only [run]
    rw [heq]
    simp only [hloop, if_true, ih, Option.map_none]

/-- What ends the first pass ends the run. -/
theorem run_of_once {w : World} {err : Err} (h : (once decode s (w.moment 0)).2 = some err) :
    ∃ k r, run decode s w k 0 = some r := by
  have heq : once decode s (w.moment 0) = ((once decode s (w.moment 0)).1, some err) :=
    Prod.ext rfl h
  refine ⟨1, ((once decode s (w.moment 0)).1, err), ?_⟩
  simp only [run]
  rw [heq]

/-- Without the loop the first pass is the last. -/
theorem run_of_not_loop {w : World} (hends : w.ends = true) (hloop : s.loop = false) :
    ∃ k r, run decode s w k 0 = some r := by
  cases herr : (once decode s (w.moment 0)).2 with
  | some err => exact run_of_once herr
  | none =>
    have heq : once decode s (w.moment 0) = ((once decode s (w.moment 0)).1, none) :=
      Prod.ext rfl herr
    refine ⟨1, ((once decode s (w.moment 0)).1, .context), ?_⟩
    simp only [run]
    rw [heq]
    simp only [hloop, hends, if_true, Bool.false_eq_true, if_false]

variable (decode s)

/-- **A replay that is cancelled returns** exactly when it is not repeated or there is a line in
the file that ends a pass: a flow, or one that cannot be read. -/
theorem run_returns_iff {w : World} (hw : w.Cancelled) :
    (∃ k r, run decode s w k 0 = some r) ↔ Returns decode s := by
  have hc : ∀ n, (w.moment 0 n).cancelled = true := hw.moment 0
  unfold Returns
  cases hfile : s.file with
  | error err =>
    have honce : (once decode s (w.moment 0)).2 = some (.opening err) := by
      simp only [once, hfile]
    exact iff_of_true (run_of_once honce) (Or.inr trivial)
  | ok file =>
    by_cases hstops : Stops decode file
    · refine iff_of_true ?_ (Or.inr hstops)
      obtain ⟨err, herr⟩ := Option.ne_none_iff_exists'.1
        (fun hnone => (once_eq_none_iff hc hfile).1 hnone hstops)
      exact run_of_once herr
    -- no pass returns an error: without Loop the first is the last, with it there is always a next
    -- one
    · have hpass : ∀ p, (once decode s (w.moment p)).2 = none := fun p =>
        (once_eq_none_iff (hw.moment p) hfile).2 hstops
      cases hloop : s.loop with
      | false => exact iff_of_true (run_of_not_loop hw.ends hloop) (Or.inl rfl)
      | true =>
        refine iff_of_false ?_ ?_
        · rintro ⟨k, r, hrun⟩
          rw [run_eq_none hloop hpass k 0] at hrun
          cases hrun
        · rintro (hfalse | h)
          · cases hfalse
          · exact hstops h

end

/-- A line that the decoder of the examples takes for lost events. -/
def lostLine : List UInt8 := [123, 125]

/-- A decoder that knows the line of the example. -/
def decodeLost (line : List UInt8) : Except String (Response Unit Unit) :=
  if line = lostLine then .ok (.lostEvents ()) else .error "unexpected token"

/-- A capture that is repeated. -/
def looping (content : List UInt8) : Source where
  path := "flows.jsonl"
  file := .ok ⟨content, none⟩
  speed := 1
  loop := true
  status := true

/-- The context was done before the program came to the source. -/
def doneWorld : World where
  moment := fun _ _ => ⟨0, 0, true, false⟩
  ends := true

theorem doneWorld_cancelled : doneWorld.Cancelled := ⟨fun _ _ => rfl, rfl⟩

/-- A second line that cannot be read ends the replay. -/
theorem run_returns_iff_unreadable :
    (∃ k r, run decodeLost (looping [123, 125, 10, 93]) doneWorld k 0 = some r) ↔
      Returns decodeLost (looping [123, 125, 10, 93]) :=
  run_returns_iff decodeLost _ doneWorld_cancelled

/-- A capture with lost events only is read for ever. -/
theorem not_run_returns : ¬ ∀ (decode : List UInt8 → Except String (Response Unit Unit))
    (s : Source) (w : World), 0 ≤ s.speed → (∃ content, s.file = .ok ⟨content, none⟩) →
      w.Cancelled → ∃ k r, run decode s w k 0 = some r := by
  intro h
  obtain ⟨k, r, hrun⟩ := h decodeLost (looping [123, 125, 10]) doneWorld (by decide)
    ⟨_, rfl⟩ doneWorld_cancelled
  have hpass : ∀ p, (once decodeLost (looping [123, 125, 10]) (doneWorld.moment p)).2 = none := by
    intro p
    apply (once_eq_none_iff (doneWorld_cancelled.moment p) rfl).2
    -- one line, which is of lost events and not of a flow
    have hlines : scanLines [123, 125, 10] = ([lostLine], false) := by decide
    unfold Stops
    simp only [hlines]
    rintro (⟨line, hmem, hstops⟩ | hlong | herr)
    · obtain rfl := List.mem_singleton.1 hmem
      cases hstops
    · cases hlong
    · exact herr rfl
  rw [run_eq_none rfl hpass k 0] at hrun
  cases hrun

end Replay

end Flowscape
