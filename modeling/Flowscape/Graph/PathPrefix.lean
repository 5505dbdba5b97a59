import Flowscape.Graph.L7
import Mathlib.Data.List.TakeWhile

/-!
# Flowscape: the query of a URL (`pathPrefix` in `internal/graph/l7.go`)

`pathPrefix` looks for `://` and for the slash behind the authority before it cuts the query
off, so it can find either one in the query. Then what it takes for the path is a part of the
query, and the request is counted in another bucket than the same request without a query.
-/

namespace Flowscape

/-- Everything up to the query or the fragment. -/
def beforeQuery (u : List Char) : List Char := u.takeWhile fun c => c ≠ '?' ∧ c ≠ '#'

/-- The path of what follows `://`. -/
def pathAfterScheme (u : List Char) : List Char :=
  match Text.cutAt '/' u with
  | none => ['/']
  | some (_, path) => '/' :: path

/-- The segments of a path, at most three, the last one whole. -/
def segments (path : List Char) : List (List Char) :=
  Text.splitN '/' 3 (match path with
    | '/' :: rest => rest
    | path => path)

/-- Both paths begin with the same two segments, and go on after them or do not. -/
def SameStart (path path' : List Char) : Prop :=
  (segments path).take 2 = (segments path').take 2 ∧
    (segments path).length = (segments path').length

instance (path path' : List Char) : Decidable (SameStart path path') :=
  inferInstanceAs (Decidable (_ ∧ _))

/-- The end of `pathPrefix`. -/
def showSegments : List (List Char) → String
  | [] => "/"
  | [a] => "/" ++ String.ofList a
  | [a, b] => "/" ++ String.ofList a ++ "/" ++ String.ofList b
  | a :: b :: _ => "/" ++ String.ofList a ++ "/" ++ String.ofList b ++ "/…"

theorem pathPrefix_eq (u : String) : pathPrefix u = showSegments (segments (beforeQuery
    (match Text.afterFirst "://".toList u.toList with
      | none => u.toList
      | some rest => pathAfterScheme rest))) := by
  unfold pathPrefix showSegments segments beforeQuery pathAfterScheme
  rfl

theorem beforeQuery_of_free {u : List Char} (hq : '?' ∉ u) (hf : '#' ∉ u) : beforeQuery u = u := by
  apply List.takeWhile_eq_self_iff.2
  intro c hc
  have h₁ : c ≠ '?' := fun h => hq (h ▸ hc)
  have h₂ : c ≠ '#' := fun h => hf (h ▸ hc)
  simp [h₁, h₂]

/-- A query or a fragment is cut off where it starts. -/
theorem beforeQuery_append {u : List Char} (hq : '?' ∉ u) (hf : '#' ∉ u) {c : Char}
    (hc : c = '?' ∨ c = '#') (q : List Char) : beforeQuery (u ++ c :: q) = u := by
  have hu : ∀ x ∈ u, decide (x ≠ '?' ∧ x ≠ '#') = true := fun x hx => by
    have h₁ : x ≠ '?' := fun h => hq (h ▸ hx)
    have h₂ : x ≠ '#' := fun h => hf (h ▸ hx)
    simp [h₁, h₂]
  rw [beforeQuery, List.takeWhile_append_of_pos hu, List.takeWhile_cons_of_neg]
  · exact List.append_nil u
  · rcases hc with rfl | rfl <;> simp

/-! ### What is shown of a path -/

/-- The parts between the slashes of what is shown. -/
def shownParts (segs : List (List Char)) : List (List Char) :=
  segs.take 2 ++ if 2 < segs.length then [['…']] else []

theorem toList_showSegments (segs : List (List Char)) :
    (showSegments segs).toList = '/' :: Text.join '/' (shownParts segs) := by
  match segs with
  | [] => rfl
  | [a] => simp [showSegments, shownParts, Text.join]
  | [a, b] => simp [showSegments, shownParts, Text.join]
  | a :: b :: c :: rest => simp [showSegments, shownParts, Text.join]

/-- A path is cut at its slashes, twice at most. -/
theorem segments_spec (path : List Char) : (segments path).length ≠ 0 ∧ (segments path).length ≤ 3 ∧
    ∀ p ∈ (segments path).take 2, '/' ∉ p := by
  unfold segments
  generalize (match path with
    | '/' :: rest => rest
    | path => path) = s
  rcases Text.splitN_three (c := '/') s with ⟨h, hs⟩ | ⟨a, b, -, ha, hb, hs⟩ |
    ⟨a, b, rest, -, ha, hb, hs⟩
  · rw [hs]
    simp [h]
  · rw [hs]
    simp [ha, hb]
  · rw [hs]
    simp [ha, hb]

/-- What is shown tells the first two segments apart. -/
theorem showSegments_eq_iff (path path' : List Char) :
    showSegments (segments path) = showSegments (segments path') ↔ SameStart path path' := by
  obtain ⟨hpos, hle, hfree⟩ := segments_spec path
  obtain ⟨hpos', hle', hfree'⟩ := segments_spec path'
  rw [SameStart]
  generalize segments path = segs at *
  generalize segments path' = segs' at *
  have hslash : ∀ {l : List (List Char)}, (∀ p ∈ l.take 2, '/' ∉ p) →
      ∀ p ∈ shownParts l, '/' ∉ p := by
    intro l hl p hp
    rcases List.mem_append.1 hp with hp | hp
    · exact hl p hp
    · split at hp
      · rw [List.mem_singleton.1 hp]
        decide
      · cases hp
  have hlength : ∀ {l : List (List Char)}, l.length ≤ 3 → (shownParts l).length = l.length := by
    intro l hl
    unfold shownParts
    split <;> simp <;> omega
  constructor
  · intro h
    have hjoin : Text.join '/' (shownParts segs) = Text.join '/' (shownParts segs') := by
      have hlist := congrArg String.toList h
      rw [toList_showSegments, toList_showSegments] at hlist
      exact (List.cons.inj hlist).2
    -- as many slashes, as many parts
    have hcount := congrArg (List.count '/') hjoin
    have hzero : ∀ {l : List (List Char)}, (∀ p ∈ l.take 2, '/' ∉ p) →
        ((shownParts l).map (List.count '/')).sum = 0 := by
      intro l hl
      apply List.sum_eq_zero
      intro n hn
      obtain ⟨p, hp, rfl⟩ := List.mem_map.1 hn
      exact List.count_eq_zero.2 (hslash hl p hp)
    rw [Text.count_join, Text.count_join, hzero hfree, hzero hfree', hlength hle, hlength hle']
      at hcount
    have hlen : segs.length = segs'.length := by omega
    have hparts : shownParts segs = shownParts segs' :=
      Text.join_inj (by rw [hlength hle, hlength hle', hlen]) (hslash hfree') hjoin
    rw [shownParts, shownParts, hlen] at hparts
    exact ⟨List.append_cancel_right hparts, hlen⟩
  · rintro ⟨htake, hlen⟩
    apply String.toList_inj.1
    rw [toList_showSegments, toList_showSegments, shownParts, shownParts, htake, hlen]

/-! ### With and without a query -/

/-- The query is not taken for a part of the path: either the URL has a scheme and a slash
behind its authority, or the path that `pathPrefix` takes from the query starts like its own. -/
def QueryKeepsPath (u q : List Char) : Prop :=
  match Text.afterFirst "://".toList u with
  | some rest => '/' ∈ rest ∨ SameStart (beforeQuery (pathAfterScheme q)) ['/']
  | none =>
    match Text.afterFirst "://".toList q with
    | some rest => SameStart (beforeQuery (pathAfterScheme rest)) u
    | none => True

/-- The same for the query mark and the mark of a fragment. -/
theorem pathPrefix_append_iff {u : String} (hq : '?' ∉ u.toList) (hf : '#' ∉ u.toList) {c : Char}
    (hc : c = '?' ∨ c = '#') {w q : String} (hw : w.toList = u.toList ++ c :: q.toList) :
    pathPrefix w = pathPrefix u ↔ QueryKeepsPath u.toList q.toList := by
  rw [pathPrefix_eq w, pathPrefix_eq u, hw, QueryKeepsPath]
  have hsep : c ∉ "://".toList := by rcases hc with rfl | rfl <;> decide
  have hslash : c ≠ '/' := by rcases hc with rfl | rfl <;> decide
  cases hu : Text.afterFirst "://".toList u.toList with
  | some rest =>
    rw [Text.afterFirst_append hu]
    have hqr : '?' ∉ rest := fun h => hq (Text.mem_of_afterFirst hu h)
    have hfr : '#' ∉ rest := fun h => hf (Text.mem_of_afterFirst hu h)
    cases hcut : Text.cutAt '/' rest with
    | some p =>
      -- the slash behind the authority is found before the query
      obtain ⟨authority, path⟩ := p
      obtain ⟨rfl, -⟩ := Text.cutAt_eq_some_iff.1 hcut
      refine iff_of_true ?_ (Or.inl (by simp))
      have hpath : '?' ∉ '/' :: path := fun h => hqr (List.mem_append_right _ h)
      have hpath' : '#' ∉ '/' :: path := fun h => hfr (List.mem_append_right _ h)
      simp only [pathAfterScheme, hcut, Text.cutAt_append hcut]
      rw [← List.cons_append, beforeQuery_append hpath hpath' hc, beforeQuery_of_free hpath hpath']
    | none =>
      have hnone : '/' ∉ rest := Text.cutAt_eq_none_iff.1 hcut
      have hquery : pathAfterScheme (rest ++ c :: q.toList) = pathAfterScheme q.toList := by
        rw [pathAfterScheme, Text.cutAt_append_of_not_mem hnone, Text.cutAt, if_neg hslash,
          pathAfterScheme]
        cases Text.cutAt '/' q.toList <;> rfl
      have hroot : beforeQuery (pathAfterScheme rest) = ['/'] := by
        rw [pathAfterScheme, hcut]
        rfl
      simp only [hquery, hroot, showSegments_eq_iff, hnone, false_or]
  | none =>
    rw [Text.afterFirst_append_cons hsep (by decide) hu]
    cases hqs : Text.afterFirst "://".toList q.toList with
    | none =>
      simp only [beforeQuery_append hq hf hc, beforeQuery_of_free hq hf]
    | some rest =>
      simp only [beforeQuery_of_free hq hf, showSegments_eq_iff]

/-- **When the query changes the bucket.** For a URL without query and fragment, a query and a
fragment leave the prefix alone exactly when nothing in them is taken for a part of the path. -/
theorem pathPrefix_query_iff {u : String} (hq : '?' ∉ u.toList) (hf : '#' ∉ u.toList) (q : String) :
    (pathPrefix (u ++ "?" ++ q) = pathPrefix u ∧ pathPrefix (u ++ "#" ++ q) = pathPrefix u) ↔
      QueryKeepsPath u.toList q.toList := by
  rw [pathPrefix_append_iff hq hf (q := q) (Or.inl rfl) (by simp),
    pathPrefix_append_iff hq hf (q := q) (Or.inr rfl) (by simp), and_self_iff]

/-- A query of its own, without a URL in it. -/
theorem pathPrefix_query_metrics :
    pathPrefix ("/metrics" ++ "?" ++ "dir=/") = pathPrefix "/metrics" ∧
      pathPrefix ("/metrics" ++ "#" ++ "dir=/") = pathPrefix "/metrics" :=
  (pathPrefix_query_iff (u := "/metrics") (by decide) (by decide) "dir=/").2 trivial

/-- An absolute path, or a scheme and an authority with an absolute path or none. -/
def RequestURL (u : String) : Prop :=
  u.toList.head? = some '/' ∨ ∃ scheme authority path,
    u = scheme ++ "://" ++ authority ++ path ∧ (path = "" ∨ path.toList.head? = some '/')

/-- **A callback in the query changes the bucket**, and so does a slash in the query of a URL
that has no path. -/
theorem not_pathPrefix_query :
    ¬ ∀ u q : String, RequestURL u → '?' ∉ u.toList → '#' ∉ u.toList →
      pathPrefix (u ++ "?" ++ q) = pathPrefix u ∧ pathPrefix (u ++ "#" ++ q) = pathPrefix u := by
  intro h
  obtain ⟨hq, -⟩ := h "/login" "next=https://shop/cart" (Or.inl rfl) (by decide) (by decide)
  exact absurd hq (by decide)

end Flowscape
