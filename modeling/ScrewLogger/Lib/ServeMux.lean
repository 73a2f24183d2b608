/-
Go's `http.ServeMux` (patterns with methods and wildcards, no hosts).

A path is cleaned before it is matched, and a request whose path is not clean
is redirected instead of served. Of the patterns that match, one with the
request's method goes before one without a method, and segment by segment a
literal before a wildcard before the rest of the path. `route_sound`: a request
that reaches a handler matches the pattern it was registered under.
-/
import ScrewLogger.Lib.Json.Text
import Mathlib

namespace Lib

/-- A segment of a pattern. -/
inductive Segment
  | literal (s : Bytes)
  | wild (name : Bytes)
  /-- The rest of the path, for a pattern that ends in a slash. -/
  | rest
  deriving DecidableEq

/-- A pattern's method, none for any, and its segments. -/
structure Pattern where
  method : Option Bytes
  segments : List Segment
  deriving DecidableEq

/-! ## Paths -/

/-- `url.PathUnescape`, the text itself where it is malformed. -/
def pathUnescape (s : Bytes) : Bytes := (decode s).getD s
where
  decode : Bytes → Option Bytes
    | [] => some []
    | [c] => if c = 0x25 then none else some [c]
    | [c, d] => if c = 0x25 ∨ d = 0x25 then none else some [c, d]
    | c :: d :: e :: s =>
      if c = 0x25 then
        if Json.isHex d && Json.isHex e then (decode s).map (UInt8.ofNat (Json.hexVal d * 16 + Json.hexVal e) :: ·)
        else none
      else (decode (d :: e :: s)).map (c :: ·)

/-- The parts between slashes. -/
def splitSlash : Bytes → List Bytes
  | [] => [[]]
  | c :: s =>
    if c = 0x2F then [] :: splitSlash s
    else
      match splitSlash s with
      | [] => [[c]]
      | p :: ps => (c :: p) :: ps

/-- A slash at the end of a path is a segment of its own. -/
def lastSlash : List Bytes → List Bytes
  | [] => []
  | [p] => [if p = [] then [0x2F] else pathUnescape p]
  | p :: ps => pathUnescape p :: lastSlash ps

/-- The segments of a path, unescaped (`firstSegment`). -/
def segments (path : Bytes) : List Bytes :=
  match path with
  | [] => []
  | _ :: s => lastSlash (splitSlash s)

/-- `path.Clean` on the parts of a rooted path. -/
def cleanParts : List Bytes → List Bytes → List Bytes
  | done, [] => done
  | done, p :: ps =>
    if p = [] ∨ p = [0x2E] then cleanParts done ps
    else if p = [0x2E, 0x2E] then cleanParts done.dropLast ps
    else cleanParts (done ++ [p]) ps

/-- `cleanPath`. -/
def cleanPath (path : Bytes) : Bytes :=
  let parts := cleanParts [] (splitSlash path)
  let clean := parts.flatMap (0x2F :: ·)
  if parts = [] then [0x2F] else if path.getLast? = some 0x2F then clean ++ [0x2F] else clean

/-! ## Matching -/

/-- A tree of patterns, by the segments still to match. -/
abbrev Routes (α : Type) := List (List Segment × α)

namespace Routes

variable {α : Type}

/-- The patterns that go on with a literal. -/
def literal (s : Bytes) (rs : Routes α) : Routes α := rs.filterMap fun r =>
  match r.1 with
  | .literal s' :: ps => if s' = s then some (ps, r.2) else none
  | _ => none

/-- The patterns that go on with a wildcard. -/
def wild (rs : Routes α) : Routes α := rs.filterMap fun r =>
  match r.1 with
  | .wild _ :: ps => some (ps, r.2)
  | _ => none

/-- `routingNode.matchPath`: the pattern matched and the wildcards' segments. -/
def matchPath (rs : Routes α) (vals : List Bytes) : List Bytes → Option (α × List Bytes)
  | [] => (rs.find? (·.1 = [])).map fun r => (r.2, vals)
  | s :: ss =>
    (matchPath (rs.literal s) vals ss).or <|
      (if s ≠ [0x2F] then matchPath rs.wild (vals ++ [s]) ss else none).or <|
        (rs.find? (·.1 = [.rest])).map fun r => (r.2, vals)

end Routes

/-- Patterns with what they were registered with. -/
abbrev Mux (α : Type) := List (Pattern × α)

/-- Where a request goes. -/
inductive Routed (α : Type)
  /-- To a handler, with the wildcards' names and values. -/
  | handler (a : α) (values : List (Bytes × Bytes))
  /-- Moved permanently. -/
  | redirect (path : Bytes)
  /-- Only other methods are allowed for the path. -/
  | methodNotAllowed (allow : List Bytes)
  | notFound

namespace Mux

variable {α : Type} (mux : Mux α)

/-- The patterns of a method, or of none. -/
def ofMethod (method : Option Bytes) : Routes (Pattern × α) :=
  mux.filterMap fun r => if r.1.method = method then some (r.1.segments, r) else none

/-- `matchMethodAndPath`. -/
def find (method path : Bytes) : Option ((Pattern × α) × List Bytes) :=
  (Routes.matchPath (mux.ofMethod (some method)) [] (segments path)).or <|
    (if method = str "HEAD" then Routes.matchPath (mux.ofMethod (some (str "GET"))) [] (segments path) else none).or <|
      Routes.matchPath (mux.ofMethod none) [] (segments path)

/-- `exactMatch`: the pattern leaves nothing of the path to its trailing slash. -/
def exactMatch (found : Option ((Pattern × α) × List Bytes)) (path : Bytes) : Bool :=
  match found with
  | none => false
  | some ((p, _), _) =>
    p.segments.getLast? ≠ some .rest ||
      path.getLast? = some 0x2F && p.segments.length == path.count 0x2F

/-- The redirect of `/tree` to `/tree/` when only the latter is registered. -/
def slashRedirect (method path : Bytes) : Bool :=
  !exactMatch (mux.find method path) path && path.getLast? ≠ some 0x2F &&
    exactMatch (mux.find method (path ++ [0x2F])) (path ++ [0x2F])

def wildNames (p : Pattern) : List Bytes := p.segments.filterMap fun s =>
  match s with
  | .wild name => some name
  | _ => none

/-- `matchingMethods`: the methods there is a pattern for the path under, with
or without a slash at its end. -/
def matchingMethods (path : Bytes) : List Bytes :=
  let matched (m : Bytes) (path : Bytes) := (Routes.matchPath (mux.ofMethod (some m)) [] (segments path)).isSome
  let methods := (mux.filterMap (·.1.method)).filter fun m =>
    matched m path || path.getLast? ≠ some 0x2F && matched m (path ++ [0x2F])
  let methods := if methods.contains (str "GET") then str "HEAD" :: methods else methods
  methods.dedup.insertionSort (· ≤ ·)

/-- `ServeMux.findHandler`. A `CONNECT` request's path is taken as it is. -/
def route (method path : Bytes) : Routed α :=
  let clean := if method = str "CONNECT" then path else cleanPath path
  if mux.slashRedirect method clean then .redirect (cleanPath (pathUnescape path) ++ [0x2F])
  else if clean ≠ path then .redirect clean
  else
    match mux.find method path with
    | some ((p, a), vals) => .handler a ((wildNames p).zip vals)
    | none => if mux.matchingMethods path = [] then .notFound else .methodNotAllowed (mux.matchingMethods path)

end Mux

/-! ## Soundness -/

/-- The segments match the path's. -/
def Matches : List Segment → List Bytes → Prop
  | [], ss => ss = []
  | .literal s :: ps, ss => ∃ ss', ss = s :: ss' ∧ Matches ps ss'
  | .wild _ :: ps, ss => ∃ s ss', ss = s :: ss' ∧ Matches ps ss'
  | .rest :: ps, ss => ps = [] ∧ ss ≠ []

theorem matches_literals {path ss : List Bytes} : Matches (path.map .literal) ss ↔ ss = path := by
  induction path generalizing ss with
  | nil => rfl
  | cons s path ih =>
    simp only [List.map_cons, Matches, ih]
    exact ⟨fun ⟨ss', hs, h⟩ => h ▸ hs, fun h => ⟨path, h, rfl⟩⟩

theorem matches_subtree {path ss : List Bytes} :
    Matches (path.map .literal ++ [.rest]) ss ↔ ∃ s ss', ss = path ++ s :: ss' := by
  induction path generalizing ss with
  | nil =>
    simp only [List.map_nil, List.nil_append, Matches, true_and]
    exact List.ne_nil_iff_exists_cons
  | cons s path ih =>
    simp only [List.map_cons, List.cons_append, Matches, ih]
    constructor
    · rintro ⟨_, rfl, s', ss', rfl⟩
      exact ⟨s', ss', rfl⟩
    · rintro ⟨s', ss', rfl⟩
      exact ⟨_, rfl, s', ss', rfl⟩

@[simp] theorem Routes.matchPath_nil {α : Type} {ss : List Bytes} {vals : List Bytes} :
    matchPath ([] : Routes α) vals ss = none := by
  induction ss generalizing vals with
  | nil => rfl
  | cons s ss ih => simp [matchPath, literal, wild, ih]

theorem Routes.matchPath_sound {α : Type} :
    ∀ {ss : List Bytes} {rs : Routes α} {vals : List Bytes} {a : α} {vals' : List Bytes},
    rs.matchPath vals ss = some (a, vals') → ∃ ps, (ps, a) ∈ rs ∧ Matches ps ss
  | [], rs, vals, a, vals', h => by
    simp only [matchPath, Option.map_eq_some_iff] at h
    obtain ⟨⟨ps, a'⟩, hfind, heq⟩ := h
    cases heq
    have hps := List.find?_some hfind
    simp only [decide_eq_true_eq] at hps
    subst hps
    exact ⟨[], List.mem_of_find?_eq_some hfind, rfl⟩
  | s :: ss, rs, vals, a, vals', h => by
    simp only [matchPath, Option.or_eq_some_iff] at h
    rcases h with h | ⟨-, h | ⟨-, h⟩⟩
    · obtain ⟨ps, hmem, hm⟩ := matchPath_sound h
      simp only [Routes.literal, List.mem_filterMap] at hmem
      obtain ⟨⟨ps', a'⟩, hmem, heq⟩ := hmem
      split at heq
      · next s' ps'' hps =>
        split at heq
        · next hs =>
          cases heq
          simp only at hps
          subst hps hs
          exact ⟨_, hmem, ss, rfl, hm⟩
        · cases heq
      · cases heq
    · split at h
      · obtain ⟨ps, hmem, hm⟩ := matchPath_sound h
        simp only [Routes.wild, List.mem_filterMap] at hmem
        obtain ⟨⟨ps', a'⟩, hmem, heq⟩ := hmem
        split at heq
        · next name ps'' hps =>
          cases heq
          simp only at hps
          subst hps
          exact ⟨_, hmem, s, ss, rfl, hm⟩
        · cases heq
      · cases h
    · rw [Option.map_eq_some_iff] at h
      obtain ⟨⟨ps, a'⟩, hfind, heq⟩ := h
      cases heq
      have hps := List.find?_some hfind
      simp only [decide_eq_true_eq] at hps
      subst hps
      exact ⟨_, List.mem_of_find?_eq_some hfind, rfl, by simp⟩

/-- The method is the pattern's, or the pattern's is `GET` and it is `HEAD`. -/
def Pattern.Allows (p : Pattern) (method : Bytes) : Prop :=
  p.method = none ∨ p.method = some method ∨ p.method = some (str "GET") ∧ method = str "HEAD"

theorem Mux.mem_ofMethod {α : Type} {mux : Mux α} {m : Option Bytes} {ps : List Segment} {r : Pattern × α}
    (h : (ps, r) ∈ mux.ofMethod m) : r ∈ mux ∧ r.1.method = m ∧ r.1.segments = ps := by
  simp only [ofMethod, List.mem_filterMap] at h
  obtain ⟨r', hmem, h⟩ := h
  split at h
  · next hm =>
    cases h
    exact ⟨hmem, hm, rfl⟩
  · cases h

theorem Mux.find_sound {α : Type} {mux : Mux α} {method path : Bytes} {r : Pattern × α} {vals : List Bytes}
    (h : mux.find method path = some (r, vals)) : r ∈ mux ∧ r.1.Allows method ∧
      Matches r.1.segments (segments path) := by
  simp only [find, Option.or_eq_some_iff] at h
  rcases h with h | ⟨-, h | ⟨-, h⟩⟩
  · obtain ⟨ps, hmem, hm⟩ := Routes.matchPath_sound h
    obtain ⟨hr, hmethod, rfl⟩ := mem_ofMethod hmem
    exact ⟨hr, .inr (.inl hmethod), hm⟩
  · split at h
    · next hhead =>
      obtain ⟨ps, hmem, hm⟩ := Routes.matchPath_sound h
      obtain ⟨hr, hmethod, rfl⟩ := mem_ofMethod hmem
      exact ⟨hr, .inr (.inr ⟨hmethod, hhead⟩), hm⟩
    · cases h
  · obtain ⟨ps, hmem, hm⟩ := Routes.matchPath_sound h
    obtain ⟨hr, hmethod, rfl⟩ := mem_ofMethod hmem
    exact ⟨hr, .inl hmethod, hm⟩

/-- A pattern without a method is found among those without one. -/
theorem Mux.find_ofMethod_none {α : Type} {mux : Mux α} {method path : Bytes} {r : Pattern × α} {vals : List Bytes}
    (h : mux.find method path = some (r, vals)) (hnone : r.1.method = none) :
    Routes.matchPath (mux.ofMethod none) [] (segments path) = some (r, vals) := by
  have hno {m : Bytes} : Routes.matchPath (mux.ofMethod (some m)) [] (segments path) ≠ some (r, vals) := fun h => by
    obtain ⟨ps, hmem, -⟩ := Routes.matchPath_sound h
    rw [(mem_ofMethod hmem).2.1] at hnone
    cases hnone
  simp only [find, Option.or_eq_some_iff] at h
  obtain h | ⟨-, h | ⟨-, h⟩⟩ := h
  · exact absurd h hno
  · split at h
    · exact absurd h hno
    · cases h
  · exact h

/-- **A request reaches a handler only under a pattern it matches.** -/
theorem Mux.route_sound {α : Type} {mux : Mux α} {method path : Bytes} {a : α} {vals : List (Bytes × Bytes)}
    (h : mux.route method path = .handler a vals) :
    ∃ p vals', (p, a) ∈ mux ∧ p.Allows method ∧ Matches p.segments (segments path) ∧
      mux.find method path = some ((p, a), vals') := by
  unfold route at h
  dsimp only at h
  by_cases hslash : mux.slashRedirect method (if method = str "CONNECT" then path else cleanPath path) = true
  · rw [if_pos hslash] at h
    cases h
  rw [if_neg hslash] at h
  by_cases hclean : (if method = str "CONNECT" then path else cleanPath path) ≠ path
  · rw [if_pos hclean] at h
    cases h
  rw [if_neg hclean] at h
  cases hfind : mux.find method path with
  | none =>
    rw [hfind] at h
    dsimp only at h
    by_cases hno : mux.matchingMethods path = []
    · rw [if_pos hno] at h
      cases h
    · rw [if_neg hno] at h
      cases h
  | some found =>
    obtain ⟨⟨p, a'⟩, vals'⟩ := found
    rw [hfind] at h
    cases h
    obtain ⟨hmem, hallows, hm⟩ := find_sound hfind
    exact ⟨p, vals', hmem, hallows, hm, rfl⟩

end Lib
