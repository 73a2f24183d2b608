/-
Paths that are put together for a route, and where the mux sends them.

`segments_rooted`: of a path of encoded segments the mux sees those segments.
`find_of_fit`: where no two patterns of a method can match one path, a pattern
that fits is the one that is found, with the values of its wildcards. `route_fill`:
so a path filled in for a pattern reaches its handler, and `route_below` sends one
below a pattern there, too.
-/
import ScrewLogger.Lib.Url

namespace Lib

/-! ## Paths -/

/-- A rooted path of segments. -/
def rooted (parts : List Bytes) : Bytes := parts.flatMap (0x2F :: ·)

/-- A segment that a path may have: not empty, of no slash, and neither `.` nor `..`. -/
structure IsPart (part : Bytes) : Prop where
  nonempty : part ≠ []
  slash : 0x2F ∉ part
  dots : part ≠ [0x2E] ∧ part ≠ [0x2E, 0x2E]

/-- The value of a segment that the mux takes as it is: the dots are taken for
parts of the path, and a slash for its end. -/
structure IsSegment (s : Bytes) : Prop where
  nonempty : s ≠ []
  slash : s ≠ [0x2F]
  dots : s ≠ [0x2E] ∧ s ≠ [0x2E, 0x2E]

theorem isPart_encode (h : IsSegment s) : IsPart (encodeURIComponent s) := by
  have hback : ∀ t, encodeURIComponent s = encodeURIComponent t → s = t := fun t heq => by
    rw [← pathUnescape_encode s, heq, pathUnescape_encode]
  refine ⟨fun heq => ?_, not_mem_encode (by decide) (by decide) (by decide), fun heq => ?_, fun heq => ?_⟩
  · exact h.nonempty (hback [] heq)
  · exact h.dots.1 (hback [0x2E] heq)
  · exact h.dots.2 (hback [0x2E, 0x2E] heq)

theorem rooted_cons {part : Bytes} {parts : List Bytes} : rooted (part :: parts) = 0x2F :: (part ++ rooted parts) := by
  simp [rooted]

theorem splitSlash_append {part : Bytes} (h : 0x2F ∉ part) (t : Bytes) :
    splitSlash (part ++ 0x2F :: t) = part :: splitSlash t := by
  induction part with
  | nil => simp [splitSlash]
  | cons c part ih =>
    rw [List.mem_cons, not_or] at h
    rw [List.cons_append, splitSlash, if_neg fun heq => h.1 heq.symm, ih h.2]

theorem splitSlash_part {part : Bytes} (h : 0x2F ∉ part) : splitSlash part = [part] := by
  induction part with
  | nil => rfl
  | cons c part ih =>
    rw [List.mem_cons, not_or] at h
    rw [splitSlash, if_neg fun heq => h.1 heq.symm, ih h.2]

/-- A rooted path is split into its segments. -/
theorem splitSlash_parts : ∀ {parts : List Bytes} {part : Bytes}, (∀ p ∈ part :: parts, IsPart p) →
    splitSlash (part ++ rooted parts) = part :: parts
  | [], part, h => by
    rw [rooted, List.flatMap_nil, List.append_nil, splitSlash_part (h part (by simp)).slash]
  | part' :: parts, part, h => by
    rw [rooted_cons, splitSlash_append (h part (by simp)).slash, splitSlash_parts fun p hp => h p (by simp [hp])]

theorem cleanParts_parts : ∀ {parts done : List Bytes}, (∀ p ∈ parts, IsPart p) → cleanParts done parts = done ++ parts
  | [], done, _ => by simp [cleanParts]
  | p :: parts, done, h => by
    obtain ⟨hne, -, hdot, hdots⟩ := h p (by simp)
    rw [cleanParts, if_neg (by simp [hne, hdot]), if_neg hdots, cleanParts_parts fun q hq => h q (by simp [hq])]
    simp

variable {parts : List Bytes}

theorem getLast?_rooted : ∀ {parts : List Bytes}, parts ≠ [] → (∀ p ∈ parts, IsPart p) →
    (rooted parts).getLast? ≠ some 0x2F
  | [part], _, h => fun hlast => by
    obtain ⟨hne, hslash, -⟩ := h part (by simp)
    have hpart : rooted [part] = [0x2F] ++ part := by simp [rooted]
    rw [hpart, List.getLast?_append_of_ne_nil _ hne] at hlast
    exact hslash (List.mem_of_getLast? hlast)
  | part :: part' :: parts, _, h => by
    have hne : rooted (part' :: parts) ≠ [] := by simp [rooted_cons]
    rw [rooted_cons, ← List.cons_append, List.getLast?_append_of_ne_nil _ hne]
    exact getLast?_rooted (by simp) fun p hp => h p (by simp [hp])

/-- A rooted path is clean. -/
theorem cleanPath_rooted (hne : parts ≠ []) (h : ∀ p ∈ parts, IsPart p) : cleanPath (rooted parts) = rooted parts := by
  have hparts : cleanParts [] (splitSlash (rooted parts)) = parts := by
    obtain ⟨part, parts, rfl⟩ := List.exists_cons_of_ne_nil hne
    rw [rooted_cons, splitSlash, if_pos rfl, splitSlash_parts h, cleanParts, if_pos (.inl rfl), cleanParts_parts h,
      List.nil_append]
  rw [cleanPath, hparts, if_neg hne, if_neg (getLast?_rooted hne h)]
  rfl

theorem lastSlash_parts : ∀ {parts : List Bytes}, (∀ p ∈ parts, IsPart p) → lastSlash parts = parts.map pathUnescape
  | [], _ => rfl
  | [part], h => by rw [lastSlash, if_neg (h part (by simp)).nonempty, List.map_singleton]
  | part :: part' :: parts, h => by
    show pathUnescape part :: lastSlash (part' :: parts) = _
    rw [lastSlash_parts fun p hp => h p (by simp [hp])]
    rfl

/-- **The segments** of a rooted path, unescaped. -/
theorem segments_rooted (hne : parts ≠ []) (h : ∀ p ∈ parts, IsPart p) :
    segments (rooted parts) = parts.map pathUnescape := by
  obtain ⟨part, parts, rfl⟩ := List.exists_cons_of_ne_nil hne
  rw [rooted_cons, segments, splitSlash_parts h, lastSlash_parts h]

theorem count_rooted (h : ∀ p ∈ parts, IsPart p) : (rooted parts).count 0x2F = parts.length := by
  induction parts with
  | nil => rfl
  | cons p parts ih =>
    rw [rooted, List.flatMap_cons, List.count_append, List.count_cons_self,
      List.count_eq_zero_of_not_mem (h p (by simp)).slash]
    rw [rooted] at ih
    rw [ih fun q hq => h q (by simp [hq]), List.length_cons]
    omega

/-- The segments with a slash after the path. -/
theorem segments_slash (hne : parts ≠ []) (h : ∀ p ∈ parts, IsPart p) :
    segments (rooted parts ++ [0x2F]) = parts.map pathUnescape ++ [[0x2F]] := by
  have hsplit : ∀ {parts : List Bytes} {part : Bytes}, (∀ p ∈ part :: parts, IsPart p) →
      lastSlash (splitSlash (part ++ rooted parts ++ [0x2F])) = (part :: parts).map pathUnescape ++ [[0x2F]] := by
    intro parts
    induction parts with
    | nil =>
      intro part h
      have hpart := splitSlash_append (h part (by simp)).slash []
      rw [rooted, List.flatMap_nil, List.append_nil, hpart]
      rfl
    | cons part' parts ih =>
      intro part h
      have hrest := @ih part' fun p hp => h p (List.mem_cons_of_mem _ hp)
      have hne : splitSlash (part' ++ rooted parts ++ [0x2F]) ≠ [] := by
        intro heq
        rw [heq] at hrest
        cases hrest
      obtain ⟨x, xs, hxs⟩ := List.exists_cons_of_ne_nil hne
      rw [rooted_cons, List.append_assoc, List.cons_append, splitSlash_append (h part (by simp)).slash]
      rw [hxs] at hrest ⊢
      show pathUnescape part :: lastSlash (x :: xs) = _
      rw [hrest]
      rfl
  obtain ⟨part, parts, rfl⟩ := List.exists_cons_of_ne_nil hne
  rw [rooted_cons, List.cons_append, segments, hsplit h]

/-- A path of encoded segments, and with a slash after it. -/
theorem segments_encoded {ss : List Bytes} (hne : ss ≠ []) (h : ∀ s ∈ ss, IsSegment s) :
    segments (rooted (ss.map encodeURIComponent)) = ss ∧
      segments (rooted (ss.map encodeURIComponent) ++ [0x2F]) = ss ++ [[0x2F]] := by
  have hback : (ss.map encodeURIComponent).map pathUnescape = ss := by
    rw [List.map_map]
    exact (List.map_congr_left fun s _ => pathUnescape_encode s).trans (List.map_id ss)
  have hparts : ∀ part ∈ ss.map encodeURIComponent, IsPart part := by
    simpa using fun s hs => isPart_encode (h s hs)
  rw [segments_rooted (by simpa using hne) hparts, segments_slash (by simpa using hne) hparts, hback]
  exact ⟨rfl, rfl⟩

/-! ## Patterns that fit -/

/-- The values of the wildcards where the pattern matches the segments. A slash
at the end of a path is no wildcard's. -/
def fit : List Segment → List Bytes → Option (List Bytes)
  | [], [] => some []
  | .literal s' :: ps, s :: ss => if s' = s then fit ps ss else none
  | .wild _ :: ps, s :: ss => if s = [0x2F] then none else (fit ps ss).map (s :: ·)
  | .rest :: ps, _ :: _ => if ps = [] then some [] else none
  | _, _ => none

/-- There may be a path that both patterns match. -/
def overlap : List Segment → List Segment → Bool
  | [], [] => true
  | .rest :: _, _ :: _ => true
  | _ :: _, .rest :: _ => true
  | .literal s :: ps, .literal s' :: qs => s = s' && overlap ps qs
  | _ :: ps, _ :: qs => overlap ps qs
  | _, _ => false

theorem overlap_comm : ∀ ps qs : List Segment, overlap ps qs = overlap qs ps
  | [], [] => rfl
  | [], q :: qs => by cases q <;> rfl
  | p :: ps, [] => by cases p <;> rfl
  | p :: ps, q :: qs => by
    have ih := overlap_comm ps qs
    cases p <;> cases q <;> simp [overlap, ih, eq_comm]

/-- What a fit says of the segments after the first. -/
theorem fit_cons {p : Segment} {ps : List Segment} {s : Bytes} {ss vs : List Bytes}
    (h : fit (p :: ps) (s :: ss) = some vs) :
    p = .rest ∨ (p = .literal s ∨ ∃ name, p = .wild name) ∧ ∃ vs, fit ps ss = some vs := by
  cases p with
  | literal s' =>
    simp only [fit] at h
    split at h
    · next hs => exact .inr ⟨.inl (by rw [hs]), _, h⟩
    · cases h
  | wild name =>
    simp only [fit] at h
    split at h
    · cases h
    · obtain ⟨vs, h, -⟩ := Option.map_eq_some_iff.1 h
      exact .inr ⟨.inr ⟨name, rfl⟩, vs, h⟩
  | rest => exact .inl rfl

/-- Patterns that fit one path overlap. -/
theorem overlap_of_fit : ∀ {ps qs : List Segment} {ss vs ws : List Bytes}, fit ps ss = some vs →
    fit qs ss = some ws → overlap ps qs = true
  | [], [], _, _, _, _, _ => rfl
  | [], q :: qs, [], _, _, _, h => by cases q <;> cases h
  | [], _ :: _, _ :: _, _, _, h, _ => by cases h
  | p :: ps, _, [], _, _, h, _ => by cases p <;> cases h
  | _ :: _, [], _ :: _, _, _, _, h => by cases h
  | p :: ps, q :: qs, s :: ss, _, _, h, h' => by
    obtain rfl | ⟨hp, vs, hps⟩ := fit_cons h
    · rfl
    obtain rfl | ⟨hq, ws, hqs⟩ := fit_cons h'
    · cases p <;> rfl
    have ih := overlap_of_fit hps hqs
    obtain rfl | ⟨name, rfl⟩ := hp <;> obtain rfl | ⟨name', rfl⟩ := hq <;> simp [overlap, ih]

namespace Routes

variable {α : Type} {rs : Routes α} {vals vals' : List Bytes} {a : α}

/-- What is found fits. -/
theorem fit_of_matchPath : ∀ {ss : List Bytes} {rs : Routes α} {vals vals' : List Bytes},
    rs.matchPath vals ss = some (a, vals') → ∃ ps vs, (ps, a) ∈ rs ∧ fit ps ss = some vs ∧ vals' = vals ++ vs
  | [], rs, vals, vals', h => by
    simp only [matchPath, Option.map_eq_some_iff] at h
    obtain ⟨⟨ps, a'⟩, hfind, heq⟩ := h
    cases heq
    have hps := List.find?_some hfind
    simp only [decide_eq_true_eq] at hps
    subst hps
    exact ⟨[], [], List.mem_of_find?_eq_some hfind, rfl, (List.append_nil _).symm⟩
  | s :: ss, rs, vals, vals', h => by
    simp only [matchPath, Option.or_eq_some_iff] at h
    obtain h | ⟨-, h | ⟨-, h⟩⟩ := h
    · obtain ⟨ps, vs, hmem, hfit, rfl⟩ := fit_of_matchPath h
      simp only [literal, List.mem_filterMap] at hmem
      obtain ⟨⟨ps', a'⟩, hmem, heq⟩ := hmem
      refine ⟨ps', vs, ?_, ?_, rfl⟩ <;> grind [fit]
    · split at h
      · next hs =>
        obtain ⟨ps, vs, hmem, hfit, rfl⟩ := fit_of_matchPath h
        simp only [wild, List.mem_filterMap] at hmem
        obtain ⟨⟨ps', a'⟩, hmem, heq⟩ := hmem
        refine ⟨ps', s :: vs, ?_, ?_, by simp⟩ <;> grind [fit]
      · cases h
    · rw [Option.map_eq_some_iff] at h
      obtain ⟨⟨ps, a'⟩, hfind, heq⟩ := h
      cases heq
      have hps := List.find?_some hfind
      simp only [decide_eq_true_eq] at hps
      subst hps
      exact ⟨_, [], List.mem_of_find?_eq_some hfind, rfl, (List.append_nil _).symm⟩

/-- Where a pattern fits, one is found. -/
theorem matchPath_of_fit : ∀ {ss : List Bytes} {rs : Routes α} {vals vs : List Bytes} {ps : List Segment},
    (ps, a) ∈ rs → fit ps ss = some vs → (rs.matchPath vals ss).isSome = true
  | [], rs, vals, vs, ps, hmem, hfit => by
    have hps : ps = [] := by
      cases ps with
      | nil => rfl
      | cons p ps => cases p <;> cases hfit
    subst hps
    simp only [matchPath, Option.isSome_map, List.find?_isSome]
    exact ⟨_, hmem, by simp⟩
  | s :: ss, rs, vals, vs, [], _, hfit => by cases hfit
  | s :: ss, rs, vals, vs, p :: ps, hmem, hfit => by
    simp only [matchPath, Option.isSome_or, Bool.or_eq_true]
    cases p with
    | literal s' =>
      simp only [fit] at hfit
      split at hfit
      · next hs => exact .inl (matchPath_of_fit (List.mem_filterMap.2 ⟨_, hmem, by simp [hs]⟩) hfit)
      · cases hfit
    | wild name =>
      simp only [fit] at hfit
      split at hfit
      · cases hfit
      · next hs =>
        obtain ⟨vs, hfit, -⟩ := Option.map_eq_some_iff.1 hfit
        rw [if_pos hs]
        exact .inr (.inl (matchPath_of_fit (List.mem_filterMap.2 ⟨_, hmem, rfl⟩) hfit))
    | rest =>
      simp only [fit] at hfit
      split at hfit
      · next hps =>
        subst hps
        refine .inr (.inr ?_)
        rw [Option.isSome_map, List.find?_isSome]
        exact ⟨_, hmem, by simp⟩
      · cases hfit

end Routes

/-! ## Routes -/

/-- The path of a pattern with the wildcards' values. -/
def fill : List Segment → List Bytes → List Bytes
  | .literal s :: ps, vals => s :: fill ps vals
  | .wild _ :: ps, v :: vals => v :: fill ps vals
  | _, _ => []

/-- The pattern is matched to its end, and has as many wildcards as there are values. -/
def takes : List Segment → List Bytes → Bool
  | [], [] => true
  | .literal _ :: ps, vals => takes ps vals
  | .wild _ :: ps, _ :: vals => takes ps vals
  | _, _ => false

theorem mem_fill : ∀ {ps : List Segment} {vals : List Bytes}, takes ps vals = true → ∀ v ∈ vals, v ∈ fill ps vals
  | [], [], _, _, hv => hv
  | .literal _ :: ps, vals, h, v, hv => List.mem_cons_of_mem _ (@mem_fill ps vals h v hv)
  | .wild _ :: ps, v :: vals, h, v', hv => by
    obtain rfl | hv := List.mem_cons.1 hv
    · exact List.mem_cons_self
    · exact List.mem_cons_of_mem _ (@mem_fill ps vals h v' hv)

theorem fit_fill : ∀ {ps : List Segment} {vals : List Bytes}, takes ps vals = true → (∀ v ∈ vals, v ≠ [0x2F]) →
    fit ps (fill ps vals) = some vals
  | [], [], _, _ => rfl
  | .literal s :: ps, vals, h, hvals => by
    have ih := @fit_fill ps vals h hvals
    rw [fill, fit, if_pos rfl, ih]
  | .wild _ :: ps, v :: vals, h, hvals => by
    have ih := @fit_fill ps vals h fun v hv => hvals v (by simp [hv])
    rw [fill, fit, if_neg (hvals v (by simp)), ih]
    rfl

theorem getLast?_takes : ∀ {ps : List Segment} {vals : List Bytes}, takes ps vals = true → ps.getLast? ≠ some .rest
  | [], _, _ => by simp
  | [.literal _], _, _ => by simp
  | [.wild _], _, _ => by simp
  | .literal _ :: p :: ps, vals, h => by
    rw [List.getLast?_cons_cons]
    exact getLast?_takes h
  | .wild _ :: p :: ps, v :: vals, h => by
    rw [List.getLast?_cons_cons]
    exact getLast?_takes h

/-- No path is for both patterns. -/
def Pattern.Apart (p q : Pattern) : Prop := p.method = q.method → overlap p.segments q.segments = false

instance : DecidableRel Pattern.Apart := fun p q =>
  inferInstanceAs (Decidable (p.method = q.method → overlap p.segments q.segments = false))

theorem Pattern.Apart.symm {p q : Pattern} (h : p.Apart q) : q.Apart p := fun hmethod => by
  rw [overlap_comm, h hmethod.symm]

namespace Mux

variable {α : Type} {mux : Mux α} {method path : Bytes} {p : Pattern} {a : α} {vals : List Bytes}

/-- No path is for two patterns. Of patterns that were not apart `ServeMux` takes
the more specific, and refuses to register them where neither is. -/
def Apart (mux : Mux α) : Prop := (mux.map (·.1)).Pairwise Pattern.Apart

theorem Apart.eq (h : mux.Apart) {r r' : Pattern × α} (hr : r ∈ mux) (hr' : r' ∈ mux)
    (hmethod : r.1.method = r'.1.method) (hoverlap : overlap r.1.segments r'.1.segments = true) : r = r' := by
  have hsymm : Std.Symm fun r r' : Pattern × α => r.1.Apart r'.1 := ⟨fun _ _ => Pattern.Apart.symm⟩
  by_contra hne
  have hapart := (List.pairwise_map.1 h).forall hr hr' hne hmethod
  rw [hoverlap] at hapart
  cases hapart

/-- **The pattern that fits is found.** -/
theorem find_of_fit (hapart : mux.Apart) (hmem : (p, a) ∈ mux) (hmethod : p.method = some method)
    (hfit : fit p.segments (segments path) = some vals) : mux.find method path = some ((p, a), vals) := by
  have hp : (p.segments, (p, a)) ∈ mux.ofMethod (some method) := List.mem_filterMap.2 ⟨_, hmem, by simp [hmethod]⟩
  obtain ⟨⟨r, vals'⟩, hfound⟩ := Option.isSome_iff_exists.1 (@Routes.matchPath_of_fit _ _ _ _ [] _ _ hp hfit)
  obtain ⟨ps, vs, hps, hfit', rfl⟩ := Routes.fit_of_matchPath hfound
  obtain ⟨hr, hrmethod, rfl⟩ := mem_ofMethod hps
  obtain rfl := hapart.eq hmem hr (hmethod.trans hrmethod.symm) (overlap_of_fit hfit hfit')
  obtain rfl := Option.some.inj (hfit.symm.trans hfit')
  rw [find, hfound]
  rfl

/-- A request whose path a pattern matches to its end. -/
theorem route_exact (hne : parts ≠ []) (hparts : ∀ p ∈ parts, IsPart p) (hmethod : method ≠ str "CONNECT")
    (hfind : mux.find method (rooted parts) = some ((p, a), vals)) (hexact : p.segments.getLast? ≠ some .rest) :
    mux.route method (rooted parts) = .handler a ((wildNames p).zip vals) := by
  have hslash : mux.slashRedirect method (rooted parts) = false := by
    simp [slashRedirect, exactMatch, hfind, hexact]
  rw [route]
  simp only [if_neg hmethod, cleanPath_rooted hne hparts, hslash, hfind]
  simp

/-- **A path filled in for a pattern** reaches its handler, with the values. -/
theorem route_fill (hapart : mux.Apart) (hmem : (p, a) ∈ mux) (hmethod : p.method = some method)
    (hconnect : method ≠ str "CONNECT") (htakes : takes p.segments vals = true) (hne : fill p.segments vals ≠ [])
    (hsegments : ∀ s ∈ fill p.segments vals, IsSegment s) :
    mux.route method (rooted ((fill p.segments vals).map encodeURIComponent)) =
      .handler a ((wildNames p).zip vals) := by
  have hparts : ∀ part ∈ (fill p.segments vals).map encodeURIComponent, IsPart part := by
    simp only [List.forall_mem_map]
    exact fun s hs => isPart_encode (hsegments s hs)
  have hne' : (fill p.segments vals).map encodeURIComponent ≠ [] := by simpa using hne
  refine route_exact hne' hparts hconnect (find_of_fit hapart hmem hmethod ?_) (getLast?_takes htakes)
  rw [(segments_encoded hne hsegments).1]
  exact fit_fill htakes fun v hv => (hsegments v (mem_fill htakes v hv)).slash

/-- A request whose path is below a pattern's, and still would be with a slash after it. -/
theorem route_below (hne : parts ≠ []) (hparts : ∀ p ∈ parts, IsPart p) (hmethod : method ≠ str "CONNECT")
    (hfind : mux.find method (rooted parts) = some ((p, a), vals)) {p' : Pattern} {a' : α} {vals' : List Bytes}
    (hslashed : mux.find method (rooted parts ++ [0x2F]) = some ((p', a'), vals'))
    (hlast : p'.segments.getLast? = some .rest) (hlength : p'.segments.length ≤ parts.length) :
    mux.route method (rooted parts) = .handler a ((wildNames p).zip vals) := by
  have hcount : (rooted parts ++ [0x2F]).count 0x2F = parts.length + 1 := by
    rw [List.count_append, count_rooted hparts]
    rfl
  have hno : exactMatch (mux.find method (rooted parts ++ [0x2F])) (rooted parts ++ [0x2F]) = false := by
    have hlt : p'.segments.length ≠ parts.length + 1 := by omega
    rw [hslashed, exactMatch, hcount]
    simp [hlast, hlt]
  rw [route]
  simp only [if_neg hmethod, cleanPath_rooted hne hparts, slashRedirect, hno, Bool.and_false, hfind]
  simp

end Mux

end Lib
