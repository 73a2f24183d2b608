/-
Patterns that SQLite's `GLOB` and Go's `path.Match` read alike.

`Part` is one part of such a pattern, `render` its text. Each matcher reads the
text back as the part (`piecesFrom_render`, `terms_render`), and on a name
without a `/` or a NUL they agree (`pathMatch_eq_glob`), if the name is of ASCII
or `path.Match` gains nothing from taking a character apart. A pattern without a
class matches its own text (`glob_self`). `Plain` patterns have none, and nothing
else that the two read in ways of their own.
-/
import ScrewLogger.Lib.Glob
import ScrewLogger.Lib.Matching

namespace Lib

namespace CommonPattern

/-- A member of a class: a character, or the characters from one to another. -/
inductive Member
  | char (r : Rune)
  | range (lo hi : Rune)

/-- A part of a pattern. -/
inductive Part
  | star
  | any
  | char (r : Rune)
  | cls (negated : Bool) (members : List Member)

def Member.render : Member → List Rune
  | .char r => [r]
  | .range lo hi => [lo, ascii 0x2D, hi]

def Part.render : Part → List Rune
  | .star => [ascii 0x2A]
  | .any => [ascii 0x3F]
  | .char r => [r]
  | .cls negated members =>
    ascii 0x5B :: ((if negated then [ascii 0x5E] else []) ++ members.flatMap Member.render ++ [ascii 0x5D])

/-- A rune that means itself in a class: no bad byte, none of `-`, `]` and `\`, and no NUL. -/
structure InClass (r : Rune) : Prop where
  good : r.isBad = false
  dash : r.is 0x2D = false
  close : r.is 0x5D = false
  escape : r.is 0x5C = false
  nul : r.is 0 = false

def Member.Ok : Member → Prop
  | .char r => InClass r
  | .range lo hi => InClass lo ∧ InClass hi ∧ lo.code ≤ hi.code

/-- A rune that means itself outside of a class. -/
structure Literal (r : Rune) : Prop where
  good : r.isBad = false
  star : r.is 0x2A = false
  any : r.is 0x3F = false
  opening : r.is 0x5B = false
  escape : r.is 0x5C = false

def Part.Ok : Part → Prop
  | .star | .any => True
  | .char r => Literal r
  | .cls negated members => members ≠ [] ∧ (∀ m ∈ members, m.Ok) ∧
    (negated = false → (members.flatMap Member.render).head?.any (·.is 0x5E) = false)

def Part.isClass : Part → Bool
  | .cls _ _ => true
  | _ => false

/-! ## As `GLOB` reads it -/

/-- The ranges `GLOB` tries for a member: the first character of a range by itself, too. -/
def Member.globRanges : Member → List (Nat × Nat)
  | .char r => [(r.code, r.code)]
  | .range lo hi => [(lo.code, lo.code), (lo.code, hi.code)]

def Part.piece : Part → Glob.Piece
  | .star => .star
  | .any => .any
  | .char r => .char r.code
  | .cls negated members => .set negated (members.flatMap Member.globRanges)

theorem readRanges_close {prior : Nat} {p : List Nat} : Glob.readRanges prior (0x5D :: p) = some ([], 1) := by
  cases p <;> simp [Glob.readRanges]

/-- A character of a class. -/
theorem readRanges_char {prior : Nat} {r : Rune} {p : List Nat} (hr : InClass r) (hp : p ≠ []) :
    Glob.readRanges prior (r.code :: p) =
      (Glob.readRanges r.code p).map fun (rs, n) => ((r.code, r.code) :: rs, n + 1) := by
  have hclose : r.code ≠ 0x5D := code_ne hr.good (by decide) hr.close
  have hdash : r.code ≠ 0x2D := code_ne hr.good (by decide) hr.dash
  cases p with
  | nil => exact absurd rfl hp
  | cons d p => rw [Glob.readRanges, if_neg hclose, if_neg fun h => hdash h.1]

/-- The end of a range whose first character was just read. -/
theorem readRanges_range {lo hi : Rune} {p : List Nat} (hlo : InClass lo) (hhi : InClass hi) :
    Glob.readRanges lo.code (0x2D :: hi.code :: p) =
      (Glob.readRanges 0 p).map fun (rs, n) => ((lo.code, hi.code) :: rs, n + 2) := by
  have hclose : hi.code ≠ 0x5D := code_ne hhi.good (by decide) hhi.close
  have hnul : lo.code ≠ 0 := code_ne hlo.good (by decide) hlo.nul
  rw [Glob.readRanges, if_neg (by decide), if_pos ⟨rfl, hclose, by omega⟩]

theorem readRanges_render {t : List Nat} : ∀ {members : List Member} {prior : Nat}, (∀ m ∈ members, m.Ok) →
    Glob.readRanges prior ((members.flatMap Member.render).map Rune.code ++ 0x5D :: t) =
      some (members.flatMap Member.globRanges, (members.flatMap Member.render).length + 1)
  | [], _, _ => readRanges_close
  | .char r :: members, prior, h => by
    obtain ⟨hr, hrest⟩ := List.forall_mem_cons.1 h
    simp only [List.flatMap_cons, Member.render, List.nil_append, List.map_cons, List.cons_append]
    rw [readRanges_char hr (by simp), readRanges_render hrest]
    rfl
  | .range lo hi :: members, prior, h => by
    obtain ⟨⟨hlo, hhi, -⟩, hrest⟩ := List.forall_mem_cons.1 h
    simp only [List.flatMap_cons, Member.render, List.cons_append, List.nil_append, List.map_cons]
    show Glob.readRanges prior (lo.code :: 0x2D :: hi.code :: _) = _
    rw [readRanges_char hlo (by simp), readRanges_range hlo hhi, readRanges_render hrest]
    rfl

/-- A class is not empty, and no `]` comes first. -/
theorem members_head {members : List Member} (hne : members ≠ []) (h : ∀ m ∈ members, m.Ok) :
    ∃ r rest, members.flatMap Member.render = r :: rest ∧ InClass r := by
  cases members with
  | nil => exact absurd rfl hne
  | cons m members =>
    have hm := h m List.mem_cons_self
    cases m with
    | char r => exact ⟨r, _, rfl, hm⟩
    | range lo hi => exact ⟨lo, _, rfl, hm.1⟩

theorem readFirst_render {t : List Nat} {members : List Member} (hne : members ≠ []) (h : ∀ m ∈ members, m.Ok) :
    Glob.readFirst ((members.flatMap Member.render).map Rune.code ++ 0x5D :: t) =
      some (members.flatMap Member.globRanges, (members.flatMap Member.render).length + 1) := by
  obtain ⟨r, rest, hrender, hr⟩ := members_head hne h
  have hclose : r.code ≠ 0x5D := code_ne hr.good (by decide) hr.close
  rw [← readRanges_render h, hrender]
  unfold Glob.readFirst
  split
  · next heq => exact absurd (List.cons.inj heq).1 hclose
  · rfl

theorem readSet_negated {t : List Nat} {members : List Member} (hne : members ≠ []) (h : ∀ m ∈ members, m.Ok) :
    Glob.readSet (0x5E :: ((members.flatMap Member.render).map Rune.code ++ 0x5D :: t)) =
      (.set true (members.flatMap Member.globRanges), (members.flatMap Member.render).length + 2) := by
  rw [Glob.readSet, readFirst_render hne h]
  rfl

theorem readSet_plain {t : List Nat} {members : List Member} (hne : members ≠ []) (h : ∀ m ∈ members, m.Ok)
    (hcaret : (members.flatMap Member.render).head?.any (·.is 0x5E) = false) :
    Glob.readSet ((members.flatMap Member.render).map Rune.code ++ 0x5D :: t) =
      (.set false (members.flatMap Member.globRanges), (members.flatMap Member.render).length + 1) := by
  have hfirst := readFirst_render (t := t) hne h
  obtain ⟨r, rest, hrender, hr⟩ := members_head hne h
  rw [hrender] at hcaret hfirst ⊢
  have hne : r.code ≠ 0x5E := code_ne hr.good (by decide) hcaret
  unfold Glob.readSet
  split
  · next heq => exact absurd (List.cons.inj heq).1 hne
  · rw [hfirst]
    rfl

theorem piecesFrom_skip {l t : List Nat} : Glob.piecesFrom l.length (l ++ t) = Glob.piecesFrom 0 t := by
  induction l with
  | nil => rfl
  | cons c l ih => exact ih

/-- **`GLOB` reads a part back.** -/
theorem piecesFrom_part {part : Part} {t : List Nat} (h : part.Ok) :
    Glob.piecesFrom 0 (part.render.map Rune.code ++ t) = part.piece :: Glob.piecesFrom 0 t := by
  cases part with
  | star => rfl
  | any => rfl
  | char r =>
    have hstar : r.code ≠ 0x2A := code_ne h.good (by decide) h.star
    have hany : r.code ≠ 0x3F := code_ne h.good (by decide) h.any
    have hopening : r.code ≠ 0x5B := code_ne h.good (by decide) h.opening
    show Glob.piecesFrom 0 (r.code :: t) = _
    rw [Glob.piecesFrom, if_neg hstar, if_neg hany, if_neg hopening]
    rfl
  | cls negated members =>
    obtain ⟨hne, hmembers, hcaret⟩ := h
    cases negated with
    | true =>
      have htext : (Part.cls true members).render.map Rune.code ++ t =
          0x5B :: 0x5E :: ((members.flatMap Member.render).map Rune.code ++ 0x5D :: t) := by
        simp [Part.render, code_ascii]
      rw [htext, Glob.piecesFrom, if_neg (by decide), if_neg (by decide), if_pos rfl, readSet_negated hne hmembers]
      refine congrArg _ ?_
      have := @piecesFrom_skip (0x5E :: ((members.flatMap Member.render).map Rune.code ++ [0x5D])) t
      simpa using this
    | false =>
      have htext : (Part.cls false members).render.map Rune.code ++ t =
          0x5B :: ((members.flatMap Member.render).map Rune.code ++ 0x5D :: t) := by
        simp [Part.render, code_ascii]
      rw [htext, Glob.piecesFrom, if_neg (by decide), if_neg (by decide), if_pos rfl,
        readSet_plain hne hmembers (hcaret rfl)]
      refine congrArg _ ?_
      have := @piecesFrom_skip ((members.flatMap Member.render).map Rune.code ++ [0x5D]) t
      simpa using this

theorem piecesFrom_render {parts : List Part} (h : ∀ part ∈ parts, part.Ok) :
    Glob.piecesFrom 0 ((parts.flatMap Part.render).map Rune.code) = parts.map Part.piece := by
  induction parts with
  | nil => rfl
  | cons part parts ih =>
    obtain ⟨hpart, hrest⟩ := List.forall_mem_cons.1 h
    rw [List.flatMap_cons, List.map_append, piecesFrom_part hpart, ih hrest]
    rfl

/-! ## As `path.Match` reads it -/

def Member.goRange : Member → Nat × Nat
  | .char r => (r.code, r.code)
  | .range lo hi => (lo.code, hi.code)

def Part.term : Part → PathMatch.Term
  | .star => .star
  | .any => .any
  | .char r => .char r
  | .cls negated members => .cls negated (members.map Member.goRange)

/-- A character of a class that something follows. -/
theorem getEsc_char {r : Rune} {p : List Rune} (hr : InClass r) (hp : p ≠ []) :
    PathMatch.getEsc (r :: p) = some (r.code, p) := by
  cases p with
  | nil => exact absurd rfl hp
  | cons d p => simp [PathMatch.getEsc, hr.dash, hr.close, hr.escape, hr.good]

/-- What follows a member is no `-`: another member, or the `]`. -/
theorem head_not_dash {members : List Member} {t : List Rune} (h : ∀ m ∈ members, m.Ok) :
    (members.flatMap Member.render ++ ascii 0x5D :: t).head?.any (·.is 0x2D) = false := by
  by_cases hne : members = []
  · subst hne
    rfl
  · obtain ⟨r, rest, hrender, hr⟩ := members_head hne h
    rw [hrender]
    exact hr.dash

theorem ranges_render {t : List Rune} : ∀ {members : List Member} {fuel : Nat} {seen : Bool}, members.length < fuel →
    (∀ m ∈ members, m.Ok) → (seen = true ∨ members ≠ []) →
      PathMatch.ranges fuel seen (members.flatMap Member.render ++ ascii 0x5D :: t) =
        some (members.map Member.goRange, t)
  | _, 0, _, hfuel, _, _ => absurd hfuel (Nat.not_lt_zero _)
  | [], fuel + 1, seen, _, _, hseen => by
    have : seen = true := hseen.resolve_right fun h => h rfl
    subst this
    rfl
  | m :: members, fuel + 1, seen, hfuel, h, _ => by
    obtain ⟨hm, hrest⟩ := List.forall_mem_cons.1 h
    have ih := @ranges_render t members fuel true (Nat.lt_of_succ_lt_succ hfuel) hrest (.inl rfl)
    have hdash := @head_not_dash members t hrest
    have hne : members.flatMap Member.render ++ ascii 0x5D :: t ≠ [] := by simp
    cases m with
    | char r =>
      show PathMatch.ranges (fuel + 1) seen (r :: (members.flatMap Member.render ++ ascii 0x5D :: t)) = _
      rw [PathMatch.ranges, if_neg (by simp [hm.close]), getEsc_char hm hne]
      simp only [Option.bind_eq_bind, Option.bind_some, hdash, Bool.false_eq_true, if_false, ih]
      rfl
    | range lo hi =>
      obtain ⟨hlo, hhi, -⟩ := hm
      show PathMatch.ranges (fuel + 1) seen
        (lo :: ascii 0x2D :: hi :: (members.flatMap Member.render ++ ascii 0x5D :: t)) = _
      rw [PathMatch.ranges, if_neg (by simp [hlo.close]), getEsc_char hlo (by simp)]
      simp only [Option.bind_eq_bind, Option.bind_some, List.head?_cons, Option.any_some, List.tail_cons,
        getEsc_char hhi hne, ih]
      rfl

theorem members_length {members : List Member} : members.length ≤ (members.flatMap Member.render).length := by
  induction members with
  | nil => exact Nat.le_refl 0
  | cons m members ih =>
    rw [List.flatMap_cons, List.length_append, List.length_cons]
    cases m <;> simp only [Member.render, List.length_cons, List.length_nil] <;> omega

theorem readClass_render {t : List Rune} {negated : Bool} {members : List Member}
    (h : (Part.cls negated members).Ok) :
    PathMatch.readClass ((if negated then [ascii 0x5E] else []) ++ members.flatMap Member.render ++ [ascii 0x5D] ++ t) =
      some (.cls negated (members.map Member.goRange), t) := by
  obtain ⟨hne, hmembers, hcaret⟩ := h
  have hlen := @members_length members
  cases negated with
  | true =>
    show PathMatch.readClass (ascii 0x5E :: (members.flatMap Member.render ++ [ascii 0x5D] ++ t)) = _
    rw [PathMatch.readClass, if_pos (by rfl), List.tail_cons, List.append_assoc, List.singleton_append,
      ranges_render _ hmembers (.inr hne)]
    · rfl
    · simp only [List.length_cons, List.length_append]
      omega
  | false =>
    have hhead : (members.flatMap Member.render ++ ascii 0x5D :: t).head?.any (·.is 0x5E) = false := by
      obtain ⟨r, rest, hrender, -⟩ := members_head hne hmembers
      have := hcaret rfl
      rw [hrender] at this ⊢
      exact this
    simp only [Bool.false_eq_true, if_false, List.nil_append, List.append_assoc, List.singleton_append]
    rw [PathMatch.readClass, if_neg (by rw [hhead]; exact Bool.false_ne_true), ranges_render _ hmembers (.inr hne)]
    · rfl
    · simp only [List.length_append, List.length_cons]
      omega

/-- **`path.Match` reads a part back.** -/
theorem terms_part {part : Part} {t : List Rune} {fuel : Nat} (h : part.Ok) :
    PathMatch.terms (fuel + 1) (part.render ++ t) = (PathMatch.terms fuel t).map (part.term :: ·) := by
  cases part with
  | star => rfl
  | any => rfl
  | char r =>
    show PathMatch.terms (fuel + 1) (r :: t) = _
    rw [PathMatch.terms.eq_def]
    simp only [h.star, h.any, h.opening, h.escape, Bool.false_eq_true, if_false, Part.term]
  | cls negated members =>
    show PathMatch.terms (fuel + 1) (ascii 0x5B ::
      ((if negated then [ascii 0x5E] else []) ++ members.flatMap Member.render ++ [ascii 0x5D] ++ t)) = _
    have hclass : ∀ p, PathMatch.terms (fuel + 1) (ascii 0x5B :: p) =
        (PathMatch.readClass p).bind fun x => (PathMatch.terms fuel x.2).map (x.1 :: ·) := fun p => by
      rw [PathMatch.terms.eq_def]
      rfl
    rw [hclass, readClass_render h]
    rfl

theorem terms_render {parts : List Part} (h : ∀ part ∈ parts, part.Ok) {fuel : Nat} (hfuel : parts.length ≤ fuel) :
    PathMatch.terms fuel (parts.flatMap Part.render) = some (parts.map Part.term) := by
  induction parts generalizing fuel with
  | nil => cases fuel <;> rfl
  | cons part parts ih =>
    obtain ⟨hpart, hrest⟩ := List.forall_mem_cons.1 h
    cases fuel with
    | zero => simp at hfuel
    | succ fuel =>
      rw [List.flatMap_cons, terms_part hpart, ih hrest (Nat.le_of_succ_le_succ hfuel)]
      rfl

theorem parts_length {parts : List Part} : parts.length ≤ (parts.flatMap Part.render).length := by
  induction parts with
  | nil => exact Nat.le_refl 0
  | cons part parts ih =>
    rw [List.flatMap_cons, List.length_append, List.length_cons]
    have hpart : 1 ≤ part.render.length := by
      cases part <;> simp [Part.render]
    omega

/-! ## Matching -/

/-- A member accepts the same characters either way. -/
theorem member_accepts {m : Member} {c : Nat} (hm : m.Ok) :
    (m.globRanges.any fun x => x.1 ≤ c && c ≤ x.2) = (decide (m.goRange.1 ≤ c) && decide (c ≤ m.goRange.2)) := by
  rw [Bool.eq_iff_iff, Bool.and_eq_true, decide_eq_true_eq, decide_eq_true_eq]
  cases m with
  | char r => simp [Member.globRanges, Member.goRange]
  | range lo hi =>
    obtain ⟨-, -, hle⟩ := hm
    simp only [Member.globRanges, Member.goRange, List.any_cons, List.any_nil, Bool.or_false, Bool.or_eq_true,
      Bool.and_eq_true, decide_eq_true_eq]
    omega

theorem members_accept {members : List Member} {c : Nat} (h : ∀ m ∈ members, m.Ok) :
    ((members.flatMap Member.globRanges).any fun x => x.1 ≤ c && c ≤ x.2) =
      ((members.map Member.goRange).any fun x => x.1 ≤ c && c ≤ x.2) := by
  induction members with
  | nil => rfl
  | cons m members ih =>
    obtain ⟨hm, hrest⟩ := List.forall_mem_cons.1 h
    rw [List.flatMap_cons, List.any_append, List.map_cons, List.any_cons, ih hrest, member_accepts hm]

/-- The part does not mistake the rune: SQLite takes U+FFFE and U+FFFF for U+FFFD. -/
def Part.Tells (r : Rune) : Part → Prop
  | .star | .any => True
  | .char r' => r.readCode = r.code ∨ r'.code < 0xFFFD ∨ 0xFFFF < r'.code
  | .cls _ _ => r.readCode = r.code

theorem Part.tells_of_readCode {r : Rune} (h : r.readCode = r.code) : ∀ part : Part, part.Tells r
  | .star | .any => trivial
  | .char _ => .inl h
  | .cls _ _ => h

/-- A part but `*` accepts the same runes either way. -/
theorem part_accepts {part : Part} {r : Rune} (h : part.Ok) (hr : r.isBad = false) (hslash : r.is 0x2F = false)
    (htells : part.Tells r) : part.piece.accepts r.readCode = part.term.accepts r := by
  cases part with
  | star => rfl
  | any => simp [Part.piece, Part.term, Glob.Piece.accepts, PathMatch.Term.accepts, hslash]
  | char r' =>
    rw [Bool.eq_iff_iff]
    show (r.readCode == r'.code) = true ↔ (r == r') = true
    rw [beq_iff_eq, beq_iff_eq]
    constructor
    · intro heq
      obtain hread | hother := htells
      · exact code_inj hr h.good (hread.symm.trans heq)
      · rw [Rune.readCode] at heq
        split at heq
        · omega
        · exact code_inj hr h.good heq
    · rintro rfl
      obtain hread | hother := htells
      · exact hread
      · rw [Rune.readCode, if_neg (by omega)]
  | cls negated members =>
    have hread : r.readCode = r.code := htells
    show (_ != negated) = (_ != negated)
    rw [members_accept h.2.1, hread]

theorem matchPieces_cons {part : Part} {parts : List Part} {c : Nat} {s : List Nat} (h : part ≠ .star) :
    Glob.matchPieces ((part :: parts).map Part.piece) (c :: s) =
      (part.piece.accepts c && Glob.matchPieces (parts.map Part.piece) s) := by
  cases part with
  | star => exact absurd rfl h
  | any | char | cls => rfl

theorem matchRunes_cons {part : Part} {parts : List Part} {r : Rune} {s : List Rune} (h : part ≠ .star) :
    PathMatch.matchRunes ((part :: parts).map Part.term) (r :: s) =
      (part.term.accepts r && PathMatch.matchRunes (parts.map Part.term) s) := by
  cases part with
  | star => exact absurd rfl h
  | any | char | cls => rfl

/-- **`GLOB` finds what there is to find** in a name without a `/`. -/
theorem matchPieces_eq {parts : List Part} {s : List Rune} (h : ∀ part ∈ parts, part.Ok)
    (hname : ∀ r ∈ s, r.isBad = false ∧ r.is 0x2F = false) (htells : ∀ part ∈ parts, ∀ r ∈ s, part.Tells r) :
    Glob.matchPieces (parts.map Part.piece) (s.map Rune.readCode) =
      PathMatch.matchRunes (parts.map Part.term) s := by
  induction parts generalizing s with
  | nil => cases s <;> rfl
  | cons part parts ih =>
    obtain ⟨hpart, hrest⟩ := List.forall_mem_cons.1 h
    obtain ⟨htells, htellsRest⟩ := List.forall_mem_cons.1 htells
    by_cases hstar : part = .star
    · subst hstar
      show (s.map Rune.readCode).tails.any (Glob.matchPieces (parts.map Part.piece)) =
        s.tails.any (PathMatch.matchRunes (parts.map Part.term))
      rw [List.map_tails, List.any_map, Bool.eq_iff_iff, List.any_eq_true, List.any_eq_true]
      refine exists_congr fun t => and_congr_right fun ht => ?_
      have hsuffix := ((List.mem_tails _ _).1 ht).subset
      rw [Function.comp_apply, ih hrest (fun r hr => hname r (hsuffix hr)) fun part hpart r hr =>
        htellsRest part hpart r (hsuffix hr)]
    · cases s with
      | nil =>
        cases part with
        | star => exact absurd rfl hstar
        | any | char | cls => rfl
      | cons r s =>
        obtain ⟨hr, hname⟩ := List.forall_mem_cons.1 hname
        rw [@List.map_cons _ _ Rune.readCode, matchPieces_cons hstar, matchRunes_cons hstar,
          part_accepts hpart hr.1 hr.2 (htells r List.mem_cons_self),
          ih hrest hname fun part hpart r hr => htellsRest part hpart r (List.mem_cons_of_mem _ hr)]

/-- A pattern without a class matches its own text. -/
theorem matchPieces_self {parts : List Part} (h : ∀ part ∈ parts, part.Ok)
    (hclass : ∀ part ∈ parts, part.isClass = false) :
    Glob.matchPieces (parts.map Part.piece) ((parts.flatMap Part.render).map Rune.code) = true := by
  induction parts with
  | nil => rfl
  | cons part parts ih =>
    obtain ⟨hpart, hrest⟩ := List.forall_mem_cons.1 h
    obtain ⟨hnone, hclass⟩ := List.forall_mem_cons.1 hclass
    have ih := ih hrest hclass
    cases part with
    | star =>
      show ((ascii 0x2A :: parts.flatMap Part.render).map Rune.code).tails.any
        (Glob.matchPieces (parts.map Part.piece)) = true
      refine List.any_eq_true.2 ⟨_, (List.mem_tails _ _).2 ?_, ih⟩
      exact List.suffix_cons _ _
    | any =>
      refine (@matchPieces_cons .any parts 0x3F ((parts.flatMap Part.render).map Rune.code) (by simp)).trans ?_
      rw [ih]
      rfl
    | char r =>
      refine (@matchPieces_cons (.char r) parts r.code ((parts.flatMap Part.render).map Rune.code) (by simp)).trans ?_
      rw [ih, Bool.and_true]
      exact beq_self_eq_true r.code
    | cls negated members => cases hnone

theorem term_ok {part : Part} (h : part.Ok) : part.term = .star ∨ part.term.Ok := by
  cases part with
  | star => exact .inl rfl
  | any | cls => exact .inr trivial
  | char r => exact .inr h.good

/-- **The matchers agree** on a pattern both read alike and a well-formed name
without a `/` or a NUL, if the pattern is steady or the name is of ASCII. -/
theorem pathMatch_eq_glob {p s : Bytes} {parts : List Part} (hparts : ∀ part ∈ parts, part.Ok)
    (htext : runes p = parts.flatMap Part.render) (hp : Readable p) (hlength : p.length ≤ maxLikePatternLength)
    (hvalid : validUtf8 s = true) (hnul : 0 ∉ s) (hslash : 0x2F ∉ s)
    (htells : ∀ part ∈ parts, ∀ r ∈ runes s, part.Tells r)
    (hsteady : PathMatch.Steady (parts.map Part.term) ∨ ∀ b ∈ s, b < 0x80) :
    pathMatch p s = glob p s := by
  have hname : ∀ r ∈ runes s, r.isBad = false ∧ r.is 0x2F = false := fun r hr =>
    ⟨good_of_valid hvalid r hr, (not_mem_iff_runes (by decide)).1 hslash r hr⟩
  have hterms : ∀ t ∈ parts.map Part.term, t = .star ∨ t.Ok := by
    intro t ht
    obtain ⟨part, hpart, rfl⟩ := List.mem_map.1 ht
    exact term_ok (hparts part hpart)
  have hmatch := PathMatch.matchChunks_eq hterms hname (hsteady.imp_right fun h => code_of_ascii h)
  rw [flatMap_bytes_runes] at hmatch
  rw [pathMatch, glob_of_le hlength, htext, terms_render hparts parts_length, hp.codePoints, htext,
    piecesFrom_render hparts, codePoints_eq hvalid hnul, matchPieces_eq hparts hname htells, Option.map_some, hmatch]

/-! ## Plain patterns -/

/-- The rune is well-formed and none of `[`, `\`, `/`, NUL and U+FFFD to U+FFFF. -/
def isPlain (r : Rune) : Bool :=
  !r.isBad && !r.is 0x5B && !r.is 0x5C && !r.is 0x2F && !r.is 0 && (r.code < 0xFFFD || 0xFFFF < r.code)

/-- The part that such a rune is by itself. -/
def plainPart (r : Rune) : Part := if r.is 0x2A then .star else if r.is 0x3F then .any else .char r

theorem render_plainPart {r : Rune} : (plainPart r).render = [r] := by
  unfold plainPart
  by_cases hstar : r.is 0x2A = true
  · rw [if_pos hstar, eq_ascii hstar]
    rfl
  · rw [if_neg hstar]
    by_cases hany : r.is 0x3F = true
    · rw [if_pos hany, eq_ascii hany]
      rfl
    · rw [if_neg hany]
      rfl

theorem term_plainPart_star {r : Rune} (h : (plainPart r).term = .star) : r = ascii 0x2A := by
  unfold plainPart at h
  by_cases hstar : r.is 0x2A = true
  · exact eq_ascii hstar
  · rw [if_neg hstar] at h
    split at h <;> cases h

theorem term_plainPart_any {r : Rune} (h : (plainPart r).term = .any) : r = ascii 0x3F := by
  unfold plainPart at h
  by_cases hstar : r.is 0x2A = true
  · rw [if_pos hstar] at h
    cases h
  · rw [if_neg hstar] at h
    by_cases hany : r.is 0x3F = true
    · exact eq_ascii hany
    · rw [if_neg hany] at h
      cases h

/-- What both matchers need of the part of a plain rune. -/
structure Part.Plain (part : Part) : Prop where
  ok : part.Ok
  tells : ∀ r, part.Tells r
  noClass : part.isClass = false
  term : part.term = .star ∨ part.term.NoSlash ∧ part.term.plain = true

theorem plain_plainPart {r : Rune} (h : isPlain r = true) : (plainPart r).Plain := by
  simp only [isPlain, Bool.and_eq_true, Bool.or_eq_true, Bool.not_eq_true', decide_eq_true_eq] at h
  obtain ⟨⟨⟨⟨⟨hgood, hopening⟩, hescape⟩, hslash⟩, -⟩, hcode⟩ := h
  unfold plainPart
  by_cases hstar : r.is 0x2A = true
  · rw [if_pos hstar]
    exact ⟨trivial, fun _ => trivial, rfl, .inl rfl⟩
  · rw [if_neg hstar]
    by_cases hany : r.is 0x3F = true
    · rw [if_pos hany]
      exact ⟨trivial, fun _ => trivial, rfl, .inr ⟨trivial, rfl⟩⟩
    · rw [if_neg hany]
      exact ⟨⟨hgood, Bool.eq_false_iff.2 hstar, Bool.eq_false_iff.2 hany, hopening, hescape⟩, fun _ => .inr hcode, rfl,
        .inr ⟨⟨hgood, hslash⟩, rfl⟩⟩

/-- The parts of a plain pattern. -/
theorem plain_parts {rs : List Rune} (h : rs.all isPlain = true) :
    (∀ part ∈ rs.map plainPart, part.Plain) ∧ rs = (rs.map plainPart).flatMap Part.render := by
  rw [List.all_eq_true] at h
  refine ⟨fun part hpart => ?_, ?_⟩
  · obtain ⟨r, hr, rfl⟩ := List.mem_map.1 hpart
    exact plain_plainPart (h r hr)
  · rw [List.flatMap_map]
    simp only [render_plainPart]
    exact (List.flatMap_singleton' rs).symm

/-- The pattern, in lower case, has only plain characters. -/
def Plain (p : Bytes) : Prop := (runes (lower p)).all isPlain = true

instance (p : Bytes) : Decidable (Plain p) := inferInstanceAs (Decidable (_ = true))

variable {p s : Bytes}

theorem plain_readable (h : Plain p) : Readable (lower p) := by
  have hplain : ∀ r ∈ runes (lower p), r.isBad = false ∧ r.is 0 = false ∧ (r.code < 0xFFFD ∨ 0xFFFF < r.code) := by
    intro r hr
    have := List.all_eq_true.1 h r hr
    simp only [isPlain, Bool.and_eq_true, Bool.or_eq_true, Bool.not_eq_true', decide_eq_true_eq] at this
    exact ⟨this.1.1.1.1.1, this.1.2, this.2⟩
  refine ⟨List.all_eq_true.2 fun r hr => ?_, (not_mem_iff_runes (by decide)).2 fun r hr => (hplain r hr).2.1,
    fun r hr => ?_⟩
  · rw [(hplain r hr).1]
    rfl
  · have := (hplain r hr).2.2
    omega

theorem plain_noSlash (h : Plain p) : 0x2F ∉ lower p := by
  refine (not_mem_iff_runes (by decide)).2 fun r hr => ?_
  have := List.all_eq_true.1 h r hr
  simp only [isPlain, Bool.and_eq_true, Bool.not_eq_true'] at this
  exact this.1.1.2

/-- No `*` has two `?` after it. -/
theorem steady_plain (h : Plain p) (hno : ¬ str "*??" <:+: p) :
    PathMatch.Steady (((runes (lower p)).map plainPart).map Part.term) := by
  refine PathMatch.steady_of_not_infix (fun t ht => ?_) fun hinfix => hno ?_
  · obtain ⟨part, hpart, rfl⟩ := List.mem_map.1 ht
    exact ((plain_parts h).1 part hpart).term.imp_right And.right
  · rw [List.map_map, List.infix_map_iff] at hinfix
    obtain ⟨rs, hruns, hterms⟩ := hinfix
    have hrs : rs = [ascii 0x2A, ascii 0x3F, ascii 0x3F] := by
      rcases rs with _ | ⟨r₁, _ | ⟨r₂, _ | ⟨r₃, rs⟩⟩⟩
      · simp at hterms
      · simp at hterms
      · simp at hterms
      · simp only [List.map_cons, List.cons.injEq, List.nil_eq, List.map_eq_nil_iff] at hterms
        obtain ⟨h₁, h₂, h₃, rfl⟩ := hterms
        rw [term_plainPart_star h₁.symm, term_plainPart_any h₂.symm, term_plainPart_any h₃.symm]
    have hlower : [0x2A, 0x3F, 0x3F] <:+: lower p := by
      have := hruns.flatMap Rune.bytes
      rw [flatMap_bytes_runes, hrs] at this
      exact this
    obtain ⟨bs, hbytes, hlowered⟩ := List.infix_map_iff.1 hlower
    rcases bs with _ | ⟨b₁, _ | ⟨b₂, _ | ⟨b₃, bs⟩⟩⟩
    · simp at hlowered
    · simp at hlowered
    · simp at hlowered
    · simp only [List.map_cons, List.cons.injEq, List.nil_eq, List.map_eq_nil_iff] at hlowered
      obtain ⟨h₁, h₂, h₃, rfl⟩ := hlowered
      rw [(lowerByte_eq_iff (by decide)).1 h₁.symm, (lowerByte_eq_iff (by decide)).1 h₂.symm,
        (lowerByte_eq_iff (by decide)).1 h₃.symm] at hbytes
      exact hbytes

/-- A plain pattern and a name without a `/`. -/
theorem plain_pathMatch (h : Plain p) (hlength : p.length ≤ maxLikePatternLength) (hvalid : validUtf8 s = true)
    (hnul : 0 ∉ s) (hslash : 0x2F ∉ lower s) (hsteady : ¬ str "*??" <:+: p ∨ ∀ b ∈ s, b < 0x80) :
    pathMatch (lower p) (lower s) = glob (lower p) (lower s) := by
  obtain ⟨hparts, htext⟩ := plain_parts h
  exact pathMatch_eq_glob (fun part hpart => (hparts part hpart).ok) htext (plain_readable h)
    (by rwa [length_lower]) (validUtf8_lower hvalid) (fun hmem => hnul ((mem_lower_iff (by decide)).1 hmem)) hslash
    (fun part hpart r _ => (hparts part hpart).tells r) (hsteady.imp (steady_plain h) ascii_lower)

/-- A name that a plain pattern matches has no `/`. -/
theorem noSlash_of_pathMatch (h : Plain p) (hmatch : pathMatch (lower p) (lower s) = some true) :
    0x2F ∉ lower s := by
  obtain ⟨hparts, htext⟩ := plain_parts h
  rw [pathMatch, htext, terms_render (fun part hpart => (hparts part hpart).ok) parts_length, Option.map_some,
    Option.some.injEq] at hmatch
  refine PathMatch.noSlash_of_matchChunks (fun c hc t ht => ?_) hmatch
  obtain ⟨hnotStar, hmem⟩ := PathMatch.mem_of_scanChunks c hc t ht
  obtain ⟨part, hpart, rfl⟩ := List.mem_map.1 hmem
  exact ((hparts part hpart).term.resolve_left hnotStar).1

/-- A pattern without a class matches its own text. -/
theorem glob_self {parts : List Part} (hparts : ∀ part ∈ parts, part.Ok) (htext : runes p = parts.flatMap Part.render)
    (hp : Readable p) (hlength : p.length ≤ maxLikePatternLength) (hclass : ∀ part ∈ parts, part.isClass = false) :
    glob p p = some true := by
  rw [glob_of_le hlength, hp.codePoints, htext, piecesFrom_render hparts]
  exact congrArg some (matchPieces_self hparts hclass)

theorem plain_glob_self (h : Plain p) (hlength : p.length ≤ maxLikePatternLength) :
    glob (lower p) (lower p) = some true := by
  obtain ⟨hparts, htext⟩ := plain_parts h
  exact glob_self (fun part hpart => (hparts part hpart).ok) htext (plain_readable h) (by rwa [length_lower])
    fun part hpart => (hparts part hpart).noClass

end CommonPattern

end Lib
