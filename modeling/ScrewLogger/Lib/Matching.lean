/-
`path.Match` on a well-formed name.

`matchRunes` is what a pattern says: a name matches if it can be cut somehow so
that each term has its own. `path.Match` looks for a place chunk by chunk, byte
by byte, and never goes back. `matchChunks_eq`: on a name without a `/` it finds
what there is to find, if the name is of ASCII or the pattern is steady, that is,
after a `*` it gains nothing from taking a character apart.
-/
import Mathlib.Data.List.Infix
import ScrewLogger.Lib.PathMatch

namespace Lib

namespace PathMatch

/-- The name can be cut into what the terms match. -/
def matchRunes : List Term → List Rune → Bool
  | [], s => s.isEmpty
  | .star :: p, s => s.tails.any (matchRunes p)
  | t :: p, s =>
    match s with
    | [] => false
    | r :: s => t.accepts r && matchRunes p s

/-- What a chunk leaves of a name. -/
def chunkRunes : List Term → List Rune → Option (List Rune)
  | [], s => some s
  | _ :: _, [] => none
  | t :: ts, r :: s => if t.accepts r then chunkRunes ts s else none

/-- The term matches a byte in the middle of a character. -/
def Term.takesByte : Term → Bool
  | .star | .any => true
  | .char _ => false
  | .cls negated ranges => (ranges.any fun (lo, hi) => lo ≤ 0xFFFD && 0xFFFD ≤ hi) != negated

/-- The term matches whatever is not of ASCII: `?`, or none of some characters of ASCII. -/
def Term.takesAll : Term → Bool
  | .any => true
  | .cls negated ranges => negated && ranges.all fun (_, hi) => hi < 0x80
  | _ => false

/-- After a `*`, the chunk fits no place in the middle of a character, or the
place where that begins, too. -/
def Chunk.steady (c : Chunk) : Bool :=
  match c.terms with
  | [] => true
  | [t] => !t.takesByte || t.takesAll
  | t :: t' :: _ => !t.takesByte || t.takesAll && !t'.takesByte

def Steady (p : List Term) : Prop := ∀ c ∈ scanChunks p, c.star = true → c.steady = true

instance (p : List Term) : Decidable (Steady p) := inferInstanceAs (Decidable (∀ c ∈ scanChunks p, _))

/-- A term of a chunk; its character is well formed. -/
def Term.Ok : Term → Prop
  | .star => False
  | .char r => r.isBad = false
  | .any | .cls _ _ => True

/-! ## One term -/

variable {t : Term} {ts : List Term} {r : Rune} {rs : List Rune} {b : UInt8} {s x : Bytes}

theorem readRune_bytes (hr : r.isBad = false) (h : r.bytes ++ x = b :: s) : readRune b s = r := by
  have hread := runes_bytes_append hr x
  rw [h, runes_cons] at hread
  exact (List.cons.inj hread).1

/-- A character's bytes stand at its front only. -/
theorem prefix_iff {r' : Rune} (hr : r.isBad = false) (hr' : r'.isBad = false) :
    r'.bytes.isPrefixOf (r.bytes ++ x) = (r == r') := by
  rw [Bool.eq_iff_iff, List.isPrefixOf_iff_prefix, beq_iff_eq]
  constructor
  · rintro ⟨y, hy⟩
    have hread := runes_bytes_append hr' y
    rw [hy, runes_bytes_append hr] at hread
    exact (List.cons.inj hread).1
  · rintro rfl
    exact List.prefix_append _ _

/-- **A term at a character.** -/
theorem read_rune (ht : t.Ok) (hr : r.isBad = false) :
    t.read (r.bytes ++ x) = if t.accepts r then some x else none := by
  obtain ⟨b, s, hcons⟩ := List.exists_cons_of_ne_nil (List.append_ne_nil_of_left_ne_nil r.bytes_ne_nil x)
  have hread := readRune_bytes hr hcons
  have hdrop : (r.bytes ++ x).drop r.bytes.length = x := List.drop_left
  cases t with
  | star => exact ht.elim
  | char r' =>
    rw [Term.read, prefix_iff hr ht, Term.accepts]
    by_cases heq : r = r'
    · subst heq
      rw [if_pos (beq_self_eq_true r), if_pos (beq_self_eq_true r), hdrop]
    · rw [if_neg (by simpa using heq), if_neg (by simpa using heq)]
  | any =>
    rw [hcons, Term.read, hread, ← hcons, hdrop]
    exact fun r' h => by cases h
  | cls negated ranges =>
    rw [hcons, Term.read, hread, ← hcons, hdrop]
    exact fun r' h => by cases h

theorem read_nil (ht : t.Ok) : t.read [] = none := by
  cases t with
  | star => exact ht.elim
  | char r =>
    have hne : ¬ r.bytes.isPrefixOf [] = true := by
      rw [List.isPrefixOf_iff_prefix, List.prefix_nil]
      exact r.bytes_ne_nil
    rw [Term.read, if_neg hne]
  | any | cls => rfl

theorem readRune_cont (hb : isCont b = true) : (readRune b s).bytes = [b] ∧ (readRune b s).code = 0xFFFD ∧
    (readRune b s).is 0x2F = false := by
  have hbounds := cont_bounds hb
  have hlead : 0x80 ≤ b := UInt8.le_iff_toNat_le.2 hbounds.1
  have hread : readRune b s = .bad b hlead := by
    have hascii : ¬ b < 0x80 := UInt8.not_lt.2 hlead
    have htwo : ∀ c, ¬ isTwo b c = true := fun c h => by have := two_bounds h; omega
    have hthree : ∀ c d, ¬ isThree b c d = true := fun c d h => by have := three_bounds h; omega
    have hfour : ∀ c d e, ¬ isFour b c d e = true := fun c d e h => by have := four_bounds h; omega
    rcases s with _ | ⟨c, _ | ⟨d, _ | ⟨e, s⟩⟩⟩ <;> simp [readRune, hascii, htwo, hthree, hfour]
  rw [hread]
  exact ⟨rfl, rfl, rfl⟩

/-- **A term in the middle of a character.** -/
theorem read_cont (ht : t.Ok) (hb : isCont b = true) : t.read (b :: s) = if t.takesByte then some s else none := by
  obtain ⟨hbytes, hcode, hslash⟩ := @readRune_cont b s hb
  cases t with
  | star => exact ht.elim
  | char r =>
    have hne : ¬ r.bytes.isPrefixOf (b :: s) = true := by
      rw [List.isPrefixOf_iff_prefix]
      rintro ⟨y, hy⟩
      have hstarts := starts_bytes ht y b (by rw [hy]; rfl)
      rw [hb] at hstarts
      cases hstarts
    rw [Term.read, if_neg hne]
    rfl
  | any =>
    rw [Term.read, Term.accepts, hslash, hbytes]
    · rfl
    · exact fun r h => by cases h
  | cls negated ranges =>
    rw [Term.read, Term.accepts, hcode, hbytes]
    · rfl
    · exact fun r h => by cases h

/-! ## A chunk -/

/-- **A chunk at a character.** -/
theorem matchChunk_runes (hts : ∀ t ∈ ts, t.Ok) (hgood : ∀ r ∈ rs, r.isBad = false) :
    matchChunk ts (rs.flatMap Rune.bytes) = (chunkRunes ts rs).map (List.flatMap Rune.bytes) := by
  induction ts generalizing rs with
  | nil => rfl
  | cons t ts ih =>
    obtain ⟨ht, hts⟩ := List.forall_mem_cons.1 hts
    cases rs with
    | nil =>
      rw [matchChunk, List.flatMap_nil, read_nil ht]
      rfl
    | cons r rs =>
      obtain ⟨hr, hgood⟩ := List.forall_mem_cons.1 hgood
      rw [matchChunk, List.flatMap_cons, read_rune ht hr, chunkRunes]
      by_cases haccepts : t.accepts r = true
      · rw [if_pos haccepts, if_pos haccepts]
        exact ih hts hgood
      · rw [if_neg haccepts, if_neg haccepts]
        rfl

/-- A chunk takes as many runes as it has terms. -/
theorem chunkRunes_eq_some {rs' : List Rune} (h : chunkRunes ts rs = some rs') :
    rs' = rs.drop ts.length ∧ ts.length ≤ rs.length := by
  induction ts generalizing rs with
  | nil =>
    cases h
    exact ⟨rfl, Nat.zero_le _⟩
  | cons t ts ih =>
    cases rs with
    | nil => cases h
    | cons r rs =>
      rw [chunkRunes] at h
      split at h
      · obtain ⟨hdrop, hle⟩ := ih h
        exact ⟨hdrop, Nat.succ_le_succ hle⟩
      · cases h

theorem matchRunes_append {p : List Term} (hts : ∀ t ∈ ts, t.Ok) :
    matchRunes (ts ++ p) rs = (chunkRunes ts rs).any (matchRunes p) := by
  induction ts generalizing rs with
  | nil => rfl
  | cons t ts ih =>
    obtain ⟨ht, hts⟩ := List.forall_mem_cons.1 hts
    cases rs with
    | nil =>
      cases t with
      | star => exact ht.elim
      | any | char | cls => rfl
    | cons r rs =>
      have hcons : matchRunes (t :: (ts ++ p)) (r :: rs) = (t.accepts r && matchRunes (ts ++ p) rs) := by
        cases t with
        | star => exact ht.elim
        | any | char | cls => rfl
      rw [List.cons_append, hcons, ih hts, chunkRunes]
      cases t.accepts r <;> rfl

/-- What follows a `*` can have more before it. -/
theorem matchRunes_star_mono {p : List Term} {rs' : List Rune} (hsuffix : rs' <:+ rs)
    (h : matchRunes (.star :: p) rs' = true) : matchRunes (.star :: p) rs = true := by
  obtain ⟨tail, htail, hmatch⟩ := List.any_eq_true.1 h
  exact List.any_eq_true.2 ⟨tail, (List.mem_tails _ _).2 (((List.mem_tails _ _).1 htail).trans hsuffix), hmatch⟩

/-! ## The search for a place -/

variable {f : Bytes → Option Bytes} {c : Chunk} {last : Bool}

/-- The bytes of a character after the first. -/
theorem tail_bytes {l : Bytes} (hr : r.isBad = false) (h : r.bytes = b :: l) : (∀ c ∈ l, isCont c = true) ∧
    (l ≠ [] → 0x80 ≤ r.code ∧ r.is 0x2F = false) := by
  have hcode := code_bounds r hr
  cases r with
  | bad => cases hr
  | ascii a ha =>
    cases h
    exact ⟨by simp, fun hne => absurd rfl hne⟩
  | two a c hac =>
    cases h
    have hc := (Bool.and_eq_true_iff.1 hac).2
    exact ⟨by simp [hc], fun _ => ⟨hcode.1, rfl⟩⟩
  | three a c d hacd =>
    cases h
    simp only [isThree, Bool.and_eq_true] at hacd
    obtain ⟨⟨⟨⟨-, hc⟩, hd⟩, -⟩, -⟩ := hacd
    exact ⟨by simp [hc, hd], fun _ => ⟨Nat.le_trans (by decide) hcode.1, rfl⟩⟩
  | four a c d e hacde =>
    cases h
    simp only [isFour, Bool.and_eq_true] at hacde
    obtain ⟨⟨⟨⟨⟨-, hc⟩, hd⟩, he⟩, -⟩, -⟩ := hacde
    exact ⟨by simp [hc, hd, he], fun _ => ⟨Nat.le_trans (by decide) hcode, rfl⟩⟩

/-- What fits in the middle of the character `r`, before `x`, fits at its front. -/
def Unsplit (f : Bytes → Option Bytes) (r : Rune) (x : Bytes) : Prop :=
  ∀ b l m, r.bytes = b :: l → m <:+ l → m ≠ [] → (f (m ++ x)).isSome = true → (f (r.bytes ++ x)).isSome = true

/-- Bytes at which nothing fits are skipped. -/
theorem firstMatch_skip {m : Bytes} (hnone : ∀ m', m' <:+ m → m' ≠ [] → f (m' ++ x) = none)
    (hslash : 0x2F ∉ m) : firstMatch f (m ++ x) = firstMatch f x := by
  induction m with
  | nil => rfl
  | cons b m ih =>
    rw [List.mem_cons, not_or] at hslash
    have hb : ¬ (b == 0x2F) = true := fun h => hslash.1 (beq_iff_eq.1 h).symm
    have hhere : f (b :: (m ++ x)) = none := hnone (b :: m) List.suffix_rfl (List.cons_ne_nil b m)
    rw [List.cons_append, firstMatch, hhere, Option.none_or, if_neg hb]
    exact ih (fun m' hm' => hnone m' (hm'.trans (List.suffix_cons b m))) hslash.2

/-- **The search steps over a character**, where nothing is gained in its middle. -/
theorem firstMatch_rune (hr : r.isBad = false) (hslash : r.is 0x2F = false) (h : Unsplit f r x) :
    firstMatch f (r.bytes ++ x) = (f (r.bytes ++ x)).or (firstMatch f x) := by
  obtain ⟨b, l, hbytes⟩ := List.exists_cons_of_ne_nil r.bytes_ne_nil
  have hcont := (tail_bytes hr hbytes).1
  have hb : ¬ (b == 0x2F) = true := by
    intro hb
    rw [beq_iff_eq] at hb
    subst hb
    have hread := readRune_bytes hr (x := x) (s := l ++ x) (by rw [hbytes]; rfl)
    rw [← hread] at hslash
    cases hslash
  have hunfold : firstMatch f (r.bytes ++ x) = (f (r.bytes ++ x)).or (firstMatch f (l ++ x)) := by
    rw [hbytes, List.cons_append, firstMatch, if_neg hb]
  rw [hunfold]
  cases hfront : f (r.bytes ++ x) with
  | some y => rfl
  | none =>
    rw [Option.none_or, Option.none_or]
    refine firstMatch_skip (fun m hm hne => ?_) fun hmem => absurd (hcont _ hmem) (by decide)
    have hnot := mt (h b l m hbytes hm hne)
    rw [hfront] at hnot
    exact Option.not_isSome_iff_eq_none.1 (hnot (by decide))

/-- Nothing is in the middle of a character of ASCII. -/
theorem unsplit_ascii (h : r.code < 0x80) (hr : r.isBad = false) : Unsplit f r x := by
  intro b l m hbytes hm hne
  have hl : l ≠ [] := fun hl => hne (List.suffix_nil.1 (hl ▸ hm))
  have := ((tail_bytes hr hbytes).2 hl).1
  omega

theorem accepts_of_takesAll {t : Term} (h : t.takesAll = true) (hcode : 0x80 ≤ r.code) (hslash : r.is 0x2F = false) :
    t.accepts r = true := by
  cases t with
  | star | char => cases h
  | any => rw [Term.accepts, hslash]; rfl
  | cls negated ranges =>
    rw [Term.takesAll, Bool.and_eq_true] at h
    obtain ⟨rfl, hall⟩ := h
    have hnone : (ranges.any fun (lo, hi) => decide (lo ≤ r.code) && decide (r.code ≤ hi)) = false := by
      rw [List.any_eq_false]
      intro range hrange
      have := List.all_eq_true.1 hall range hrange
      simp only [Bool.and_eq_true, decide_eq_true_eq] at this ⊢
      omega
    rw [Term.accepts, hnone]
    rfl

/-- **A steady chunk** gains nothing in the middle of a character. -/
theorem steady_unsplit (hts : ∀ t ∈ c.terms, t.Ok) (hne : c.terms ≠ []) (hsteady : c.steady = true)
    (hr : r.isBad = false) : Unsplit (c.tryAt last) r x := by
  intro b l m hbytes hm hne' hsome
  obtain ⟨hcont, hwide⟩ := tail_bytes hr hbytes
  obtain ⟨d, m, rfl⟩ := List.exists_cons_of_ne_nil hne'
  obtain ⟨hcode, hslash⟩ := hwide fun hl => hne' (List.suffix_nil.1 (hl ▸ hm))
  have hd : isCont d = true := hcont d (hm.subset List.mem_cons_self)
  obtain ⟨star, ts⟩ := c
  obtain ⟨t, ts, rfl⟩ := List.exists_cons_of_ne_nil hne
  obtain ⟨ht, hts⟩ := List.forall_mem_cons.1 hts
  -- the first term took a byte
  have htakes : t.takesByte = true := by
    by_contra hno
    rw [Chunk.tryAt, List.cons_append, matchChunk, read_cont ht hd, if_neg hno] at hsome
    cases hsome
  rw [Chunk.tryAt, List.cons_append, matchChunk, read_cont ht hd, if_pos htakes, Option.bind_some] at hsome
  have hall : t.takesAll = true := by
    cases ts <;> simp only [Chunk.steady, htakes, Bool.not_true, Bool.false_or, Bool.and_eq_true] at hsteady
    · exact hsteady
    · exact hsteady.1
  rw [Chunk.tryAt, matchChunk, read_rune ht hr, if_pos (accepts_of_takesAll hall hcode hslash), Option.bind_some]
  cases ts with
  | nil =>
    simp only [matchChunk, Option.filter_some, Option.isSome_ite, Bool.or_eq_true, List.isEmpty_iff,
      List.append_eq_nil_iff] at hsome ⊢
    exact hsome.imp_left And.right
  | cons t' ts =>
    cases m with
    | nil => exact hsome
    | cons e m =>
      have he : isCont e = true := hcont e (hm.subset (List.mem_cons_of_mem d List.mem_cons_self))
      have hno : ¬ t'.takesByte = true := by
        simp only [Chunk.steady, htakes, Bool.not_true, Bool.false_or, Bool.and_eq_true, Bool.not_eq_true'] at hsteady
        rw [hsteady.2]
        exact Bool.false_ne_true
      rw [List.cons_append, matchChunk, read_cont (List.forall_mem_cons.1 hts).1 he, if_neg hno] at hsome
      cases hsome

/-! ## A pattern -/

theorem flatMap_bytes_eq_nil_iff : rs.flatMap Rune.bytes = [] ↔ rs = [] := by
  cases rs with
  | nil => exact ⟨fun _ => rfl, fun _ => rfl⟩
  | cons r rs => simp [r.bytes_ne_nil]

/-- **A chunk's try at a character.** -/
theorem tryAt_runes (hts : ∀ t ∈ c.terms, t.Ok) (hgood : ∀ r ∈ rs, r.isBad = false) :
    c.tryAt last (rs.flatMap Rune.bytes) =
      ((chunkRunes c.terms rs).filter fun rs' => rs'.isEmpty || !last).map (List.flatMap Rune.bytes) := by
  rw [Chunk.tryAt, matchChunk_runes hts hgood]
  cases chunkRunes c.terms rs with
  | none => rfl
  | some rs' =>
    have hempty : (rs'.flatMap Rune.bytes).isEmpty = rs'.isEmpty := by
      rw [Bool.eq_iff_iff, List.isEmpty_iff, List.isEmpty_iff, flatMap_bytes_eq_nil_iff]
    rw [Option.map_some, Option.filter_some, Option.filter_some, hempty]
    split <;> rfl

/-- The terms of chunks. -/
def Chunk.flat (c : Chunk) : List Term := if c.star then .star :: c.terms else c.terms

/-- Chunks as `scanChunk` finds them: only the last can have no terms, and only
the first no `*`. -/
structure Scanned (c : Chunk) (cs : List Chunk) : Prop where
  ok : ∀ t ∈ c.terms, t.Ok
  last : c.terms = [] → c.star = true ∧ cs = []
  stars : ∀ c' ∈ cs, c'.star = true

def AllScanned : List Chunk → Prop
  | [] => True
  | c :: cs => Scanned c cs ∧ AllScanned cs

theorem scanChunks_star {p : List Term} : scanChunks (.star :: p) =
    ⟨true, (scanChunks p).head?.elim [] (·.terms)⟩ :: (scanChunks p).tail := by
  rw [scanChunks]
  cases scanChunks p <;> rfl

/-- A term goes to the chunk that begins here, or is one. -/
theorem scanChunks_cons {p : List Term} (ht : t ≠ .star) :
    (∃ ts cs, scanChunks p = ⟨false, ts⟩ :: cs ∧ scanChunks (t :: p) = ⟨false, t :: ts⟩ :: cs) ∨
      (∀ c ∈ (scanChunks p).head?, c.star = true) ∧ scanChunks (t :: p) = ⟨false, [t]⟩ :: scanChunks p := by
  have hunfold : scanChunks (t :: p) = putTerm t (scanChunks p) := by
    cases t with
    | star => exact absurd rfl ht
    | any | char | cls => rfl
  rw [hunfold]
  rcases scanChunks p with _ | ⟨⟨_ | _, ts⟩, cs⟩
  · exact .inr ⟨by simp, rfl⟩
  · exact .inl ⟨ts, cs, rfl, rfl⟩
  · exact .inr ⟨by simp, rfl⟩

theorem allScanned_scanChunks {p : List Term} (h : ∀ t ∈ p, t = .star ∨ t.Ok) : AllScanned (scanChunks p) := by
  induction p with
  | nil => trivial
  | cons t p ih =>
    obtain ⟨ht, hp⟩ := List.forall_mem_cons.1 h
    have ih := ih hp
    by_cases hstar : t = .star
    · rw [hstar, scanChunks_star]
      cases hscan : scanChunks p with
      | nil => exact ⟨⟨by simp, fun _ => ⟨rfl, rfl⟩, by simp⟩, trivial⟩
      | cons c cs =>
        rw [hscan] at ih
        exact ⟨⟨ih.1.ok, fun h => ⟨rfl, (ih.1.last h).2⟩, ih.1.stars⟩, ih.2⟩
    · have ht := ht.resolve_left hstar
      obtain ⟨ts, cs, hscan, hcons⟩ | ⟨hhead, hcons⟩ := scanChunks_cons (p := p) hstar
      · rw [hscan] at ih
        rw [hcons]
        exact ⟨⟨List.forall_mem_cons.2 ⟨ht, ih.1.ok⟩, fun h => absurd h (List.cons_ne_nil t ts), ih.1.stars⟩, ih.2⟩
      · rw [hcons]
        refine ⟨⟨List.forall_mem_cons.2 ⟨ht, by simp⟩, fun h => absurd h (List.cons_ne_nil t []), ?_⟩, ih⟩
        cases hscan : scanChunks p with
        | nil => simp
        | cons c cs =>
          rw [hscan] at ih hhead
          exact List.forall_mem_cons.2 ⟨hhead c rfl, ih.1.stars⟩

theorem matchRunes_congr {p q : List Term} (h : ∀ rs, matchRunes p rs = matchRunes q rs) :
    matchRunes (t :: p) rs = matchRunes (t :: q) rs := by
  have hfun : matchRunes p = matchRunes q := funext h
  cases t with
  | star => rw [matchRunes, matchRunes, hfun]
  | any | char | cls => cases rs <;> simp only [matchRunes, hfun]

theorem matchRunes_star_star {p : List Term} : matchRunes (.star :: .star :: p) rs = matchRunes (.star :: p) rs := by
  rw [Bool.eq_iff_iff]
  constructor
  · intro h
    obtain ⟨tail, htail, hmatch⟩ := List.any_eq_true.1 h
    exact matchRunes_star_mono ((List.mem_tails _ _).1 htail) hmatch
  · intro h
    exact List.any_eq_true.2 ⟨rs, (List.mem_tails _ _).2 List.suffix_rfl, h⟩

/-- Splitting a pattern changes nothing, but that stars in a row are one. -/
theorem matchRunes_scanChunks {p : List Term} :
    matchRunes ((scanChunks p).flatMap Chunk.flat) rs = matchRunes p rs := by
  induction p generalizing rs with
  | nil => rfl
  | cons t p ih =>
    by_cases hstar : t = .star
    · rw [hstar, scanChunks_star]
      refine .trans ?_ (matchRunes_congr fun _ => ih)
      rcases scanChunks p with _ | ⟨⟨_ | _, ts⟩, cs⟩
      · rfl
      · rfl
      · exact matchRunes_star_star.symm
    · refine .trans ?_ (matchRunes_congr fun _ => ih)
      obtain ⟨ts, cs, hscan, hcons⟩ | ⟨-, hcons⟩ := scanChunks_cons (p := p) hstar
      · rw [hscan, hcons]
        rfl
      · rw [hcons]
        rfl

/-- **A chunk's try at the front.** -/
theorem any_tryAt {cs : List Chunk} (hscan : Scanned c cs)
    (hrest : ∀ rs' : List Rune, rs' ⊆ rs →
      matchChunks cs (rs'.flatMap Rune.bytes) = matchRunes (cs.flatMap Chunk.flat) rs')
    (hgood : ∀ r ∈ rs, r.isBad = false) :
    (c.tryAt cs.isEmpty (rs.flatMap Rune.bytes)).any (matchChunks cs) =
      matchRunes (c.terms ++ cs.flatMap Chunk.flat) rs := by
  rw [matchRunes_append hscan.ok, tryAt_runes hscan.ok hgood]
  cases hchunk : chunkRunes c.terms rs with
  | none => rfl
  | some u =>
    have hsub : u ⊆ rs := (chunkRunes_eq_some hchunk).1 ▸ List.drop_subset _ _
    rw [Option.filter_some, Option.any_some]
    cases hplace : u.isEmpty || !cs.isEmpty with
    | false =>
      -- the last chunk left something
      rw [Bool.or_eq_false_iff, Bool.not_eq_false', List.isEmpty_iff] at hplace
      obtain ⟨hsome, rfl⟩ := hplace
      exact hsome.symm
    | true =>
      rw [if_pos rfl, Option.map_some, Option.any_some]
      exact hrest u hsub

/-- What a later place leaves, the first one leaves, too: it is nothing, or what
follows has a `*` of its own. -/
theorem first_place {cs : List Chunk} {u : List Rune} (hscan : Scanned c cs)
    (hplace : (u.isEmpty || !cs.isEmpty) = true) (hu : u = (r :: rs).drop c.terms.length)
    (hlater : matchRunes (.star :: (c.terms ++ cs.flatMap Chunk.flat)) rs = true) :
    matchRunes (cs.flatMap Chunk.flat) u = true := by
  obtain ⟨tail, htail, hmatch⟩ := List.any_eq_true.1 hlater
  rw [matchRunes_append hscan.ok, Option.any_eq_true] at hmatch
  obtain ⟨v, hchunk, hmatch⟩ := hmatch
  cases cs with
  | nil =>
    have hempty : u.isEmpty = true := by simpa using hplace
    exact hempty
  | cons c' cs =>
    have hc' : Chunk.flat c' = .star :: c'.terms := if_pos (hscan.stars c' List.mem_cons_self)
    rw [List.flatMap_cons, hc', List.cons_append] at hmatch ⊢
    obtain ⟨hv, -⟩ := chunkRunes_eq_some hchunk
    obtain ⟨skipped, hskipped⟩ := ((List.mem_tails _ _).1 htail).trans (List.suffix_cons r rs)
    have hdrop : v = u.drop skipped.length := by
      rw [hu, hv, ← hskipped, List.drop_drop, Nat.add_comm, ← List.drop_drop, List.drop_left]
    exact matchRunes_star_mono (hdrop ▸ List.drop_suffix _ _) hmatch

/-- **The first place is as good as any.** -/
theorem any_firstMatch {cs : List Chunk} (hscan : Scanned c cs)
    (hrest : ∀ rs' : List Rune, rs' ⊆ rs →
      matchChunks cs (rs'.flatMap Rune.bytes) = matchRunes (cs.flatMap Chunk.flat) rs')
    (hname : ∀ r ∈ rs, r.isBad = false ∧ r.is 0x2F = false)
    (hunsplit : ∀ r ∈ rs, ∀ x, Unsplit (c.tryAt cs.isEmpty) r x) :
    (firstMatch (c.tryAt cs.isEmpty) (rs.flatMap Rune.bytes)).any (matchChunks cs) =
      matchRunes (.star :: (c.terms ++ cs.flatMap Chunk.flat)) rs := by
  induction rs with
  | nil => exact (any_tryAt hscan hrest (by simp)).trans (Bool.or_false _).symm
  | cons r rs ih =>
    have hgood : ∀ r' ∈ r :: rs, r'.isBad = false := fun r' hr' => (hname r' hr').1
    have hfront := any_tryAt hscan hrest hgood
    have htry := @tryAt_runes _ c cs.isEmpty hscan.ok hgood
    obtain ⟨hr, hname⟩ := List.forall_mem_cons.1 hname
    obtain ⟨hr', hunsplit⟩ := List.forall_mem_cons.1 hunsplit
    have ih := ih (fun rs' hsub => hrest rs' (List.subset_cons_of_subset r hsub)) hname hunsplit
    have hstar : matchRunes (.star :: (c.terms ++ cs.flatMap Chunk.flat)) (r :: rs) =
        (matchRunes (c.terms ++ cs.flatMap Chunk.flat) (r :: rs) ||
          matchRunes (.star :: (c.terms ++ cs.flatMap Chunk.flat)) rs) := rfl
    rw [List.flatMap_cons] at hfront htry ⊢
    rw [firstMatch_rune hr.1 hr.2 (hr' _), hstar, ← hfront]
    cases hplace : c.tryAt cs.isEmpty (r.bytes ++ rs.flatMap Rune.bytes) with
    | none => exact ih
    | some y =>
      rw [htry, Option.map_eq_some_iff] at hplace
      obtain ⟨u, hfilter, rfl⟩ := hplace
      obtain ⟨hchunk, hplace⟩ := Option.filter_eq_some_iff.1 hfilter
      obtain ⟨hu, -⟩ := chunkRunes_eq_some hchunk
      rw [Option.some_or, Option.any_some, hrest u (hu ▸ List.drop_subset _ _)]
      exact (Bool.or_eq_left_iff_imp.2 (first_place hscan hplace hu)).symm

theorem noSlash_flatMap (hname : ∀ r ∈ rs, r.is 0x2F = false) : (rs.flatMap Rune.bytes).contains 0x2F = false := by
  rw [List.contains_eq_mem, decide_eq_false_iff_not]
  intro hmem
  obtain ⟨r, hr, hbyte⟩ := List.mem_flatMap.1 hmem
  have his := (mem_bytes_iff (by decide)).1 hbyte
  rw [hname r hr] at his
  cases his

/-- **`path.Match` finds what there is to find.** -/
theorem matchChunks_eq {p : List Term} (hp : ∀ t ∈ p, t = .star ∨ t.Ok)
    (hname : ∀ r ∈ rs, r.isBad = false ∧ r.is 0x2F = false) (hsteady : Steady p ∨ ∀ r ∈ rs, r.code < 0x80) :
    matchChunks (scanChunks p) (rs.flatMap Rune.bytes) = matchRunes p rs := by
  rw [← matchRunes_scanChunks]
  have hscanned := allScanned_scanChunks hp
  unfold Steady at hsteady
  generalize scanChunks p = cs at hscanned hsteady
  induction cs generalizing rs with
  | nil =>
    show (rs.flatMap Rune.bytes).isEmpty = rs.isEmpty
    rw [Bool.eq_iff_iff, List.isEmpty_iff, List.isEmpty_iff, flatMap_bytes_eq_nil_iff]
  | cons c cs ih =>
    obtain ⟨hscan, hscanned⟩ := hscanned
    have hsteady' : (∀ c ∈ cs, c.star = true → c.steady = true) ∨ ∀ r ∈ rs, r.code < 0x80 :=
      hsteady.imp_left fun h c hc => h c (List.mem_cons_of_mem _ hc)
    have hrest : ∀ rs' : List Rune, rs' ⊆ rs →
        matchChunks cs (rs'.flatMap Rune.bytes) = matchRunes (cs.flatMap Chunk.flat) rs' := fun rs' hsub =>
      ih (fun r hr => hname r (hsub hr)) hscanned (hsteady'.imp_right fun h r hr => h r (hsub hr))
    rw [matchChunks, List.flatMap_cons, Chunk.flat]
    by_cases hstar : c.star = true
    · rw [hstar, Bool.true_and, if_pos rfl, if_pos rfl]
      by_cases hterms : c.terms = []
      · obtain ⟨-, rfl⟩ := hscan.last hterms
        rw [hterms, List.isEmpty_nil, if_pos rfl, noSlash_flatMap fun r hr => (hname r hr).2]
        exact (List.any_eq_true.2 ⟨[], (List.mem_tails _ _).2 List.nil_suffix, rfl⟩).symm
      · rw [if_neg (by simpa using hterms)]
        refine any_firstMatch hscan hrest hname fun r hr x => ?_
        obtain hsteady | hascii := hsteady
        · exact steady_unsplit hscan.ok hterms (hsteady c List.mem_cons_self hstar) (hname r hr).1
        · exact unsplit_ascii (hascii r hr) (hname r hr).1
    · rw [if_neg hstar, if_neg (by simp [hstar]), if_neg hstar]
      exact any_tryAt hscan hrest fun r hr => (hname r hr).1

/-! ## Names with a `/` -/

/-- A term of a chunk that matches no `/`. -/
def Term.NoSlash : Term → Prop
  | .any => True
  | .char r => r.isBad = false ∧ r.is 0x2F = false
  | .star | .cls _ _ => False

theorem noSlash_of_read {u : Bytes} (ht : t.NoSlash) (hread : t.read s = some u) (hu : 0x2F ∉ u) : 0x2F ∉ s := by
  cases t with
  | star | cls => exact ht.elim
  | char r =>
    rw [Term.read] at hread
    split at hread
    · next hpre =>
      obtain ⟨x, rfl⟩ := List.isPrefixOf_iff_prefix.1 hpre
      rw [List.drop_left, Option.some.injEq] at hread
      subst hread
      have hno : 0x2F ∉ r.bytes := fun hmem => Bool.eq_false_iff.1 ht.2 ((mem_bytes_iff (by decide)).1 hmem)
      exact fun hmem => (List.mem_append.1 hmem).elim hno hu
    · cases hread
  | any =>
    cases s with
    | nil => cases hread
    | cons b s =>
      rw [Term.read, Term.accepts] at hread
      · split at hread
        · next haccepts =>
          have hno : 0x2F ∉ (readRune b s).bytes := fun hmem => by
            rw [(mem_bytes_iff (by decide)).1 hmem] at haccepts
            cases haccepts
          rw [Option.some.injEq, ← readRune_prefix b s, List.drop_left] at hread
          rw [← readRune_prefix b s, hread]
          exact fun hmem => (List.mem_append.1 hmem).elim hno hu
        · cases hread
      · exact fun r h => by cases h

theorem noSlash_of_matchChunk {u : Bytes} (hts : ∀ t ∈ ts, t.NoSlash) (hmatch : matchChunk ts s = some u)
    (hu : 0x2F ∉ u) : 0x2F ∉ s := by
  induction ts generalizing s with
  | nil =>
    cases hmatch
    exact hu
  | cons t ts ih =>
    obtain ⟨ht, hts⟩ := List.forall_mem_cons.1 hts
    obtain ⟨v, hread, hmatch⟩ := Option.bind_eq_some_iff.1 hmatch
    exact noSlash_of_read ht hread (ih hts hmatch)

/-- What is skipped has no `/`. -/
theorem noSlash_of_firstMatch {u : Bytes} (hf : ∀ s, f s = some u → 0x2F ∉ s) (h : firstMatch f s = some u) :
    0x2F ∉ s := by
  induction s with
  | nil => exact List.not_mem_nil
  | cons b s ih =>
    rw [firstMatch, Option.or_eq_some_iff] at h
    obtain hhere | ⟨-, hlater⟩ := h
    · exact hf _ hhere
    · split at hlater
      · cases hlater
      · next hb =>
        rw [List.mem_cons, not_or]
        exact ⟨fun heq => hb (beq_iff_eq.2 heq.symm), ih hlater⟩

/-- **A name with a `/`** is matched by none that has no `/` and no class. -/
theorem noSlash_of_matchChunks {cs : List Chunk} (hcs : ∀ c ∈ cs, ∀ t ∈ c.terms, t.NoSlash)
    (hmatch : matchChunks cs s = true) : 0x2F ∉ s := by
  induction cs generalizing s with
  | nil =>
    have hnil := List.isEmpty_iff.1 hmatch
    subst hnil
    exact List.not_mem_nil
  | cons c cs ih =>
    obtain ⟨hc, hcs⟩ := List.forall_mem_cons.1 hcs
    have htry : ∀ u, matchChunks cs u = true → ∀ s, c.tryAt cs.isEmpty s = some u → 0x2F ∉ s := by
      intro u hmatch s hsome
      rw [Chunk.tryAt, Option.filter_eq_some_iff] at hsome
      exact noSlash_of_matchChunk hc hsome.1 (ih hcs hmatch)
    rw [matchChunks] at hmatch
    split at hmatch
    · rw [List.contains_eq_mem, Bool.not_eq_true', decide_eq_false_iff_not] at hmatch
      exact hmatch
    · split at hmatch
      · obtain ⟨u, hfirst, hmatch⟩ := (Option.any_eq_true _ _).1 hmatch
        exact noSlash_of_firstMatch (htry u hmatch) hfirst
      · obtain ⟨u, hfirst, hmatch⟩ := (Option.any_eq_true _ _).1 hmatch
        exact htry u hmatch s hfirst

/-- A term of a chunk is one of the pattern. -/
theorem mem_of_scanChunks {p : List Term} : ∀ c ∈ scanChunks p, ∀ t ∈ c.terms, t ≠ .star ∧ t ∈ p := by
  induction p with
  | nil => exact fun c hc => absurd hc List.not_mem_nil
  | cons t p ih =>
    have ih : ∀ c ∈ scanChunks p, ∀ t' ∈ c.terms, t' ≠ .star ∧ t' ∈ t :: p := fun c hc t' ht' =>
      (ih c hc t' ht').imp_right (List.mem_cons_of_mem t)
    by_cases hstar : t = .star
    · rw [hstar, scanChunks_star]
      rw [hstar] at ih
      cases hscan : scanChunks p with
      | nil => simp
      | cons c cs =>
        rw [hscan] at ih
        exact List.forall_mem_cons.2 (List.forall_mem_cons.1 ih)
    · obtain ⟨ts, cs, hscan, hcons⟩ | ⟨-, hcons⟩ := scanChunks_cons (p := p) hstar
      · rw [hscan] at ih
        rw [hcons]
        obtain ⟨hts, hcs⟩ := List.forall_mem_cons.1 ih
        exact List.forall_mem_cons.2 ⟨List.forall_mem_cons.2 ⟨⟨hstar, List.mem_cons_self⟩, hts⟩, hcs⟩
      · rw [hcons]
        exact List.forall_mem_cons.2 ⟨by simp [hstar], ih⟩

/-! ## Steady patterns -/

/-- The first chunk, if no `*` stands before it, is how the pattern begins. -/
theorem prefix_of_scanChunks {p : List Term} {cs : List Chunk} (h : scanChunks p = ⟨false, ts⟩ :: cs) : ts <+: p := by
  induction p generalizing ts cs with
  | nil => cases h
  | cons t p ih =>
    by_cases hstar : t = .star
    · rw [hstar, scanChunks_star] at h
      cases h
    · obtain ⟨ts', cs', hscan, hcons⟩ | ⟨-, hcons⟩ := scanChunks_cons (p := p) hstar
      · rw [hcons, List.cons.injEq, Chunk.mk.injEq] at h
        obtain ⟨⟨-, rfl⟩, -⟩ := h
        exact List.prefix_cons_inj t |>.2 (ih hscan)
      · rw [hcons, List.cons.injEq, Chunk.mk.injEq] at h
        obtain ⟨⟨-, rfl⟩, -⟩ := h
        exact List.prefix_cons_inj t |>.2 List.nil_prefix

/-- A term that is `?`, or is found at no byte in the middle of a character. -/
def Term.plain : Term → Bool
  | .any => true
  | t => !t.takesByte

theorem steady_of_plain {c : Chunk} (hplain : ∀ t ∈ c.terms, t.plain = true)
    (hno : ¬ [.any, .any] <+: c.terms) : c.steady = true := by
  have htakes : ∀ {t : Term}, t.plain = true → t = .any ∨ t.takesByte = false := fun {t} h => by
    cases t with
    | any => exact .inl rfl
    | star | char | cls => exact .inr (Bool.not_eq_true' _ ▸ h)
  obtain ⟨star, ts⟩ := c
  rcases ts with _ | ⟨t, _ | ⟨t', ts⟩⟩
  · rfl
  · obtain rfl | ht := htakes (hplain t List.mem_cons_self)
    · rfl
    · simp [Chunk.steady, ht]
  · obtain rfl | ht := htakes (hplain t List.mem_cons_self)
    · obtain rfl | ht' := htakes (hplain t' (List.mem_cons_of_mem _ List.mem_cons_self))
      · exact absurd ⟨ts, rfl⟩ hno
      · simp [Chunk.steady, Term.takesAll, ht']
    · simp [Chunk.steady, ht]

/-- Two `?` at the front of a chunk with a `*` come after that. -/
theorem infix_of_scanChunks {p : List Term} {c : Chunk} (hc : c ∈ scanChunks p) (hstar : c.star = true)
    (hpre : [.any, .any] <+: c.terms) : [.star, .any, .any] <:+: p := by
  induction p generalizing c with
  | nil => cases hc
  | cons t p ih =>
    by_cases ht : t = .star
    · rw [ht, scanChunks_star, List.mem_cons] at hc
      obtain rfl | hc := hc
      · cases hscan : scanChunks p with
        | nil =>
          rw [hscan] at hpre
          cases List.prefix_nil.1 hpre
        | cons c' cs =>
          rw [hscan] at hpre ih
          obtain ⟨star, ts⟩ := c'
          cases star with
          | true => exact (ih List.mem_cons_self rfl hpre).trans (List.suffix_cons t p).isInfix
          | false =>
            rw [ht]
            exact (List.prefix_cons_inj _ |>.2 (hpre.trans (prefix_of_scanChunks hscan))).isInfix
      · exact (ih (List.mem_of_mem_tail hc) hstar hpre).trans (List.suffix_cons t p).isInfix
    · obtain ⟨ts, cs, hscan, hcons⟩ | ⟨-, hcons⟩ := scanChunks_cons (p := p) ht
      · rw [hcons, List.mem_cons] at hc
        obtain rfl | hc := hc
        · cases hstar
        · exact (ih (hscan ▸ List.mem_cons_of_mem _ hc) hstar hpre).trans (List.suffix_cons t p).isInfix
      · rw [hcons, List.mem_cons] at hc
        obtain rfl | hc := hc
        · cases hstar
        · exact (ih hc hstar hpre).trans (List.suffix_cons t p).isInfix

/-- **A pattern of characters, `*` and `?`** is steady if no `*` has two `?` after it. -/
theorem steady_of_not_infix {p : List Term} (hplain : ∀ t ∈ p, t = .star ∨ t.plain = true)
    (hno : ¬ [.star, .any, .any] <:+: p) : Steady p := fun c hc hstar =>
  steady_of_plain (fun t ht => (hplain t (mem_of_scanChunks c hc t ht).2).resolve_left (mem_of_scanChunks c hc t ht).1)
    fun hpre => hno (infix_of_scanChunks hc hstar hpre)

end PathMatch

end Lib
