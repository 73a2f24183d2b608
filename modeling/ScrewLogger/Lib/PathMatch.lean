/-
Go's `path.Match`: `*` and `?` that do not match a `/`, bracketed classes and
backslash escapes. A malformed pattern is an error.

The pattern is read rune by rune, and so is the name where a `?` or a class
stands, but a `*` skips bytes: what follows it is tried in the middle of a
character, too, where `?` and the classes find a bad byte. It takes the first
place that fits and never goes back.
-/
import ScrewLogger.Lib.CodePoints

namespace Lib

namespace PathMatch

/-- A term of a pattern. -/
inductive Term
  | star
  | any
  | char (r : Rune)
  | cls (negated : Bool) (ranges : List (Nat × Nat))
  deriving DecidableEq

/-- A character of a class, possibly escaped (`getEsc`), which something follows. -/
def getEsc : List Rune → Option (Nat × List Rune)
  | [] => none
  | r :: p =>
    if r.is 0x2D || r.is 0x5D then none
    else if r.is 0x5C then
      match p with
      | [] => none
      | r :: p => if r.isBad || p.isEmpty then none else some (r.code, p)
    else if r.isBad || p.isEmpty then none
    else some (r.code, p)

/-- The ranges of a class up to its `]`, one at least, and what follows. -/
def ranges : Nat → Bool → List Rune → Option (List (Nat × Nat) × List Rune)
  | 0, _, _ => none
  | fuel + 1, seen, p =>
    if seen && p.head?.any (·.is 0x5D) then some ([], p.tail)
    else do
      let (lo, p) ← getEsc p
      if p.head?.any (·.is 0x2D) then
        let (hi, p) ← getEsc p.tail
        let (rs, rest) ← ranges fuel true p
        some ((lo, hi) :: rs, rest)
      else
        let (rs, rest) ← ranges fuel true p
        some ((lo, lo) :: rs, rest)

/-- A class after its `[`. -/
def readClass (p : List Rune) : Option (Term × List Rune) :=
  if p.head?.any (·.is 0x5E) then (ranges p.length false p.tail).map fun (rs, rest) => (.cls true rs, rest)
  else (ranges (p.length + 1) false p).map fun (rs, rest) => (.cls false rs, rest)

/-- The terms of a pattern, none where it is malformed. -/
def terms : Nat → List Rune → Option (List Term)
  | _, [] => some []
  | 0, _ :: _ => none
  | fuel + 1, r :: p =>
    if r.is 0x2A then (terms fuel p).map (.star :: ·)
    else if r.is 0x3F then (terms fuel p).map (.any :: ·)
    else if r.is 0x5B then do
      let (t, rest) ← readClass p
      (terms fuel rest).map (t :: ·)
    else if r.is 0x5C then
      match p with
      | [] => none
      | r :: p => (terms fuel p).map (.char r :: ·)
    else (terms fuel p).map (.char r :: ·)

/-- A `*` or none, and the terms up to the next one. -/
structure Chunk where
  star : Bool
  terms : List Term
  deriving DecidableEq

/-- A `*` before chunks; stars in a row are one. -/
def putStar : List Chunk → List Chunk
  | [] => [⟨true, []⟩]
  | c :: cs => ⟨true, c.terms⟩ :: cs

/-- Another term before chunks. -/
def putTerm (t : Term) : List Chunk → List Chunk
  | ⟨false, ts⟩ :: cs => ⟨false, t :: ts⟩ :: cs
  | cs => ⟨false, [t]⟩ :: cs

/-- The chunks of a pattern (`scanChunk`): each but the first has a `*`. -/
def scanChunks : List Term → List Chunk
  | [] => []
  | .star :: p => putStar (scanChunks p)
  | t :: p => putTerm t (scanChunks p)

/-- A term other than `*` and a rune. -/
def Term.accepts (r : Rune) : Term → Bool
  | .star => true
  | .any => !r.is 0x2F
  | .char r' => r == r'
  | .cls negated ranges => (ranges.any fun (lo, hi) => lo ≤ r.code && r.code ≤ hi) != negated

/-- What a term other than `*` leaves of a name, none where it does not match:
a character is compared byte by byte, the others read a rune. -/
def Term.read (t : Term) (s : Bytes) : Option Bytes :=
  match t with
  | .char r => if r.bytes.isPrefixOf s then some (s.drop r.bytes.length) else none
  | t =>
    match s with
    | [] => none
    | b :: s => if t.accepts (readRune b s) then some ((b :: s).drop (readRune b s).bytes.length) else none

/-- `matchChunk`, for a chunk that is well formed. -/
def matchChunk : List Term → Bytes → Option Bytes
  | [], s => some s
  | t :: ts, s => (t.read s).bind (matchChunk ts)

/-- The chunk, at the front of a name; the last of a pattern must leave nothing. -/
def Chunk.tryAt (c : Chunk) (last : Bool) (s : Bytes) : Option Bytes :=
  (matchChunk c.terms s).filter fun t => t.isEmpty || !last

/-- The first place in a name that `f` fits, no `/` before it. -/
def firstMatch (f : Bytes → Option Bytes) : Bytes → Option Bytes
  | [] => f []
  | b :: s => (f (b :: s)).or (if b == 0x2F then none else firstMatch f s)

/-- The loop of `Match`. -/
def matchChunks : List Chunk → Bytes → Bool
  | [], s => s.isEmpty
  | c :: cs, s =>
    if c.star && c.terms.isEmpty then !s.contains 0x2F
    else if c.star then (firstMatch (c.tryAt cs.isEmpty) s).any (matchChunks cs)
    else (c.tryAt cs.isEmpty s).any (matchChunks cs)

end PathMatch

/-- `path.Match(pattern, name)`, none for `ErrBadPattern`. -/
def pathMatch (pattern name : Bytes) : Option Bool :=
  (PathMatch.terms (runes pattern).length (runes pattern)).map fun ts =>
    PathMatch.matchChunks (PathMatch.scanChunks ts) name

example : pathMatch (str "mes_*.ex[a-e]") (str "mes_line3.exe") = some true := by decide
example : pathMatch (str "*") (str "a/b") = some false := by decide
example : pathMatch (str "a[") (str "a") = none := by decide
example : pathMatch (str "*??") (str "€") = some true := by decide

end Lib
