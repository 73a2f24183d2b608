/-
SQLite's `GLOB`: `*`, `?` and bracketed sets over whole characters. A NUL ends
the name and the pattern, and a pattern that is too long is an error.
-/
import ScrewLogger.Lib.Lower

namespace Lib

namespace Glob

/-- One piece of a pattern. -/
inductive Piece
  | star
  | any
  | char (c : Nat)
  | set (invert : Bool) (ranges : List (Nat × Nat))
  /-- A set that is not closed: it matches nothing. -/
  | never
  deriving DecidableEq

/-- The ranges of a set, up to and with its `]`, and how long that was. `prior`
is the character a `-` would start its range at, 0 for none. -/
def readRanges : Nat → List Nat → Option (List (Nat × Nat) × Nat)
  | _, [] => none
  | _, [c] => if c = 0x5D then some ([], 1) else none
  | prior, c :: d :: p =>
    if c = 0x5D then some ([], 1)
    else if c = 0x2D ∧ d ≠ 0x5D ∧ 0 < prior then
      (readRanges 0 p).map fun (rs, n) => ((prior, d) :: rs, n + 2)
    else (readRanges c (d :: p)).map fun (rs, n) => ((c, c) :: rs, n + 1)

/-- A `]` that comes first is a character of the set. -/
def readFirst (p : List Nat) : Option (List (Nat × Nat) × Nat) :=
  match p with
  | 0x5D :: p => (readRanges 0 p).map fun (rs, n) => ((0x5D, 0x5D) :: rs, n + 1)
  | p => readRanges 0 p

/-- A set after its `[`, and how long it was. -/
def readSet (p : List Nat) : Piece × Nat :=
  match p with
  | 0x5E :: p => (readFirst p).elim (.never, 1) fun (rs, n) => (.set true rs, n + 1)
  | p => (readFirst p).elim (.never, 0) fun (rs, n) => (.set false rs, n)

/-- A pattern's pieces, `skip` characters on: the rest of the set last read. -/
def piecesFrom : Nat → List Nat → List Piece
  | _, [] => []
  | skip + 1, _ :: p => piecesFrom skip p
  | 0, c :: p =>
    if c = 0x2A then .star :: piecesFrom 0 p
    else if c = 0x3F then .any :: piecesFrom 0 p
    else if c = 0x5B then (readSet p).1 :: piecesFrom (readSet p).2 p
    else .char c :: piecesFrom 0 p

/-- A piece other than `*` and a character. -/
def Piece.accepts (c : Nat) : Piece → Bool
  | .star => true
  | .any => true
  | .char c' => c == c'
  | .set invert ranges => (ranges.any fun (lo, hi) => lo ≤ c && c ≤ hi) != invert
  | .never => false

def matchPieces : List Piece → List Nat → Bool
  | [], s => s.isEmpty
  | .star :: p, s => s.tails.any (matchPieces p)
  | piece :: p, s =>
    match s with
    | [] => false
    | c :: s => piece.accepts c && matchPieces p s

end Glob

/-- `SQLITE_MAX_LIKE_PATTERN_LENGTH`, in bytes. -/
def maxLikePatternLength : Nat := 50000

/-- `s GLOB pattern`, none for "LIKE or GLOB pattern too complex". -/
def glob (pattern s : Bytes) : Option Bool :=
  if maxLikePatternLength < pattern.length then none
  else some (Glob.matchPieces (Glob.piecesFrom 0 (codePoints pattern)) (codePoints s))

theorem glob_eq_none_iff {pattern s : Bytes} : glob pattern s = none ↔ maxLikePatternLength < pattern.length := by
  rw [glob]
  split <;> simp [*]

theorem glob_of_le {pattern s : Bytes} (h : pattern.length ≤ maxLikePatternLength) :
    glob pattern s = some (Glob.matchPieces (Glob.piecesFrom 0 (codePoints pattern)) (codePoints s)) :=
  if_neg (Nat.not_lt.2 h)

example : glob (str "*[a-c]?.exe") (str "tab1.exe") = some true := by decide
example : glob (str "[^]x]*") (str "]y") = some false := by decide

end Lib
