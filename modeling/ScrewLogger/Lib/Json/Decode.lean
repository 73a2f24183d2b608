/-
From a JSON value to a Go struct, as `json.Unmarshal` fills one: a member goes
to the field whose name its key is, letter case aside, members of no field are
skipped, `null` leaves a field as it was, and a value of another type is an
error of the whole.
-/
import ScrewLogger.Lib.Json.Scanner

namespace Lib.Json

/-- `foldRune`, as far as it can meet an ASCII letter: the two runes outside
ASCII that fold to one are the long s and the Kelvin sign. -/
def foldRune : Rune → Bytes
  | .ascii b _ => [if 0x61 ≤ b && b ≤ 0x7A then b - 0x20 else b]
  | .two a b _ => if a = 0xC5 ∧ b = 0xBF then [0x53] else [a, b]
  | .three a b c _ => if a = 0xE2 ∧ b = 0x84 ∧ c = 0xAA then [0x4B] else [a, b, c]
  | r => r.coerce

/-- `foldName`. -/
def foldName (s : Bytes) : Bytes := (runes s).flatMap foldRune

/-- The key `k` names the field `name`. -/
def isField (name k : Bytes) : Bool := foldName k == foldName name

def readString (old : Bytes) : Json → Option Bytes
  | .str s => some s
  | .null => some old
  | _ => none

def readInt64 (old : Int64) : Json → Option Int64
  | .num lit => parseInt64 lit
  | .null => some old
  | _ => none

def readBool (old : Bool) : Json → Option Bool
  | .bool b => some b
  | .null => some old
  | _ => none

/-- A slice, its elements read by `item`. -/
def readSlice {α : Type} (item : Json → Option α) : Json → Option (List α)
  | .arr items => items.mapM item
  | .null => some []
  | _ => none

/-- A struct, a member at a time onto `zero`. -/
def readStruct {α : Type} (set : α → Bytes → Json → Option α) (zero : α) : Json → Option α
  | .obj members => members.foldlM (fun a m => set a m.1 m.2) zero
  | .null => some zero
  | _ => none

end Lib.Json
