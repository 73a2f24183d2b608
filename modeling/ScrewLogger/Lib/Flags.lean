/-
Command-line flags, as Go's package `flag` parses them.

Flags are bool, int or string. `parse_name` says what a flag comes to that is
written as its name alone, and `parseIntAny_formatInt` that an integer given to one
is read as it was written.
-/
import ScrewLogger.Lib.Json.Text
import Mathlib.Data.List.TakeWhile

namespace Lib.Flags
open Lib.Json

inductive Kind
  | bool
  | int
  | string
  deriving DecidableEq

inductive Value
  | bool (b : Bool)
  | int (i : Int64)
  | string (s : Bytes)
  deriving DecidableEq

inductive FlagError
  | badSyntax (arg : Bytes)
  | notDefined (name : Bytes)
  | needsArgument (name : Bytes)
  | invalidValue (value name : Bytes)
  | help
  deriving DecidableEq

/-! ## Values -/

/-- `strconv.ParseBool` -/
def parseBool (s : Bytes) : Option Bool :=
  if [str "1", str "t", str "T", str "true", str "TRUE", str "True"].contains s then some true
  else if [str "0", str "f", str "F", str "false", str "FALSE", str "False"].contains s then some false
  else none

/-- The digits of any base up to 36. -/
def digitOf (c : UInt8) : Option Nat :=
  if isDigit c then some (c.toNat - 0x30)
  else if 0x61 ≤ c && c ≤ 0x7A then some (c.toNat - 0x61 + 10)
  else if 0x41 ≤ c && c ≤ 0x5A then some (c.toNat - 0x41 + 10)
  else none

def underscore : UInt8 := 0x5F

/-- Digits of a base, underscores among them. -/
def digitsIn (base : Nat) : Nat → Bytes → Option Nat
  | n, [] => some n
  | n, c :: s =>
    if c = underscore then digitsIn base n s
    else (digitOf c).bind fun d => if d < base then digitsIn base (base * n + d) s else none

/-- The base that a prefix asks for, and what comes after the prefix. -/
def basePrefix : Bytes → Nat × Bytes
  | 0x30 :: c :: d :: s =>
    if c = 0x62 ∨ c = 0x42 then (2, d :: s)
    else if c = 0x6F ∨ c = 0x4F then (8, d :: s)
    else if c = 0x78 ∨ c = 0x58 then (16, d :: s)
    else (8, c :: d :: s)
  | 0x30 :: s => (8, s)
  | s => (10, s)

/-- Each underscore stands between two digits, a prefix counting as one. -/
def underscoresOK (hex : Bool) : (afterDigit afterUnderscore : Bool) → Bytes → Bool
  | _, afterUnderscore, [] => !afterUnderscore
  | afterDigit, afterUnderscore, c :: s =>
    if isDigit c || hex && (0x61 ≤ c && c ≤ 0x66 || 0x41 ≤ c && c ≤ 0x46) then underscoresOK hex true false s
    else if c = underscore then afterDigit && underscoresOK hex false true s
    else !afterUnderscore && underscoresOK hex false false s

/-- `strconv.ParseUint(s, 0, 64)`, its range aside. -/
def parseNatAny (s : Bytes) : Option Nat :=
  if s = [] then none
  else
    let (base, digits) := basePrefix s
    let prefixed := decide (base ≠ 10 ∧ digits.length + 2 = s.length)
    if s.contains underscore && !underscoresOK (base == 16) prefixed false (if prefixed then digits else s) then none
    -- of a lone zero nothing is left after the prefix
    else digitsIn base 0 digits

/-- `strconv.ParseInt(s, 0, 64)` -/
def parseIntAny : Bytes → Option Int64
  | [] => none
  | b :: t =>
    if b = 0x2D then (parseNatAny t).bind fun n => int64? (-n)
    else if b = 0x2B then (parseNatAny t).bind fun n => int64? n
    else (parseNatAny (b :: t)).bind fun n => int64? n

/-- Decimal digits are read as ever. -/
theorem digitsIn_ten : ∀ {s : Bytes} {n : Nat}, s.all isDigit = true →
    digitsIn 10 n s = some (s.foldl (fun n b => 10 * n + (b.toNat - 0x30)) n)
  | [], _, _ => rfl
  | c :: s, n, h => by
    obtain ⟨hc, hs⟩ := List.all_eq_true.1 h |> List.forall_mem_cons.1
    have hunder : c ≠ underscore := fun heq => by
      rw [heq] at hc
      exact absurd hc (by decide)
    have hlt : c.toNat - 0x30 < 10 := by
      have hle : c ≤ 0x39 := by
        rw [isDigit, Bool.and_eq_true] at hc
        exact of_decide_eq_true hc.2
      have hle : c.toNat ≤ 0x39 := UInt8.le_iff_toNat_le.1 hle
      omega
    rw [digitsIn, if_neg hunder, digitOf, if_pos hc, Option.bind_some, if_pos hlt, digitsIn_ten (List.all_eq_true.2 hs)]
    rfl

theorem parseNatAny_formatNat (n : Nat) : parseNatAny (formatNat n) = some n := by
  have hread := parseNat_formatNat n
  have hall : (formatNat n).all isDigit = true := List.all_eq_true.2 fun b hb => formatNat_isDigit hb
  rw [parseNat, if_pos ⟨formatNat_ne_nil n, hall⟩] at hread
  rcases formatNat_head n with hzero | ⟨b, t, hbt, hb⟩
  · rw [hzero] at hread ⊢
    exact hread
  · have hbase : basePrefix (formatNat n) = (10, formatNat n) := by
      rw [hbt]
      unfold basePrefix
      split
      · next heq => exact absurd (List.cons.inj heq).1 hb
      · next heq => exact absurd (List.cons.inj heq).1 hb
      · rfl
    have hunder : (formatNat n).contains underscore = false := by
      rw [Bool.eq_false_iff]
      intro hmem
      exact absurd (formatNat_isDigit (List.contains_iff_mem.1 hmem)) (by decide)
    rw [parseNatAny, if_neg (formatNat_ne_nil n), hbase]
    simp only [hunder, Bool.false_and, Bool.false_eq_true, if_false]
    rw [digitsIn_ten hall]
    exact hread

/-- **An integer written and read back.** -/
theorem parseIntAny_formatInt (i : Int64) : parseIntAny (formatInt i.toInt) = some i := by
  unfold formatInt
  split
  · have habs : -(i.toInt.natAbs : Int) = i.toInt := by omega
    rw [parseIntAny, if_pos rfl, parseNatAny_formatNat, Option.bind_some, habs, int64?_toInt]
  · obtain ⟨b, t, hbt⟩ := List.exists_cons_of_ne_nil (formatNat_ne_nil i.toInt.natAbs)
    have hdigit : isDigit b = true := formatNat_isDigit (n := i.toInt.natAbs) (by rw [hbt]; simp)
    have hminus : b ≠ 0x2D := by
      rintro rfl
      exact absurd hdigit (by decide)
    have hplus : b ≠ 0x2B := by
      rintro rfl
      exact absurd hdigit (by decide)
    have habs : (i.toInt.natAbs : Int) = i.toInt := by omega
    rw [hbt, parseIntAny, if_neg hminus, if_neg hplus, ← hbt, parseNatAny_formatNat, Option.bind_some, habs,
      int64?_toInt]

/-- `Set` of a flag's value. -/
def Kind.read (k : Kind) (s : Bytes) : Option Value :=
  match k with
  | .bool => (parseBool s).map .bool
  | .int => (parseIntAny s).map .int
  | .string => some (.string s)

/-! ## Arguments -/

def dash : UInt8 := 0x2D

def equals : UInt8 := 0x3D

/-- A flag's name, and the value written with it. -/
def cutValue (name : Bytes) : Bytes × Option Bytes :=
  let before := name.takeWhile (· ≠ equals)
  (before, (name.drop before.length).tail?)

/-- Flags with the values given them, the last given first, and the arguments after them. -/
def parse (formal : Bytes → Option Kind) :
    List Bytes → List (Bytes × Value) → Except FlagError (List (Bytes × Value) × List Bytes)
  | [], given => .ok (given, [])
  | [] :: args, given => .ok (given, [] :: args)
  | [c] :: args, given => .ok (given, [c] :: args)
  | (c :: c' :: s) :: args, given =>
    if c ≠ dash then .ok (given, (c :: c' :: s) :: args)
    else if c' = dash ∧ s = [] then .ok (given, args)
    else
      let text := if c' = dash then s else c' :: s
      if text.head? = some dash ∨ text.head? = some equals then .error (.badSyntax (c :: c' :: s))
      else
        let (name, value) := cutValue text
        match formal name, value, args with
        | none, _, _ => .error (if name = str "help" ∨ name = str "h" then .help else .notDefined name)
        | some .bool, none, args => parse formal args ((name, .bool true) :: given)
        | some k, some value, args =>
          match k.read value with
          | some v => parse formal args ((name, v) :: given)
          | none => .error (.invalidValue value name)
        | some _, none, [] => .error (.needsArgument name)
        | some k, none, value :: args =>
          match k.read value with
          | some v => parse formal args ((name, v) :: given)
          | none => .error (.invalidValue value name)

/-- The value of a flag. -/
def valueOf (given : List (Bytes × Value)) (name : Bytes) : Option Value := given.lookup name

section
variable {formal : Bytes → Option Kind} {name : Bytes} {args : List Bytes} {given : List (Bytes × Value)}

/-- A name that is read as it stands. -/
structure IsName (name : Bytes) : Prop where
  nonempty : name ≠ []
  dash : name.head? ≠ some dash
  equals : equals ∉ name

theorem IsName.cutValue (h : IsName name) : cutValue name = (name, none) := by
  have hwhole : name.takeWhile (· ≠ Flags.equals) = name :=
    List.takeWhile_eq_self_iff.2 fun c hc => decide_eq_true fun heq => h.equals (heq ▸ hc)
  rw [Flags.cutValue, hwhole, List.drop_length]
  rfl

/-- A flag comes to its name. -/
theorem parse_name (h : IsName name) : parse formal ((dash :: name) :: args) given =
    match formal name, args with
    | none, _ => .error (if name = str "help" ∨ name = str "h" then .help else .notDefined name)
    | some .bool, args => parse formal args ((name, .bool true) :: given)
    | some _, [] => .error (.needsArgument name)
    | some k, value :: args =>
      match k.read value with
      | some v => parse formal args ((name, v) :: given)
      | none => .error (.invalidValue value name) := by
  obtain ⟨c, s, rfl⟩ := List.exists_cons_of_ne_nil h.nonempty
  have hc : c ≠ dash := fun heq => h.dash (congrArg some heq)
  have hhead : ¬ ((c :: s).head? = some dash ∨ (c :: s).head? = some equals) := by
    rintro (hd | he)
    · exact h.dash hd
    · exact h.equals (by rw [List.head?_cons, Option.some.injEq] at he; simp [he])
  rw [parse]
  simp only [ne_eq, not_true_eq_false, if_false, hc, false_and, if_neg hhead, h.cutValue]
  cases formal (c :: s) with
  | none => rfl
  | some k => cases k <;> cases args <;> rfl

end

end Lib.Flags
