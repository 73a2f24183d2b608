/-
The two literals of a JSON text that carry data: strings and integers, as
`encoding/json` and `strconv` write and read them.

`unquote_quote`: a string written and read back is the string with its bad
bytes replaced, so a well-formed one is itself. `parseInt64_formatInt`: an
integer is read back exactly.
-/
import ScrewLogger.Lib.Utf8
import Mathlib.Data.Nat.Digits.Lemmas

namespace Lib.Json

/-! ## Strings -/

def hexDigit (n : UInt8) : UInt8 := if n < 10 then 0x30 + n else 0x57 + n

/-- A byte below `80` written as itself inside a string (`htmlSafeSet`). -/
def htmlSafe (b : UInt8) : Bool :=
  0x20 ≤ b && b != 0x22 && b != 0x5C && b != 0x3C && b != 0x3E && b != 0x26

def escapeAscii (b : UInt8) : Bytes :=
  if htmlSafe b then [b]
  else if b = 0x5C ∨ b = 0x22 then [0x5C, b]
  else if b = 0x08 then [0x5C, 0x62]
  else if b = 0x0C then [0x5C, 0x66]
  else if b = 0x0A then [0x5C, 0x6E]
  else if b = 0x0D then [0x5C, 0x72]
  else if b = 0x09 then [0x5C, 0x74]
  else [0x5C, 0x75, 0x30, 0x30, hexDigit (b >>> 4), hexDigit (b &&& 0x0F)]

/-- A rune inside a string: U+2028 and U+2029 are escaped too, and a bad byte
is written `\ufffd`. -/
def escapeRune : Rune → Bytes
  | .ascii b _ => escapeAscii b
  | .three a b c _ =>
    if a = 0xE2 ∧ b = 0x80 ∧ (c = 0xA8 ∨ c = 0xA9) then
      [0x5C, 0x75, 0x32, 0x30, 0x32, hexDigit (c &&& 0x0F)]
    else [a, b, c]
  | .bad _ _ => [0x5C, 0x75, 0x66, 0x66, 0x66, 0x64]
  | r => r.bytes

/-- What stands between the quotes. -/
def quoteBody (s : Bytes) : Bytes := (runes s).flatMap escapeRune

/-- `appendString` with HTML escaping on, as `json.Marshal` calls it. -/
def quote (s : Bytes) : Bytes := 0x22 :: quoteBody s ++ [0x22]

def isHex (b : UInt8) : Bool :=
  (0x30 ≤ b && b ≤ 0x39) || (0x61 ≤ b && b ≤ 0x66) || (0x41 ≤ b && b ≤ 0x46)

def hexVal (b : UInt8) : Nat :=
  if b ≤ 0x39 then b.toNat - 0x30 else if b ≤ 0x46 then b.toNat - 0x37 else b.toNat - 0x57

def hex4 (a b c d : UInt8) : Nat := ((hexVal a * 16 + hexVal b) * 16 + hexVal c) * 16 + hexVal d

/-- `utf8.EncodeRune` of a code point that is no surrogate. -/
def encodeRune (n : Nat) : Bytes :=
  if n < 0x80 then [n.toUInt8]
  else if n < 0x800 then [(0xC0 + n / 64).toUInt8, (0x80 + n % 64).toUInt8]
  else if n < 0x10000 then
    [(0xE0 + n / 4096).toUInt8, (0x80 + n / 64 % 64).toUInt8, (0x80 + n % 64).toUInt8]
  else
    [(0xF0 + n / 262144).toUInt8, (0x80 + n / 4096 % 64).toUInt8, (0x80 + n / 64 % 64).toUInt8,
      (0x80 + n % 64).toUInt8]

/-- The first byte of a rune: all of it, when it is below `80`. -/
def lead : Rune → UInt8
  | .ascii b _ | .two b _ _ | .three b _ _ _ | .four b _ _ _ _ | .bad b _ => b

/-- The byte a one-letter escape stands for. -/
def unescapeByte (b : UInt8) : UInt8 :=
  if b = 0x62 then 0x08
  else if b = 0x66 then 0x0C
  else if b = 0x6E then 0x0A
  else if b = 0x72 then 0x0D
  else if b = 0x74 then 0x09
  else b

/-- The second half of a surrogate pair, when a `\uXXXX` in `DC00`–`DFFF` stands
at the head of `rs`. -/
def lowSurrogate (rs : List Rune) : Option Nat :=
  match rs.map lead with
  | x :: y :: a :: b :: c :: d :: _ =>
    if x = 0x5C ∧ y = 0x75 ∧ isHex a ∧ isHex b ∧ isHex c ∧ isHex d ∧
        0xDC00 ≤ hex4 a b c d ∧ hex4 a b c d ≤ 0xDFFF then
      some (hex4 a b c d - 0xDC00)
    else none
  | _ => none

/-- What the escape after a backslash stands for, and how many runes it takes.
A surrogate without its other half is U+FFFD. -/
def readEscape (rs : List Rune) : Bytes × Nat :=
  match rs.map lead with
  | e :: t =>
    if e = 0x75 then
      match t with
      | a :: b :: c :: d :: _ =>
        let u := hex4 a b c d
        if 0xD800 ≤ u ∧ u ≤ 0xDFFF then
          match lowSurrogate (rs.drop 5) with
          | some lo => if u ≤ 0xDBFF then (encodeRune (0x10000 + (u - 0xD800) * 1024 + lo), 11) else (runeError, 5)
          | none => (runeError, 5)
        else (encodeRune u, 5)
      | _ => ([], 0)
    else ([unescapeByte e], 1)
  | [] => ([], 0)

/-- Reads a string's runes, `skip` runes on: the rest of the escape last read. -/
def unescape : Nat → List Rune → Bytes
  | _, [] => []
  | 0, r :: rs =>
    if lead r = 0x5C then (readEscape rs).1 ++ unescape (readEscape rs).2 rs
    else r.coerce ++ unescape 0 rs
  | skip + 1, _ :: rs => unescape skip rs

/-- `unquote`, of what stands between the quotes. -/
def unquote (raw : Bytes) : Bytes := unescape 0 (runes raw)

theorem runes_ascii {a : UInt8} (h : a < 0x80) (t : Bytes) : runes (a :: t) = .ascii a h :: runes t :=
  runes_bytes_append (r := .ascii a h) rfl t

/-- A `\uXXXX` that is no surrogate is read as its code point. -/
theorem unescape_u {a b c d : UInt8} (ha : a < 0x80) (hb : b < 0x80) (hc : c < 0x80) (hd : d < 0x80)
    (hu : hex4 a b c d < 0xD800 ∨ 0xDFFF < hex4 a b c d) (t : Bytes) :
    unescape 0 (runes (0x5C :: 0x75 :: a :: b :: c :: d :: t)) =
      encodeRune (hex4 a b c d) ++ unescape 0 (runes t) := by
  have hs : ¬ (0xD800 ≤ hex4 a b c d ∧ hex4 a b c d ≤ 0xDFFF) := by omega
  simp [runes_ascii (a := 0x5C) (by decide), runes_ascii (a := 0x75) (by decide), runes_ascii ha,
    runes_ascii hb, runes_ascii hc, runes_ascii hd, unescape, lead, readEscape, hs]

/-- A one-letter escape is read as the byte it stands for. -/
theorem unescape_letter {e : UInt8} (he : e < 0x80) (hne : e ≠ 0x75) (t : Bytes) :
    unescape 0 (runes (0x5C :: e :: t)) = unescapeByte e :: unescape 0 (runes t) := by
  simp [runes_ascii (a := 0x5C) (by decide), runes_ascii he, unescape, lead, readEscape, hne]

/-- A well-formed rune other than a backslash is read as itself. -/
theorem unescape_bytes {r : Rune} (hr : r.isBad = false) (hl : lead r ≠ 0x5C) (t : Bytes) :
    unescape 0 (runes (r.bytes ++ t)) = r.coerce ++ unescape 0 (runes t) := by
  simp [runes_bytes_append hr, unescape, hl]

/-- The escape written for a byte below `80` is read back as that byte. -/
theorem unescape_escapeAscii {b : UInt8} (h : b < 0x80) (t : Bytes) :
    unescape 0 (runes (escapeAscii b ++ t)) = b :: unescape 0 (runes t) := by
  unfold escapeAscii
  split_ifs with h₁ h₂ h₃ h₄ h₅ h₆ h₇
  · exact unescape_bytes (r := .ascii b h) rfl (by simp only [lead]; rintro rfl; simp [htmlSafe] at h₁) t
  · rcases h₂ with rfl | rfl <;> exact unescape_letter (by decide) (by decide) t
  · subst h₃; exact unescape_letter (e := 0x62) (by decide) (by decide) t
  · subst h₄; exact unescape_letter (e := 0x66) (by decide) (by decide) t
  · subst h₅; exact unescape_letter (e := 0x6E) (by decide) (by decide) t
  · subst h₆; exact unescape_letter (e := 0x72) (by decide) (by decide) t
  · subst h₇; exact unescape_letter (e := 0x74) (by decide) (by decide) t
  · have hdig : ∀ n < 128, hexDigit (UInt8.ofNat n >>> 4) < 0x80 ∧ hexDigit (UInt8.ofNat n &&& 0x0F) < 0x80 ∧
        hex4 0x30 0x30 (hexDigit (UInt8.ofNat n >>> 4)) (hexDigit (UInt8.ofNat n &&& 0x0F)) = n := by decide
    have hlt : b.toNat < 128 := by simpa [UInt8.lt_iff_toNat_lt] using h
    obtain ⟨hx, hy, hval⟩ := hdig b.toNat hlt
    simp only [UInt8.ofNat_toNat] at hx hy hval
    refine (unescape_u (by decide) (by decide) hx hy (by omega) t).trans ?_
    rw [hval]
    simp [encodeRune, hlt]

/-- What is written for a rune is read back as the rune, coerced. -/
theorem unescape_escapeRune (r : Rune) (t : Bytes) :
    unescape 0 (runes (escapeRune r ++ t)) = r.coerce ++ unescape 0 (runes t) := by
  cases r with
  | ascii b h => exact unescape_escapeAscii h t
  | two a b h =>
    exact unescape_bytes (r := .two a b h) rfl (by simp only [lead]; rintro rfl; simp [isTwo] at h) t
  | four a b c d h =>
    exact unescape_bytes (r := .four a b c d h) rfl (by simp only [lead]; rintro rfl; simp [isFour] at h) t
  | bad b h =>
    exact unescape_u (a := 0x66) (b := 0x66) (c := 0x66) (d := 0x64) (by decide) (by decide) (by decide)
      (by decide) (by decide) t
  | three a b c h =>
    simp only [escapeRune]
    split
    · next hsep =>
      obtain ⟨rfl, rfl, rfl | rfl⟩ := hsep
      · exact unescape_u (a := 0x32) (b := 0x30) (c := 0x32) (d := 0x38) (by decide) (by decide) (by decide)
          (by decide) (by decide) t
      · exact unescape_u (a := 0x32) (b := 0x30) (c := 0x32) (d := 0x39) (by decide) (by decide) (by decide)
          (by decide) (by decide) t
    · exact unescape_bytes (r := .three a b c h) rfl (by simp only [lead]; rintro rfl; simp [isThree] at h) t

/-- **A string written and read back** is the string with each bad byte
replaced by U+FFFD. -/
theorem unquote_quoteBody (s : Bytes) : unquote (quoteBody s) = toValid s := by
  simp only [unquote, quoteBody, toValid]
  induction runes s with
  | nil => rfl
  | cons r rs ih => rw [List.flatMap_cons, unescape_escapeRune, ih, List.flatMap_cons]

/-- A string that was repaired is written no longer than before. -/
theorem length_quoteBody_toValid (s : Bytes) : (quoteBody (toValid s)).length ≤ (quoteBody s).length := by
  simp only [quoteBody, toValid]
  induction runes s with
  | nil => exact Nat.le_refl _
  | cons r rs ih =>
    rw [List.flatMap_cons, List.flatMap_cons, List.length_append]
    by_cases hr : r.isBad = true
    · have hw : isThree 0xEF 0xBF 0xBD = true := by decide
      have hcoerce : r.coerce = (Rune.three 0xEF 0xBF 0xBD hw).bytes ∧ (escapeRune r).length = 6 := by
        cases r <;> first | exact ⟨rfl, rfl⟩ | cases hr
      rw [hcoerce.1, runes_bytes_append rfl, List.flatMap_cons, List.length_append, hcoerce.2]
      have hthree : (escapeRune (.three 0xEF 0xBF 0xBD hw)).length = 3 := rfl
      omega
    · have hr := Bool.eq_false_iff.2 hr
      rw [r.coerce_eq_bytes hr, runes_bytes_append hr, List.flatMap_cons, List.length_append]
      omega

/-- A plain string: no byte of it is escaped. -/
def Plain (s : Bytes) : Prop := ∀ c ∈ s, c < 0x80 ∧ htmlSafe c = true

theorem Plain.quoteBody {s : Bytes} (h : Plain s) : quoteBody s = s := by
  induction s with
  | nil => rfl
  | cons c s ih =>
    obtain ⟨⟨hascii, hsafe⟩, hs⟩ := List.forall_mem_cons.1 h
    have ih := ih hs
    rw [Json.quoteBody] at ih ⊢
    rw [runes_ascii hascii, List.flatMap_cons, ih, escapeRune, escapeAscii, if_pos hsafe, List.singleton_append]

theorem Plain.valid {s : Bytes} (h : Plain s) : validUtf8 s = true := by
  induction s with
  | nil => rfl
  | cons c s ih =>
    obtain ⟨⟨hascii, -⟩, hs⟩ := List.forall_mem_cons.1 h
    have ih := ih hs
    rw [validUtf8] at ih ⊢
    rw [runes_ascii hascii, List.all_cons, ih]
    rfl

/-! ## Integers -/

def isDigit (b : UInt8) : Bool := 0x30 ≤ b && b ≤ 0x39

def digitByte (d : Nat) : UInt8 := 0x30 + d.toUInt8

def formatNat (n : Nat) : Bytes :=
  if n = 0 then [0x30] else ((Nat.digits 10 n).reverse).map digitByte

/-- `strconv.AppendInt` in base ten. -/
def formatInt (i : Int) : Bytes :=
  if i < 0 then 0x2D :: formatNat i.natAbs else formatNat i.natAbs

def parseNat (s : Bytes) : Option Nat :=
  if s ≠ [] ∧ s.all isDigit = true then some (s.foldl (fun n b => 10 * n + (b.toNat - 0x30)) 0) else none

/-- The 64-bit integer `i`, when it is in range. -/
def int64? (i : Int) : Option Int64 := if -2 ^ 63 ≤ i ∧ i < 2 ^ 63 then some (Int64.ofInt i) else none

/-- `strconv.ParseInt(s, 10, 64)`: an optional sign and digits alone, in range. -/
def parseInt64 : Bytes → Option Int64
  | [] => none
  | b :: t =>
    if b = 0x2D then (parseNat t).bind fun n => int64? (-n)
    else if b = 0x2B then (parseNat t).bind fun n => int64? n
    else (parseNat (b :: t)).bind fun n => int64? n

theorem digitByte_spec : ∀ d < 10, isDigit (digitByte d) = true ∧ (digitByte d).toNat - 0x30 = d := by decide

theorem mem_digits_lt {n d : Nat} (h : d ∈ Nat.digits 10 n) : d < 10 := Nat.digits_lt_base (by omega) h

theorem formatNat_isDigit {n : Nat} {b : UInt8} (hb : b ∈ formatNat n) : isDigit b = true := by
  unfold formatNat at hb
  split at hb
  · simp only [List.mem_singleton] at hb; subst hb; decide
  · simp only [List.mem_map, List.mem_reverse] at hb
    obtain ⟨d, hd, rfl⟩ := hb
    exact (digitByte_spec d (mem_digits_lt hd)).1

theorem formatNat_ne_nil (n : Nat) : formatNat n ≠ [] := by
  unfold formatNat
  split
  · simp
  · next h => simpa [Nat.digits_ne_nil_iff_ne_zero] using h

/-- A formatted number is a lone `0`, or starts with another digit. -/
theorem formatNat_head (n : Nat) : formatNat n = [0x30] ∨ ∃ b t, formatNat n = b :: t ∧ b ≠ 0x30 := by
  unfold formatNat
  split
  · exact .inl rfl
  · next h =>
    have hne : Nat.digits 10 n ≠ [] := Nat.digits_ne_nil_iff_ne_zero.2 h
    have hlast := Nat.getLast_digit_ne_zero 10 h
    have hlt := mem_digits_lt (List.getLast_mem hne)
    refine .inr ⟨digitByte ((Nat.digits 10 n).getLast hne), ((Nat.digits 10 n).dropLast.reverse).map digitByte,
      ?_, ?_⟩
    · conv_lhs => rw [← List.dropLast_append_getLast hne]
      simp
    · have hz : ∀ d < 10, d ≠ 0 → digitByte d ≠ 0x30 := by decide
      exact hz _ hlt hlast

theorem foldl_digitByte (l : List Nat) (hl : ∀ d ∈ l, d < 10) :
    (l.reverse.map digitByte).foldl (fun n b => 10 * n + (b.toNat - 0x30)) 0 = Nat.ofDigits 10 l := by
  induction l with
  | nil => rfl
  | cons d l ih =>
    simp only [List.reverse_cons, List.map_append, List.map_cons, List.map_nil, List.foldl_append,
      List.foldl_cons, List.foldl_nil]
    rw [ih fun x hx => hl x (by simp [hx]), (digitByte_spec d (hl d (by simp))).2, Nat.ofDigits_cons]
    exact Nat.add_comm _ _

theorem parseNat_formatNat (n : Nat) : parseNat (formatNat n) = some n := by
  have hall : (formatNat n).all isDigit = true := List.all_eq_true.2 fun b hb => formatNat_isDigit hb
  rw [parseNat, if_pos ⟨formatNat_ne_nil n, hall⟩]
  unfold formatNat
  split
  · next h => subst h; rfl
  · rw [foldl_digitByte _ fun d hd => mem_digits_lt hd, Nat.ofDigits_digits]

theorem int64?_toInt (i : Int64) : int64? i.toInt = some i := by
  rw [int64?, if_pos ⟨Int64.le_toInt i, Int64.toInt_lt i⟩, Int64.ofInt_toInt]

/-- **An integer written and read back** is itself. -/
theorem parseInt64_formatInt (i : Int64) : parseInt64 (formatInt i.toInt) = some i := by
  unfold formatInt
  split
  · next hneg =>
    have habs : -(i.toInt.natAbs : Int) = i.toInt := by omega
    rw [parseInt64, if_pos rfl, parseNat_formatNat, Option.bind_some, habs, int64?_toInt]
  · next hneg =>
    obtain ⟨b, t, hbt⟩ := List.exists_cons_of_ne_nil (formatNat_ne_nil i.toInt.natAbs)
    have hdig : isDigit b = true := formatNat_isDigit (n := i.toInt.natAbs) (by rw [hbt]; simp)
    have hminus : b ≠ 0x2D := by rintro rfl; simp [isDigit] at hdig
    have hplus : b ≠ 0x2B := by rintro rfl; simp [isDigit] at hdig
    have habs : (i.toInt.natAbs : Int) = i.toInt := by omega
    rw [hbt, parseInt64, if_neg hminus, if_neg hplus, ← hbt, parseNat_formatNat, Option.bind_some, habs,
      int64?_toInt]

end Lib.Json
