/-
Byte strings and UTF-8, as Go sees them: a string is any sequence of bytes,
and reading it rune by rune either finds a well-formed sequence of one to
four bytes or steps over a single bad byte.

`runes` splits a string so; `validUtf8` says it met no bad byte, and
`toValid` is the string with every bad byte replaced by U+FFFD.
-/
import Mathlib.Data.List.Basic
import Mathlib.Data.Nat.Init

namespace Lib

/-- A Go string or byte slice. -/
abbrev Bytes := List UInt8

/-- The bytes of a literal. -/
def str (s : String) : Bytes := s.toUTF8.data.toList

/-- A continuation byte, `80`–`BF`. -/
def isCont (b : UInt8) : Bool := 0x80 ≤ b && b ≤ 0xBF

def isTwo (a b : UInt8) : Bool := 0xC2 ≤ a && a ≤ 0xDF && isCont b

/-- Three bytes: no overlong form after `E0`, no surrogate after `ED`. -/
def isThree (a b c : UInt8) : Bool :=
  0xE0 ≤ a && a ≤ 0xEF && isCont b && isCont c && (a != 0xE0 || 0xA0 ≤ b) && (a != 0xED || b ≤ 0x9F)

/-- Four bytes: no overlong form after `F0`, nothing above U+10FFFF after `F4`. -/
def isFour (a b c d : UInt8) : Bool :=
  0xF0 ≤ a && a ≤ 0xF4 && isCont b && isCont c && isCont d && (a != 0xF0 || 0x90 ≤ b) &&
    (a != 0xF4 || b ≤ 0x8F)

/-- What reading one rune finds. -/
inductive Rune
  | ascii (b : UInt8) (h : b < 0x80)
  | two (a b : UInt8) (h : isTwo a b = true)
  | three (a b c : UInt8) (h : isThree a b c = true)
  | four (a b c d : UInt8) (h : isFour a b c d = true)
  | bad (b : UInt8) (h : 0x80 ≤ b)
  deriving DecidableEq

/-- The bytes a rune was read from. -/
def Rune.bytes : Rune → Bytes
  | .ascii b _ => [b]
  | .two a b _ => [a, b]
  | .three a b c _ => [a, b, c]
  | .four a b c d _ => [a, b, c, d]
  | .bad b _ => [b]

/-- The rune at the head of `a :: t` (`utf8.DecodeRune`). -/
def readRune (a : UInt8) (t : Bytes) : Rune :=
  if h : a < 0x80 then .ascii a h
  else
    have h : 0x80 ≤ a := UInt8.not_lt.mp h
    match t with
    | [] => .bad a h
    | b :: t =>
      if h₂ : isTwo a b then .two a b h₂
      else match t with
        | [] => .bad a h
        | c :: t =>
          if h₃ : isThree a b c then .three a b c h₃
          else match t with
            | [] => .bad a h
            | d :: _ => if h₄ : isFour a b c d then .four a b c d h₄ else .bad a h

/-- The runes of a string, `skip` bytes on: the rest of the rune last read. -/
def runesFrom : Nat → Bytes → List Rune
  | _, [] => []
  | 0, a :: t => readRune a t :: runesFrom ((readRune a t).bytes.length - 1) t
  | skip + 1, _ :: t => runesFrom skip t

/-- A string as its runes: a byte no well-formed sequence starts at is a rune
of its own, and reading goes on at the next. -/
def runes (s : Bytes) : List Rune := runesFrom 0 s

/-- U+FFFD. -/
def runeError : Bytes := [0xEF, 0xBF, 0xBD]

/-- The bytes a rune is written back as. -/
def Rune.coerce : Rune → Bytes
  | .bad _ _ => runeError
  | r => r.bytes

def Rune.isBad : Rune → Bool
  | .bad _ _ => true
  | _ => false

/-- `utf8.Valid`. -/
def validUtf8 (s : Bytes) : Bool := (runes s).all (!·.isBad)

/-- `strings.ToValidUTF8` with U+FFFD, one for each bad byte. -/
def toValid (s : Bytes) : Bytes := (runes s).flatMap Rune.coerce

/-- `unicode.IsSpace`. -/
def Rune.isSpace : Rune → Bool
  | .ascii b _ => b = 0x20 || (0x09 ≤ b && b ≤ 0x0D)
  | .two a b _ => a = 0xC2 && (b = 0x85 || b = 0xA0)
  | .three a b c _ =>
    a = 0xE1 && b = 0x9A && c = 0x80 ||
      a = 0xE2 && b = 0x80 && (c ≤ 0x8A || c = 0xA8 || c = 0xA9 || c = 0xAF) ||
      a = 0xE2 && b = 0x81 && c = 0x9F ||
      a = 0xE3 && b = 0x80 && c = 0x80
  | _ => false

/-- `strings.TrimSpace`. -/
def trimSpace (s : Bytes) : Bytes :=
  ((((runes s).dropWhile Rune.isSpace).reverse.dropWhile Rune.isSpace).reverse).flatMap Rune.bytes

/-! ## Reading back what was written -/

@[simp] theorem runes_nil : runes [] = [] := rfl

theorem runesFrom_append (l t : Bytes) : runesFrom l.length (l ++ t) = runes t := by
  induction l with
  | nil => rfl
  | cons a l ih => exact ih

theorem isTwo_lead {a b : UInt8} (h : isTwo a b = true) : ¬ a < 0x80 := by
  grind [isTwo]

theorem isThree_lead {a b c : UInt8} (h : isThree a b c = true) : ¬ a < 0x80 ∧ ¬ isTwo a b = true := by
  grind [isTwo, isThree]

theorem isFour_lead {a b c d : UInt8} (h : isFour a b c d = true) :
    ¬ a < 0x80 ∧ ¬ isTwo a b = true ∧ ¬ isThree a b c = true := by
  grind [isTwo, isThree, isFour]

/-- A well-formed rune is read back whatever follows it. -/
theorem runes_bytes_append {r : Rune} (hr : r.isBad = false) (t : Bytes) :
    runes (r.bytes ++ t) = r :: runes t := by
  cases r with
  | bad => simp [Rune.isBad] at hr
  | ascii a h => simp [runes, runesFrom, readRune, h, Rune.bytes]
  | two a b h =>
    have hread : readRune a (b :: t) = .two a b h := by simp [readRune, isTwo_lead h, h]
    simp only [runes, Rune.bytes, List.cons_append, List.nil_append, runesFrom, hread]
    exact congrArg _ (runesFrom_append [b] t)
  | three a b c h =>
    obtain ⟨h₁, h₂⟩ := isThree_lead h
    have hread : readRune a (b :: c :: t) = .three a b c h := by simp [readRune, h₁, h₂, h]
    simp only [runes, Rune.bytes, List.cons_append, List.nil_append, runesFrom, hread]
    exact congrArg _ (runesFrom_append [b, c] t)
  | four a b c d h =>
    obtain ⟨h₁, h₂, h₃⟩ := isFour_lead h
    have hread : readRune a (b :: c :: d :: t) = .four a b c d h := by simp [readRune, h₁, h₂, h₃, h]
    simp only [runes, Rune.bytes, List.cons_append, List.nil_append, runesFrom, hread]
    exact congrArg _ (runesFrom_append [b, c, d] t)

/-- Well-formed runes are read back. -/
theorem runes_flatMap_bytes {rs : List Rune} (h : ∀ r ∈ rs, r.isBad = false) : runes (rs.flatMap Rune.bytes) = rs := by
  induction rs with
  | nil => rfl
  | cons r rs ih =>
    rw [List.flatMap_cons, runes_bytes_append (h r (by simp)), ih fun r hr => h r (by simp [hr])]

/-- The rune at the head is the bytes it stands at. -/
theorem readRune_prefix (a : UInt8) (t : Bytes) :
    (readRune a t).bytes ++ t.drop ((readRune a t).bytes.length - 1) = a :: t := by
  unfold readRune
  split
  · simp [Rune.bytes]
  split
  · simp [Rune.bytes]
  split
  · simp [Rune.bytes]
  split
  · simp [Rune.bytes]
  split
  · simp [Rune.bytes]
  split
  · simp [Rune.bytes]
  split <;> simp [Rune.bytes]

theorem runesFrom_drop (n : Nat) (s : Bytes) : runesFrom n s = runes (s.drop n) := by
  induction s generalizing n with
  | nil => cases n <;> rfl
  | cons a s ih =>
    cases n with
    | zero => rfl
    | succ n => simpa [runesFrom] using ih n

/-- Reading a string rune by rune: the first rune, then the runes after it. -/
theorem runes_cons (a : UInt8) (t : Bytes) :
    runes (a :: t) = readRune a t :: runes (t.drop ((readRune a t).bytes.length - 1)) := by
  rw [← runesFrom_drop]; rfl

theorem Rune.bytes_ne_nil (r : Rune) : r.bytes ≠ [] := by cases r <;> simp [Rune.bytes]

/-- Induction on a string rune by rune. -/
theorem runes_induction {P : Bytes → Prop} (nil : P [])
    (cons : ∀ r t, runes (r.bytes ++ t) = r :: runes t → P t → P (r.bytes ++ t)) : ∀ s, P s := by
  intro s
  induction hn : s.length using Nat.strong_induction_on generalizing s with
  | _ n ih =>
    cases s with
    | nil => exact nil
    | cons a t =>
      have hp := readRune_prefix a t
      have hc := runes_cons a t
      rw [← hp] at hc ⊢
      refine cons _ _ hc (ih _ ?_ _ rfl)
      simp only [List.length_drop, ← hn, List.length_cons]
      omega

/-- Nothing is lost between the runes. -/
theorem flatMap_bytes_runes (s : Bytes) : (runes s).flatMap Rune.bytes = s := by
  induction s using runes_induction with
  | nil => rfl
  | cons r t hr ih => rw [hr, List.flatMap_cons, ih]

theorem Rune.coerce_eq_bytes {r : Rune} (h : r.isBad = false) : r.coerce = r.bytes := by
  cases r <;> first | rfl | simp [Rune.isBad] at h

/-- A well-formed string needs no coercion. -/
theorem toValid_eq_self {s : Bytes} (h : validUtf8 s = true) : toValid s = s := by
  simp only [validUtf8, List.all_eq_true, Bool.not_eq_true'] at h
  calc toValid s = (runes s).flatMap Rune.bytes := by
        simp only [toValid, List.flatMap]
        exact congrArg _ (List.map_congr_left fun r hr => Rune.coerce_eq_bytes (h r hr))
    _ = s := flatMap_bytes_runes s

/-- A coercion is read back as well-formed runes only. -/
theorem runes_coerce_append (r : Rune) (t : Bytes) :
    ∃ r', r'.isBad = false ∧ r'.bytes = r.coerce ∧ runes (r.coerce ++ t) = r' :: runes t := by
  cases h : r.isBad with
  | false => exact ⟨r, h, (r.coerce_eq_bytes h).symm, by rw [r.coerce_eq_bytes h, runes_bytes_append h]⟩
  | true =>
    have hw : isThree 0xEF 0xBF 0xBD = true := by decide
    have hc : r.coerce = (Rune.three 0xEF 0xBF 0xBD hw).bytes := by
      cases r <;> first | rfl | simp [Rune.isBad] at h
    exact ⟨_, rfl, hc.symm, by rw [hc, runes_bytes_append rfl]⟩

theorem validUtf8_toValid (s : Bytes) : validUtf8 (toValid s) = true := by
  simp only [toValid]
  induction runes s with
  | nil => rfl
  | cons r rs ih =>
    obtain ⟨r', hr', -, hrun⟩ := runes_coerce_append r (rs.flatMap Rune.coerce)
    simp only [validUtf8, List.flatMap_cons, hrun, List.all_cons, hr', Bool.not_false, Bool.true_and]
    exact ih

end Lib
