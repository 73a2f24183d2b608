/-
Text as lines, read the way `bufio.Scanner` reads it.

`scanLines_encode`: lines written each with its line break, and perhaps a last
one without, are the lines read back, up to the first that is too long.
-/
import ScrewLogger.Lib.Json.Scanner

namespace Lib

def newline : UInt8 := 0x0A

/-- The lines of a text without their line breaks, and what follows the last. -/
def splitLines : Bytes → List Bytes × Bytes
  | [] => ([], [])
  | c :: s =>
    let (lines, rest) := splitLines s
    if c = newline then ([] :: lines, rest)
    else
      match lines with
      | [] => ([], c :: rest)
      | line :: lines => ((c :: line) :: lines, rest)

/-- A carriage return before the line break is dropped. -/
def dropCR (line : Bytes) : Bytes := if line.getLast? = some 0x0D then line.dropLast else line

/-- `bufio.MaxScanTokenSize`. -/
def maxScanTokenSize : Nat := 0x10000

inductive ScanError
  | tooLong
  | read
  deriving DecidableEq

/-- What a scanner of lines finds, and the error it ends in. -/
@[ext] structure Scan where
  tokens : List Bytes
  err : Option ScanError

/-- A text without a line break at its end ends in a line, too. A line that
does not fit the scanner's buffer ends the scan, as does a read that fails. -/
def scanLines (r : Json.Reader) : Scan :=
  let (lines, rest) := splitLines r.data
  let lines := if rest = [] ∨ r.broken then lines else lines ++ [rest]
  { tokens := (lines.takeWhile (·.length < maxScanTokenSize)).map dropCR
    err :=
      if lines.any (maxScanTokenSize ≤ ·.length) then some .tooLong
      else if r.broken then some .read
      else none }

/-! ## Reading what was written -/

/-- The lines, each with a line break. -/
def encodeLines (lines : List Bytes) : Bytes := lines.flatMap (· ++ [newline])

@[simp] theorem encodeLines_append {lines lines' : List Bytes} :
    encodeLines (lines ++ lines') = encodeLines lines ++ encodeLines lines' := List.flatMap_append

@[simp] theorem encodeLines_cons {line : Bytes} {lines : List Bytes} :
    encodeLines (line :: lines) = line ++ newline :: encodeLines lines := by
  simp [encodeLines]

theorem splitLines_line {line s : Bytes} (h : newline ∉ line) :
    splitLines (line ++ newline :: s) = (line :: (splitLines s).1, (splitLines s).2) := by
  induction line with
  | nil => simp [splitLines]
  | cons c line ih =>
    rw [List.mem_cons, not_or] at h
    rw [List.cons_append, splitLines, ih h.2]
    exact if_neg (Ne.symm h.1)

theorem splitLines_rest {s : Bytes} (h : newline ∉ s) : splitLines s = ([], s) := by
  induction s with
  | nil => rfl
  | cons c s ih =>
    rw [List.mem_cons, not_or] at h
    rw [splitLines, ih h.2]
    exact if_neg (Ne.symm h.1)

theorem splitLines_encode {lines : List Bytes} {rest : Bytes} (h : ∀ line ∈ lines, newline ∉ line)
    (hrest : newline ∉ rest) : splitLines (encodeLines lines ++ rest) = (lines, rest) := by
  induction lines with
  | nil => exact splitLines_rest hrest
  | cons line lines ih =>
    rw [List.forall_mem_cons] at h
    rw [encodeLines_cons, List.append_assoc, List.cons_append, splitLines_line h.1, ih h.2]

/-- A line of no control characters. -/
def Printable (line : Bytes) : Prop := ∀ c ∈ line, 0x20 ≤ c

theorem Printable.newline_notMem {line : Bytes} (h : Printable line) : newline ∉ line := fun hmem =>
  absurd (h _ hmem) (by decide)

theorem Printable.dropCR {line : Bytes} (h : Printable line) : dropCR line = line := by
  refine if_neg fun hlast => ?_
  exact absurd (h _ (List.mem_of_getLast? hlast)) (by decide)

/-- **Reading lines back.** -/
theorem scanLines_encode {lines : List Bytes} {rest : Bytes} (h : ∀ line ∈ lines, Printable line)
    (hrest : Printable rest) :
    let all := if rest = [] then lines else lines ++ [rest]
    (scanLines ⟨encodeLines lines ++ rest, false⟩).tokens = all.takeWhile (·.length < maxScanTokenSize) ∧
      (scanLines ⟨encodeLines lines ++ rest, false⟩).err =
        if all.any (maxScanTokenSize ≤ ·.length) then some .tooLong else none := by
  intro all
  have hsplit := splitLines_encode (fun l hl => (h l hl).newline_notMem) hrest.newline_notMem
  have hall : ∀ line ∈ all, Printable line := by
    intro line hline
    simp only [all] at hline
    split at hline
    · exact h line hline
    · rw [List.mem_append, List.mem_singleton] at hline
      obtain hline | rfl := hline
      · exact h line hline
      · exact hrest
  simp only [scanLines, hsplit, Bool.false_eq_true, or_false, if_false]
  refine ⟨?_, rfl⟩
  refine (List.map_congr_left fun line hline => ?_).trans (List.map_id _)
  exact (hall line (List.takeWhile_subset _ hline)).dropCR

end Lib
