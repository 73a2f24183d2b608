/-
A scanner of lines that reads its input in pieces, into a buffer of a fixed size.

`scanChunks_eq`: however the input is cut into pieces, the lines that come out
are those of the whole text, up to the first that does not fit the buffer.
-/
import ScrewLogger.Lib.Lines
import Mathlib.Data.List.TakeWhile
import Mathlib.Tactic.Common

namespace Lib

/-- Stopping at the first that fails `p` costs nothing where none that meets `p`
and counts comes after it. -/
theorem filterMap_takeWhile_iff {α β : Type} (p : α → Bool) (f : α → Option β) {l : List α} :
    (l.takeWhile p).filterMap f = (l.filter p).filterMap f ↔ ∀ x ∈ l.dropWhile p, p x = true → f x = none := by
  have htake : (l.takeWhile p).filter p = l.takeWhile p := List.filter_eq_self.2 fun _ hx => List.mem_takeWhile_imp hx
  have hsplit : l.filter p = l.takeWhile p ++ (l.dropWhile p).filter p := by
    nth_rewrite 1 [← htake]
    rw [← List.filter_append, List.takeWhile_append_dropWhile]
  rw [hsplit, List.filterMap_append, List.self_eq_append_right, List.filterMap_eq_nil_iff]
  simp only [List.mem_filter, and_imp]

/-- What comes before the first line break, and what after. -/
def cutLine : Bytes → Option (Bytes × Bytes)
  | [] => none
  | c :: s => if c = newline then some ([], s) else (cutLine s).map fun x => (c :: x.1, x.2)

theorem cutLine_eq_some : ∀ {s line rest : Bytes}, cutLine s = some (line, rest) →
    s = line ++ newline :: rest ∧ newline ∉ line
  | [], _, _, h => by cases h
  | c :: s, line, rest, h => by
    rw [cutLine] at h
    by_cases hc : c = newline
    · rw [if_pos hc] at h
      cases h
      exact ⟨by rw [hc]; rfl, List.not_mem_nil⟩
    · rw [if_neg hc] at h
      obtain ⟨x, hx, heq⟩ := Option.map_eq_some_iff.1 h
      cases heq
      obtain ⟨hs, hline⟩ := cutLine_eq_some hx
      refine ⟨by rw [List.cons_append, ← hs], fun hmem => ?_⟩
      rcases List.mem_cons.1 hmem with hmem | hmem
      · exact hc hmem.symm
      · exact hline hmem

theorem cutLine_eq_none : ∀ {s : Bytes}, cutLine s = none → newline ∉ s
  | [], _ => List.not_mem_nil
  | c :: s, h => by
    rw [cutLine] at h
    by_cases hc : c = newline
    · rw [if_pos hc] at h
      cases h
    · rw [if_neg hc, Option.map_eq_none_iff] at h
      intro hmem
      rcases List.mem_cons.1 hmem with hmem | hmem
      · exact hc hmem.symm
      · exact cutLine_eq_none h hmem

/-- How many bytes and pieces are to come. -/
def toCome (chunks : List Bytes) : Nat := (chunks.map (·.length)).sum + chunks.length

/-- What is held moves to the buffer's front when it reaches the buffer's end or
half the buffer is used up. -/
def moveUp (size start : Nat) (held : Bytes) : Nat :=
  if start + held.length = size ∨ size / 2 < start then 0 else start

/-- How a scanner of lines goes on. -/
inductive Scanning
  /-- It has a line, and `rest` after it. -/
  | token (line : Bytes) (start : Nat) (rest : Bytes)
  /-- The buffer is full, and no line in it. -/
  | full
  /-- It reads `room` bytes at most. -/
  | read (start room : Nat)

/-- `Scan` of a scanner with a buffer of `size` bytes: `held` is what it has read
and not yet returned, and `start` where in the buffer that begins. -/
def scanNext (size start : Nat) (held : Bytes) : Scanning :=
  match cutLine held with
  | some (line, rest) => .token line (start + line.length + 1) rest
  | none =>
    if size ≤ moveUp size start held + held.length then .full
    else .read (moveUp size start held) (size - (moveUp size start held + held.length))

theorem scanNext_eq_token {size start start' : Nat} {held line rest : Bytes}
    (h : scanNext size start held = .token line start' rest) :
    held = line ++ newline :: rest ∧ newline ∉ line ∧ start' + rest.length = start + held.length := by
  rw [scanNext] at h
  split at h
  · next hcut =>
    cases h
    obtain ⟨rfl, hline⟩ := cutLine_eq_some hcut
    refine ⟨rfl, hline, ?_⟩
    rw [List.length_append, List.length_cons]
    omega
  · split at h <;> cases h

/-- What is held stays inside the buffer, and fills it only alone. -/
theorem moveUp_add {size start : Nat} {held : Bytes} (hheld : start + held.length ≤ size) :
    moveUp size start held + held.length ≤ size ∧
      (size ≤ moveUp size start held + held.length → size ≤ held.length) := by
  rw [moveUp]
  split
  · omega
  · omega

theorem scanNext_eq_full {size start : Nat} {held : Bytes} (hheld : start + held.length ≤ size)
    (h : scanNext size start held = .full) : size ≤ held.length ∧ newline ∉ held := by
  rw [scanNext] at h
  split at h
  · cases h
  · next hcut =>
    split at h
    · next hfull => exact ⟨(moveUp_add hheld).2 hfull, cutLine_eq_none hcut⟩
    · cases h

theorem scanNext_eq_read {size start start' room : Nat} {held : Bytes} (hheld : start + held.length ≤ size)
    (h : scanNext size start held = .read start' room) :
    newline ∉ held ∧ 0 < room ∧ start' + held.length + room = size := by
  rw [scanNext] at h
  split at h
  · cases h
  · next hcut =>
    split at h
    · cases h
    · cases h
      have hfits := (moveUp_add hheld).1
      refine ⟨cutLine_eq_none hcut, by omega, by omega⟩

/-- `bufio.Scanner` on the pieces that the reads to come bring. A read that brings
nothing is the end of the text. -/
def scanChunks (size start : Nat) (held : Bytes) (chunks : List Bytes) : Scan :=
  match _hscan : scanNext size start held with
  | .token line start rest =>
    let scan := scanChunks size start rest chunks
    { scan with tokens := dropCR line :: scan.tokens }
  | .full => ⟨[], some .tooLong⟩
  | .read start room =>
    match chunks with
    | [] | [] :: _ => ⟨if held = [] then [] else [dropCR held], none⟩
    | (b :: c) :: chunks =>
      if (b :: c).length ≤ room then scanChunks size start (held ++ b :: c) chunks
      else scanChunks size start (held ++ (b :: c).take room) ((b :: c).drop room :: chunks)
termination_by (toCome chunks, held.length)
decreasing_by
  · obtain ⟨hs, -⟩ := scanNext_eq_token _hscan
    have hlength := congrArg List.length hs
    simp only [List.length_append, List.length_cons] at hlength
    exact Prod.Lex.right _ (by omega)
  · refine Prod.Lex.left _ _ ?_
    simp only [toCome, List.map_cons, List.sum_cons, List.length_cons]
    omega
  · have hroom : 0 < room := by
      rw [scanNext] at _hscan
      split at _hscan
      · cases _hscan
      · split at _hscan <;> cases _hscan
        omega
    refine Prod.Lex.left _ _ ?_
    simp only [toCome, List.map_cons, List.sum_cons, List.length_cons, List.length_drop]
    omega

/-- The lines of a text, the last perhaps without a line break. -/
def textLines (s : Bytes) : List Bytes :=
  let (lines, rest) := splitLines s
  if rest = [] then lines else lines ++ [rest]

/-- The lines up to the first that does not fit a buffer of `size` bytes. -/
def fitting (size : Nat) (lines : List Bytes) : Scan where
  tokens := (lines.takeWhile (·.length < size)).map dropCR
  err := if lines.any (size ≤ ·.length) then some .tooLong else none

variable {size : Nat} {line s : Bytes} {lines : List Bytes}

/-- A line that fits. -/
theorem fitting_cons (hfits : line.length < size) :
    fitting size (line :: lines) = { fitting size lines with tokens := dropCR line :: (fitting size lines).tokens } := by
  have hshort : ¬size ≤ line.length := by omega
  simp [fitting, hfits, hshort]

/-- A line that does not. -/
theorem fitting_tooLong (hlong : size ≤ line.length) : fitting size (line :: lines) = ⟨[], some .tooLong⟩ := by
  have hshort : ¬line.length < size := by omega
  simp [fitting, hlong, hshort]

@[simp] theorem textLines_nil : textLines [] = [] := rfl

theorem textLines_line (hline : newline ∉ line) : textLines (line ++ newline :: s) = line :: textLines s := by
  rw [textLines, splitLines_line hline, textLines]
  by_cases hrest : (splitLines s).2 = []
  · simp [hrest]
  · simp [hrest]

theorem textLines_rest (hne : s ≠ []) (hs : newline ∉ s) : textLines s = [s] := by
  rw [textLines, splitLines_rest hs]
  exact if_neg hne

/-- A text before the first line break belongs to the first line. -/
theorem splitLines_append (hline : newline ∉ line) : splitLines (line ++ s) =
    match (splitLines s).1 with
    | [] => ([], line ++ (splitLines s).2)
    | first :: lines => ((line ++ first) :: lines, (splitLines s).2) := by
  induction line with
  | nil =>
    rw [List.nil_append]
    cases splitLines s with
    | mk lines rest =>
      cases lines <;> rfl
  | cons c line ih =>
    rw [List.mem_cons, not_or] at hline
    rw [List.cons_append, splitLines, ih hline.2]
    cases (splitLines s).1 with
    | nil => exact if_neg (Ne.symm hline.1)
    | cons first lines => exact if_neg (Ne.symm hline.1)

theorem textLines_append (hne : line ≠ []) (hline : newline ∉ line) :
    ∃ more lines, textLines (line ++ s) = (line ++ more) :: lines := by
  rw [textLines, splitLines_append hline]
  cases (splitLines s).1 with
  | nil =>
    refine ⟨(splitLines s).2, [], ?_⟩
    exact if_neg (List.append_ne_nil_of_left_ne_nil hne _)
  | cons first lines =>
    dsimp only
    split
    · exact ⟨first, lines, rfl⟩
    · exact ⟨first, lines ++ [(splitLines s).2], rfl⟩

theorem textLines_encode (hlines : ∀ line ∈ lines, newline ∉ line) : textLines (encodeLines lines) = lines := by
  have hsplit : splitLines (encodeLines lines ++ []) = (lines, []) := splitLines_encode hlines List.not_mem_nil
  rw [List.append_nil] at hsplit
  rw [textLines, hsplit]
  rfl

theorem textLines_encode_append : ∀ {lines : List Bytes}, (∀ line ∈ lines, newline ∉ line) →
    textLines (encodeLines lines ++ s) = lines ++ textLines s
  | [], _ => rfl
  | line :: lines, h => by
    rw [List.forall_mem_cons] at h
    rw [encodeLines_cons, List.append_assoc, List.cons_append, textLines_line h.1, textLines_encode_append h.2,
      List.cons_append]

/-! ## A text in two parts -/

/-- Nothing is lost between the lines, and no line is left in one. -/
theorem encodeLines_splitLines : ∀ (s : Bytes), encodeLines (splitLines s).1 ++ (splitLines s).2 = s ∧
    (∀ line ∈ (splitLines s).1, newline ∉ line) ∧ newline ∉ (splitLines s).2
  | [] => ⟨rfl, fun _ h => absurd h List.not_mem_nil, List.not_mem_nil⟩
  | c :: s => by
    obtain ⟨hs, hlines, hrest⟩ := encodeLines_splitLines s
    have hcons : ∀ {l : Bytes}, c ≠ newline → newline ∉ l → newline ∉ c :: l := fun hc hl hmem =>
      (List.mem_cons.1 hmem).elim (fun heq => hc heq.symm) hl
    rw [splitLines]
    cases hcut : splitLines s with
    | mk lines rest =>
      rw [hcut] at hs hlines hrest
      dsimp only
      by_cases hc : c = newline
      · rw [if_pos hc]
        refine ⟨?_, List.forall_mem_cons.2 ⟨List.not_mem_nil, hlines⟩, hrest⟩
        rw [encodeLines_cons, List.nil_append, List.cons_append, hs, hc]
      · rw [if_neg hc]
        cases lines with
        | nil => exact ⟨congrArg (c :: ·) hs, fun _ h => absurd h List.not_mem_nil, hcons hc hrest⟩
        | cons line lines =>
          obtain ⟨hline, hlines⟩ := List.forall_mem_cons.1 hlines
          refine ⟨?_, List.forall_mem_cons.2 ⟨hcons hc hline, hlines⟩, hrest⟩
          rw [← hs, encodeLines_cons, encodeLines_cons]
          rfl

theorem splitLines_encode_append (hlines : ∀ line ∈ lines, newline ∉ line) :
    splitLines (encodeLines lines ++ s) = (lines ++ (splitLines s).1, (splitLines s).2) := by
  induction lines with
  | nil => rfl
  | cons line lines ih =>
    obtain ⟨hline, hlines⟩ := List.forall_mem_cons.1 hlines
    rw [encodeLines_cons, List.append_assoc, List.cons_append, splitLines_line hline, ih hlines, List.cons_append]

/-- The lines of the first part are lines of the whole; what follows them goes on
in the second part. -/
theorem splitLines_parts (s t : Bytes) : splitLines (s ++ t) =
    ((splitLines s).1 ++ (splitLines ((splitLines s).2 ++ t)).1, (splitLines ((splitLines s).2 ++ t)).2) := by
  obtain ⟨hs, hlines, -⟩ := encodeLines_splitLines s
  nth_rewrite 1 [← hs]
  rw [List.append_assoc, splitLines_encode_append hlines]

/-- **However a text is cut**, its lines come out up to the first that does not
fit the buffer. -/
theorem scanChunks_eq (hpos : 0 < size) {start : Nat} {held : Bytes} {chunks : List Bytes}
    (hheld : start + held.length ≤ size) (hread : [] ∉ chunks) :
    scanChunks size start held chunks = fitting size (textLines (held ++ chunks.flatten)) := by
  fun_induction scanChunks size start held chunks with
  | case1 start held chunks line start' rest hscan found ih =>
    obtain ⟨rfl, hline, hstart⟩ := scanNext_eq_token hscan
    rw [List.length_append, List.length_cons] at hheld hstart
    rw [List.append_assoc, List.cons_append, textLines_line hline, fitting_cons (by omega), ← ih (by omega) hread]
  | case2 start held chunks hscan =>
    obtain ⟨hlong, hline⟩ := scanNext_eq_full hheld hscan
    have hne : held ≠ [] := by
      rintro rfl
      rw [List.length_nil] at hlong
      omega
    obtain ⟨more, lines, heq⟩ := textLines_append (s := chunks.flatten) hne hline
    rw [heq, fitting_tooLong]
    rw [List.length_append]
    omega
  | case3 start held start' room hscan =>
    obtain ⟨hline, hroom, hstart⟩ := scanNext_eq_read hheld hscan
    rw [List.flatten_nil, List.append_nil]
    by_cases hne : held = []
    · rw [if_pos hne, hne]
      rfl
    · rw [if_neg hne, textLines_rest hne hline, fitting_cons (by omega)]
      rfl
  | case4 => exact absurd List.mem_cons_self hread
  | case5 start held start' room hscan b c chunks hbrief ih =>
    obtain ⟨-, -, hstart⟩ := scanNext_eq_read hheld hscan
    rw [ih ?_ fun hmem => hread (List.mem_cons_of_mem _ hmem), List.flatten_cons, List.append_assoc]
    rw [List.length_append]
    omega
  | case6 start held start' room hscan b c chunks hlong ih =>
    obtain ⟨-, -, hstart⟩ := scanNext_eq_read hheld hscan
    rw [ih ?_ ?_, List.flatten_cons, List.flatten_cons, List.append_assoc, ← List.append_assoc (List.take _ _),
      List.take_append_drop]
    · rw [List.length_append, List.length_take]
      omega
    · intro hmem
      rcases List.mem_cons.1 hmem with hnil | hmem
      · exact hlong (List.drop_eq_nil_iff.1 hnil.symm)
      · exact hread (List.mem_cons_of_mem _ hmem)

end Lib
