/-
A command line split into arguments, as a Go program's start does it on Windows
(`os.commandLineToArgv`), and the escaping that it undoes.

`argv_line`: the watcher that the service launches has the arguments it was to be
launched with, whatever bytes are in them. `argv_registered` is the same of the
service as the installer registers it.
-/
import ScrewLogger.Agent.Launch

namespace ScrewLogger
open Lib

/-- The next argument of a command line, and the rest. `slashes` backslashes have
been read that a double quote may give another meaning. -/
def readNextArg (inquote : Bool) (slashes : Nat) (arg : Bytes) : Bytes → Bytes × Bytes
  | [] => (arg ++ List.replicate slashes backslash, [])
  | c :: cmd =>
    if isBlank c && !inquote then (arg ++ List.replicate slashes backslash, cmd)
    else if c = doubleQuote then
      let arg := arg ++ List.replicate (slashes / 2) backslash
      if slashes % 2 = 0 then
        match inquote, cmd with
        -- two of them inside quotes are one, and end the quotes
        | true, c' :: cmd' =>
          if c' = doubleQuote then readNextArg false 0 (arg ++ [c]) cmd' else readNextArg false 0 arg (c' :: cmd')
        | inquote, cmd => readNextArg (!inquote) 0 arg cmd
      else readNextArg inquote 0 (arg ++ [c]) cmd
    else if c = backslash then readNextArg inquote (slashes + 1) arg cmd
    else readNextArg inquote 0 (arg ++ List.replicate slashes backslash ++ [c]) cmd

/-- At most `fuel` arguments and blanks between them. -/
def splitArgs : Nat → Bytes → List Bytes
  | 0, _ => []
  | _ + 1, [] => []
  | fuel + 1, c :: cmd =>
    if isBlank c then splitArgs fuel cmd
    else
      let (arg, rest) := readNextArg false 0 [] (c :: cmd)
      arg :: splitArgs fuel rest

/-- Each round takes a byte at least. -/
def commandLineToArgv (cmd : Bytes) : List Bytes := splitArgs cmd.length cmd

/-! ## Reading what was escaped -/

section
variable {inquote : Bool} {slashes : Nat} {arg tail : Bytes}

theorem backslash_ne_doubleQuote : backslash ≠ doubleQuote := by decide

theorem not_isBlank_backslash : isBlank backslash = false := by decide

theorem not_isBlank_doubleQuote : isBlank doubleQuote = false := by decide

@[simp] theorem readNextArg_backslash (cmd : Bytes) :
    readNextArg inquote slashes arg (backslash :: cmd) = readNextArg inquote (slashes + 1) arg cmd := by
  rw [readNextArg]
  simp [not_isBlank_backslash, backslash_ne_doubleQuote]

theorem readNextArg_backslashes (n : Nat) (cmd : Bytes) :
    readNextArg inquote slashes arg (List.replicate n backslash ++ cmd) =
      readNextArg inquote (slashes + n) arg cmd := by
  induction n generalizing slashes with
  | zero => rfl
  | succ n ih =>
    rw [List.replicate_succ, List.cons_append, readNextArg_backslash, ih]
    congr 1
    omega

/-- A double quote after an odd number of backslashes is one of the argument. -/
theorem readNextArg_quote_odd (k : Nat) (cmd : Bytes) :
    readNextArg inquote (2 * k + 1) arg (doubleQuote :: cmd) =
      readNextArg inquote 0 (arg ++ List.replicate k backslash ++ [doubleQuote]) cmd := by
  rw [readNextArg]
  have hhalf : (2 * k + 1) / 2 = k := by omega
  have hodd : (2 * k + 1) % 2 ≠ 0 := by omega
  simp only [not_isBlank_doubleQuote, Bool.false_and, Bool.false_eq_true, if_false, if_true, hhalf, if_neg hodd]

theorem readNextArg_other {c : UInt8} (cmd : Bytes) (hquote : c ≠ doubleQuote) (hslash : c ≠ backslash)
    (hblank : inquote = true ∨ isBlank c = false) :
    readNextArg inquote slashes arg (c :: cmd) =
      readNextArg inquote 0 (arg ++ List.replicate slashes backslash ++ [c]) cmd := by
  rw [readNextArg, if_neg, if_neg hquote, if_neg hslash]
  rcases hblank with h | h <;> simp [h]

/-- **Escaped bytes are read back.** What backslashes are left to read stand for themselves. -/
theorem readNextArg_escapeQuotes : ∀ (s : Bytes) (slashes : Nat) (arg : Bytes),
    (inquote = true ∨ s.any isBlank = false) → ∃ arg',
      readNextArg inquote slashes arg ((escapeQuotes slashes s).1 ++ tail) =
          readNextArg inquote (escapeQuotes slashes s).2 arg' tail ∧
        arg' ++ List.replicate (escapeQuotes slashes s).2 backslash = arg ++ List.replicate slashes backslash ++ s
  | [], slashes, arg, _ => ⟨arg, rfl, (List.append_nil _).symm⟩
  | c :: s, slashes, arg, hblank => by
    have hc : inquote = true ∨ isBlank c = false := hblank.imp_right fun h => by simp_all
    have hs : inquote = true ∨ s.any isBlank = false := hblank.imp_right fun h => by simp_all
    rw [escapeQuotes]
    by_cases hslash : c = backslash
    · subst hslash
      obtain ⟨arg', hread, harg⟩ := readNextArg_escapeQuotes s (slashes + 1) arg hs
      refine ⟨arg', ?_, ?_⟩
      · simp only [if_true, List.cons_append, readNextArg_backslash]
        exact hread
      · simp only [if_true, harg]
        simp [List.replicate_succ', List.append_assoc]
    · rw [if_neg hslash]
      by_cases hquote : c = doubleQuote
      · subst hquote
        obtain ⟨arg', hread, harg⟩ := readNextArg_escapeQuotes s 0
          (arg ++ List.replicate slashes backslash ++ [doubleQuote]) hs
        refine ⟨arg', ?_, ?_⟩
        · simp only [if_true, List.append_assoc, List.cons_append]
          rw [readNextArg_backslashes, readNextArg_backslash]
          have htwice : slashes + slashes + 1 = 2 * slashes + 1 := by omega
          rw [htwice, readNextArg_quote_odd]
          exact hread
        · simp only [if_true, harg]
          simp [List.append_assoc]
      · rw [if_neg hquote]
        obtain ⟨arg', hread, harg⟩ := readNextArg_escapeQuotes s 0
          (arg ++ List.replicate slashes backslash ++ [c]) hs
        refine ⟨arg', ?_, ?_⟩
        · simp only [List.cons_append]
          rw [readNextArg_other _ hquote hslash hc]
          exact hread
        · simp only [harg]
          simp [List.append_assoc]

/-- A double quote after an even number of backslashes begins quotes, or ends them
before anything but another. -/
theorem readNextArg_quote_even (k : Nat) {cmd : Bytes} (hnext : inquote = true → cmd.head? ≠ some doubleQuote) :
    readNextArg inquote (2 * k) arg (doubleQuote :: cmd) =
      readNextArg (!inquote) 0 (arg ++ List.replicate k backslash) cmd := by
  rw [readNextArg]
  have hhalf : 2 * k / 2 = k := by omega
  have heven : 2 * k % 2 = 0 := by omega
  simp only [not_isBlank_doubleQuote, Bool.false_and, Bool.false_eq_true, if_false, if_true, hhalf, heven]
  cases inquote with
  | false => cases cmd <;> rfl
  | true =>
    cases cmd with
    | nil => rfl
    | cons c cmd =>
      have hc : c ≠ doubleQuote := fun heq => hnext rfl (congrArg some heq)
      simp only [if_neg hc]
      rfl

/-- The end of an argument outside of quotes. -/
def Ends (tail rest : Bytes) : Prop := tail = [] ∧ rest = [] ∨ tail = 0x20 :: rest

theorem Ends.read {rest : Bytes} (h : Ends tail rest) :
    readNextArg false slashes arg tail = (arg ++ List.replicate slashes backslash, rest) := by
  rcases h with ⟨rfl, rfl⟩ | rfl
  · rfl
  · rw [readNextArg]
    have hblank : isBlank 0x20 = true := by decide
    simp [hblank]

theorem Ends.head {rest : Bytes} (h : Ends tail rest) : tail.head? ≠ some doubleQuote := by
  rcases h with ⟨rfl, rfl⟩ | rfl
  · simp
  · rw [List.head?_cons, ne_eq, Option.some.injEq]
    decide

/-- **In quotes.** -/
theorem readNextArg_quoted (s : Bytes) {rest : Bytes} (h : Ends tail rest) :
    readNextArg false 0 [] (doubleQuote :: ((escapeQuotes 0 s).1 ++
      (List.replicate (escapeQuotes 0 s).2 backslash ++ doubleQuote :: tail))) = (s, rest) := by
  have hopen := @readNextArg_quote_even false []
    0 ((escapeQuotes 0 s).1 ++ (List.replicate (escapeQuotes 0 s).2 backslash ++ doubleQuote :: tail)) (by simp)
  obtain ⟨arg', hread, harg⟩ := @readNextArg_escapeQuotes true
    (List.replicate (escapeQuotes 0 s).2 backslash ++ doubleQuote :: tail) s 0 [] (.inl rfl)
  have htwice : (escapeQuotes 0 s).2 + (escapeQuotes 0 s).2 = 2 * (escapeQuotes 0 s).2 := by omega
  have hclose := @readNextArg_quote_even true arg' (escapeQuotes 0 s).2 tail fun _ => h.head
  rw [Nat.mul_zero, List.replicate_zero, List.append_nil, Bool.not_false] at hopen
  rw [hopen, hread, readNextArg_backslashes, htwice, hclose, Bool.not_true, h.read, List.replicate_zero,
    List.append_nil, harg]
  rfl

/-- **An argument as it is escaped.** -/
theorem readNextArg_escapeArg (s : Bytes) {rest : Bytes} (h : Ends tail rest) :
    readNextArg false 0 [] (escapeArg s ++ tail) = (s, rest) := by
  rw [escapeArg]
  split
  · next hnil =>
    subst hnil
    exact readNextArg_quoted [] h
  · dsimp only
    split
    · simp only [List.cons_append, List.append_assoc, List.nil_append]
      exact readNextArg_quoted s h
    · next hblank =>
      obtain ⟨arg', hread, harg⟩ := @readNextArg_escapeQuotes false tail s 0 [] (.inr (by simpa using hblank))
      rw [hread, h.read, harg]
      rfl

/-- An escaped argument is not taken for a blank. -/
theorem escapeArg_head (s : Bytes) : ∃ c cmd, escapeArg s = c :: cmd ∧ isBlank c = false := by
  rw [escapeArg]
  split
  · exact ⟨_, _, rfl, not_isBlank_doubleQuote⟩
  · next hne =>
    dsimp only
    split
    · exact ⟨_, _, rfl, not_isBlank_doubleQuote⟩
    · next hblank =>
      obtain ⟨c, s, rfl⟩ := List.exists_cons_of_ne_nil hne
      have hc : isBlank c = false := by simp_all
      rw [escapeQuotes]
      by_cases hslash : c = backslash
      · rw [if_pos hslash]
        exact ⟨_, _, rfl, hc⟩
      · rw [if_neg hslash]
        by_cases hquote : c = doubleQuote
        · rw [if_pos hquote]
          exact ⟨_, _, rfl, not_isBlank_backslash⟩
        · rw [if_neg hquote]
          exact ⟨_, _, rfl, hc⟩

end

/-! ## A whole line -/

/-- Arguments, each with a space before it. -/
def spaced (args : List Bytes) : Bytes := args.flatMap fun a => 0x20 :: escapeArg a

theorem foldl_spaced (args : List Bytes) (line : Bytes) :
    args.foldl (fun line a => line ++ str " " ++ escapeArg a) line = line ++ spaced args := by
  induction args generalizing line with
  | nil => exact (List.append_nil _).symm
  | cons a args ih =>
    have hblank : str " " = [0x20] := by decide
    rw [List.foldl_cons, ih, hblank]
    simp [spaced]

/-- What is left to split after an argument. -/
theorem ends_spaced : ∀ args : List Bytes, ∃ rest, Ends (spaced args) rest ∧ rest.length ≤ (spaced args).length ∧
    ∀ fuel, rest.length ≤ fuel → splitArgs fuel rest = args
  | [] => ⟨[], .inl ⟨rfl, rfl⟩, Nat.le_refl _, fun fuel _ => by cases fuel <;> rfl⟩
  | a :: args => by
    obtain ⟨rest, hends, hle, hsplit⟩ := ends_spaced args
    refine ⟨escapeArg a ++ spaced args, .inr rfl, by simp [spaced], fun fuel hfuel => ?_⟩
    obtain ⟨c, cmd, hhead, hblank⟩ := escapeArg_head a
    have hread := readNextArg_escapeArg a hends
    rw [hhead, List.cons_append] at hread hfuel ⊢
    have hlength : rest.length + 1 ≤ fuel := by
      rw [List.length_cons, List.length_append] at hfuel
      omega
    obtain ⟨fuel, rfl⟩ : ∃ n, fuel = n + 1 := ⟨fuel - 1, by omega⟩
    rw [splitArgs, if_neg (by simp [hblank]), hread]
    exact congrArg (a :: ·) (hsplit fuel (by omega))

/-- A program's path and its arguments. -/
theorem argv_of_read {c : UInt8} {cmd path : Bytes} {args : List Bytes} (hblank : isBlank c = false)
    (hread : ∀ rest, Ends (spaced args) rest → readNextArg false 0 [] (c :: (cmd ++ spaced args)) = (path, rest)) :
    commandLineToArgv (c :: (cmd ++ spaced args)) = path :: args := by
  obtain ⟨rest, hends, hle, hsplit⟩ := ends_spaced args
  rw [commandLineToArgv, List.length_cons, splitArgs, if_neg (by simp [hblank]), hread rest hends]
  refine congrArg (path :: ·) (hsplit _ ?_)
  rw [List.length_append]
  omega

/-- **The watcher's arguments**, those of its launch. -/
theorem argv_line (r : Launch.Request) (hquote : doubleQuote ∉ r.exe) (hslash : r.exe.getLast? ≠ some backslash) :
    commandLineToArgv r.line = r.exe :: r.args := by
  have hescape : escapeQuotes 0 r.exe = (r.exe, 0) := by
    refine Prod.ext (escapeQuotes_fst hquote) ?_
    by_cases hne : r.exe = []
    · rw [hne]
      rfl
    · exact escapeQuotes_snd hne hslash
  rw [Launch.Request.line, foldl_spaced]
  simp only [List.cons_append]
  refine argv_of_read not_isBlank_doubleQuote fun rest hends => ?_
  have hread := readNextArg_quoted r.exe hends
  rw [hescape] at hread
  simpa [List.append_assoc] using hread

/-- **The service's arguments**, those that the installer registers. -/
theorem argv_registered (m : ServiceManager) (path : Bytes) :
    commandLineToArgv (installService m path) = [path, str "-service"] := by
  rw [installService, m.stores, foldl_spaced]
  obtain ⟨c, cmd, hhead, hblank⟩ := escapeArg_head path
  rw [hhead, List.cons_append]
  refine argv_of_read hblank fun rest hends => ?_
  rw [← List.cons_append, ← hhead]
  exact readNextArg_escapeArg path hends

end ScrewLogger
