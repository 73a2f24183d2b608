/-
The service's command line (`install_windows.go`): what the installer registers,
and the path an upgrade takes from it.

`cleanBinaryPath_registered`: that is the path which was registered.
-/
import ScrewLogger.Lib.Trim

namespace ScrewLogger
open Lib

def doubleQuote : UInt8 := 0x22

def backslash : UInt8 := 0x5C

/-- A space or a tab. -/
def isBlank (c : UInt8) : Bool := c == 0x20 || c == 0x09

/-- The bytes of an argument with its double quotes escaped, and the backslashes
before each doubled; how many backslashes it ends in. -/
def escapeQuotes : Nat → Bytes → Bytes × Nat
  | slashes, [] => ([], slashes)
  | slashes, c :: s =>
    if c = backslash then
      let (out, slashes) := escapeQuotes (slashes + 1) s
      (c :: out, slashes)
    else if c = doubleQuote then
      let (out, slashes') := escapeQuotes 0 s
      (List.replicate slashes backslash ++ backslash :: c :: out, slashes')
    else
      let (out, slashes) := escapeQuotes 0 s
      (c :: out, slashes)

/-- `syscall.EscapeArg`. -/
def escapeArg (s : Bytes) : Bytes :=
  if s = [] then [doubleQuote, doubleQuote]
  else
    let (out, slashes) := escapeQuotes 0 s
    if s.any isBlank then doubleQuote :: out ++ List.replicate slashes backslash ++ [doubleQuote]
    else out

/-- The service manager, as far as a service's command line goes. -/
structure ServiceManager where
  /-- What `CreateService` stores for a path and arguments, and `Config` returns. -/
  binaryPathName : Bytes → List Bytes → Bytes
  /-- Path and arguments are escaped, with a space before each argument. -/
  stores : ∀ path args, binaryPathName path args =
    args.foldl (fun s v => s ++ str " " ++ escapeArg v) (escapeArg path)

/-- The command line that `InstallService` registers. -/
def installService (m : ServiceManager) (exePath : Bytes) : Bytes := m.binaryPathName exePath [str "-service"]

/-- Strips the argument of the installer, and quotes around the path. -/
def cleanBinaryPath (raw : Bytes) : Bytes :=
  let s := trimSpace raw
  let s :=
    match lastIndex s (str " -service") with
    | some i => s.take i
    | none => s
  trimByte doubleQuote (trimSpace s)

/-! ## Escaping a path -/

theorem escapeQuotes_fst : ∀ {s : Bytes} {slashes : Nat}, doubleQuote ∉ s → (escapeQuotes slashes s).1 = s
  | [], _, _ => rfl
  | c :: s, slashes, h => by
    obtain ⟨hc, hs⟩ := not_or.1 (List.mem_cons.not.1 h)
    rw [escapeQuotes]
    split
    · exact congrArg (c :: ·) (escapeQuotes_fst hs)
    · rw [if_neg (Ne.symm hc)]
      exact congrArg (c :: ·) (escapeQuotes_fst hs)

theorem escapeQuotes_snd : ∀ {s : Bytes} {slashes : Nat}, s ≠ [] → s.getLast? ≠ some backslash →
    (escapeQuotes slashes s).2 = 0
  | [], _, h, _ => absurd rfl h
  | [c], slashes, _, h => by
    have hc : c ≠ backslash := fun heq => h (congrArg some heq)
    rw [escapeQuotes, if_neg hc]
    split <;> rfl
  | c :: d :: s, slashes, _, h => by
    have hlast : (d :: s).getLast? ≠ some backslash := by rwa [List.getLast?_cons_cons] at h
    have ih := fun n => @escapeQuotes_snd (d :: s) n (List.cons_ne_nil d s) hlast
    rw [escapeQuotes]
    split
    · exact ih _
    · split
      · exact ih _
      · exact ih _

theorem escapeArg_path {path : Bytes} (hne : path ≠ []) (hquote : doubleQuote ∉ path)
    (hslash : path.getLast? ≠ some backslash) :
    escapeArg path = if path.any isBlank then doubleQuote :: path ++ [doubleQuote] else path := by
  rw [escapeArg, if_neg hne]
  dsimp only
  rw [escapeQuotes_fst hquote, escapeQuotes_snd hne hslash, List.replicate_zero, List.append_nil]

/-! ## The way back -/

/-- The path's part of a command line, in quotes or not. -/
theorem cleanBinaryPath_append {s : Bytes} (hne : s ≠ []) (htrim : trimSpace s = s) :
    cleanBinaryPath (s ++ str " -service") = trimByte doubleQuote s := by
  have hservice : str " -service" = 0x20 :: str "-service" := by decide
  have hright : ∀ r, (runes (0x20 :: str "-service")).getLast? = some r → r.isSpace = false := by decide +kernel
  have hwhole : trimSpace (s ++ str " -service") = s ++ str " -service" := by
    rw [hservice]
    exact trimSpace_append (by decide) hne (trimSpace_eq_self_iff.1 htrim).1 hright
  rw [cleanBinaryPath, hwhole, lastIndex_append (by decide)]
  dsimp only
  rw [List.take_left, htrim]

theorem trimSpace_quoted (s : Bytes) :
    trimSpace (doubleQuote :: s ++ [doubleQuote]) = doubleQuote :: s ++ [doubleQuote] := by
  refine trimSpace_append (by decide) (List.cons_ne_nil _ _) (fun r hr => ?_) (by decide)
  rw [runes_cons, List.head?_cons, Option.some.injEq] at hr
  subst hr
  rfl

/-- **What the installer registers, taken back.** -/
theorem cleanBinaryPath_registered (m : ServiceManager) {path : Bytes} (hquote : doubleQuote ∉ path)
    (hspace : trimSpace path = path) (hslash : path.getLast? ≠ some backslash) :
    cleanBinaryPath (installService m path) = path := by
  have hraw : installService m path = escapeArg path ++ str " -service" := by
    rw [installService, m.stores, List.foldl_cons, List.foldl_nil, List.append_assoc]
    exact congrArg _ (by decide)
  by_cases hne : path = []
  · subst hne
    rw [hraw]
    decide +kernel
  · rw [hraw, escapeArg_path hne hquote hslash]
    split
    · rw [cleanBinaryPath_append (by simp) (trimSpace_quoted path)]
      exact trimByte_around hquote
    · rw [cleanBinaryPath_append hne hspace]
      exact trimByte_eq_self hquote

/-- A manager that stores the command line so. -/
def someManager : ServiceManager where
  binaryPathName path args := args.foldl (fun s v => s ++ str " " ++ escapeArg v) (escapeArg path)
  stores _ _ := rfl

/-- A directory with the installer's argument in its name. -/
theorem cleanBinaryPath_service : cleanBinaryPath (installService someManager (str "C:\\the -service\\monsvc.exe")) =
    str "C:\\the -service\\monsvc.exe" :=
  cleanBinaryPath_registered someManager (by decide +kernel) (by decide +kernel) (by decide +kernel)

end ScrewLogger
