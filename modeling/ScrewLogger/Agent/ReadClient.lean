/-
A watcher's connection read to its end (`pipe_windows.go`, `readClient`).

`readClient_publishes_iff`: the samples published are those of all the lines that
fit the buffer exactly where none of them comes after a line that does not. Such
a line ends the loop, and with it the connection.
-/
import ScrewLogger.Agent.Sample
import ScrewLogger.Lib.Scanning

namespace ScrewLogger
open Lib

/-- What `readClient` does with a line. -/
inductive Handled
  /-- `out <- s`. -/
  | published (s : Sample)
  /-- Logged: sample dropped (consumer slow). -/
  | dropped (s : Sample)
  /-- Logged, and on to the next line. -/
  | skipped (err : SampleError)

namespace Handled

def sample : Handled → Option Sample
  | published s => some s
  | _ => none

end Handled

/-- The loop's body, where the channel has room or not. -/
def handleLine (room : Bool) (line : Bytes) : Handled :=
  match decodeSample line with
  | .error err => .skipped err
  | .ok s => if room then .published s else .dropped s

/-- `sc.Buffer(make([]byte, 0, 4096), 4096)`. -/
def clientBuffer : Nat := 4096

/-- `readClient` on the pieces that the reads bring, with whether the channel has
room at the `i`-th line. The loop ends where the scanner does: what it ends in is
not asked for. -/
def readClient (room : Nat → Bool) (chunks : List Bytes) : List Handled :=
  (scanChunks clientBuffer 0 [] chunks).tokens.mapIdx fun i line => handleLine (room i) line

/-- The sample of a line that `DecodeSample` accepts. -/
def accepted (line : Bytes) : Option Sample := (decodeSample line).toOption

theorem handleLine_sample (line : Bytes) : (handleLine true line).sample = accepted line := by
  rw [handleLine, accepted]
  cases decodeSample line <;> rfl

/-- A carriage return before the line break changes nothing. -/
theorem accepted_dropCR (line : Bytes) : accepted (dropCR line) = accepted line := by
  rw [dropCR]
  split
  · next hlast =>
    obtain ⟨body, rfl⟩ := List.getLast?_eq_some_iff.1 hlast
    have hunmarshal : Sample.unmarshal (body ++ [0x0D]) = Sample.unmarshal body := by
      rw [Sample.unmarshal, Json.unmarshal_space rfl, Sample.unmarshal]
    rw [List.dropLast_concat, accepted, accepted, decodeSample, decodeSample, hunmarshal]
    by_cases hbody : body = []
    · rw [if_pos hbody, hbody]
      rfl
    · rw [if_neg hbody, if_neg (by simp)]
  · rfl

variable {lines chunks : List Bytes}

/-- **What is published**: the lines up to the first that does not fit. -/
theorem readClient_published (hlines : ∀ line ∈ lines, newline ∉ line) (hread : [] ∉ chunks)
    (hbytes : chunks.flatten = encodeLines lines) : (readClient (fun _ => true) chunks).filterMap Handled.sample =
      (lines.takeWhile (·.length < clientBuffer)).filterMap accepted := by
  have hscan : scanChunks clientBuffer 0 [] chunks = fitting clientBuffer lines := by
    rw [scanChunks_eq (by decide) (by decide) hread, List.nil_append, hbytes, textLines_encode hlines]
  have hsample : Handled.sample ∘ handleLine true ∘ dropCR = accepted := by
    funext line
    exact (handleLine_sample _).trans (accepted_dropCR line)
  have hmap : ∀ tokens : List Bytes, tokens.mapIdx (fun _ line => handleLine true line) =
    tokens.map (handleLine true) :=
    fun tokens => List.mapIdx_eq_iff.2 fun i => List.getElem?_map
  rw [readClient, hscan, fitting, hmap, List.map_map, List.filterMap_map, hsample]

/-- **Malformed lines and good samples.** -/
theorem readClient_publishes_iff (hlines : ∀ line ∈ lines, newline ∉ line) (hread : [] ∉ chunks)
    (hbytes : chunks.flatten = encodeLines lines) :
    (readClient (fun _ => true) chunks).filterMap Handled.sample =
        (lines.filter (·.length < clientBuffer)).filterMap accepted ↔
      ∀ line ∈ lines.dropWhile (·.length < clientBuffer), line.length < clientBuffer → accepted line = none := by
  rw [readClient_published hlines hread hbytes]
  refine (filterMap_takeWhile_iff (·.length < clientBuffer) accepted).trans ?_
  simp only [decide_eq_true_eq]

def someSample : Sample := { app := str "word.exe", active := true }

theorem someSample_line : newline ∉ someSample.marshal := by decide +kernel

/-- A malformed line in front, and the bytes in two pieces. -/
theorem readClient_after_malformed :
    (readClient (fun _ => true) [str "x", str "\n" ++ someSample.encode]).filterMap Handled.sample =
      [someSample] := by
  have hlines : ∀ line ∈ [str "x", someSample.marshal], newline ∉ line := by
    simp only [List.forall_mem_cons]
    exact ⟨by decide +kernel, someSample_line, fun _ hline => absurd hline List.not_mem_nil⟩
  refine ((readClient_publishes_iff hlines (by decide +kernel) (by decide +kernel)).2 ?_).trans (by decide +kernel)
  intro line hline
  have hnil : [str "x", someSample.marshal].dropWhile (·.length < clientBuffer) = [] := by decide +kernel
  rw [hnil] at hline
  exact absurd hline List.not_mem_nil

/-- A line as long as the buffer, and the sample after it is lost. -/
theorem readClient_after_long :
    ¬∀ lines chunks : List Bytes, (∀ line ∈ lines, newline ∉ line) → [] ∉ chunks →
      chunks.flatten = encodeLines lines →
      (readClient (fun _ => true) chunks).filterMap Handled.sample =
        (lines.filter (·.length < clientBuffer)).filterMap accepted := by
  intro h
  have hlines : ∀ line ∈ [List.replicate clientBuffer 0x78, someSample.marshal], newline ∉ line := by
    simp only [List.forall_mem_cons]
    exact ⟨by simp [newline], someSample_line, fun _ hline => absurd hline List.not_mem_nil⟩
  have hread : [] ∉ [encodeLines [List.replicate clientBuffer 0x78, someSample.marshal]] := by simp
  have hlost := h _ _ hlines hread (List.flatten_singleton)
  rw [readClient_published hlines hread List.flatten_singleton] at hlost
  have hshort : someSample.marshal.length < clientBuffer := by decide +kernel
  have haccepted : accepted someSample.marshal = some someSample := by decide +kernel
  simp [hshort, haccepted] at hlost

end ScrewLogger
