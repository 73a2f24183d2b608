/-
The rule patterns of the agent and of the server.

The agent compares names and then calls `path.Match`; the server recategorizes
stored heartbeats with `GLOB`. `patterns_agree`: on a pattern that both read
alike they mean the same, unless the app's name has a `/`, or is the pattern's
own text and that has a class, or `path.Match` can take a character of it apart.
`patterns_disagree` has an example of each.
-/
import ScrewLogger.Agent.Categorize
import ScrewLogger.Lib.CommonPattern
import ScrewLogger.Server.StoreFacts

namespace ScrewLogger
open Lib

/-- The pattern is one the engine takes and, in lower case, the text of parts
that both matchers read alike. -/
structure Shared (pattern : Bytes) (parts : List CommonPattern.Part) : Prop where
  length : pattern.length ≤ maxLikePatternLength
  readable : Readable pattern
  ok : ∀ part ∈ parts, part.Ok
  text : runes (lower pattern) = parts.flatMap CommonPattern.Part.render

/-- Nothing that stands after a `*` of the pattern can begin within a character
of the name. -/
def NotTakenApart (parts : List CommonPattern.Part) (app : Bytes) : Prop :=
  PathMatch.Steady (parts.map CommonPattern.Part.term) ∨ ∀ b ∈ app, b < 0x80

instance (parts : List CommonPattern.Part) (app : Bytes) : Decidable (NotTakenApart parts app) :=
  inferInstanceAs (Decidable (_ ∨ _))

/-- **The agent and the server mean the same by a pattern** they both read
alike: a recategorizing changes the heartbeats of just those apps that the
agent's rule matches. -/
theorem patterns_agree (pattern category : Bytes) (parts : List CommonPattern.Part) (hshared : Shared pattern parts)
    (h : HeartbeatRow) (happ : Readable h.app) (hslash : 0x2F ∉ h.app) (hapart : NotTakenApart parts h.app)
    (hclass : (∃ part ∈ parts, part.isClass = true) → lower pattern ≠ lower h.app) :
    (∀ db : Database, ∃ db' n, db.recategorize pattern category = some (db', n) ∧
        db'.heartbeats.rows = db.heartbeats.rows.map (recategorized pattern category)) ∧
      (Matched pattern h ↔ (Agent.Rule.mk pattern category).matches h.app = true) ∧
      recategorized pattern category h =
        (if (Agent.Rule.mk pattern category).matches h.app then { h with category := category } else h) ∧
      Agent.categorize [⟨pattern, category⟩] h.app =
        (if Matched pattern h then category else Agent.uncategorized) := by
  have hreadable := readable_lower hshared.readable
  have hreadableApp := readable_lower happ
  have hlength : (lower pattern).length ≤ maxLikePatternLength := by
    rw [length_lower]
    exact hshared.length
  have hslash : 0x2F ∉ lower h.app := fun hmem => hslash ((mem_lower_iff (by decide)).1 hmem)
  have htells : ∀ part ∈ parts, ∀ r ∈ runes (lower h.app), part.Tells r := fun part _ r hr =>
    part.tells_of_readCode (readCode_of_ne (hreadableApp.2.2 r hr))
  have hglobs : (Agent.Rule.mk pattern category).globs h.app = true ↔ Matched pattern h := by
    rw [Agent.Rule.globs, CommonPattern.pathMatch_eq_glob hshared.ok hshared.text hreadable hlength hreadableApp.1
      hreadableApp.2.1 hslash htells (hapart.imp_right ascii_lower), beq_iff_eq]
    rfl
  have hmatch : Matched pattern h ↔ (Agent.Rule.mk pattern category).matches h.app = true := by
    rw [Agent.Rule.matches, Bool.or_eq_true, hglobs, Agent.Rule.exact, beq_iff_eq]
    refine ⟨.inr, fun hor => hor.elim (fun hsame => ?_) id⟩
    have hno : ∀ part ∈ parts, part.isClass = false := fun part hpart =>
      Bool.eq_false_iff.2 fun hyes => hclass ⟨part, hpart, hyes⟩ hsame
    rw [Matched, ← hsame]
    exact CommonPattern.glob_self hshared.ok hshared.text hreadable hlength hno
  refine ⟨fun db => ?_, hmatch, ?_, ?_⟩
  · have hsome : ¬ db.recategorize pattern category = none := fun hnone =>
      absurd (Store.recategorize_eq_none_iff.1 hnone).1 (Nat.not_lt.2 hshared.length)
    obtain ⟨⟨db', n⟩, heq⟩ := Option.ne_none_iff_exists'.1 hsome
    exact ⟨db', n, heq, (Store.recategorize_eq_some heq).2.2.2⟩
  · rw [recategorized]
    exact if_congr hmatch rfl rfl
  · rw [Agent.categorize_one]
    exact if_congr hmatch.symm rfl rfl

/-- A stored heartbeat of an app. -/
def rowOf (app : Bytes) : HeartbeatRow := ⟨str "h", str "d", 0, app, [], true, 0, 0⟩

theorem patterns_agree_class : Matched (str "A*[b-d]") (rowOf (str "a€.exe-C")) ↔
    (Agent.Rule.mk (str "A*[b-d]") (str "x")).matches (str "a€.exe-C") = true := by
  let parts : List CommonPattern.Part := [.char (ascii 0x61), .star, .cls false [.range (ascii 0x62) (ascii 0x64)]]
  have hok : ∀ part ∈ parts, part.Ok := by
    intro part hpart
    simp only [parts, List.mem_cons, List.not_mem_nil, or_false] at hpart
    obtain rfl | rfl | rfl := hpart
    · exact ⟨rfl, rfl, rfl, rfl, rfl⟩
    · trivial
    · refine ⟨List.cons_ne_nil _ _, fun m hm => ?_, fun _ => rfl⟩
      rw [List.mem_singleton.1 hm]
      exact ⟨⟨rfl, rfl, rfl, rfl, rfl⟩, ⟨rfl, rfl, rfl, rfl, rfl⟩, by decide⟩
  exact (patterns_agree (str "A*[b-d]") (str "x") parts ⟨by decide, by decide, hok, by decide⟩
    (rowOf (str "a€.exe-C")) (by decide) (by decide) (.inl (by decide)) fun _ => by decide).2.1

/-- A name of 50001 letters. -/
def longPattern : Bytes := List.replicate 50001 0x61

/-- A `/` that `*` crosses in `GLOB` only, a backslash that escapes in
`path.Match` only, a name that is the text of a pattern with a class, a class
whose range is empty, whose first character `GLOB` tries by itself, a character
of three bytes of which `path.Match` makes two, a name that goes on after a NUL,
a character that the engine replaces, and a pattern that is too long for it. -/
theorem patterns_disagree :
    (Matched (str "*") (rowOf (str "a/b")) ∧ ¬ (Agent.Rule.mk (str "*") []).matches (str "a/b") = true) ∧
    (¬ Matched (str "a\\b") (rowOf (str "ab")) ∧ (Agent.Rule.mk (str "a\\b") []).matches (str "ab") = true) ∧
    (¬ Matched (str "app[1].exe") (rowOf (str "app[1].exe")) ∧
      (Agent.Rule.mk (str "app[1].exe") []).matches (str "app[1].exe") = true) ∧
    (Matched (str "[b-a]") (rowOf (str "b")) ∧ ¬ (Agent.Rule.mk (str "[b-a]") []).matches (str "b") = true) ∧
    (¬ Matched (str "*??") (rowOf (str "€")) ∧ (Agent.Rule.mk (str "*??") []).matches (str "€") = true) ∧
    (Matched (str "a") (rowOf (str "a\x00b")) ∧ ¬ (Agent.Rule.mk (str "a") []).matches (str "a\x00b") = true) ∧
    (Matched (str "\ufffe") (rowOf (str "\ufffd")) ∧
      ¬ (Agent.Rule.mk (str "\ufffe") []).matches (str "\ufffd") = true) ∧
    (¬ Matched longPattern (rowOf longPattern) ∧ (Agent.Rule.mk longPattern []).matches longPattern = true) := by
  refine ⟨by decide, by decide, by decide, by decide, by decide, by decide, by decide, fun hmatched => ?_, ?_⟩
  · have hnone : glob (lower longPattern) (lower longPattern) = none := by
      rw [glob_eq_none_iff, length_lower, longPattern, List.length_replicate]
      decide
    rw [Matched, rowOf, hnone] at hmatched
    cases hmatched
  · rw [Agent.Rule.matches, Agent.Rule.exact, beq_self_eq_true, Bool.true_or]

end ScrewLogger
