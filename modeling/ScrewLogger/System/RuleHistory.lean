/-
A set of rules, applied to the history.

The agent looks at globs only where no rule has the app's name. The server
applies one rule at a time and lets each take the heartbeats its glob matches.
`history_agrees`: where only one rule matches, both give its category; where
one has the app's name, the heartbeats get the category of the rule that was
saved last among those that match. `history_disagrees` has a glob saved after it,
and names that the two matchers read in ways of their own.
-/
import ScrewLogger.Server.History
import ScrewLogger.Server.RuleSaves
import ScrewLogger.System.Patterns

namespace ScrewLogger
open Lib Lib.Eff Lib.Json

/-- Rules were saved, one after the other, and each applied to the history. -/
inductive Saved : World → List Agent.Rule → World → Prop
  | start {w : World} : Saved w [] w
  | save {w w' : World} {saved : List Agent.Rule} (rule : Agent.Rule) (r : Request) (h : Saved w saved w')
    (hbody : ruleBody r = some ⟨rule.pattern, rule.category, true⟩) (hok : (handleRuleUpsert.serve r w').1.status = 200) :
    Saved w (saved ++ [rule]) (handleRuleUpsert.serve r w').2

/-! ## What a save does to the heartbeats -/

/-- The heartbeat after the rules were applied one by one. -/
def applied (saved : List Agent.Rule) (h : HeartbeatRow) : HeartbeatRow :=
  saved.foldl (fun h rule => recategorized rule.pattern rule.category h) h

/-- **One save**, that was answered with a 200, has applied its rule. -/
theorem handleRuleUpsert_applies {r : Request} {rule : Agent.Rule} {w : World}
    (hbody : ruleBody r = some ⟨rule.pattern, rule.category, true⟩) :
    (handleRuleUpsert r).Ends (fun resp w' => resp.status = 200 → w'.db.heartbeats.rows =
      w.db.heartbeats.rows.map (recategorized rule.pattern rule.category)) w := by
  simp only [Answer.Ends, handleRuleUpsert, wp_bind, wp_fromOption]
  rw [← ruleBody, hbody]
  refine ⟨fun body hb => ?_, fun hnone => by cases hnone⟩
  rw [Option.some.injEq] at hb
  subst hb
  refine wp_atomic (Store.atomic_upsertRule _ _) (fun _ w₁ hsaves => ?_) fun _ _ _ h => absurd h (by decide)
  obtain ⟨now, hsaves⟩ := hsaves
  rw [if_pos rfl, wp_bind]
  refine wp_atomic (Store.atomic_recategorize _ _) (fun n w₂ happlies _ => ?_) fun _ _ _ h => absurd h (by decide)
  rw [happlies.2.2.2, hsaves.heartbeats]

/-- The engine took the pattern. -/
theorem handleRuleUpsert_takes {r : Request} {rule : Agent.Rule} {w : World}
    (hbody : ruleBody r = some ⟨rule.pattern, rule.category, true⟩) :
    (handleRuleUpsert r).Ends (fun resp _ => resp.status = 200 → ¬ PatternRefused rule.pattern w.db) w := by
  simp only [Answer.Ends, handleRuleUpsert, wp_bind, wp_fromOption]
  rw [← ruleBody, hbody]
  refine ⟨fun body hb => ?_, fun hnone => by cases hnone⟩
  rw [Option.some.injEq] at hb
  subst hb
  refine wp_atomic (Store.atomic_upsertRule _ _) (fun _ w₁ hsaves => ?_) fun _ _ _ h => absurd h (by decide)
  obtain ⟨now, hsaves⟩ := hsaves
  simp only [if_true, wp_bind, Store.recategorize, wp_mapError, wp_exec_iff, wp_pure]
  refine ⟨fun _ n db hdb _ hrefused => ?_, fun _ h => absurd h (by decide)⟩
  have hnone : Database.recategorize rule.pattern rule.category w₁.db = none :=
    Store.recategorize_eq_none_iff.2 ⟨hrefused.1, hsaves.heartbeats ▸ hrefused.2⟩
  rw [hnone] at hdb
  cases hdb

/-- **All of them.** -/
theorem Saved.rows {saved : List Agent.Rule} {w w' : World} (h : Saved w saved w') :
    w'.db.heartbeats.rows = w.db.heartbeats.rows.map (applied saved) := by
  induction h with
  | start => exact (List.map_id _).symm
  | @save w' saved rule r h hbody hok ih =>
    have happlies := Answer.run_iff.2 (handleRuleUpsert_applies (w := w') hbody)
    rw [Handler.serve] at hok ⊢
    rw [happlies hok, ih, List.map_map]
    refine List.map_congr_left fun h _ => ?_
    rw [applied, List.foldl_append]
    rfl

/-- A pattern that was applied to a heartbeat is not too long. -/
theorem Saved.short {saved : List Agent.Rule} {w w' : World} (h : Saved w saved w')
    (hne : w.db.heartbeats.rows ≠ []) : ∀ rule ∈ saved, rule.pattern.length ≤ maxLikePatternLength := by
  induction h with
  | start => exact fun rule hrule => absurd hrule List.not_mem_nil
  | @save w' saved rule r h hbody hok ih =>
    refine List.forall_mem_append.2 ⟨ih, List.forall_mem_singleton.2 ?_⟩
    have htaken := Answer.run_iff.2 (handleRuleUpsert_takes (w := w') hbody) hok
    refine Nat.not_lt.1 fun hlong => htaken ⟨hlong, ?_⟩
    rw [h.rows]
    simpa using hne

/-- Nothing but the category is touched. -/
theorem applied_same (saved : List Agent.Rule) (h : HeartbeatRow) : SameRecord h (applied saved h) := by
  induction saved using List.reverseRecOn with
  | nil => exact .refl h
  | append_singleton saved rule ih =>
    rw [applied, List.foldl_append, List.foldl_cons, List.foldl_nil, ← applied]
    refine ih.trans ?_
    rw [recategorized]
    by_cases hm : Matched rule.pattern (applied saved h)
    · rw [if_pos hm]
      rfl
    · rw [if_neg hm]
      exact .refl _

/-- The last of the saved rules that matches an app. -/
def lastMatching (saved : List Agent.Rule) (app : Bytes) : Option Agent.Rule := saved.reverse.find? (·.matches app)

theorem lastMatching_append {saved : List Agent.Rule} {rule : Agent.Rule} {app : Bytes} :
    lastMatching (saved ++ [rule]) app = if rule.matches app then some rule else lastMatching saved app := by
  rw [lastMatching, List.reverse_append, List.reverse_singleton, List.singleton_append, List.find?_cons]
  cases rule.matches app <;> rfl

/-- The rules read the app's name alike on both sides. -/
def AgreeOn (rules : List Agent.Rule) (app : Bytes) : Prop :=
  ∀ rule ∈ rules, rule.matches app = true ↔ glob (lower rule.pattern) (lower app) = some true

/-- The rule that was saved last stays. -/
theorem applied_eq {saved : List Agent.Rule} {h : HeartbeatRow} (hagree : AgreeOn saved h.app) :
    applied saved h = { h with category := (lastMatching saved h.app).elim h.category (·.category) } := by
  induction saved using List.reverseRecOn with
  | nil => rfl
  | append_singleton saved rule ih =>
    have ih := ih fun rule hmem => hagree rule (List.mem_append_left _ hmem)
    have hrule := hagree rule (by simp)
    rw [applied, List.foldl_append, List.foldl_cons, List.foldl_nil, ← applied, ih, lastMatching_append,
      recategorized]
    by_cases hmatches : rule.matches h.app = true
    · rw [if_pos hmatches]
      exact if_pos (hrule.1 hmatches)
    · rw [if_neg hmatches]
      exact if_neg fun hm => hmatches (hrule.2 hm)

/-! ## Plain patterns -/

/-- A name and patterns that the engine and `path.Match` take apart alike: it is
well-formed without a NUL, and, unless it is of ASCII, no `*` has two `?` after it. -/
structure Alike (rules : List Agent.Rule) (app : Bytes) : Prop where
  valid : validUtf8 app = true
  nul : 0 ∉ app
  apart : (∀ rule ∈ rules, ¬ str "*??" <:+: rule.pattern) ∨ ∀ b ∈ app, b < 0x80

/-- Plain patterns read a name alike that one of them matches. -/
theorem agreeOn {rules : List Agent.Rule} (hplain : ∀ rule ∈ rules, CommonPattern.Plain rule.pattern) {app : Bytes}
    (hlength : ∀ rule ∈ rules, rule.pattern.length ≤ maxLikePatternLength) (halike : Alike rules app)
    {rule : Agent.Rule} (hmem : rule ∈ rules) (hmatches : rule.matches app = true) : AgreeOn rules app := by
  have hself : ∀ rule ∈ rules, rule.exact app = true → glob (lower rule.pattern) (lower app) = some true := by
    intro rule hmem hexact
    rw [← beq_iff_eq.1 hexact]
    exact CommonPattern.plain_glob_self (hplain rule hmem) (hlength rule hmem)
  have hslash : 0x2F ∉ lower app := by
    rw [Agent.Rule.matches, Bool.or_eq_true] at hmatches
    obtain hexact | hglobs := hmatches
    · rw [← beq_iff_eq.1 hexact]
      exact CommonPattern.plain_noSlash (hplain rule hmem)
    · exact CommonPattern.noSlash_of_pathMatch (hplain rule hmem) (beq_iff_eq.1 hglobs)
  intro rule hmem
  rw [Agent.Rule.matches, Bool.or_eq_true, Agent.Rule.globs, beq_iff_eq,
    CommonPattern.plain_pathMatch (hplain rule hmem) (hlength rule hmem) halike.valid halike.nul hslash
      (halike.apart.imp_left fun h => h rule hmem)]
  exact ⟨fun h => h.elim (hself rule hmem) id, .inr⟩

namespace Agent

variable {rules : List Rule} {rule : Rule} {app : Bytes}

/-- Of rules that differ, one has the app's name. -/
theorem categorize_exact (hdistinct : (rules.map (lower ·.pattern)).Nodup) (hmem : rule ∈ rules)
    (hexact : rule.exact app = true) : categorize rules app = rule.category := by
  have hfind : rules.find? (·.exact app) = some rule := by
    cases hfound : rules.find? (·.exact app) with
    | none => exact absurd hexact (List.find?_eq_none.1 hfound rule hmem)
    | some rule' =>
      have hexact' := List.find?_some hfound
      have hsame := (beq_iff_eq.1 hexact').trans (beq_iff_eq.1 hexact).symm
      rw [List.inj_on_of_nodup_map hdistinct (List.mem_of_find?_eq_some hfound) hmem hsame]
  rw [categorize, hfind]

/-- No rule has the app's name, and one matches it. -/
theorem categorize_glob (hexact : ∀ rule ∈ rules, rule.exact app = false)
    (hone : rules.filter (·.globs app) = [rule]) : categorize rules app = rule.category := by
  have hnone : rules.find? (·.exact app) = none :=
    List.find?_eq_none.2 fun rule hmem => Bool.eq_false_iff.1 (hexact rule hmem)
  have hfind : rules.find? (·.globs app) = some rule := by
    rw [← List.head?_filter, hone]
    rfl
  rw [categorize, hnone, hfind]

end Agent

/-- Where one rule matches, it is the last to. -/
theorem lastMatching_of_one {rules saved : List Agent.Rule} {rule : Agent.Rule} {app : Bytes}
    (horder : saved.Perm rules)
    (hone : rules.filter (·.matches app) = [rule]) : lastMatching saved app = some rule := by
  have hperm := ((List.reverse_perm saved).trans horder).filter (·.matches app)
  rw [hone, List.perm_singleton] at hperm
  rw [lastMatching, ← List.head?_filter, hperm]
  rfl

/-- **Applied to the history**, rules give the categories the agent would give
where one glob matches; where a rule has the app's name, the last to be saved of
those that match decides. -/
theorem history_agrees (rules saved : List Agent.Rule) (hplain : ∀ rule ∈ rules, CommonPattern.Plain rule.pattern)
    (hdistinct : (rules.map (lower ·.pattern)).Nodup) (horder : saved.Perm rules) (w w' : World)
    (hsaved : Saved w saved w') (h : HeartbeatRow) (hmem : h ∈ w.db.heartbeats.rows) (halike : Alike rules h.app) :
    ∃ h' ∈ w'.db.heartbeats.rows, SameRecord h h' ∧
      ((∀ rule ∈ rules, rule.exact h.app = false) → rules.countP (·.globs h.app) = 1 →
        h'.category = Agent.categorize rules h.app) ∧
      ∀ rule ∈ rules, rule.exact h.app = true → ∃ last, lastMatching saved h.app = some last ∧
        h'.category = last.category ∧
        (h'.category = Agent.categorize rules h.app ↔ last.category = rule.category) := by
  have hlength : ∀ rule ∈ rules, rule.pattern.length ≤ maxLikePatternLength := fun rule hrule =>
    hsaved.short (List.ne_nil_of_mem hmem) rule (horder.mem_iff.2 hrule)
  refine ⟨applied saved h, ?_, ?_, ?_, ?_⟩
  · rw [hsaved.rows]
    exact List.mem_map_of_mem hmem
  · exact applied_same saved h
  · intro hexact hcount
    rw [List.countP_eq_length_filter, List.length_eq_one_iff] at hcount
    obtain ⟨rule, hone⟩ := hcount
    have hmatches : ∀ rule ∈ rules, rule.matches h.app = rule.globs h.app := fun rule hmem => by
      rw [Agent.Rule.matches, hexact rule hmem, Bool.false_or]
    obtain ⟨hrule, hglobs⟩ := List.mem_filter.1 (hone ▸ List.mem_singleton_self rule)
    have hagree := agreeOn hplain hlength halike hrule ((hmatches rule hrule).trans hglobs)
    rw [applied_eq fun rule hmem => hagree rule (horder.mem_iff.1 hmem), Agent.categorize_glob hexact hone,
      lastMatching_of_one horder ((List.filter_congr hmatches).trans hone)]
    rfl
  · intro rule hrule hexact
    have hmatches : rule.matches h.app = true := by
      rw [Agent.Rule.matches, hexact, Bool.true_or]
    have hagree := agreeOn hplain hlength halike hrule hmatches
    rw [applied_eq fun rule hmem => hagree rule (horder.mem_iff.1 hmem),
      Agent.categorize_exact hdistinct hrule hexact]
    cases hlast : lastMatching saved h.app with
    | none => exact absurd hmatches (List.find?_eq_none.1 hlast rule (List.mem_reverse.2 (horder.mem_iff.2 hrule)))
    | some last => exact ⟨last, rfl, rfl, Iff.rfl⟩

/-! ## A name and a glob -/

def browser : Agent.Rule := ⟨str "chrome.exe", str "Browser"⟩

def catchAll : Agent.Rule := ⟨str "*", str "CatchAll"⟩

/-- A request to save the rule and to apply it to the history. -/
def saveRule (pattern category : String) : Request where
  method := str "PUT"
  path := str "/admin/api/rules"
  body := ⟨str "\x7b\"pattern\":\"" ++ str pattern ++ str "\",\"category\":\"" ++ str category ++
    str "\",\"apply_to_history\":true\x7d", false⟩

/-- There is a heartbeat of the app. -/
def storedApp (app : Bytes) : World where
  db := { heartbeats := .single (rowOf app) }
  clock := fun _ => .epoch
  entropy := fun _ => 0

/-- The glob was saved first. -/
theorem history_agrees_in_order : ∃ w', Saved (storedApp (str "Chrome.exe")) [catchAll, browser] w' ∧
    ∃ h' ∈ w'.db.heartbeats.rows, h'.category = Agent.categorize [browser, catchAll] (str "Chrome.exe") := by
  have hsaved := (Saved.start (w := storedApp (str "Chrome.exe"))).save catchAll (saveRule "*" "CatchAll") (by decide +kernel)
    (by decide +kernel)
  have hsaved := hsaved.save browser (saveRule "chrome.exe" "Browser") (by decide +kernel) (by decide +kernel)
  obtain ⟨h', hmem, -, -, hexact⟩ := history_agrees [browser, catchAll] [catchAll, browser] (by decide +kernel)
    (by decide) (.swap _ _ _) (storedApp _) _ hsaved (rowOf (str "Chrome.exe")) (List.mem_singleton_self _)
    ⟨by decide, by decide, .inl (by decide)⟩
  obtain ⟨last, hlast, -, hiff⟩ := hexact browser (by decide) (by decide)
  have hbrowser : lastMatching [catchAll, browser] (str "Chrome.exe") = some browser := by decide
  rw [rowOf, hbrowser, Option.some.injEq] at hlast
  exact ⟨_, hsaved, h', hmem, hiff.2 (hlast ▸ rfl)⟩

/-- A glob that was saved last took the heartbeat from the rule of its name;
`path.Match` makes two of one character, where the rule's glob takes one; the
engine reads a name up to its NUL. -/
theorem history_disagrees :
    (∃ w', Saved (storedApp (str "Chrome.exe")) [browser, catchAll] w' ∧
      w'.db.heartbeats.rows.map (·.category) = [str "CatchAll"] ∧
      Agent.categorize [browser, catchAll] (str "Chrome.exe") = str "Browser") ∧
    (∃ w', Saved (storedApp (str "€")) [⟨str "*??", str "Euro"⟩] w' ∧
      w'.db.heartbeats.rows.map (·.category) = [[]] ∧
      Agent.categorize [⟨str "*??", str "Euro"⟩] (str "€") = str "Euro") ∧
    ∃ w', Saved (storedApp (str "a\x00b")) [⟨str "*b", str "Cut"⟩] w' ∧
      w'.db.heartbeats.rows.map (·.category) = [[]] ∧
      Agent.categorize [⟨str "*b", str "Cut"⟩] (str "a\x00b") = str "Cut" := by
  refine ⟨?_, ?_, ?_⟩
  · have hsaved := (Saved.start (w := storedApp (str "Chrome.exe"))).save browser (saveRule "chrome.exe" "Browser")
      (by decide +kernel) (by decide +kernel)
    exact ⟨_, hsaved.save catchAll (saveRule "*" "CatchAll") (by decide +kernel) (by decide +kernel),
      by decide +kernel, by decide⟩
  · exact ⟨_, Saved.start.save ⟨str "*??", str "Euro"⟩ (saveRule "*??" "Euro") (by decide +kernel) (by decide +kernel),
      by decide +kernel, by decide⟩
  · exact ⟨_, Saved.start.save ⟨str "*b", str "Cut"⟩ (saveRule "*b" "Cut") (by decide +kernel) (by decide +kernel),
      by decide +kernel, by decide⟩

end ScrewLogger
