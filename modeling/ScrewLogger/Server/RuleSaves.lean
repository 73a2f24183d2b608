/-
Rule saves in flight.

A request that saves a rule and applies it to the history does so in two
statements, and another request's may come in between. `saves_agree_iff`: once
requests for one pattern are done, the rule and the heartbeats it matches have
one category just if the last to save and the last to apply mean the same one,
or no heartbeat matches. `crossed_saves_disagree` is a run in which they do not.
-/
import ScrewLogger.Lib.InFlight
import ScrewLogger.Server.Failures

namespace ScrewLogger
open Lib Lib.Eff Lib.Json

/-! ## The steps of the handler -/

/-- The handler up to the rule being saved. -/
def ruleSave (r : Request) : Eff World Response RuleBody := do
  let body ← fromOption (ruleBody r) malformed
  mapError (fun _ => storageError) (Store.upsertRule body.pattern body.category)
  pure body

/-- The handler from there. -/
def ruleApply (body : RuleBody) : Answer := do
  if body.applyToHistory then
    let n ← mapError (fun _ => storageError) (Store.recategorize body.pattern body.category)
    pure (writeJSON (.ok (some n)))
  else pure (writeJSON .ok)

theorem handleRuleUpsert_eq (r : Request) : handleRuleUpsert r = ruleSave r >>= ruleApply := by
  simp only [handleRuleUpsert, ruleSave, bind_assoc, pure_bind]
  rfl

/-- The next step of a request, one statement at most. -/
def saveStep (r : Request) : Phase RuleBody → World → Phase RuleBody × World := inSteps (ruleSave r) ruleApply

/-- A request that no other comes in between leaves what the handler leaves. -/
theorem saveStep_alone {r : Request} {w : World} : (saveStep r (saveStep r .start w).1 (saveStep r .start w).2).2 =
    (handleRuleUpsert.serve r w).2 := by
  rw [Handler.serve, Answer.run_snd, handleRuleUpsert_eq]
  exact inSteps_alone

/-! ## Who was last -/

variable {ι : Type} [DecidableEq ι]

/-- Which request was the last to make its step number `k`, counted from 0,
among the steps made so far, the latest first. -/
def lastTurn (k : Nat) : List ι → Option ι
  | [] => none
  | i :: earlier => if earlier.count i = k then some i else lastTurn k earlier

/-- A request that made the step was not the last to, or was. -/
theorem lastTurn_of_count {k : Nat} {i : ι} : ∀ {past : List ι}, k < past.count i → ∃ j, lastTurn k past = some j
  | [], h => by simp at h
  | j :: earlier, h => by
    rw [lastTurn]
    by_cases hj : earlier.count j = k
    · exact ⟨j, if_pos hj⟩
    · rw [if_neg hj]
      have hearlier : k < earlier.count i := by
        by_cases hij : i = j
        · subst hij
          rw [List.count_cons_self] at h
          omega
        · rwa [List.count_cons_of_ne (Ne.symm hij)] at h
      exact lastTurn_of_count hearlier

/-- Where a request is after so many steps. -/
def phaseAfter (body : RuleBody) : Nat → Phase RuleBody
  | 0 => .start
  | 1 => .between body
  | _ => .done

theorem done_iff {body : RuleBody} {n : Nat} : phaseAfter body n = .done ↔ 1 < n := by
  match n with
  | 0 => simp [phaseAfter]
  | 1 => simp [phaseAfter]
  | n + 2 => simp [phaseAfter]

/-! ## What the requests have done -/

/-- The heartbeats, once the request was the last to apply its category. -/
def appliedTo (pattern : Bytes) (category : ι → Bytes) (rows : List HeartbeatRow) : Option ι → List HeartbeatRow
  | none => rows
  | some i => rows.map (recategorized pattern (category i))

omit [DecidableEq ι] in
theorem appliedTo_then {pattern : Bytes} {category : ι → Bytes} {rows : List HeartbeatRow} {i : ι} :
    ∀ o : Option ι, (appliedTo pattern category rows o).map (recategorized pattern (category i)) =
      appliedTo pattern category rows (some i)
  | none => rfl
  | some j => by
    rw [appliedTo, appliedTo, List.map_map]
    exact List.map_congr_left fun h _ => recategorized_twice

/-- Requests to save `category i` for the pattern, after the steps `past`, from
the heartbeats `rows`. -/
structure Saving (pattern : Bytes) (category : ι → Bytes) (rows : List HeartbeatRow) (past : List ι)
    (c : InFlight ι (Phase RuleBody) World) : Prop where
  quiet : Store.Quiet c.shared
  phase : ∀ i, c.phase i = phaseAfter ⟨pattern, category i, true⟩ (past.count i)
  rule : ∀ i, lastTurn 0 past = some i → ∃ now, ⟨pattern, category i, now⟩ ∈ c.shared.db.rules.rows
  heartbeats : c.shared.db.heartbeats.rows = appliedTo pattern category rows (lastTurn 1 past)

variable {pattern : Bytes} {category : ι → Bytes} {rows : List HeartbeatRow} {past : List ι}
  {c : InFlight ι (Phase RuleBody) World} {w : World}

/-- The first step saves the rule. -/
theorem ruleSave_quiet {r : Request} {body : RuleBody} (hq : Store.Quiet w) (hbody : ruleBody r = some body) :
    wp (ruleSave r) (fun b w' => b = body ∧ Store.Quiet w' ∧
      ∃ now, Store.SavesRule ⟨body.pattern, body.category, now⟩ w.db w'.db) (fun _ _ => False) w := by
  simp only [ruleSave, wp_bind, wp_fromOption, wp_mapError, hbody, Store.upsertRule]
  refine ⟨fun b hb => ?_, fun hnone => by cases hnone⟩
  cases hb
  refine Store.wp_timeNowUnix_quiet hq fun now w₁ hq₁ h₁ => Store.wp_exec_quiet hq₁ rfl fun w₂ hq₂ h₂ => ?_
  refine ⟨rfl, hq₂, now, ?_⟩
  rw [h₂, ← h₁]
  exact Store.savesRule rfl

/-- The second applies it. -/
theorem ruleApply_quiet (pattern category : Bytes) (hq : Store.Quiet w) :
    let w' := (ruleApply ⟨pattern, category, true⟩ w).2
    Store.Quiet w' ∧ w'.db.rules = w.db.rules ∧
      w'.db.heartbeats.rows = w.db.heartbeats.rows.map (recategorized pattern category) := by
  refine wp.final (P := fun w' => Store.Quiet w' ∧ w'.db.rules = w.db.rules ∧ w'.db.heartbeats.rows = _) ?_
  simp only [ruleApply, if_true, wp_bind, wp_mapError, Store.recategorize, wp_pure, wp_exec_iff]
  have hquiet : w.faults = [] := hq
  rw [hquiet]
  refine ⟨fun _ n db hdb => ?_, fun hfails => ?_⟩
  · obtain ⟨-, hrules, -, hrows⟩ := Store.recategorize_eq_some hdb
    exact ⟨rfl, hrules, hrows⟩
  · have hrefused := Store.recategorize_eq_none_iff.1 (hfails.resolve_left (by decide))
    exact ⟨rfl, trivial, (recategorized_of_refused hrefused).symm⟩

/-- A step of one request, to `w`, and the others where they were. -/
theorem Saving.advance {code : ι → Phase RuleBody → World → Phase RuleBody × World} {i : ι}
    (h : Saving pattern category rows past c)
    (hcode : code i (c.phase i) c.shared = (phaseAfter ⟨pattern, category i, true⟩ (past.count i + 1), w))
    (hquiet : Store.Quiet w)
    (hrule : ∀ j, lastTurn 0 (i :: past) = some j → ∃ now, ⟨pattern, category j, now⟩ ∈ w.db.rules.rows)
    (hrows : w.db.heartbeats.rows = appliedTo pattern category rows (lastTurn 1 (i :: past))) :
    Saving pattern category rows (i :: past) (c.advance code i) := by
  have hshared : (c.advance code i).shared = w := by rw [InFlight.advance_shared, hcode]
  refine ⟨hshared ▸ hquiet, fun j => ?_, hshared ▸ hrule, hshared ▸ hrows⟩
  by_cases hj : j = i
  · subst hj
    rw [InFlight.advance_phase_self, hcode, List.count_cons_self]
  · rw [InFlight.advance_phase_ne hj, h.phase j, List.count_cons_of_ne (Ne.symm hj)]

/-- **One step.** -/
theorem Saving.step {requests : ι → Request}
    (hbody : ∀ i, ruleBody (requests i) = some ⟨pattern, category i, true⟩)
    (h : Saving pattern category rows past c) (i : ι) :
    Saving pattern category rows (i :: past) (c.advance (fun i => saveStep (requests i)) i) := by
  have hphase := h.phase i
  match hn : past.count i with
  | 0 =>
    rw [hn] at hphase
    obtain ⟨b, w, hrun, rfl, hquiet, now, hsaves⟩ := (ruleSave_quiet h.quiet (hbody i)).returns
    refine h.advance (w := w) ?_ hquiet (fun j hj => ?_) ?_
    · rw [hphase, hn]
      simp only [phaseAfter, saveStep, inSteps, hrun]
    · rw [lastTurn, if_pos hn, Option.some.injEq] at hj
      subst hj
      exact ⟨now, (hsaves.rules _).2 (.inl rfl)⟩
    · rw [hsaves.heartbeats, h.heartbeats, lastTurn, if_neg (by omega)]
  | 1 =>
    rw [hn] at hphase
    obtain ⟨hquiet, hrules, hrows⟩ := ruleApply_quiet pattern (category i) h.quiet
    refine h.advance ?_ hquiet (fun j hj => ?_) ?_
    · rw [hphase, hn]
      rfl
    · rw [lastTurn, if_neg (by omega)] at hj
      rw [hrules]
      exact h.rule j hj
    · rw [hrows, h.heartbeats, appliedTo_then, lastTurn, if_pos hn]
  | n + 2 =>
    rw [hn] at hphase
    refine h.advance (w := c.shared) ?_ h.quiet (fun j hj => ?_) ?_
    · rw [hphase, hn]
      rfl
    · rw [lastTurn, if_neg (by omega)] at hj
      exact h.rule j hj
    · rw [h.heartbeats, lastTurn, if_neg (by omega)]

/-- Requests none of which has begun. -/
def begun (w : World) : InFlight ι (Phase RuleBody) World := ⟨fun _ => .start, w⟩

/-- **Every interleaving.** -/
theorem saving_run {requests : ι → Request} (hbody : ∀ i, ruleBody (requests i) = some ⟨pattern, category i, true⟩)
    (hquiet : Store.Quiet w) (schedule : List ι) :
    Saving pattern category w.db.heartbeats.rows schedule.reverse
      ((begun w).run (fun i => saveStep (requests i)) schedule) := by
  induction schedule using List.reverseRecOn with
  | nil => exact ⟨hquiet, fun _ => rfl, nofun, rfl⟩
  | append_singleton schedule i ih =>
    rw [InFlight.run_append, List.reverse_append]
    exact ih.step hbody i

/-- The pattern's rule and the heartbeats it matches have one category. -/
def OneCategory (pattern : Bytes) (db : Database) : Prop :=
  ∃ r ∈ db.rules.rows, r.exePattern = pattern ∧ ∀ h ∈ db.heartbeats.rows, Matched pattern h → h.category = r.category

/-- **Concurrent rule saves** agree with the history just if the last to save
the rule and the last to apply it mean the same category, or no heartbeat
matches. -/
theorem saves_agree_iff [Nonempty ι] (requests : ι → Request) (pattern : Bytes) (category : ι → Bytes)
    (hbody : ∀ i, ruleBody (requests i) = some ⟨pattern, category i, true⟩) (w : World) (hquiet : Store.Quiet w)
    (schedule : List ι) :
    let later := (begun w).run (fun i => saveStep (requests i)) schedule
    (∀ i, later.phase i = .done) →
      (OneCategory pattern later.shared.db ↔
        (lastTurn 0 schedule.reverse).map category = (lastTurn 1 schedule.reverse).map category ∨
          ∀ h ∈ w.db.heartbeats.rows, ¬ Matched pattern h) := by
  intro later hdone
  have hsaving := saving_run (w := w) hbody hquiet schedule
  have hcount : ∀ i, 1 < schedule.reverse.count i := fun i => done_iff.1 ((hsaving.phase i).symm.trans (hdone i))
  obtain ⟨someone⟩ := ‹Nonempty ι›
  obtain ⟨saver, hsaver⟩ := lastTurn_of_count (k := 0) (Nat.lt_of_succ_lt (hcount someone))
  obtain ⟨applier, happlier⟩ := lastTurn_of_count (hcount someone)
  obtain ⟨now, hrule⟩ := hsaving.rule saver hsaver
  have hrows := hsaving.heartbeats
  rw [happlier, appliedTo] at hrows
  rw [hsaver, happlier, Option.map_some, Option.map_some, Option.some.injEq]
  have hcategory : ∀ h, Matched pattern h → (recategorized pattern (category applier) h).category =
    category applier :=
    fun h hm => by rw [recategorized, if_pos hm]
  constructor
  · intro hone
    obtain ⟨r, hr, hpattern, hall⟩ := hone
    have hsame : r = ⟨pattern, category saver, now⟩ := Table.eq_of_key hr hrule hpattern
    subst hsame
    by_cases hany : ∃ h ∈ w.db.heartbeats.rows, Matched pattern h
    · obtain ⟨h, hmem, hm⟩ := hany
      have := hall _ (hrows ▸ List.mem_map_of_mem hmem) (matched_recategorized.2 hm)
      exact .inl (this.symm.trans (hcategory h hm))
    · exact .inr fun h hmem hm => hany ⟨h, hmem, hm⟩
  · intro hor
    refine ⟨_, hrule, rfl, fun h hmem hm => ?_⟩
    rw [hrows, List.mem_map] at hmem
    obtain ⟨h', hmem', rfl⟩ := hmem
    rw [matched_recategorized] at hm
    obtain heq | hnone := hor
    · exact (hcategory h' hm).trans heq.symm
    · exact absurd hm (hnone h' hmem')

/-! ## Two requests that cross -/

/-- A request to save the rule that every app is of the category, and to apply it. -/
def saveAll (category : String) : Request where
  method := str "PUT"
  path := str "/admin/api/rules"
  body := ⟨str "\x7b\"pattern\":\"*\",\"category\":\"" ++ str category ++ str "\",\"apply_to_history\":true\x7d", false⟩

/-- One of them means `x` and the other `y`. -/
def crossing : Bool → Request
  | false => saveAll "x"
  | true => saveAll "y"

/-- There is a heartbeat. -/
def oneRow : World where
  db := { heartbeats := .single ⟨str "h", str "d", 0, str "a", str "z", true, 0, 0⟩ }
  clock := fun _ => .epoch
  entropy := fun _ => 0

/-- One after the other. -/
theorem saves_agree_in_turn :
    OneCategory (str "*") ((begun oneRow).run (fun i =>
      saveStep (crossing i)) [false, false, true, true]).shared.db := by
  have hbody : ∀ i, ruleBody (crossing i) = some ⟨str "*", bif i then str "y" else str "x", true⟩ := by
    intro i
    cases i <;> decide +kernel
  refine (saves_agree_iff crossing (str "*") (fun i => bif i then str "y" else str "x") hbody oneRow rfl
    [false, false, true, true] ?_).2 (.inl (by decide))
  intro i
  cases i <;> decide +kernel

/-- The first to save is the last to apply. -/
theorem crossed_saves_disagree :
    let later := (begun oneRow).run (fun i => saveStep (crossing i)) [false, true, true, false]
    later.phase false = .done ∧ later.phase true = .done ∧
      later.shared.db.rules.rows.map (·.category) = [str "y"] ∧
      later.shared.db.heartbeats.rows.map (·.category) = [str "x"] := by
  decide +kernel

end ScrewLogger
