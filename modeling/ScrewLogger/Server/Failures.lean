/-
Failed requests to the admin API.

`failed_changes_nothing_iff`: whatever calls of the database fail, a request
that is answered with a 400 or more leaves the tables as they were, unless it
saves a rule with its history: the rule is saved by one statement and applied
by another, and the second may fail alone.
-/
import ScrewLogger.Server.AdminApi

namespace ScrewLogger
open Lib Lib.Eff Lib.Json

/-- A failure, if it is one, and the tables are those of `db`. -/
def Spared (db : Database) (resp : Response) (w' : World) : Prop := 400 ≤ resp.status → w'.db = db

variable {host : Host} {r : Request} {w : World} {db : Database}

theorem spared_ok {v : Body} {w' : World} : Spared db (writeJSON v) w' := fun h => absurd h (by decide : ¬ 400 ≤ 200)

theorem spared_same {resp : Response} {w' : World} (h : w'.db = db) : Spared db resp w' := fun _ => h

/-- An operation of the store inside a handler. -/
theorem wp_atomic {α : Type} {op : Store α} {R : Database → α → Database → Prop} {F : Database → StoreError → Prop}
    (h : Store.Atomic op R F) {f : StoreError → Response} {Q : α → World → Prop} {E : Response → World → Prop}
    (hQ : ∀ a w', R w.db a w'.db → Q a w') (hE : ∀ e w', Same w w' → E (f e) w') : wp (mapError f op) Q E w := by
  rw [wp_mapError]
  exact (h w).mono (fun a w' h => hQ a w' h.2) fun e w' h => hE e w' h.1

/-! ## The handlers but one -/

theorem spared_handleDeviceEnroll : (handleDeviceEnroll host r).Ends (Spared w.db) w := by
  simp only [Answer.Ends, handleDeviceEnroll, wp_bind, wp_fromOption]
  refine ⟨fun name _ => ?_, fun _ => spared_same rfl⟩
  exact wp_atomic (Store.atomic_createDevice host name) (fun _ _ _ => spared_ok) fun _ _ h => spared_same h.db

theorem spared_handleDeviceRevoke : (handleDeviceRevoke r).Ends (Spared w.db) w := by
  simp only [Answer.Ends, handleDeviceRevoke, wp_bind]
  exact wp_atomic (Store.atomic_revokeDevice _) (fun _ _ _ => spared_ok) fun _ _ h => spared_same h.db

theorem spared_handleDeviceRename : (handleDeviceRename r).Ends (Spared w.db) w := by
  simp only [Answer.Ends, handleDeviceRename, wp_bind, wp_fromOption, wp_ensure]
  refine ⟨fun _ _ => ⟨fun _ => ⟨fun _ => ?_, fun _ => spared_same rfl⟩, fun _ => spared_same rfl⟩,
    fun _ => spared_same rfl⟩
  exact wp_atomic (Store.atomic_renameDevice _ _) (fun _ _ _ => spared_ok) fun _ _ h => spared_same h.db

theorem spared_handleDeviceDelete : (handleDeviceDelete r).Ends (Spared w.db) w := by
  simp only [Answer.Ends, handleDeviceDelete, wp_bind]
  exact wp_atomic (Store.atomic_deleteDevice _) (fun _ _ _ => spared_ok) fun _ _ h => spared_same h.db

theorem spared_handleRuleDelete : (handleRuleDelete r).Ends (Spared w.db) w := by
  simp only [Answer.Ends, handleRuleDelete, wp_bind, wp_fromOption]
  refine ⟨fun _ _ => ?_, fun _ => spared_same rfl⟩
  exact wp_atomic (Store.atomic_deleteRule _) (fun _ _ _ => spared_ok) fun _ _ h => spared_same h.db

theorem spared_handleKeyCreate : (handleKeyCreate host r).Ends (Spared w.db) w := by
  simp only [Answer.Ends, handleKeyCreate, wp_bind, wp_fromOption]
  refine ⟨fun _ _ => ?_, fun _ => spared_same rfl⟩
  exact wp_atomic (Store.atomic_createAPIKey host _) (fun _ _ _ => spared_ok) fun _ _ h => spared_same h.db

/-- A prefix no key has is a failure that revoked none. -/
theorem spared_handleKeyRevoke : (handleKeyRevoke r).Ends (Spared w.db) w := by
  simp only [Answer.Ends, handleKeyRevoke, wp_bind]
  refine wp_atomic (Store.atomic_revokeAPIKeyByPrefix _) (fun n w' h => ?_) fun _ _ h => spared_same h.db
  rw [wp_ensure]
  refine ⟨fun _ => spared_ok, fun hn => ?_⟩
  obtain ⟨now, h⟩ := h
  rw [bne_eq_false_iff_eq] at hn
  exact spared_same (hn ▸ h).eq

/-- A handler that only reads. -/
theorem spared_of_same {m : Answer} (h : m.Ends (fun _ w' => Same w w') w) : m.Ends (Spared w.db) w :=
  h.mono fun _ _ h => spared_same h.db

theorem spared_handleRulesList : (handleRulesList r).Ends (Spared w.db) w := by
  simp only [Answer.Ends, handleRulesList, wp_bind]
  exact wp_atomic Store.atomic_query (fun _ _ _ => spared_ok) fun _ _ h => spared_same h.db

theorem spared_handleKeyList : (handleKeyList host r).Ends (Spared w.db) w := by
  simp only [Answer.Ends, handleKeyList, wp_bind]
  exact wp_atomic Store.atomic_query (fun _ _ _ => spared_ok) fun _ _ h => spared_same h.db

/-! ## Saving a rule -/

def ruleBody (r : Request) : Option RuleBody := (decodeFirst r.body).bind (readStruct RuleBody.setField {})

/-- The rule is saved, which changes the table, and cannot be applied to the history. -/
structure SavedHalf (body : RuleBody) (w : World) : Prop where
  applies : body.applyToHistory = true
  saved : w.faults.headD false = false
  notApplied : w.faults.tail.headD false = true ∨ PatternRefused body.pattern w.db
  changes : ⟨body.pattern, body.category, (w.clock 0).unix.toInt⟩ ∉ w.db.rules.rows

/-- One statement, as the schedule has it. -/
theorem wp_exec_iff {f : Database → Option (Database × Nat)} {Q : Nat → World → Prop}
    {E : StoreError → World → Prop} :
    wp (Store.exec f) Q E w ↔
      (w.faults.headD false = false → ∀ n db, f w.db = some (db, n) →
        Q n { w with faults := w.faults.tail, db := db }) ∧
      (w.faults.headD false = true ∨ f w.db = none → E .sql { w with faults := w.faults.tail }) := by
  simp only [Store.exec, Store.call, wp_bind, wp_take, wp_ensure, wp_read, wp_fromOption, wp_modify, wp_pure]
  cases w.faults.headD false with
  | true => simp
  | false =>
    cases f w.db with
    | none => simp
    | some p =>
      obtain ⟨db, n⟩ := p
      simp

theorem spared_handleRuleUpsert_iff : (handleRuleUpsert r).Ends (Spared w.db) w ↔
    ¬ ∃ body, ruleBody r = some body ∧ SavedHalf body w := by
  cases hbody : ruleBody r with
  | none =>
    rw [ruleBody] at hbody
    simp [Answer.Ends, handleRuleUpsert, hbody, Spared]
  | some body =>
    have hbody' := hbody
    rw [ruleBody] at hbody'
    simp only [Answer.Ends, handleRuleUpsert, wp_bind, wp_fromOption, hbody', Store.upsertRule, Store.timeNowUnix,
      Store.timeNow, wp_map, wp_take, wp_mapError, wp_exec_iff, wp_pure, Option.some.injEq, forall_eq', reduceCtorEq,
      false_implies, and_true, exists_eq_left']
    constructor
    · intro hends hhalf
      obtain ⟨hsaved, -⟩ := hends
      obtain ⟨db, n, hdb⟩ : ∃ db n, Database.upsertRule
        ⟨body.pattern, body.category, (w.clock 0).unix.toInt⟩ w.db = some (db, n) := ⟨_, _, rfl⟩
      have happly := hsaved hhalf.saved n db hdb
      simp only [hhalf.applies, if_true, wp_bind, wp_mapError, Store.recategorize, wp_exec_iff] at happly
      have hsaves := Store.savesRule hdb
      have hrefused : PatternRefused body.pattern w.db → db.recategorize body.pattern body.category = none := fun h =>
        Store.recategorize_eq_none_iff.2 ⟨h.1, hsaves.heartbeats ▸ h.2⟩
      have hsame : db = w.db := happly.2 (hhalf.notApplied.imp_right hrefused) (by decide)
      refine hhalf.changes ?_
      rw [← hsame]
      exact (hsaves.rules _).2 (.inl rfl)
    · intro hnot
      refine ⟨fun hsaved n db hdb => ?_, fun _ => spared_same rfl⟩
      rw [wp_ite]
      refine ⟨fun happlies => ?_, fun _ => spared_ok⟩
      simp only [wp_bind, wp_mapError, Store.recategorize, wp_exec_iff]
      refine ⟨fun _ _ _ _ => spared_ok, fun hfails => ?_⟩
      have hsaves := Store.savesRule hdb
      have hfails : w.faults.tail.headD false = true ∨ PatternRefused body.pattern w.db :=
        hfails.imp_right fun hnone =>
          have hrefused := Store.recategorize_eq_none_iff.1 hnone
          ⟨hrefused.1, hsaves.heartbeats ▸ hrefused.2⟩
      refine spared_same (hsaves.same ?_)
      by_contra hnew
      exact hnot ⟨happlies, hsaved, hfails, hnew⟩

/-! ## The admin API -/

/-- Behind the session: what follows the clock's reading. -/
theorem requireAdmin_session {next : Handler} {P : Response → World → Prop} (h : HasSession r w) :
    (requireAdmin next r).Ends P w ↔ (next r).Ends P { w with clock := fun n => w.clock (n + 1) } := by
  obtain ⟨c, expiry, hc, he, hle⟩ := h
  simp [Answer.Ends, requireAdmin, sessionValid, wp_read, hc, he, hle, Store.timeNow]

/-- The request saves a rule, and would apply it to the history, but only the
first of the two statements works. -/
def SavesHalf (host : Host) (r : Request) (w : World) : Prop :=
  (∃ values, Reaches (adminRoutes host) r handleRuleUpsert values) ∧
    ∃ body, ruleBody r = some body ∧ SavedHalf body { w with clock := fun n => w.clock (n + 1) }

theorem spared_adminRoutes : ∀ route ∈ adminRoutes host,
    (route.2 = handleRuleUpsert → ¬ ∃ body, ruleBody r = some body ∧ SavedHalf body w) →
    (route.2 r).Ends (Spared w.db) w := by
  have hqueries := @ends_queryRoutes host r w
  simp only [queryRoutes, List.forall_mem_cons] at hqueries
  obtain ⟨hdevices, husage, hratio, hevents, -⟩ := hqueries
  simp only [adminRoutes, List.forall_mem_cons]
  exact ⟨fun _ => spared_handleDeviceEnroll, fun _ => spared_of_same hdevices,
    fun _ => spared_handleDeviceRevoke, fun _ => spared_handleDeviceRename,
    fun _ => spared_handleDeviceDelete, fun _ => spared_handleRulesList,
    fun hnot => spared_handleRuleUpsert_iff.2 (hnot trivial), fun _ => spared_handleRuleDelete,
    fun _ => spared_handleKeyCreate, fun _ => spared_handleKeyList, fun _ => spared_handleKeyRevoke,
    fun _ => spared_of_same husage, fun _ => spared_of_same hratio, fun _ => spared_of_same hevents,
    fun _ h => absurd h List.not_mem_nil⟩

/-- **A failed request changes nothing**, but for a rule that is saved and
cannot be applied. -/
theorem failed_changes_nothing_iff (host : Host) (r : Request) (w : World) :
    let resp := ((adminAPI host).serve r w).1
    let db' := ((adminAPI host).serve r w).2.db
    (400 ≤ resp.status → db' = w.db) ↔ ¬ (HasSession r w ∧ SavesHalf host r w) := by
  have hends : (400 ≤ ((adminAPI host).serve r w).1.status → ((adminAPI host).serve r w).2.db = w.db) ↔
      (adminAPI host r).Ends (Spared w.db) w := Answer.run_iff (P := Spared w.db)
  show _ ↔ _
  rw [hends]
  by_cases hsession : HasSession r w
  · rw [adminAPI, requireAdmin_session hsession]
    constructor
    · intro h hhalf
      obtain ⟨-, ⟨values, hreaches⟩, body, hbody, hhalf⟩ := hhalf
      rw [serveMux_reaches hreaches] at h
      exact spared_handleRuleUpsert_iff.1 h ⟨body, hbody, hhalf⟩
    · intro hnot
      refine ends_serveMux (fun resp _ => spared_same rfl) fun p handler values vals hmem _ _ _ hreaches => ?_
      refine spared_adminRoutes (p, handler) hmem ?_
      rintro rfl ⟨body, hbody, hhalf⟩
      exact hnot ⟨hsession, ⟨values, hreaches⟩, body, hbody, hhalf⟩
  · refine iff_of_true ?_ fun h => hsession h.1
    exact (ends_adminAPI hsession).mono fun resp w' h => spared_same h.db

/-- A request to save the rule that every app is of the category `x`, and to
apply it to the history. -/
def saveRequest : Request where
  method := str "PUT"
  path := str "/admin/api/rules"
  cookies := [(sessionCookieName, str "s")]
  body := { data := str "\x7b\"pattern\":\"*\",\"category\":\"x\",\"apply_to_history\":true\x7d" }

/-- The session is open, and the second statement to come fails. -/
def secondFails : World where
  db := {}
  sessions := [(str "s", 0)]
  faults := [false, true]
  clock := fun _ => .epoch
  entropy := fun _ => 0

theorem failed_save_saves : ((adminAPI insertionHost).serve saveRequest secondFails).1.status = 500 ∧
    secondFails.db.rules.rows = [] ∧
    ((adminAPI insertionHost).serve saveRequest secondFails).2.db.rules.rows = [⟨str "*", str "x", 0⟩] := by
  decide

end ScrewLogger
