/-
What each operation of the store does to the tables.

Every operation is `Atomic`: it returns, and the tables are related to what
they were by the operation's own relation, or it fails and they are as before.
One lemma an operation says which relation that is and which errors it fails
with; nothing after this file looks into the operations.
-/
import ScrewLogger.Server.Query

namespace ScrewLogger
open Lib Lib.Eff

/-- Two worlds with the same tables and sessions. -/
structure Same (w w' : World) : Prop where
  db : w'.db = w.db
  sessions : w'.sessions = w.sessions

theorem Same.refl (w : World) : Same w w := ⟨rfl, rfl⟩

theorem Same.trans {w w' w'' : World} (h : Same w w') (h' : Same w' w'') : Same w w'' :=
  ⟨h'.db.trans h.db, h'.sessions.trans h.sessions⟩

/-- The heartbeat's app matches the pattern. -/
def Matched (pattern : Bytes) (h : HeartbeatRow) : Prop := glob (lower pattern) (lower h.app) = some true

instance (pattern : Bytes) (h : HeartbeatRow) : Decidable (Matched pattern h) :=
  inferInstanceAs (Decidable (_ = some true))

/-- The heartbeat, once a category was applied to those the pattern matches. -/
def recategorized (pattern category : Bytes) (h : HeartbeatRow) : HeartbeatRow :=
  if Matched pattern h then { h with category := category } else h

theorem matched_recategorized {pattern category : Bytes} {h : HeartbeatRow} :
    Matched pattern (recategorized pattern category h) ↔ Matched pattern h := by
  unfold recategorized
  split <;> rfl

/-- The category applied last stays. -/
theorem recategorized_twice {pattern category category' : Bytes} {h : HeartbeatRow} :
    recategorized pattern category' (recategorized pattern category h) = recategorized pattern category' h := by
  by_cases hm : Matched pattern h
  · have hm' : Matched pattern { h with category := category } := hm
    simp only [recategorized, if_pos hm, if_pos hm']
  · simp only [recategorized, if_neg hm]

/-- The engine refuses a pattern that is too long, if there is a heartbeat to match. -/
def PatternRefused (pattern : Bytes) (db : Database) : Prop :=
  maxLikePatternLength < pattern.length ∧ db.heartbeats.rows ≠ []

/-- A refused pattern matches nothing. -/
theorem recategorized_of_refused {pattern category : Bytes} {db : Database} (h : PatternRefused pattern db) :
    db.heartbeats.rows.map (recategorized pattern category) = db.heartbeats.rows := by
  refine (List.map_congr_left fun r _ => if_neg fun hm => ?_).trans (List.map_id _)
  have hnone : glob (lower pattern) (lower r.app) = none := glob_eq_none_iff.2 (by simpa using h.1)
  rw [Matched, hnone] at hm
  cases hm

namespace Store

variable {α β : Type} {w : World} {E : StoreError → World → Prop}

theorem wp_call {e : StoreError} {Q : Unit → World → Prop} (hQ : ∀ w', Same w w' → Q () w')
    (hE : ∀ w', Same w w' → E e w') : wp (call e) Q E w := by
  simp only [call, wp_bind, wp_take, wp_ensure]
  exact ⟨fun _ => hQ _ ⟨rfl, rfl⟩, fun _ => hE _ ⟨rfl, rfl⟩⟩

theorem wp_query {f : Database → α} {Q : α → World → Prop} (hQ : ∀ w', Same w w' → Q (f w.db) w')
    (hE : ∀ w', Same w w' → E .sql w') : wp (query f) Q E w := by
  simp only [query, wp_bind]
  refine wp_call (fun w' h => ?_) hE
  simp only [wp_read, h.db]
  exact hQ w' h

theorem wp_exec {f : Database → Option (Database × Nat)} {Q : Nat → World → Prop}
    (hQ : ∀ w' n, w'.sessions = w.sessions → f w.db = some (w'.db, n) → Q n w')
    (hE : ∀ w', Same w w' → E .sql w') : wp (exec f) Q E w := by
  simp only [exec, wp_bind]
  refine wp_call (fun w' h => ?_) hE
  simp only [wp_read, wp_fromOption, wp_modify, wp_pure, h.db]
  cases hf : f w.db with
  | none => simpa using hE w' h
  | some r => simpa using hQ { w' with db := r.1 } r.2 h.sessions hf

theorem wp_timeNow {ε : Type} {E : ε → World → Prop} {Q : Time → World → Prop}
    (hQ : ∀ t w', Same w w' → Q t w') : wp timeNow Q E w :=
  hQ _ _ ⟨rfl, rfl⟩

theorem wp_timeNowUnix {ε : Type} {E : ε → World → Prop} {Q : Int → World → Prop}
    (hQ : ∀ t w', Same w w' → Q t w') : wp timeNowUnix Q E w := by
  rw [timeNowUnix, wp_map]
  exact wp_timeNow fun t => hQ t.unix.toInt

theorem wp_randRead {n : Nat} {Q : Bytes → World → Prop} (hQ : ∀ s w', Same w w' → Q s w')
    (hE : ∀ w', Same w w' → E .entropy w') : wp (randRead n) Q E w := by
  simp only [randRead, wp_bind]
  exact wp_call (fun w' h => hQ _ _ (h.trans ⟨rfl, rfl⟩)) hE

/-- A transaction whose body leaves the sessions alone. -/
theorem wp_inTransaction {body : Store α} {Q : α → World → Prop}
    (hbody : ∀ w', Same w w' → wp body (fun a w'' => w''.sessions = w.sessions ∧ ∀ w₃, Same w'' w₃ → Q a w₃)
      (fun e w'' => w''.sessions = w.sessions ∧ ∀ w₃, Same w w₃ → E e w₃) w')
    (hE : ∀ w', Same w w' → E .sql w') : wp (inTransaction body) Q E w := by
  simp only [inTransaction, wp_restoring, wp_bind]
  refine wp_call (fun w' h => ?_) fun w' h => hE _ ⟨rfl, h.sessions⟩
  refine (hbody w' h).mono (fun a w'' ⟨hs, hq⟩ => ?_) fun e w'' ⟨hs, he⟩ => he { w'' with db := w.db } ⟨rfl, hs⟩
  refine wp_call (fun w₃ h₃ => ?_) fun w₃ h₃ => hE _ ⟨rfl, h₃.sessions.trans hs⟩
  exact hq w₃ h₃

/-- An operation that relates the tables before and after by `R` when it
returns, and changes nothing when it fails. -/
def Atomic (op : Store α) (R : Database → α → Database → Prop) (F : Database → StoreError → Prop) : Prop :=
  ∀ w, wp op (fun a w' => w'.sessions = w.sessions ∧ R w.db a w'.db) (fun e w' => Same w w' ∧ F w.db e) w

/-- How an operation ends. -/
theorem Atomic.ends {op : Store α} {R : Database → α → Database → Prop} {F : Database → StoreError → Prop}
    (h : Atomic op R F) (w : World) : (∃ a, (op w).1 = .ok a ∧ R w.db a (op w).2.db) ∨
      ∃ e, (op w).1 = .error e ∧ F w.db e ∧ (op w).2.db = w.db := by
  have hw := wp_iff.1 (h w)
  cases hop : op w with
  | mk r w' =>
    cases r with
    | ok a => exact .inl ⟨a, rfl, (hw.1 a w' hop).2⟩
    | error e => exact .inr ⟨e, rfl, (hw.2 e w' hop).2, (hw.2 e w' hop).1.db⟩

/-! ## Reads -/

/-- A query returns its result and changes nothing. -/
theorem atomic_query {f : Database → α} :
    Atomic (query f) (fun db a db' => db' = db ∧ a = f db) (fun _ e => e = .sql) := fun _ =>
  wp_query (fun _ h => ⟨h.sessions, h.db, rfl⟩) fun _ h => ⟨h, rfl⟩

variable (host : Host)

theorem atomic_deviceIDByToken (token : Bytes) : Atomic (deviceIDByToken host token)
    (fun db id db' => db' = db ∧ ∃ d ∈ db.devices.rows, d.tokenHash = hashToken host token ∧ d.id = id ∧
      d.revokedAt = none) (fun _ _ => True) := by
  intro w
  simp only [deviceIDByToken, wp_bind]
  refine wp_query (fun w' h => ?_) fun w' h => ⟨h, trivial⟩
  cases hd : w.db.devices.rows.find? (·.tokenHash == hashToken host token) with
  | none => simpa using h
  | some d =>
    have hmem := List.mem_of_find?_eq_some hd
    have htoken := List.find?_some hd
    rw [beq_iff_eq] at htoken
    simp only [wp_ite, wp_stop, wp_pure]
    refine ⟨fun _ => ⟨h, trivial⟩, fun hr => ⟨h.sessions, h.db, d, hmem, htoken, rfl, ?_⟩⟩
    simpa using hr

theorem atomic_resolveAPIKey (token : Bytes) : Atomic (resolveAPIKey host token)
    (fun db scopes db' => db' = db ∧ ∃ k ∈ db.apiKeys.rows, k.keyHash = hashToken host token ∧ k.scopes = scopes ∧
      k.revokedAt = none) (fun _ _ => True) := by
  intro w
  simp only [resolveAPIKey, wp_bind]
  refine wp_query (fun w' h => ?_) fun w' h => ⟨h, trivial⟩
  cases hk : w.db.apiKeys.rows.find? (·.keyHash == hashToken host token) with
  | none => simpa using h
  | some k =>
    have hmem := List.mem_of_find?_eq_some hk
    have htoken := List.find?_some hk
    rw [beq_iff_eq] at htoken
    simp only [wp_ite, wp_stop, wp_pure]
    refine ⟨fun _ => ⟨h, trivial⟩, fun hr => ⟨h.sessions, h.db, k, hmem, htoken, rfl, ?_⟩⟩
    simpa using hr

/-- The reports read the tables and change nothing. -/
theorem atomic_dwellUsage (deviceID : Bytes) (lo hi : Int) (groupBy : Bytes) :
    Atomic (dwellUsage host deviceID lo hi groupBy) (fun db _ db' => db' = db) (fun _ _ => True) := by
  intro w
  simp only [dwellUsage, wp_bind, wp_fromExcept]
  refine ⟨fun g _ => ?_, fun e _ => ⟨.refl w, trivial⟩⟩
  exact wp_query (fun w' h => ⟨h.sessions, h.db⟩) fun w' h => ⟨h, trivial⟩

/-! ## Statements -/

/-- One statement that is given the time. -/
theorem atomic_exec_now {f : Int → Database → Option (Database × Nat)} {R : Database → Database → Prop}
    (hR : ∀ t db db' n, f t db = some (db', n) → R db db') :
    Atomic (do let now ← timeNowUnix; let _ ← exec (f now)) (fun db _ db' => R db db')
      (fun _ e => e = .sql) := by
  intro w
  simp only [wp_bind]
  refine wp_timeNowUnix fun t w' h => wp_exec (fun w'' n hs hf => ?_) fun w'' h' => ?_
  · rw [wp_pure, ← h.db]
    exact ⟨hs.trans h.sessions, hR _ _ _ _ hf⟩
  · exact ⟨h.trans h', rfl⟩

/-- The devices are updated by `f`, that of `id` alone. -/
def UpdatesDevice (id : Bytes) (f : Device → Device) (db db' : Database) : Prop :=
  db'.heartbeats = db.heartbeats ∧ db'.rules = db.rules ∧ db'.apiKeys = db.apiKeys ∧
    db'.devices.rows = db.devices.rows.map fun d => if d.id == id then f d else d

theorem updatesDevice {id : Bytes} {f : Device → Device} {hf : ∀ d, (f d).id = d.id} {db db' : Database} {n : Nat}
    (h : db.updateDevice id f hf = some (db', n)) : UpdatesDevice id f db db' ∧ (n ≠ 0 ↔ db.devices.Has id) := by
  simp only [Database.updateDevice, Option.some.injEq, Prod.mk.injEq] at h
  obtain ⟨rfl, rfl⟩ := h
  refine ⟨⟨rfl, rfl, rfl, rfl⟩, ?_⟩
  rw [Table.has_iff, ← Nat.pos_iff_ne_zero]
  simp [Table.update, List.countP_pos_iff]

theorem atomic_revokeDevice (deviceID : Bytes) : Atomic (revokeDevice deviceID)
    (fun db _ db' => ∃ now, UpdatesDevice deviceID (fun d => { d with revokedAt := some now }) db db')
    (fun _ e => e = .sql) :=
  atomic_exec_now fun _ _ _ _ h => ⟨_, (updatesDevice h).1⟩

/-- An update that finds no device changes nothing. -/
theorem UpdatesDevice.eq {id : Bytes} {f : Device → Device} {db db' : Database} (h : UpdatesDevice id f db db')
    (hno : ¬ db.devices.Has id) : db' = db := by
  obtain ⟨hh, hr, hk, hd⟩ := h
  have : db'.devices = db.devices := by
    refine Table.ext (hd.trans ?_)
    refine (List.map_congr_left fun d hmem => ?_).trans (List.map_id _)
    have hne : d.id ≠ id := fun he => hno (Table.has_iff.2 ⟨d, hmem, he⟩)
    simp [hne]
  cases db; cases db'
  simp_all

theorem atomic_renameDevice (deviceID name : Bytes) : Atomic (renameDevice deviceID name)
    (fun db _ db' => UpdatesDevice deviceID (fun d => { d with name := name }) db db' ∧ db.devices.Has deviceID)
    (fun db e => e = .sql ∨ e = .unknownDevice ∧ ¬ db.devices.Has deviceID) := by
  intro w
  simp only [renameDevice, wp_bind]
  refine wp_exec (fun w' n hs hf => ?_) fun w' h => ⟨h, .inl rfl⟩
  obtain ⟨hu, hn⟩ := updatesDevice hf
  rw [wp_ensure]
  refine ⟨fun hne => ⟨hs, hu, hn.1 (bne_iff_ne.1 hne)⟩, fun h0 => ?_⟩
  have hno : ¬ w.db.devices.Has deviceID := fun h => hn.2 h (bne_eq_false_iff_eq.1 h0)
  exact ⟨⟨hu.eq hno, hs⟩, .inr ⟨rfl, hno⟩⟩

theorem atomic_createDevice (name : Bytes) : Atomic (createDevice host name)
    (fun db r db' => ∃ now, db'.heartbeats = db.heartbeats ∧ db'.rules = db.rules ∧ db'.apiKeys = db.apiKeys ∧
      db'.devices.rows = db.devices.rows ++
        [{ id := r.1, name := name, tokenHash := hashToken host r.2, enrolledAt := now }])
    (fun _ _ => True) := by
  intro w
  simp only [createDevice, wp_bind, wp_map]
  refine wp_randRead (fun id w₁ h₁ => ?_) fun w₁ h => ⟨h, trivial⟩
  refine wp_randRead (fun tok w₂ h₂ => ?_) fun w₂ h => ⟨h₁.trans h, trivial⟩
  refine wp_timeNowUnix fun t w₃ h₃ => ?_
  have h := (h₁.trans h₂).trans h₃
  refine wp_exec (fun w₄ n hs hf => ?_) fun w₄ h₄ => ⟨h.trans h₄, trivial⟩
  rw [h.db, Database.insertDevice, Option.map_eq_some_iff] at hf
  obtain ⟨t', hins, he⟩ := hf
  simp only [Prod.mk.injEq] at he
  refine ⟨hs.trans h.sessions, t, ?_⟩
  rw [← he.1]
  exact ⟨rfl, rfl, rfl, (Table.insert_eq_some.1 hins).2⟩

/-! ## Heartbeats -/

/-- The heartbeats of a batch whose ids are not among `seen`, each id's first. -/
def newHeartbeats : List Bytes → List Heartbeat → List Heartbeat
  | _, [] => []
  | seen, h :: hbs => if h.id ∈ seen then newHeartbeats seen hbs else h :: newHeartbeats (seen ++ [h.id]) hbs

theorem newHeartbeats_append {seen : List Bytes} : ∀ {hbs hbs' : List Heartbeat},
    newHeartbeats seen (hbs ++ hbs') =
      newHeartbeats seen hbs ++ newHeartbeats (seen ++ (newHeartbeats seen hbs).map Heartbeat.id) hbs'
  | [], _ => by simp [newHeartbeats]
  | h :: hbs, hbs' => by
    rw [List.cons_append, newHeartbeats, newHeartbeats]
    split
    · exact newHeartbeats_append
    · rw [newHeartbeats_append]
      simp

theorem newHeartbeats_sublist : ∀ {hbs : List Heartbeat} {seen : List Bytes}, (newHeartbeats seen hbs).Sublist hbs
  | [], _ => .slnil
  | h :: hbs, seen => by
    rw [newHeartbeats]
    split
    · exact newHeartbeats_sublist.cons h
    · exact newHeartbeats_sublist.cons_cons h

/-- Every id of the batch was among `seen` or is a new one's. -/
theorem id_mem_newHeartbeats {h : Heartbeat} : ∀ {hbs : List Heartbeat} {seen : List Bytes}, h ∈ hbs →
    h.id ∈ seen ∨ h.id ∈ (newHeartbeats seen hbs).map Heartbeat.id
  | x :: hbs, seen, hmem => by
    rw [newHeartbeats]
    by_cases hx : x.id ∈ seen
    · rw [if_pos hx]
      obtain rfl | hmem := List.mem_cons.1 hmem
      · exact .inl hx
      · exact id_mem_newHeartbeats hmem
    · rw [if_neg hx, List.map_cons, List.mem_cons]
      obtain rfl | hmem := List.mem_cons.1 hmem
      · exact .inr (.inl rfl)
      · have h : h.id ∈ seen ++ [x.id] ∨ _ := id_mem_newHeartbeats hmem
        rw [List.mem_append, List.mem_singleton, or_assoc] at h
        exact h

/-- A new one's was not. -/
theorem newHeartbeats_new {h : Heartbeat} : ∀ {hbs : List Heartbeat} {seen : List Bytes}, h ∈ newHeartbeats seen hbs →
    h.id ∉ seen
  | [], _, hmem => absurd hmem List.not_mem_nil
  | x :: hbs, seen, hmem => by
    rw [newHeartbeats] at hmem
    by_cases hx : x.id ∈ seen
    · rw [if_pos hx] at hmem
      exact newHeartbeats_new hmem
    · rw [if_neg hx, List.mem_cons] at hmem
      obtain rfl | hmem := hmem
      · exact hx
      · exact fun hseen => newHeartbeats_new hmem (List.mem_append_left _ hseen)

theorem toRow_ids {deviceID : Bytes} {now agentSentAt : Int} {hbs : List Heartbeat} :
    (hbs.map (toRow deviceID now agentSentAt)).map (·.id) = hbs.map Heartbeat.id := by
  rw [List.map_map]
  rfl

/-- What storing a batch does: the new heartbeats of the batch become rows of
the device, which must be there for that, and the device was seen. -/
structure Ingested (deviceID : Bytes) (agentSentAt : Int) (hbs : List Heartbeat) (now : Int) (db db' : Database) :
    Prop where
  heartbeats : db'.heartbeats.rows = db.heartbeats.rows ++
    (newHeartbeats (db.heartbeats.rows.map (·.id)) hbs).map (toRow deviceID now agentSentAt)
  devices : db'.devices.rows = db.devices.rows.map fun d =>
    if d.id == deviceID then { d with lastSeen := some now } else d
  enrolled : newHeartbeats (db.heartbeats.rows.map (·.id)) hbs ≠ [] → db.devices.Has deviceID
  rules : db'.rules = db.rules
  apiKeys : db'.apiKeys = db.apiKeys

/-- Every heartbeat of a stored batch has its row. -/
theorem Ingested.has_id {deviceID : Bytes} {agentSentAt now : Int} {hbs : List Heartbeat} {db db' : Database}
    (h : Ingested deviceID agentSentAt hbs now db db') : ∀ hb ∈ hbs, db'.heartbeats.Has hb.id := by
  intro hb hmem
  rw [Table.Has, h.heartbeats, List.map_append, toRow_ids, List.mem_append]
  exact id_mem_newHeartbeats hmem

/-- The tables once the heartbeats `done` of the batch are inserted. -/
structure Inserting (deviceID : Bytes) (agentSentAt now : Int) (db : Database) (done : List Heartbeat)
    (accepted : Nat)
    (db' : Database) : Prop where
  heartbeats : db'.heartbeats.rows = db.heartbeats.rows ++
    (newHeartbeats (db.heartbeats.rows.map (·.id)) done).map (toRow deviceID now agentSentAt)
  accepted_eq : accepted = (newHeartbeats (db.heartbeats.rows.map (·.id)) done).length
  enrolled : newHeartbeats (db.heartbeats.rows.map (·.id)) done ≠ [] → db.devices.Has deviceID
  devices : db'.devices = db.devices
  rules : db'.rules = db.rules
  apiKeys : db'.apiKeys = db.apiKeys

/-- One heartbeat more: ignored when its id is there, else a row at the end. -/
theorem Inserting.step {deviceID : Bytes} {agentSentAt now : Int} {db db₁ db₂ : Database} {done : List Heartbeat}
    {accepted n : Nat} {h : Heartbeat} (hi : Inserting deviceID agentSentAt now db done accepted db₁)
    (hins : db₁.insertHeartbeat (toRow deviceID now agentSentAt h) = some (db₂, n)) :
    Inserting deviceID agentSentAt now db (done ++ [h]) (if 0 < n then accepted + 1 else accepted) db₂ := by
  have hids : db₁.heartbeats.rows.map (·.id) = db.heartbeats.rows.map (·.id) ++
      (newHeartbeats (db.heartbeats.rows.map (·.id)) done).map Heartbeat.id := by
    rw [hi.heartbeats, List.map_append, List.map_map]
    rfl
  unfold Database.insertHeartbeat at hins
  split at hins
  · next hnone =>
    simp only [Option.some.injEq, Prod.mk.injEq] at hins
    obtain ⟨rfl, rfl⟩ := hins
    have hmem : h.id ∈ db₁.heartbeats.rows.map (·.id) := by
      by_contra hno
      simp [Table.insert, Table.Has, hno, toRow] at hnone
    have hnew : newHeartbeats (db.heartbeats.rows.map (·.id)) (done ++ [h]) =
        newHeartbeats (db.heartbeats.rows.map (·.id)) done := by
      rw [newHeartbeats_append, ← hids]
      simp [newHeartbeats, hmem]
    exact ⟨by rw [hnew]; exact hi.heartbeats, by rw [hnew]; simpa using hi.accepted_eq,
      by rw [hnew]; exact hi.enrolled, hi.devices, hi.rules, hi.apiKeys⟩
  · next t ht =>
    obtain ⟨hno, hrows⟩ := Table.insert_eq_some.1 ht
    split at hins
    · next hdev =>
      simp only [Option.some.injEq, Prod.mk.injEq] at hins
      obtain ⟨rfl, rfl⟩ := hins
      have hnew : newHeartbeats (db.heartbeats.rows.map (·.id)) (done ++ [h]) =
          newHeartbeats (db.heartbeats.rows.map (·.id)) done ++ [h] := by
        rw [newHeartbeats_append, ← hids]
        simp only [Table.Has, toRow] at hno
        simp [newHeartbeats, hno]
      refine ⟨?_, ?_, fun _ => hi.devices ▸ hdev, hi.devices, hi.rules, hi.apiKeys⟩
      · rw [hnew, hrows, hi.heartbeats]
        simp
      · rw [hnew, hi.accepted_eq]
        simp
    · cases hins

/-- **Storing a batch**: all of its new heartbeats, counted, or nothing. -/
theorem atomic_insertHeartbeats (deviceID : Bytes) (agentSentAt : Int) (hbs : List Heartbeat) :
    Atomic (insertHeartbeats deviceID agentSentAt hbs)
      (fun db n db' => n = (newHeartbeats (db.heartbeats.rows.map (·.id)) hbs).length ∧
        ∃ now, Ingested deviceID agentSentAt hbs now db db') (fun _ e => e = .sql) := by
  intro w
  refine wp_inTransaction (fun w₁ h₁ => ?_) fun w' h => ⟨h, rfl⟩
  simp only [wp_bind]
  refine wp_call (fun w₂ h₂ => ?_) fun w' h => ⟨(h₁.trans h).sessions, fun w₃ h₃ => ⟨h₃, rfl⟩⟩
  refine wp_timeNowUnix fun now w₃ h₃ => ?_
  have h := (h₁.trans h₂).trans h₃
  refine (wp_foldlM (fun done accepted w' =>
    w'.sessions = w.sessions ∧ Inserting deviceID agentSentAt now w.db done accepted w'.db) ⟨h.sessions, ?_⟩ ?_).mono
      (fun accepted w₄ ⟨hs₄, hi⟩ => ?_) fun e w' h => h
  · exact ⟨by simp [newHeartbeats, h.db], rfl, by simp [newHeartbeats], by rw [h.db], by rw [h.db], by rw [h.db]⟩
  · intro done hb rest accepted w₄ _ ⟨hs₄, hi⟩
    rw [wp_bind]
    exact wp_exec (fun w₅ n hs hf => ⟨hs.trans hs₄, hi.step hf⟩) fun w₅ h₅ =>
      ⟨h₅.sessions.trans hs₄, fun w' h' => ⟨h', rfl⟩⟩
  · refine wp_exec (fun w₅ n hs hf => ⟨hs.trans hs₄, fun w₆ h₆ => ?_⟩) fun w₅ h₅ =>
      ⟨h₅.sessions.trans hs₄, fun w' h' => ⟨h', rfl⟩⟩
    obtain ⟨hu, -⟩ := updatesDevice hf
    obtain ⟨hh, hr, hk, hd⟩ := hu
    refine ⟨h₆.sessions.trans (hs.trans hs₄), hi.accepted_eq, now, ?_⟩
    rw [h₆.db]
    exact ⟨by rw [hh, hi.heartbeats], by rw [hd, hi.devices], hi.enrolled, hr.trans hi.rules, hk.trans hi.apiKeys⟩

/-- **Deleting a device**: a revoked one, with its heartbeats and no others. -/
theorem atomic_deleteDevice (deviceID : Bytes) : Atomic (deleteDevice deviceID)
    (fun db _ db' => (∃ d ∈ db.devices.rows, d.id = deviceID ∧ d.revokedAt.isSome) ∧
      db'.heartbeats.rows = db.heartbeats.rows.filter (! ·.deviceId == deviceID) ∧
      db'.devices.rows = db.devices.rows.filter (! ·.id == deviceID) ∧
      db'.rules = db.rules ∧ db'.apiKeys = db.apiKeys)
    (fun _ _ => True) := by
  intro w
  refine wp_inTransaction (fun w₁ h₁ => ?_) fun w' h => ⟨h, trivial⟩
  simp only [wp_bind]
  refine wp_query (fun w₂ h₂ => ?_) fun w' h => ⟨(h₁.trans h).sessions, fun w₃ h₃ => ⟨h₃, trivial⟩⟩
  have h := h₁.trans h₂
  cases hd : w₁.db.devices.rows.find? (·.id == deviceID) with
  | none => exact ⟨h.sessions, fun w₃ h₃ => ⟨h₃, trivial⟩⟩
  | some d =>
    have hmem := List.mem_of_find?_eq_some hd
    have hid := List.find?_some hd
    rw [beq_iff_eq] at hid
    simp only [wp_bind, wp_ensure]
    refine ⟨fun hrev => ?_, fun _ => ⟨h.sessions, fun w₃ h₃ => ⟨h₃, trivial⟩⟩⟩
    refine wp_exec (fun w₃ n hs₃ hf₃ => ?_) fun w' h' => ⟨(h.trans h').sessions, fun w₃ h₃ => ⟨h₃, trivial⟩⟩
    have hs₃ := hs₃.trans h.sessions
    refine wp_exec (fun w₄ m hs₄ hf₄ => ?_) fun w' h' =>
      ⟨h'.sessions.trans hs₃, fun w₃ h₃ => ⟨h₃, trivial⟩⟩
    have hs₄ := hs₄.trans hs₃
    refine ⟨fun _ => ⟨hs₄, fun w₅ h₅ => ⟨h₅.sessions.trans hs₄, ?_⟩⟩, fun _ => ⟨hs₄, fun w₅ h₅ => ⟨h₅, trivial⟩⟩⟩
    rw [h₅.db]
    rw [h.db, Database.deleteHeartbeats, Option.some.injEq, Prod.mk.injEq] at hf₃
    unfold Database.deleteDevice at hf₄
    split at hf₄
    · cases hf₄
    · rw [Option.some.injEq, Prod.mk.injEq] at hf₄
      rw [← hf₄.1, ← hf₃.1]
      exact ⟨⟨d, h₁.db ▸ hmem, hid, hrev⟩, rfl, rfl, rfl, rfl⟩

/-! ## Rules and keys -/

/-- The rule is saved, in the place of any other of its pattern. -/
structure SavesRule (r : Rule) (db db' : Database) : Prop where
  devices : db'.devices = db.devices
  heartbeats : db'.heartbeats = db.heartbeats
  apiKeys : db'.apiKeys = db.apiKeys
  rules : ∀ r', r' ∈ db'.rules.rows ↔ r' = r ∨ r' ∈ db.rules.rows ∧ r'.exePattern ≠ r.exePattern
  same : r ∈ db.rules.rows → db' = db

theorem savesRule {r : Rule} {db db' : Database} {n : Nat} (h : db.upsertRule r = some (db', n)) :
    SavesRule r db db' := by
  have hset : ∀ old : Rule, old.exePattern = r.exePattern →
      { old with category := r.category, updatedAt := r.updatedAt } = r := fun old hk => by
    rw [hk]
  simp only [Database.upsertRule, Option.some.injEq, Prod.mk.injEq] at h
  rw [← h.1]
  refine ⟨rfl, rfl, rfl, fun r' => Table.mem_upsert hset, fun hmem => ?_⟩
  rw [Table.upsert_of_mem hset hmem]

theorem atomic_upsertRule (pattern category : Bytes) : Atomic (upsertRule pattern category)
    (fun db _ db' => ∃ now, SavesRule ⟨pattern, category, now⟩ db db') (fun _ e => e = .sql) :=
  atomic_exec_now fun _ _ _ _ h => ⟨_, savesRule h⟩

theorem atomic_deleteRule (pattern : Bytes) : Atomic (deleteRule pattern)
    (fun db _ db' => db'.devices = db.devices ∧ db'.heartbeats = db.heartbeats ∧ db'.apiKeys = db.apiKeys)
    (fun _ e => e = .sql) := by
  intro w
  simp only [deleteRule, wp_bind]
  refine wp_exec (fun w' n hs hf => ⟨hs, ?_⟩) fun w' h => ⟨h, rfl⟩
  simp only [Database.deleteRule, Option.some.injEq, Prod.mk.injEq] at hf
  rw [← hf.1]
  exact ⟨rfl, rfl, rfl⟩

theorem recategorize_eq_none_iff {pattern category : Bytes} {db : Database} :
    db.recategorize pattern category = none ↔ PatternRefused pattern db := by
  have hany : (db.heartbeats.rows.any fun h => (glob (lower pattern) (lower h.app)).isNone) = true ↔
      PatternRefused pattern db := by
    simp only [List.any_eq_true, Option.isNone_iff_eq_none, glob_eq_none_iff, length_lower, PatternRefused]
    constructor
    · rintro ⟨h, hmem, hlong⟩
      exact ⟨hlong, List.ne_nil_of_mem hmem⟩
    · rintro ⟨hlong, hne⟩
      obtain ⟨h, hmem⟩ := List.exists_mem_of_ne_nil _ hne
      exact ⟨h, hmem, hlong⟩
  rw [Database.recategorize, ← hany]
  split <;> simp [*]

theorem recategorize_eq_some {pattern category : Bytes} {db db' : Database} {n : Nat}
    (h : db.recategorize pattern category = some (db', n)) : db'.devices = db.devices ∧ db'.rules = db.rules ∧
      db'.apiKeys = db.apiKeys ∧ db'.heartbeats.rows = db.heartbeats.rows.map (recategorized pattern category) := by
  rw [Database.recategorize] at h
  split at h
  · cases h
  · rw [Option.some.injEq, Prod.mk.injEq] at h
    rw [← h.1]
    exact ⟨rfl, rfl, rfl, List.map_congr_left fun r _ => if_congr beq_iff_eq rfl rfl⟩

theorem atomic_recategorize (pattern category : Bytes) : Atomic (recategorize pattern category)
    (fun db _ db' => db'.devices = db.devices ∧ db'.rules = db.rules ∧ db'.apiKeys = db.apiKeys ∧
      db'.heartbeats.rows = db.heartbeats.rows.map (recategorized pattern category))
    (fun _ e => e = .sql) := by
  intro w
  refine wp_exec (fun w' n hs hf => ⟨hs, ?_⟩) fun w' h => ⟨h, rfl⟩
  exact recategorize_eq_some hf

/-- The keys that `p` picks are revoked. -/
structure RevokesKeys (p : ApiKey → Bool) (now : Int) (n : Nat) (db db' : Database) : Prop where
  devices : db'.devices = db.devices
  heartbeats : db'.heartbeats = db.heartbeats
  rules : db'.rules = db.rules
  apiKeys : db'.apiKeys.rows = db.apiKeys.rows.map fun k => if p k then { k with revokedAt := some now } else k
  count : n = db.apiKeys.rows.countP p

theorem revokesKeys {p : ApiKey → Bool} {t : Int} {db db' : Database} {n : Nat}
    (h : db.revokeKeys p t = some (db', n)) : RevokesKeys p t n db db' := by
  simp only [Database.revokeKeys, Option.some.injEq, Prod.mk.injEq] at h
  obtain ⟨rfl, rfl⟩ := h
  exact ⟨rfl, rfl, rfl, rfl, rfl⟩

/-- Where no key is picked, nothing changes. -/
theorem RevokesKeys.eq {p : ApiKey → Bool} {t : Int} {db db' : Database} (h : RevokesKeys p t 0 db db') :
    db' = db := by
  have hnone := List.countP_eq_zero.1 h.count.symm
  have hkeys : db'.apiKeys = db.apiKeys := by
    refine Table.ext (h.apiKeys.trans ?_)
    refine (List.map_congr_left fun k hk => ?_).trans (List.map_id _)
    rw [if_neg (hnone k hk), id]
  obtain ⟨hd, hh, hr, -, -⟩ := h
  cases db; cases db'
  simp_all

theorem atomic_createAPIKey (label : Bytes) : Atomic (createAPIKey host label)
    (fun db token db' => ∃ now, db'.devices = db.devices ∧ db'.heartbeats = db.heartbeats ∧ db'.rules = db.rules ∧
      db'.apiKeys.rows = db.apiKeys.rows ++
        [{ keyHash := hashToken host token, label := label, scopes := str "read", createdAt := now }])
    (fun _ _ => True) := by
  intro w
  simp only [createAPIKey, wp_bind, wp_map]
  refine wp_randRead (fun tok w₁ h₁ => ?_) fun w₁ h => ⟨h, trivial⟩
  refine wp_timeNowUnix fun t w₂ h₂ => ?_
  have h := h₁.trans h₂
  refine wp_exec (fun w₃ n hs hf => ?_) fun w₃ h₃ => ⟨h.trans h₃, trivial⟩
  rw [h.db, Database.insertKey, Option.map_eq_some_iff] at hf
  obtain ⟨t', hins, he⟩ := hf
  simp only [Prod.mk.injEq] at he
  refine ⟨hs.trans h.sessions, t, ?_⟩
  rw [← he.1]
  exact ⟨rfl, rfl, rfl, (Table.insert_eq_some.1 hins).2⟩

theorem atomic_revokeAPIKey (token : Bytes) : Atomic (revokeAPIKey host token)
    (fun db _ db' => ∃ now n, RevokesKeys (·.keyHash == hashToken host token) now n db db') (fun _ e => e = .sql) :=
  atomic_exec_now fun _ _ _ _ h => ⟨_, _, revokesKeys h⟩

theorem atomic_revokeAPIKeyByPrefix (pfx : Bytes) : Atomic (revokeAPIKeyByPrefix pfx)
    (fun db n db' => ∃ now, RevokesKeys (hashPrefix · == pfx) now n db db') (fun _ e => e = .sql) := by
  intro w
  simp only [revokeAPIKeyByPrefix, wp_bind]
  refine wp_timeNowUnix fun t w' h => wp_exec (fun w'' n hs hf => ?_) fun w'' h' => ⟨h.trans h', rfl⟩
  rw [h.db] at hf
  exact ⟨hs.trans h.sessions, t, revokesKeys hf⟩

/-! ## Runs in which nothing fails -/

/-- Nothing to come fails. -/
def Quiet (w : World) : Prop := w.faults = []

theorem wp_call_quiet {e : StoreError} {Q : Unit → World → Prop} (hq : Quiet w)
    (hQ : ∀ w', Quiet w' → w'.db = w.db → Q () w') : wp (call e) Q E w := by
  unfold Quiet at hq
  simp only [call, wp_bind, wp_take, wp_ensure, hq, List.headD_nil, Bool.not_false, List.tail_nil, Bool.true_eq_false,
    false_implies, and_true]
  exact fun _ => hQ _ rfl rfl

theorem wp_exec_quiet {f : Database → Option (Database × Nat)} {db : Database} {n : Nat} {Q : Nat → World → Prop}
    (hq : Quiet w) (hf : f w.db = some (db, n)) (hQ : ∀ w', Quiet w' → w'.db = db → Q n w') : wp (exec f) Q E w := by
  simp only [exec, wp_bind]
  refine wp_call_quiet hq fun w' hq' hdb => ?_
  simp only [wp_read, wp_fromOption, wp_modify, wp_pure, hdb, hf]
  exact ⟨fun r hr => by cases hr; exact hQ _ hq' rfl, fun he => by cases he⟩

theorem wp_query_quiet {f : Database → α} {Q : α → World → Prop} (hq : Quiet w)
    (hQ : ∀ w', Quiet w' → w'.db = w.db → Q (f w.db) w') : wp (query f) Q E w := by
  simp only [query, wp_bind]
  refine wp_call_quiet hq fun w' hq' hdb => ?_
  simp only [wp_read, hdb]
  exact hQ w' hq' hdb

theorem wp_timeNowUnix_quiet {Q : Int → World → Prop} (hq : Quiet w)
    (hQ : ∀ t w', Quiet w' → w'.db = w.db → Q t w') : wp timeNowUnix Q E w := by
  rw [timeNowUnix, wp_map]
  exact hQ _ _ hq rfl

/-- Nothing fails when a batch is stored for a device that is there. -/
theorem insertHeartbeats_quiet {deviceID : Bytes} (agentSentAt : Int) (hbs : List Heartbeat) (hq : Quiet w)
    (hd : w.db.devices.Has deviceID) :
    wp (insertHeartbeats deviceID agentSentAt hbs) (fun _ w' => Quiet w') (fun _ _ => False) w := by
  simp only [insertHeartbeats, inTransaction, wp_restoring, wp_bind]
  refine wp_call_quiet hq fun w₁ hq₁ h₁ => wp_call_quiet hq₁ fun w₂ hq₂ h₂ => ?_
  refine wp_timeNowUnix_quiet hq₂ fun now w₀ hq₀ h₀ => ?_
  refine (wp_foldlM (fun _ _ w' => Quiet w' ∧ w'.db.devices = w.db.devices) ⟨hq₀, by rw [h₀, h₂, h₁]⟩ ?_).mono ?_
    fun _ _ h => h
  · intro done h rest accepted w₃ _ hw₃
    obtain ⟨hq₃, h₃⟩ := hw₃
    rw [wp_bind]
    cases hins : w₃.db.insertHeartbeat (toRow deviceID now agentSentAt h) with
    | none =>
      unfold Database.insertHeartbeat at hins
      split at hins
      · cases hins
      · split at hins
        · cases hins
        · next hno => exact absurd (h₃ ▸ hd) hno
    | some r =>
      refine wp_exec_quiet hq₃ hins fun w₄ hq₄ h₄ => ⟨hq₄, ?_⟩
      rw [h₄, ← h₃]
      unfold Database.insertHeartbeat at hins
      split at hins
      · cases hins; rfl
      · split at hins <;> cases hins
        rfl
  · intro accepted w₃ hw₃
    exact wp_exec_quiet hw₃.1 rfl fun w₄ hq₄ _ => wp_call_quiet hq₄ fun w₅ hq₅ _ => hq₅

/-- A device's token is found. -/
theorem deviceIDByToken_quiet {token : Bytes} {d : Device} (hq : Quiet w)
    (hd : w.db.devices.rows.find? (·.tokenHash == hashToken host token) = some d) (hrev : d.revokedAt = none) :
    wp (deviceIDByToken host token) (fun id w' => id = d.id ∧ Quiet w' ∧ w'.db = w.db) (fun _ _ => False) w := by
  simp only [deviceIDByToken, wp_bind]
  refine wp_query_quiet hq fun w' hq' hdb => ?_
  simp only [hd, wp_ite, hrev]
  exact ⟨fun h => absurd h (by decide), fun _ => ⟨rfl, hq', hdb⟩⟩

/-- A batch is stored. -/
theorem insertHeartbeats_ingested {deviceID : Bytes} (agentSentAt : Int) (hbs : List Heartbeat) (hq : Quiet w)
    (hd : w.db.devices.Has deviceID) : ∃ now, Quiet (insertHeartbeats deviceID agentSentAt hbs w).2 ∧
      Ingested deviceID agentSentAt hbs now w.db (insertHeartbeats deviceID agentSentAt hbs w).2.db := by
  have h := wp_iff.1
    ((insertHeartbeats_quiet agentSentAt hbs hq hd).and (atomic_insertHeartbeats deviceID agentSentAt hbs w))
  cases hr : insertHeartbeats deviceID agentSentAt hbs w with
  | mk r w' =>
    cases r with
    | ok n =>
      obtain ⟨hq', -, -, now, hi⟩ := h.1 n w' hr
      exact ⟨now, hq', hi⟩
    | error e => exact (h.2 e w' hr).1.elim

end Store
end ScrewLogger
