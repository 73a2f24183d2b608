/-
Stored history over whole runs of the store's operations.

A row of `heartbeats` is only ever given another category, by a recategorizing
whose pattern its app matches, or removed with its revoked device. `step_kept`
says so of one operation and `history_kept` of a run, from any tables whose
foreign keys hold; they hold ever after.
-/
import ScrewLogger.Server.StoreFacts

namespace ScrewLogger
open Lib Lib.Eff

/-- The store's operations. -/
inductive Op
  | createDevice (name : Bytes)
  | insertHeartbeats (deviceID : Bytes) (agentSentAt : Int) (hbs : List Heartbeat)
  | revokeDevice (deviceID : Bytes)
  | renameDevice (deviceID name : Bytes)
  | deleteDevice (deviceID : Bytes)
  | upsertRule (pattern category : Bytes)
  | deleteRule (pattern : Bytes)
  | recategorize (pattern category : Bytes)
  | createAPIKey (label : Bytes)
  | revokeAPIKey (token : Bytes)
  | revokeAPIKeyByPrefix (pfx : Bytes)
  | deviceIDByToken (token : Bytes)
  | resolveAPIKey (token : Bytes)
  | listDevices
  | listRules
  | listAPIKeys
  | dwellUsage (deviceID : Bytes) («from» «to» : Int) (groupBy : Bytes)
  | activeRatio (deviceID : Bytes) («from» «to» : Int)
  | listEvents (deviceID : Bytes) («from» «to» limit : Int)

variable (host : Host)

/-- An operation, its result dropped. -/
def Op.run : Op → Store Unit
  | .createDevice name => (fun _ => ()) <$> Store.createDevice host name
  | .insertHeartbeats deviceID agentSentAt hbs => (fun _ => ()) <$> Store.insertHeartbeats deviceID agentSentAt hbs
  | .revokeDevice deviceID => Store.revokeDevice deviceID
  | .renameDevice deviceID name => Store.renameDevice deviceID name
  | .deleteDevice deviceID => Store.deleteDevice deviceID
  | .upsertRule pattern category => Store.upsertRule pattern category
  | .deleteRule pattern => Store.deleteRule pattern
  | .recategorize pattern category => (fun _ => ()) <$> Store.recategorize pattern category
  | .createAPIKey label => (fun _ => ()) <$> Store.createAPIKey host label
  | .revokeAPIKey token => Store.revokeAPIKey host token
  | .revokeAPIKeyByPrefix pfx => (fun _ => ()) <$> Store.revokeAPIKeyByPrefix pfx
  | .deviceIDByToken token => (fun _ => ()) <$> Store.deviceIDByToken host token
  | .resolveAPIKey token => (fun _ => ()) <$> Store.resolveAPIKey host token
  | .listDevices => (fun _ => ()) <$> Store.listDevices host
  | .listRules => (fun _ => ()) <$> Store.listRules
  | .listAPIKeys => (fun _ => ()) <$> Store.listAPIKeys host
  | .dwellUsage deviceID lo hi groupBy => (fun _ => ()) <$> Store.dwellUsage host deviceID lo hi groupBy
  | .activeRatio deviceID lo hi => (fun _ => ()) <$> Store.activeRatio host deviceID lo hi
  | .listEvents deviceID lo hi limit => (fun _ => ()) <$> Store.listEvents host deviceID lo hi limit

/-- The world after an operation, whether it returned or failed. -/
def Op.step (op : Op) (w : World) : World := (op.run host w).2

/-- The operation returns without an error. -/
def Op.succeeds (op : Op) (w : World) : Prop := ∃ w', op.run host w = (.ok (), w')

/-- The world after a run of operations. -/
def runOps (ops : List Op) (w : World) : World := ops.foldl (fun w op => op.step host w) w

/-- Every heartbeat's device is there. -/
def ForeignKeys (db : Database) : Prop := ∀ h ∈ db.heartbeats.rows, db.devices.Has h.deviceId

/-- The same heartbeat, but for its category. -/
def SameRecord (h h' : HeartbeatRow) : Prop := { h' with category := h.category } = h

theorem SameRecord.refl (h : HeartbeatRow) : SameRecord h h := rfl

theorem SameRecord.trans {h h' h'' : HeartbeatRow} (h₁ : SameRecord h h') (h₂ : SameRecord h' h'') :
    SameRecord h h'' := by
  cases h; cases h'; cases h''
  simp_all [SameRecord]

theorem SameRecord.fields {h h' : HeartbeatRow} (hs : SameRecord h h') : h'.id = h.id ∧ h'.deviceId = h.deviceId ∧
    h'.ts = h.ts ∧ h'.app = h.app ∧ h'.active = h.active ∧ h'.receivedAt = h.receivedAt ∧
    h'.agentSentAt = h.agentSentAt := by
  rw [← hs]
  exact ⟨rfl, rfl, rfl, rfl, rfl, rfl, rfl⟩

/-- What one operation, at most, does to a stored heartbeat. -/
def Kept (op : Op) (w w' : World) (h : HeartbeatRow) : Prop :=
  (∃ h' ∈ w'.db.heartbeats.rows, SameRecord h h' ∧ (h'.category ≠ h.category →
    ∃ pattern, op = .recategorize pattern h'.category ∧ Matched pattern h)) ∨
  (op = .deleteDevice h.deviceId ∧ op.succeeds host w ∧
    ∃ d ∈ w.db.devices.rows, d.id = h.deviceId ∧ d.revokedAt.isSome = true)

theorem kept_of_mem {op : Op} {w w' : World} {h : HeartbeatRow} (hmem : h ∈ w'.db.heartbeats.rows) :
    Kept host op w w' h := .inl ⟨h, hmem, .refl h, fun hne => absurd rfl hne⟩

/-- A step that leaves the heartbeats alone and loses no device. -/
theorem step_frame {op : Op} {w w' : World} (hfk : ForeignKeys w.db) (hh : w'.db.heartbeats = w.db.heartbeats)
    (hd : ∀ d, w.db.devices.Has d → w'.db.devices.Has d) :
    ForeignKeys w'.db ∧ ∀ h ∈ w.db.heartbeats.rows, Kept host op w w' h := by
  refine ⟨fun h hmem => hd _ (hfk h (hh ▸ hmem)), fun h hmem => kept_of_mem host (hh ▸ hmem)⟩

theorem Store.UpdatesDevice.has {id : Bytes} {f : Device → Device} {db db' : Database}
    (h : Store.UpdatesDevice id f db db') (hf : ∀ d, (f d).id = d.id) (d : Bytes) (hd : db.devices.Has d) :
    db'.devices.Has d := by
  obtain ⟨r, hr, rfl⟩ := Table.has_iff.1 hd
  refine Table.has_iff.2 ⟨_, h.2.2.2 ▸ List.mem_map.2 ⟨r, hr, rfl⟩, ?_⟩
  split
  · exact hf r
  · rfl

theorem Store.Atomic.discard {α : Type} {m : Store α} {R : Database → α → Database → Prop}
    {F : Database → StoreError → Prop} (h : Store.Atomic m R F) :
    Store.Atomic ((fun _ => ()) <$> m) (fun db _ db' => ∃ a, R db a db') F := by
  intro w
  rw [wp_map]
  exact (h w).mono (fun a w' h => ⟨h.1, a, h.2⟩) fun _ _ h => h

/-- What an atomic operation's lemma says of its step. -/
theorem Store.Atomic.step (op : Op) {R : Database → Unit → Database → Prop} {F : Database → StoreError → Prop}
    (h : Store.Atomic (op.run host) R F) (w : World) :
    (op.succeeds host w ∧ R w.db () (op.step host w).db) ∨ (op.step host w).db = w.db := by
  have hw := wp_iff.1 (h w)
  cases hop : op.run host w with
  | mk r w' =>
    cases r with
    | ok a => exact .inl ⟨⟨w', hop⟩, by rw [Op.step, hop]; exact (hw.1 a w' hop).2⟩
    | error e => exact .inr (by rw [Op.step, hop]; exact (hw.2 e w' hop).1.db)

/-- A failed step, and one that changes no table. -/
theorem step_same {op : Op} {w w' : World} (hfk : ForeignKeys w.db) (h : w'.db = w.db) :
    ForeignKeys w'.db ∧ ∀ h ∈ w.db.heartbeats.rows, Kept host op w w' h :=
  step_frame host hfk (by rw [h]) fun d hd => h ▸ hd

theorem step_read (op : Op) {F : Database → StoreError → Prop}
    (h : Store.Atomic (op.run host) (fun db _ db' => db' = db) F) {w : World} (hfk : ForeignKeys w.db) :
    ForeignKeys (op.step host w).db ∧ ∀ h ∈ w.db.heartbeats.rows, Kept host op w (op.step host w) h := by
  rcases h.step host op w with ⟨-, h⟩ | h
  · exact step_same host hfk h
  · exact step_same host hfk h

theorem Store.Atomic.unchanged {α : Type} {m : Store α} {R : Database → α → Database → Prop}
    {F : Database → StoreError → Prop} (h : Store.Atomic m R F) (hR : ∀ db a db', R db a db' → db' = db) :
    Store.Atomic ((fun _ => ()) <$> m) (fun db _ db' => db' = db) F := by
  intro w
  rw [wp_map]
  exact (h w).mono (fun a w' h => ⟨h.1, hR _ _ _ h.2⟩) fun _ _ h => h

theorem step_updatesDevice (op : Op) {f : Int → Device → Device} (hf : ∀ t d, (f t d).id = d.id) {id : Bytes}
    {F : Database → StoreError → Prop}
    (h : Store.Atomic (op.run host) (fun db _ db' => ∃ t, Store.UpdatesDevice id (f t) db db') F) {w : World}
    (hfk : ForeignKeys w.db) :
    ForeignKeys (op.step host w).db ∧ ∀ h ∈ w.db.heartbeats.rows, Kept host op w (op.step host w) h := by
  rcases h.step host op w with ⟨-, t, h⟩ | h
  · exact step_frame host hfk h.1 (h.has (hf t))
  · exact step_same host hfk h

theorem step_otherTables (op : Op) {F : Database → StoreError → Prop}
    (h : Store.Atomic (op.run host) (fun db _ db' => db'.devices = db.devices ∧ db'.heartbeats = db.heartbeats) F)
    {w : World} (hfk : ForeignKeys w.db) :
    ForeignKeys (op.step host w).db ∧ ∀ h ∈ w.db.heartbeats.rows, Kept host op w (op.step host w) h := by
  rcases h.step host op w with ⟨-, hd, hh⟩ | h
  · exact step_frame host hfk hh fun d h => hd ▸ h
  · exact step_same host hfk h

/-- A weaker relation. -/
theorem Store.Atomic.weaken {α : Type} {m : Store α} {R R' : Database → α → Database → Prop}
    {F : Database → StoreError → Prop} (h : Store.Atomic m R F) (hR : ∀ db a db', R db a db' → R' db a db') :
    Store.Atomic m R' F := fun w => (h w).mono (fun _ _ h => ⟨h.1, hR _ _ _ h.2⟩) fun _ _ h => h

theorem Store.Ingested.kept {deviceID : Bytes} {agentSentAt now : Int} {hbs : List Heartbeat} {db db' : Database}
    (h : Store.Ingested deviceID agentSentAt hbs now db db') (hfk : ForeignKeys db) :
    ForeignKeys db' ∧ ∀ r ∈ db.heartbeats.rows, r ∈ db'.heartbeats.rows := by
  have hdev : ∀ d, db.devices.Has d → db'.devices.Has d := by
    intro d hd
    obtain ⟨r, hr, rfl⟩ := Table.has_iff.1 hd
    refine Table.has_iff.2 ⟨_, h.devices ▸ List.mem_map.2 ⟨r, hr, rfl⟩, ?_⟩
    split <;> rfl
  refine ⟨fun r hr => ?_, fun r hr => h.heartbeats ▸ List.mem_append_left _ hr⟩
  rw [h.heartbeats, List.mem_append, List.mem_map] at hr
  rcases hr with hr | ⟨hb, hnew, rfl⟩
  · exact hdev _ (hfk r hr)
  · exact hdev _ (h.enrolled (List.ne_nil_of_mem hnew))

/-- **One operation.** Foreign keys stay, and so does every heartbeat but for
what `Kept` allows. -/
theorem step_kept (op : Op) {w : World} (hfk : ForeignKeys w.db) :
    ForeignKeys (op.step host w).db ∧ ∀ h ∈ w.db.heartbeats.rows, Kept host op w (op.step host w) h := by
  cases op with
  | createDevice name =>
    rcases (Store.atomic_createDevice host name).discard.step host (.createDevice name) w with
      ⟨-, r, now, hh, -, -, hd⟩ | h
    · refine step_frame host hfk hh fun d hd' => ?_
      obtain ⟨x, hx, rfl⟩ := Table.has_iff.1 hd'
      exact Table.has_iff.2 ⟨x, hd ▸ List.mem_append_left _ hx, rfl⟩
    · exact step_same host hfk h
  | insertHeartbeats deviceID agentSentAt hbs =>
    rcases (Store.atomic_insertHeartbeats deviceID agentSentAt hbs).discard.step host
      (.insertHeartbeats deviceID agentSentAt hbs) w with ⟨-, n, -, now, h⟩ | h
    · obtain ⟨hfk', hmem⟩ := h.kept hfk
      exact ⟨hfk', fun r hr => kept_of_mem host (hmem r hr)⟩
    · exact step_same host hfk h
  | revokeDevice deviceID =>
    exact step_updatesDevice host (.revokeDevice deviceID) (f := fun t d => { d with revokedAt := some t })
      (fun _ _ => rfl) (Store.atomic_revokeDevice deviceID) hfk
  | renameDevice deviceID name =>
    exact step_updatesDevice host (.renameDevice deviceID name) (f := fun _ d => { d with name := name })
      (fun _ _ => rfl) ((Store.atomic_renameDevice deviceID name).weaken fun _ _ _ h => ⟨0, h.1⟩) hfk
  | deleteDevice deviceID =>
    rcases (Store.atomic_deleteDevice deviceID).step host (.deleteDevice deviceID) w with ⟨hs, hrev, hh, hd, -, -⟩ | h
    · refine ⟨fun r hr => ?_, fun r hr => ?_⟩
      · rw [hh, List.mem_filter] at hr
        obtain ⟨x, hx, hid⟩ := Table.has_iff.1 (hfk r hr.1)
        refine Table.has_iff.2 ⟨x, hd ▸ List.mem_filter.2 ⟨hx, ?_⟩, hid⟩
        rw [hid]
        exact hr.2
      · by_cases hid : r.deviceId = deviceID
        · subst hid
          exact .inr ⟨rfl, hs, hrev⟩
        · refine kept_of_mem host (hh ▸ List.mem_filter.2 ⟨hr, ?_⟩)
          simpa using hid
    · exact step_same host hfk h
  | upsertRule pattern category =>
    exact step_otherTables host (.upsertRule pattern category) ((Store.atomic_upsertRule pattern category).weaken
      fun _ _ _ ⟨_, h⟩ => ⟨h.devices, h.heartbeats⟩) hfk
  | deleteRule pattern =>
    exact step_otherTables host (.deleteRule pattern) ((Store.atomic_deleteRule pattern).weaken
      fun _ _ _ h => ⟨h.1, h.2.1⟩) hfk
  | recategorize pattern category =>
    rcases (Store.atomic_recategorize pattern category).discard.step host (.recategorize pattern category) w with
      ⟨-, n, hd, -, -, hh⟩ | h
    · refine ⟨fun r hr => ?_, fun r hr => .inl ⟨_, hh ▸ List.mem_map.2 ⟨r, hr, rfl⟩, ?_, ?_⟩⟩
      · rw [hh, List.mem_map] at hr
        obtain ⟨r', hr', rfl⟩ := hr
        rw [hd]
        unfold recategorized
        split <;> exact hfk r' hr'
      · unfold recategorized
        split <;> rfl
      · unfold recategorized
        intro hne
        split at hne
        · next hglob => exact ⟨pattern, by rw [if_pos hglob], hglob⟩
        · exact absurd rfl hne
    · exact step_same host hfk h
  | createAPIKey label =>
    exact step_otherTables host (.createAPIKey label) ((Store.atomic_createAPIKey host label).discard.weaken
      fun _ _ _ ⟨_, _, h⟩ => ⟨h.1, h.2.1⟩) hfk
  | revokeAPIKey token =>
    exact step_otherTables host (.revokeAPIKey token) ((Store.atomic_revokeAPIKey host token).weaken
      fun _ _ _ ⟨_, _, h⟩ => ⟨h.devices, h.heartbeats⟩) hfk
  | revokeAPIKeyByPrefix pfx =>
    exact step_otherTables host (.revokeAPIKeyByPrefix pfx) ((Store.atomic_revokeAPIKeyByPrefix pfx).discard.weaken
      fun _ _ _ ⟨_, _, h⟩ => ⟨h.devices, h.heartbeats⟩) hfk
  | deviceIDByToken token =>
    exact step_read host (.deviceIDByToken token)
      ((Store.atomic_deviceIDByToken host token).unchanged fun _ _ _ h => h.1) hfk
  | resolveAPIKey token =>
    exact step_read host (.resolveAPIKey token) ((Store.atomic_resolveAPIKey host token).unchanged fun _ _ _ h => h.1) hfk
  | listDevices => exact step_read host .listDevices (Store.atomic_query.unchanged fun _ _ _ h => h.1) hfk
  | listRules => exact step_read host .listRules (Store.atomic_query.unchanged fun _ _ _ h => h.1) hfk
  | listAPIKeys => exact step_read host .listAPIKeys (Store.atomic_query.unchanged fun _ _ _ h => h.1) hfk
  | dwellUsage deviceID lo hi groupBy =>
    exact step_read host (.dwellUsage deviceID lo hi groupBy)
      ((Store.atomic_dwellUsage host deviceID lo hi groupBy).unchanged fun _ _ _ h => h) hfk
  | activeRatio deviceID lo hi =>
    exact step_read host (.activeRatio deviceID lo hi) (Store.atomic_query.unchanged fun _ _ _ h => h.1) hfk
  | listEvents deviceID lo hi limit =>
    exact step_read host (.listEvents deviceID lo hi limit) (Store.atomic_query.unchanged fun _ _ _ h => h.1) hfk

/-- What a run, at most, does to a stored heartbeat. -/
def KeptThrough (ops : List Op) (w w' : World) (h : HeartbeatRow) : Prop :=
  (∃ h' ∈ w'.db.heartbeats.rows, SameRecord h h' ∧ (h'.category ≠ h.category →
    ∃ pattern, .recategorize pattern h'.category ∈ ops ∧ Matched pattern h)) ∨
  ∃ before after, ops = before ++ .deleteDevice h.deviceId :: after ∧
    (Op.deleteDevice h.deviceId).succeeds host (runOps host before w) ∧
    ∃ d ∈ (runOps host before w).db.devices.rows, d.id = h.deviceId ∧ d.revokedAt.isSome = true

theorem run_kept : ∀ (ops : List Op) {w : World}, ForeignKeys w.db →
    ForeignKeys (runOps host ops w).db ∧ ∀ h ∈ w.db.heartbeats.rows, KeptThrough host ops w (runOps host ops w) h
  | [], _, hfk => ⟨hfk, fun h hh => .inl ⟨h, hh, .refl h, fun hne => absurd rfl hne⟩⟩
  | op :: ops, w, hfk => by
    obtain ⟨hfk₁, hstep⟩ := step_kept host op hfk
    obtain ⟨hfk₂, hrun⟩ := run_kept ops hfk₁
    refine ⟨hfk₂, fun h hh => ?_⟩
    rcases hstep h hh with ⟨h₁, hmem, hsame, hcat⟩ | ⟨rfl, hs, hrev⟩
    · obtain ⟨-, hdev, -, happ, -⟩ := hsame.fields
      rcases hrun h₁ hmem with ⟨h₂, hmem₂, hsame₂, hcat₂⟩ | ⟨before, after, rfl, hs, hrev⟩
      · refine .inl ⟨h₂, hmem₂, hsame.trans hsame₂, fun hne => ?_⟩
        by_cases heq : h₂.category = h₁.category
        · rw [heq] at hne ⊢
          obtain ⟨pattern, rfl, hglob⟩ := hcat hne
          exact ⟨pattern, by simp, hglob⟩
        · obtain ⟨pattern, hop, hglob⟩ := hcat₂ heq
          rw [Matched, happ] at hglob
          exact ⟨pattern, by simp [hop], hglob⟩
      · rw [hdev] at hs hrev ⊢
        exact .inr ⟨op :: before, after, rfl, hs, hrev⟩
    · exact .inr ⟨[], ops, rfl, hs, hrev⟩

/-- **Stored history is kept.** In every state a run reaches every heartbeat's
device exists; and over the rest of the run, however it goes on, a heartbeat
stays the record it is, is given another category only by a recategorizing that
matches its app, and is gone only once its device was deleted, being revoked
then. -/
theorem history_kept (w : World) (hfk : ForeignKeys w.db) (before after : List Op) :
    ForeignKeys (runOps host before w).db ∧
    ∀ h ∈ (runOps host before w).db.heartbeats.rows,
      KeptThrough host after (runOps host before w) (runOps host after (runOps host before w)) h := by
  have hfk' := (run_kept host before hfk).1
  exact ⟨hfk', (run_kept host after hfk').2⟩

theorem history_kept_recategorized :
    let h : HeartbeatRow :=
      { id := str "h", deviceId := str "d", ts := 5, app := str "Code.exe", category := str "old", active := true,
        receivedAt := 0, agentSentAt := 0 }
    let db : Database :=
      { heartbeats := .single h, devices := .single { id := str "d", name := [], tokenHash := [], enrolledAt := 0 } }
    let w : World := { db := db, clock := fun _ => .epoch, entropy := fun _ => 0 }
    let ops := [Op.recategorize (str "code*") (str "dev")]
    ForeignKeys w.db ∧ KeptThrough insertionHost ops w (runOps insertionHost ops w) h := by
  intro h db w ops
  have hfk : ForeignKeys w.db := by
    intro h' hh
    rw [List.mem_singleton.1 hh]
    decide
  obtain ⟨hfk', hkept⟩ := history_kept insertionHost w hfk [] ops
  exact ⟨hfk', hkept h (List.mem_singleton_self h)⟩

end ScrewLogger
