/-
Device tokens and API keys over whole runs of the store's operations.

What the operations issue, revoke and delete is a history of events, and the
tables are a register of it (`tracked_run`). `credential_life_cycle` reads off
it how a token resolves: to the device it was issued for while that is not
revoked, as revoked until the device is deleted, else as unknown; API keys
likewise. Nothing else changes how a credential resolves.
-/
import ScrewLogger.Lib.Register
import ScrewLogger.Server.History

namespace ScrewLogger
open Lib Lib.Eff

namespace Credentials

/-- What an operation that returned did to a credential. -/
inductive Event
  | deviceIssued (deviceID token : Bytes)
  | deviceRevoked (deviceID : Bytes)
  | deviceDeleted (deviceID : Bytes)
  | keyIssued (token : Bytes)
  | keyRevoked (token : Bytes)
  | prefixRevoked (pfx : Bytes)
  deriving DecidableEq

variable (host : Host)

/-- The event of an operation, none if it fails or is about no credential. -/
def event : Op → World → Option Event
  | .createDevice name, w => (Store.createDevice host name w).1.toOption.map fun r => .deviceIssued r.1 r.2
  | .revokeDevice deviceID, w => (Store.revokeDevice deviceID w).1.toOption.map fun _ => .deviceRevoked deviceID
  | .deleteDevice deviceID, w => (Store.deleteDevice deviceID w).1.toOption.map fun _ => .deviceDeleted deviceID
  | .createAPIKey label, w => (Store.createAPIKey host label w).1.toOption.map .keyIssued
  | .revokeAPIKey token, w => (Store.revokeAPIKey host token w).1.toOption.map fun _ => .keyRevoked token
  | .revokeAPIKeyByPrefix pfx, w => (Store.revokeAPIKeyByPrefix pfx w).1.toOption.map fun _ => .prefixRevoked pfx
  | _, _ => none

/-- The events of a run. -/
def history : List Op → World → List Event
  | [], _ => []
  | op :: ops, w => (event host op w).toList ++ history ops (op.step host w)

/-- The prefix `ListAPIKeys` shows of the key with this token. -/
def keyPrefix (token : Bytes) : Bytes := (Store.hashToken host token).take 8

/-! ## The registers -/

/-- The devices, each with its token. -/
def deviceRegister : Register Event (Bytes × Bytes) where
  issues
    | .deviceIssued deviceID token => some (deviceID, token)
    | _ => none
  revokes
    | .deviceRevoked deviceID, k => k.1 == deviceID
    | _, _ => false
  removes
    | .deviceDeleted deviceID, k => k.1 == deviceID
    | _, _ => false

/-- The API keys, by their tokens. -/
def keyRegister : Register Event Bytes where
  issues
    | .keyIssued token => some token
    | _ => none
  revokes
    | .keyRevoked token', token => Store.hashToken host token == Store.hashToken host token'
    | .prefixRevoked pfx, token => keyPrefix host token == pfx
    | _, _ => false
  removes _ _ := false

/-- What of the devices a token resolves by. -/
def deviceShape (db : Database) : List (Bytes × Bytes × Bool) :=
  db.devices.rows.map fun d => (d.id, d.tokenHash, d.revokedAt.isSome)

/-- What of the keys a token resolves by. -/
def keyShape (db : Database) : List (Bytes × Bytes × Bool) :=
  db.apiKeys.rows.map fun k => (k.keyHash, k.scopes, k.revokedAt.isSome)

/-- The tables are the registers of the events, and what was deleted had been revoked. -/
structure Tracked (events : List Event) (db : Database) : Prop where
  devices : deviceShape db = (deviceRegister.entries events).map fun x => (x.1.1, Store.hashToken host x.1.2, x.2)
  keys : keyShape db = ((keyRegister host).entries events).map fun x => (Store.hashToken host x.1, str "read", x.2)
  deletes : ∀ before after d, events = before ++ .deviceDeleted d :: after →
    ∃ t before' after', before = before' ++ .deviceIssued d t :: after' ∧ .deviceRevoked d ∈ after'

/-! ## One operation -/

/-- No credential is concerned. -/
def Unconcerned (db db' : Database) : Prop := deviceShape db' = deviceShape db ∧ keyShape db' = keyShape db

variable {host} {events : List Event} {db db' : Database} {w : World}

theorem Tracked.of_unconcerned (h : Tracked host events db) (hu : Unconcerned db db') : Tracked host events db' :=
  ⟨hu.1.trans h.devices, hu.2.trans h.keys, h.deletes⟩

/-- An operation that failed. -/
theorem Tracked.of_failed {α : Type} {f : α → Event} {e : StoreError} (h : Tracked host events db) (hdb : db' = db) :
    Tracked host (events ++ (Option.map f (.error e : Except StoreError α).toOption).toList) db' := by
  show Tracked host (events ++ []) db'
  rw [List.append_nil]
  exact hdb ▸ h

theorem unconcerned_of_eq (hd : db'.devices = db.devices) (hk : db'.apiKeys = db.apiKeys) : Unconcerned db db' := by
  rw [Unconcerned, deviceShape, deviceShape, keyShape, keyShape, hd, hk]
  exact ⟨rfl, rfl⟩

/-- An update of devices that keeps what a token resolves by. -/
theorem unconcerned_of_map {f : Device → Device} (hd : db'.devices.rows = db.devices.rows.map f)
    (hf : ∀ d, (f d).id = d.id ∧ (f d).tokenHash = d.tokenHash ∧ (f d).revokedAt = d.revokedAt)
    (hk : db'.apiKeys = db.apiKeys) : Unconcerned db db' := by
  refine ⟨?_, by rw [keyShape, keyShape, hk]⟩
  rw [deviceShape, deviceShape, hd, List.map_map]
  refine List.map_congr_left fun d _ => ?_
  obtain ⟨hid, hhash, hrev⟩ := hf d
  rw [Function.comp_apply, hid, hhash, hrev]

/-- An operation that is about no credential. -/
theorem tracked_unconcerned (op : Op) {F : Database → StoreError → Prop} (hnone : event host op w = none)
    (hop : Store.Atomic (op.run host) (fun db _ db' => Unconcerned db db') F) (h : Tracked host events w.db) :
    Tracked host (events ++ (event host op w).toList) (op.step host w).db := by
  rw [hnone, Option.toList_none, List.append_nil]
  obtain ⟨-, hu⟩ | hdb := hop.step host op w
  · exact h.of_unconcerned hu
  · exact hdb ▸ h

/-- What an operation's run leaves, whatever its result is used for. -/
theorem map_snd {α β : Type} {f : α → β} {m : Store α} : ((f <$> m) w).2 = (m w).2 := by
  show ((m >>= fun a => pure (f a)) w).2 = _
  simp only [bind]
  cases m w with
  | mk r w' => cases r <;> rfl

/-- An operation that returned, with the event `e`. -/
theorem Tracked.concat {e : Event} (h : Tracked host events db)
    (hdevices : deviceShape db' = ((deviceRegister.step (deviceRegister.entries events) e)).map fun x =>
      (x.1.1, Store.hashToken host x.1.2, x.2))
    (hkeys : keyShape db' = (((keyRegister host).step ((keyRegister host).entries events) e)).map fun x =>
      (Store.hashToken host x.1, str "read", x.2))
    (hdeletes : ∀ d, e = .deviceDeleted d →
      ∃ t before after, events = before ++ .deviceIssued d t :: after ∧ .deviceRevoked d ∈ after) :
    Tracked host (events ++ [e]) db' := by
  refine ⟨Register.entries_concat ▸ hdevices, Register.entries_concat ▸ hkeys, fun before after d hsplit => ?_⟩
  obtain ⟨rfl, heq, -⟩ | ⟨after', -, hsplit⟩ := Register.concat_split.1 hsplit
  · exact hdeletes d heq.symm
  · exact h.deletes before after' d hsplit

/-- The other register is as it was. -/
theorem Tracked.keys_other {e : Event} (h : Tracked host events db) (hk : db'.apiKeys = db.apiKeys)
    (hissues : (keyRegister host).issues e = none) (hrevokes : ∀ k, (keyRegister host).revokes e k = false) :
    keyShape db' = (((keyRegister host).step ((keyRegister host).entries events) e)).map fun x =>
      (Store.hashToken host x.1, str "read", x.2) := by
  rw [keyShape, hk, Register.step_other hissues hrevokes fun _ => rfl]
  exact h.keys

theorem Tracked.devices_other {e : Event} (h : Tracked host events db) (hd : db'.devices = db.devices)
    (hissues : deviceRegister.issues e = none) (hrevokes : ∀ k, deviceRegister.revokes e k = false)
    (hremoves : ∀ k, deviceRegister.removes e k = false) :
    deviceShape db' = ((deviceRegister.step (deviceRegister.entries events) e)).map fun x =>
      (x.1.1, Store.hashToken host x.1.2, x.2) := by
  rw [deviceShape, hd, Register.step_other hissues hrevokes hremoves]
  exact h.devices

theorem tracked_createDevice (h : Tracked host events w.db) (name : Bytes) :
    Tracked host (events ++ (event host (.createDevice name) w).toList) ((Op.createDevice name).step host w).db := by
  have hstep : (Op.createDevice name).step host w = (Store.createDevice host name w).2 := map_snd
  rw [hstep, event]
  obtain ⟨r, hok, now, -, -, hk, hd⟩ | ⟨e, herr, -, hdb⟩ := (Store.atomic_createDevice host name).ends w
  · rw [hok]
    refine h.concat ?_ (h.keys_other hk rfl fun _ => rfl) nofun
    rw [Register.step_issue rfl (fun _ => rfl) fun _ => rfl, List.map_append, ← h.devices, deviceShape, hd,
      List.map_append]
    rfl
  · rw [herr]
    exact h.of_failed hdb

theorem tracked_revokeDevice (h : Tracked host events w.db) (deviceID : Bytes) :
    Tracked host (events ++ (event host (.revokeDevice deviceID) w).toList)
      ((Op.revokeDevice deviceID).step host w).db := by
  show Tracked host _ (Store.revokeDevice deviceID w).2.db
  rw [event]
  obtain ⟨r, hok, now, -, -, hk, hd⟩ | ⟨e, herr, -, hdb⟩ := (Store.atomic_revokeDevice deviceID).ends w
  · rw [hok]
    refine h.concat ?_ (h.keys_other hk rfl fun _ => rfl) nofun
    have hshape : deviceShape (Store.revokeDevice deviceID w).2.db =
        (deviceShape w.db).map fun x => (x.1, x.2.1, x.2.2 || x.1 == deviceID) := by
      rw [deviceShape, hd, deviceShape, List.map_map, List.map_map]
      refine List.map_congr_left fun d _ => ?_
      simp only [Function.comp_apply]
      by_cases hid : d.id = deviceID <;> simp [hid]
    rw [Register.step_revoke rfl fun _ => rfl, hshape, h.devices, List.map_map, List.map_map]
    rfl
  · rw [herr]
    exact h.of_failed hdb

theorem tracked_createAPIKey (h : Tracked host events w.db) (label : Bytes) :
    Tracked host (events ++ (event host (.createAPIKey label) w).toList) ((Op.createAPIKey label).step host w).db := by
  have hstep : (Op.createAPIKey label).step host w = (Store.createAPIKey host label w).2 := map_snd
  rw [hstep, event]
  obtain ⟨token, hok, now, hd, -, -, hk⟩ | ⟨e, herr, -, hdb⟩ := (Store.atomic_createAPIKey host label).ends w
  · rw [hok]
    refine h.concat (h.devices_other hd rfl (fun _ => rfl) fun _ => rfl) ?_ nofun
    rw [Register.step_issue rfl (fun _ => rfl) fun _ => rfl, List.map_append, ← h.keys, keyShape, hk, List.map_append]
    rfl
  · rw [herr]
    exact h.of_failed hdb

/-- A revocation of the keys whose hashes `q` picks. -/
theorem Tracked.revokesKeys {q : Bytes → Bool} {now : Int} {n : Nat} {e : Event} (h : Tracked host events db)
    (hr : Store.RevokesKeys (fun k => q k.keyHash) now n db db') (hissues : deviceRegister.issues e = none)
    (hrevokes : ∀ k, deviceRegister.revokes e k = false) (hremoves : ∀ k, deviceRegister.removes e k = false)
    (hissues' : (keyRegister host).issues e = none)
    (hq : ∀ token, (keyRegister host).revokes e token = q (Store.hashToken host token)) :
    Tracked host (events ++ [e]) db' := by
  refine h.concat (h.devices_other hr.devices hissues hrevokes hremoves) ?_ fun d hd => ?_
  · have hshape : keyShape db' = (keyShape db).map fun x => (x.1, x.2.1, x.2.2 || q x.1) := by
      rw [keyShape, hr.apiKeys, keyShape, List.map_map, List.map_map]
      refine List.map_congr_left fun k _ => ?_
      simp only [Function.comp_apply]
      by_cases hk : q k.keyHash <;> simp [hk]
    rw [Register.step_revoke hissues' fun _ => rfl, hshape, h.keys, List.map_map, List.map_map]
    refine List.map_congr_left fun x _ => ?_
    simp only [Function.comp_apply, hq]
  · subst hd
    exact absurd (hremoves (d, [])) (by simp [deviceRegister])

theorem tracked_revokeAPIKey (h : Tracked host events w.db) (token : Bytes) :
    Tracked host (events ++ (event host (.revokeAPIKey token) w).toList)
      ((Op.revokeAPIKey token).step host w).db := by
  show Tracked host _ (Store.revokeAPIKey host token w).2.db
  rw [event]
  obtain ⟨_, hok, now, n, hr⟩ | ⟨e, herr, -, hdb⟩ := (Store.atomic_revokeAPIKey host token).ends w
  · rw [hok]
    exact h.revokesKeys (q := (· == Store.hashToken host token)) hr rfl (fun _ => rfl) (fun _ => rfl) rfl fun _ => rfl
  · rw [herr]
    exact h.of_failed hdb

theorem tracked_revokeAPIKeyByPrefix (h : Tracked host events w.db) (pfx : Bytes) :
    Tracked host (events ++ (event host (.revokeAPIKeyByPrefix pfx) w).toList)
      ((Op.revokeAPIKeyByPrefix pfx).step host w).db := by
  have hstep : (Op.revokeAPIKeyByPrefix pfx).step host w = (Store.revokeAPIKeyByPrefix pfx w).2 := map_snd
  rw [hstep, event]
  obtain ⟨n, hok, now, hr⟩ | ⟨e, herr, -, hdb⟩ := (Store.atomic_revokeAPIKeyByPrefix pfx).ends w
  · rw [hok]
    exact h.revokesKeys (q := (·.take 8 == pfx)) hr rfl (fun _ => rfl) (fun _ => rfl) rfl fun _ => rfl
  · rw [herr]
    exact h.of_failed hdb

theorem issues_device {e : Event} {d t : Bytes} (h : deviceRegister.issues e = some (d, t)) :
    e = .deviceIssued d t := by
  cases e with
  | deviceIssued d' t' =>
    cases h
    rfl
  | deviceRevoked | deviceDeleted | keyIssued | keyRevoked | prefixRevoked => cases h

theorem revokes_device {e : Event} {k : Bytes × Bytes} (h : deviceRegister.revokes e k = true) :
    e = .deviceRevoked k.1 := by
  cases e with
  | deviceRevoked d => rw [beq_iff_eq.1 h]
  | deviceIssued | deviceDeleted | keyIssued | keyRevoked | prefixRevoked => cases h

theorem removes_device {e : Event} {k : Bytes × Bytes} (h : deviceRegister.removes e k = true) :
    e = .deviceDeleted k.1 := by
  cases e with
  | deviceDeleted d => rw [beq_iff_eq.1 h]
  | deviceIssued | deviceRevoked | keyIssued | keyRevoked | prefixRevoked => cases h

theorem tracked_deleteDevice (h : Tracked host events w.db) (deviceID : Bytes) :
    Tracked host (events ++ (event host (.deleteDevice deviceID) w).toList)
      ((Op.deleteDevice deviceID).step host w).db := by
  show Tracked host _ (Store.deleteDevice deviceID w).2.db
  rw [event]
  obtain ⟨_, hok, hrevoked, -, hd, -, hk⟩ | ⟨e, herr, -, hdb⟩ := (Store.atomic_deleteDevice deviceID).ends w
  · rw [hok]
    refine h.concat ?_ (h.keys_other hk rfl fun _ => rfl) fun d heq => ?_
    · have hshape : deviceShape (Store.deleteDevice deviceID w).2.db =
          (deviceShape w.db).filter fun x => !x.1 == deviceID := by
        rw [deviceShape, hd, deviceShape, List.filter_map]
        rfl
      rw [Register.step_remove rfl fun _ => rfl, hshape, h.devices, List.filter_map]
      rfl
    · cases heq
      obtain ⟨row, hmem, rfl, hsome⟩ := hrevoked
      have hshape : (row.id, row.tokenHash, row.revokedAt.isSome) ∈ deviceShape w.db := List.mem_map_of_mem hmem
      rw [h.devices, List.mem_map] at hshape
      obtain ⟨⟨⟨d, t⟩, b⟩, hentry, heq⟩ := hshape
      simp only [Prod.mk.injEq] at heq
      obtain ⟨rfl, -, rfl⟩ := heq
      obtain ⟨before, e, after, rfl, hissues, -, hany⟩ := Register.mem_entries.1 hentry
      rw [hsome] at hany
      obtain ⟨e', hmem', he'⟩ := List.any_eq_true.1 hany.symm
      exact ⟨t, before, after, by rw [issues_device hissues], revokes_device he' ▸ hmem'⟩
  · rw [herr]
    exact h.of_failed hdb

theorem unconcerned_of_updates {id : Bytes} {f : Device → Device} (h : Store.UpdatesDevice id f db db')
    (hf : ∀ d, (f d).id = d.id ∧ (f d).tokenHash = d.tokenHash ∧ (f d).revokedAt = d.revokedAt) :
    Unconcerned db db' := by
  refine unconcerned_of_map h.2.2.2 (fun d => ?_) h.2.2.1
  split
  · exact hf d
  · exact ⟨rfl, rfl, rfl⟩

/-- An operation that reads. -/
theorem tracked_read (op : Op) {F : Database → StoreError → Prop} (hnone : event host op w = none)
    (hop : Store.Atomic (op.run host) (fun db _ db' => db' = db) F) (h : Tracked host events w.db) :
    Tracked host (events ++ (event host op w).toList) (op.step host w).db :=
  tracked_unconcerned op hnone (hop.weaken fun _ _ _ h => h ▸ ⟨rfl, rfl⟩) h

/-- **One operation**, with its event. -/
theorem tracked_step (op : Op) (h : Tracked host events w.db) :
    Tracked host (events ++ (event host op w).toList) (op.step host w).db := by
  cases op with
  | createDevice name => exact tracked_createDevice h name
  | revokeDevice deviceID => exact tracked_revokeDevice h deviceID
  | deleteDevice deviceID => exact tracked_deleteDevice h deviceID
  | createAPIKey label => exact tracked_createAPIKey h label
  | revokeAPIKey token => exact tracked_revokeAPIKey h token
  | revokeAPIKeyByPrefix pfx => exact tracked_revokeAPIKeyByPrefix h pfx
  | insertHeartbeats deviceID agentSentAt hbs =>
    refine tracked_unconcerned _ rfl ((Store.atomic_insertHeartbeats deviceID agentSentAt hbs).discard.weaken ?_) h
    intro db _ db' ⟨_, _, now, hi⟩
    refine unconcerned_of_map hi.devices (fun d => ?_) hi.apiKeys
    split <;> exact ⟨rfl, rfl, rfl⟩
  | renameDevice deviceID name =>
    exact tracked_unconcerned _ rfl ((Store.atomic_renameDevice deviceID name).weaken fun _ _ _ h =>
      unconcerned_of_updates h.1 fun _ => ⟨rfl, rfl, rfl⟩) h
  | upsertRule pattern category =>
    exact tracked_unconcerned _ rfl ((Store.atomic_upsertRule pattern category).weaken fun _ _ _ ⟨_, h⟩ =>
      unconcerned_of_eq h.devices h.apiKeys) h
  | deleteRule pattern =>
    exact tracked_unconcerned _ rfl ((Store.atomic_deleteRule pattern).weaken fun _ _ _ h =>
      unconcerned_of_eq h.1 h.2.2) h
  | recategorize pattern category =>
    exact tracked_unconcerned _ rfl ((Store.atomic_recategorize pattern category).discard.weaken fun _ _ _ ⟨_, h⟩ =>
      unconcerned_of_eq h.1 h.2.2.1) h
  | deviceIDByToken token =>
    exact tracked_read _ rfl ((Store.atomic_deviceIDByToken host token).unchanged fun _ _ _ h => h.1) h
  | resolveAPIKey token =>
    exact tracked_read _ rfl ((Store.atomic_resolveAPIKey host token).unchanged fun _ _ _ h => h.1) h
  | listDevices => exact tracked_read _ rfl (Store.atomic_query.unchanged fun _ _ _ h => h.1) h
  | listRules => exact tracked_read _ rfl (Store.atomic_query.unchanged fun _ _ _ h => h.1) h
  | listAPIKeys => exact tracked_read _ rfl (Store.atomic_query.unchanged fun _ _ _ h => h.1) h
  | dwellUsage deviceID lo hi groupBy =>
    exact tracked_read _ rfl ((Store.atomic_dwellUsage host deviceID lo hi groupBy).unchanged fun _ _ _ h => h) h
  | activeRatio deviceID lo hi => exact tracked_read _ rfl (Store.atomic_query.unchanged fun _ _ _ h => h.1) h
  | listEvents deviceID lo hi limit => exact tracked_read _ rfl (Store.atomic_query.unchanged fun _ _ _ h => h.1) h

/-- **A run**, with its history. -/
theorem tracked_run (ops : List Op) (h : Tracked host events w.db) :
    Tracked host (events ++ history host ops w) (runOps host ops w).db := by
  induction ops generalizing events w with
  | nil =>
    rw [history, List.append_nil]
    exact h
  | cons op ops ih =>
    rw [history, ← List.append_assoc]
    exact ih (tracked_step op h)

theorem tracked_empty : Tracked host [] {} := by
  refine ⟨rfl, rfl, fun before after d h => ?_⟩
  exact absurd h.symm (List.append_ne_nil_of_right_ne_nil _ (List.cons_ne_nil _ _))

end Credentials
end ScrewLogger
