/-
What the admin's lists show after any run of the store's operations
(`ListDevices`, `ListRules`, `ListAPIKeys`).

Each operation that returns is a change, with the ids, the tokens and the time
it was given, and the tables are the ledgers of a run's changes (`recorded_run`).
`devices_listed`, `rules_listed` and `keys_listed` read off them what the
handlers answer: all that was enrolled, saved or issued and not removed since,
as it was last named, heard of and revoked, in the order asked for.
-/
import ScrewLogger.Lib.Ledger
import ScrewLogger.Server.AdminApi
import ScrewLogger.Server.Credentials

namespace ScrewLogger
open Lib Lib.Eff

/-- The time an operation is given. -/
def stamp (w : World) : Int := (w.clock 0).unix.toInt

namespace Store

variable {α : Type} {w : World}

/-- An operation that relates the tables before and after by `R`, of the time it
is given, when it returns, and changes nothing when it fails. -/
def Timed (op : Store α) (R : Int → Database → α → Database → Prop) : Prop :=
  ∀ w, wp op (fun a w' => R (stamp w) w.db a w'.db) (fun _ w' => w'.db = w.db) w

theorem Timed.ends {op : Store α} {R : Int → Database → α → Database → Prop} (h : Timed op R) (w : World) :
    (∃ a, (op w).1 = .ok a ∧ R (stamp w) w.db a (op w).2.db) ∨ ∃ e, (op w).1 = .error e ∧ (op w).2.db = w.db := by
  have hw := wp_iff.1 (h w)
  cases hop : op w with
  | mk r w' =>
    cases r with
    | ok a => exact .inl ⟨a, rfl, hw.1 a w' hop⟩
    | error e => exact .inr ⟨e, rfl, hw.2 e w' hop⟩

theorem Timed.weaken {op : Store α} {R R' : Int → Database → α → Database → Prop} (h : Timed op R)
    (hR : ∀ t db a db', R t db a db' → R' t db a db') : Timed op R' := fun w =>
  (h w).mono (fun _ _ h => hR _ _ _ _ h) fun _ _ h => h

/-- An operation that is told no time. -/
theorem Atomic.timed {op : Store α} {R : Database → α → Database → Prop} {F : Database → StoreError → Prop}
    (h : Atomic op R F) : Timed op fun _ db a db' => R db a db' := fun w =>
  (h w).mono (fun _ _ h => h.2) fun _ _ h => h.1.db

theorem timed_revokeDevice (deviceID : Bytes) : Timed (revokeDevice deviceID) fun t db _ db' =>
    UpdatesDevice deviceID (fun d => { d with revokedAt := some t }) db db' := by
  intro w
  simp only [revokeDevice, wp_bind, timeNowUnix, wp_map]
  exact wp_exec (fun w' n _ hf => (updatesDevice hf).1) fun w' h => h.db

theorem timed_upsertRule (pattern category : Bytes) : Timed (upsertRule pattern category) fun t db _ db' =>
    SavesRule ⟨pattern, category, t⟩ db db' := by
  intro w
  simp only [upsertRule, wp_bind, timeNowUnix, wp_map]
  exact wp_exec (fun w' n _ hf => savesRule hf) fun w' h => h.db

theorem timed_deleteRule (pattern : Bytes) : Timed (deleteRule pattern) fun _ db _ db' =>
    db'.devices = db.devices ∧ db'.apiKeys = db.apiKeys ∧
      db'.rules.rows = db.rules.rows.filter (! ·.exePattern == pattern) := by
  intro w
  simp only [deleteRule, wp_bind]
  refine wp_exec (fun w' n _ hf => ?_) fun w' h => h.db
  simp only [Database.deleteRule, Option.some.injEq, Prod.mk.injEq] at hf
  rw [wp_pure, ← hf.1]
  exact ⟨rfl, rfl, rfl⟩

theorem timed_revokeAPIKeyByPrefix (pfx : Bytes) : Timed (revokeAPIKeyByPrefix pfx) fun t db n db' =>
    RevokesKeys (hashPrefix · == pfx) t n db db' := by
  intro w
  simp only [revokeAPIKeyByPrefix, wp_bind, timeNowUnix, wp_map]
  exact wp_exec (fun w' n _ hf => revokesKeys hf) fun w' h => h.db

variable (host : Host)

theorem timed_revokeAPIKey (token : Bytes) : Timed (revokeAPIKey host token) fun t db _ db' =>
    ∃ n, RevokesKeys (·.keyHash == hashToken host token) t n db db' := by
  intro w
  simp only [revokeAPIKey, wp_bind, timeNowUnix, wp_map]
  exact wp_exec (fun w' n _ hf => ⟨n, revokesKeys hf⟩) fun w' h => h.db

/-- The random source is no clock. -/
theorem wp_randRead_stamp {n : Nat} {Q : Bytes → World → Prop} {E : StoreError → World → Prop}
    (hQ : ∀ s w', w'.db = w.db → stamp w' = stamp w → Q s w') (hE : ∀ w', w'.db = w.db → E .entropy w') :
    wp (randRead n) Q E w := by
  simp only [randRead, call, wp_bind, wp_take, wp_ensure]
  exact ⟨fun _ => hQ _ _ rfl rfl, fun _ => hE _ rfl⟩

theorem timed_createDevice (name : Bytes) : Timed (createDevice host name) fun t db r db' =>
    db'.rules = db.rules ∧ db'.apiKeys = db.apiKeys ∧ db'.devices.rows = db.devices.rows ++
      [{ id := r.1, name := name, tokenHash := hashToken host r.2, enrolledAt := t }] := by
  intro w
  simp only [createDevice, wp_bind, wp_map]
  refine wp_randRead_stamp (fun id w₁ h₁ ht₁ => ?_) fun _ h => h
  refine wp_randRead_stamp (fun tok w₂ h₂ ht₂ => ?_) fun _ h => h.trans h₁
  simp only [timeNowUnix, wp_map]
  refine wp_exec (fun w₃ n _ hf => ?_) fun w₃ h => (h.db.trans h₂).trans h₁
  change Database.insertDevice _ w₂.db = _ at hf
  rw [h₂, h₁, Database.insertDevice, Option.map_eq_some_iff] at hf
  obtain ⟨t', hins, he⟩ := hf
  simp only [Prod.mk.injEq] at he
  rw [wp_pure, ← ht₁, ← ht₂, ← he.1]
  exact ⟨rfl, rfl, (Table.insert_eq_some.1 hins).2⟩

theorem timed_createAPIKey (label : Bytes) : Timed (createAPIKey host label) fun t db token db' =>
    db'.devices = db.devices ∧ db'.rules = db.rules ∧ db'.apiKeys.rows = db.apiKeys.rows ++
      [{ keyHash := hashToken host token, label := label, scopes := str "read", createdAt := t }] := by
  intro w
  simp only [createAPIKey, wp_bind, wp_map]
  refine wp_randRead_stamp (fun tok w₁ h₁ ht₁ => ?_) fun _ h => h
  simp only [timeNowUnix, wp_map]
  refine wp_exec (fun w₂ n _ hf => ?_) fun w₂ h => h.db.trans h₁
  change Database.insertKey _ w₁.db = _ at hf
  rw [h₁, Database.insertKey, Option.map_eq_some_iff] at hf
  obtain ⟨t', hins, he⟩ := hf
  simp only [Prod.mk.injEq] at he
  rw [wp_pure, ← ht₁, ← he.1]
  exact ⟨rfl, rfl, (Table.insert_eq_some.1 hins).2⟩

/-- A batch that is stored marks its device. -/
theorem seen_insertHeartbeats (deviceID : Bytes) (agentSentAt : Int) (hbs : List Heartbeat) :
    wp (insertHeartbeats deviceID agentSentAt hbs)
      (fun _ w' => ∀ d ∈ w'.db.devices.rows, d.id = deviceID → d.lastSeen = some (stamp w)) (fun _ _ => True) w := by
  simp only [insertHeartbeats, inTransaction, wp_restoring, wp_bind, call, wp_take, wp_ensure]
  refine ⟨fun _ => ⟨fun _ => ?_, fun _ => trivial⟩, fun _ => trivial⟩
  rw [timeNowUnix, wp_map]
  refine (wp_foldlM (E := fun _ _ => True) (fun _ _ _ => True) trivial fun _ _ _ _ _ _ _ => ?_).mono
    (fun _ w₁ _ => ?_) fun _ _ _ => trivial
  · rw [wp_bind]
    exact wp_exec (fun _ _ _ _ => trivial) fun _ _ => trivial
  · refine wp_exec (fun w₂ n _ hf => ⟨fun _ d hd hid => ?_, fun _ => trivial⟩) fun _ _ => trivial
    obtain ⟨⟨-, -, -, hrows⟩, -⟩ := updatesDevice hf
    rw [hrows] at hd
    obtain ⟨d', -, rfl⟩ := List.mem_map.1 hd
    split at hid
    · next heq =>
      rw [if_pos heq]
      rfl
    · next hne => exact absurd (beq_iff_eq.2 hid) hne

theorem timed_insertHeartbeats (deviceID : Bytes) (agentSentAt : Int) (hbs : List Heartbeat) :
    Timed (insertHeartbeats deviceID agentSentAt hbs) fun t db _ db' =>
      db'.rules = db.rules ∧ db'.apiKeys = db.apiKeys ∧ db'.devices.rows = db.devices.rows.map fun d =>
        if d.id == deviceID then { d with lastSeen := some t } else d := by
  intro w
  refine ((atomic_insertHeartbeats deviceID agentSentAt hbs w).and (seen_insertHeartbeats deviceID agentSentAt hbs)).mono
    (fun n w' h => ?_) fun _ _ h => h.1.1.db
  obtain ⟨⟨-, -, now, hi⟩, hseen⟩ := h
  refine ⟨hi.rules, hi.apiKeys, hi.devices.trans (List.map_congr_left fun d hd => ?_)⟩
  by_cases hid : d.id = deviceID
  · have hmem : { d with lastSeen := some now } ∈ w'.db.devices.rows := by
      rw [hi.devices]
      exact List.mem_map.2 ⟨d, hd, if_pos (beq_iff_eq.2 hid)⟩
    rw [if_pos (beq_iff_eq.2 hid), if_pos (beq_iff_eq.2 hid), ← hseen _ hmem hid]
  · rw [if_neg (by simpa using hid), if_neg (by simpa using hid)]

end Store

/-! ## Changes -/

namespace Listing

/-- What an operation that returned did to the devices, the rules or the keys. -/
inductive Change
  | enrolled (id token name : Bytes) (time : Int)
  | heard (id : Bytes) (time : Int)
  | revoked (id : Bytes) (time : Int)
  | renamed (id name : Bytes)
  | deleted (id : Bytes)
  | ruleSaved (rule : Rule)
  | ruleDeleted (pattern : Bytes)
  | keyIssued (token label : Bytes) (time : Int)
  | keyRevoked (token : Bytes) (time : Int)
  | prefixRevoked (pfx : Bytes) (time : Int)
  deriving DecidableEq

variable (host : Host)

/-- The change of an operation, none if it fails or changes nothing the lists show. -/
def change : Op → World → Option Change
  | .createDevice name, w =>
    (Store.createDevice host name w).1.toOption.map fun r => .enrolled r.1 r.2 name (stamp w)
  | .insertHeartbeats deviceID agentSentAt hbs, w =>
    (Store.insertHeartbeats deviceID agentSentAt hbs w).1.toOption.map fun _ => .heard deviceID (stamp w)
  | .revokeDevice deviceID, w => (Store.revokeDevice deviceID w).1.toOption.map fun _ => .revoked deviceID (stamp w)
  | .renameDevice deviceID name, w =>
    (Store.renameDevice deviceID name w).1.toOption.map fun _ => .renamed deviceID name
  | .deleteDevice deviceID, w => (Store.deleteDevice deviceID w).1.toOption.map fun _ => .deleted deviceID
  | .upsertRule pattern category, w =>
    (Store.upsertRule pattern category w).1.toOption.map fun _ => .ruleSaved ⟨pattern, category, stamp w⟩
  | .deleteRule pattern, w => (Store.deleteRule pattern w).1.toOption.map fun _ => .ruleDeleted pattern
  | .createAPIKey label, w =>
    (Store.createAPIKey host label w).1.toOption.map fun token => .keyIssued token label (stamp w)
  | .revokeAPIKey token, w => (Store.revokeAPIKey host token w).1.toOption.map fun _ => .keyRevoked token (stamp w)
  | .revokeAPIKeyByPrefix pfx, w =>
    (Store.revokeAPIKeyByPrefix pfx w).1.toOption.map fun _ => .prefixRevoked pfx (stamp w)
  | _, _ => none

/-- The changes of a run. -/
def changes : List Op → World → List Change
  | [], _ => []
  | op :: ops, w => (change host op w).toList ++ changes ops (op.step host w)

namespace Change

/-- The name a change gives a device. -/
def name : Change → Bytes → Option Bytes
  | .renamed id name, k => if k = id then some name else none
  | _, _ => none

/-- When the server heard of a device. -/
def lastSeen : Change → Bytes → Option Int
  | .heard id time, k => if k = id then some time else none
  | _, _ => none

/-- When a device was revoked. -/
def revokedAt : Change → Bytes → Option Int
  | .revoked id time, k => if k = id then some time else none
  | _, _ => none

/-- When the keys of a hash were revoked. -/
def keyRevokedAt : Change → Bytes → Option Int
  | .keyRevoked token time, hash => if hash = Store.hashToken host token then some time else none
  | .prefixRevoked pfx time, hash => if hash.take 8 = pfx then some time else none
  | _, _ => none

/-- The pattern that a change saves or deletes the rule of. -/
def pattern : Change → Option Bytes
  | .ruleSaved rule => some rule.exePattern
  | .ruleDeleted pattern => some pattern
  | _ => none

end Change

/-! ## The ledgers -/

def deviceLedger : Ledger Change Device where
  adds
    | .enrolled id token name time =>
      some { id := id, name := name, tokenHash := Store.hashToken host token, enrolledAt := time }
    | _ => none
  makes e d :=
    if e = .deleted d.id then none
    else
      some { d with
        name := (e.name d.id).getD d.name
        lastSeen := (e.lastSeen d.id).or d.lastSeen
        revokedAt := (e.revokedAt d.id).or d.revokedAt }

def ruleLedger : Ledger Change Rule where
  adds
    | .ruleSaved rule => some rule
    | _ => none
  makes e rule := if e.pattern = some rule.exePattern then none else some rule

def keyLedger : Ledger Change ApiKey where
  adds
    | .keyIssued token label time =>
      some { keyHash := Store.hashToken host token, label := label, scopes := str "read", createdAt := time }
    | _ => none
  makes e k := some { k with revokedAt := (e.keyRevokedAt host k.keyHash).or k.revokedAt }

/-- What a change does to the tables. -/
structure Records (e : Change) (db db' : Database) : Prop where
  devices : db'.devices.rows = (deviceLedger host).step db.devices.rows e
  rules : ∀ rule, rule ∈ db'.rules.rows ↔ rule ∈ ruleLedger.step db.rules.rows e
  keys : db'.apiKeys.rows = (keyLedger host).step db.apiKeys.rows e

/-- The tables are the ledgers of the changes. -/
structure Recorded (changes : List Change) (db : Database) : Prop where
  devices : db.devices.rows = (deviceLedger host).rows changes
  rules : ∀ rule, rule ∈ db.rules.rows ↔ rule ∈ ruleLedger.rows changes
  keys : db.apiKeys.rows = (keyLedger host).rows changes

variable {host} {cs : List Change} {e : Change} {db db' : Database} {w : World}

theorem recorded_empty : Recorded host [] {} := ⟨rfl, fun _ => Iff.rfl, rfl⟩

theorem Recorded.concat (h : Recorded host cs db) (hr : Records host e db db') : Recorded host (cs ++ [e]) db' := by
  refine ⟨?_, fun rule => ?_, ?_⟩
  · rw [Ledger.rows_concat, ← h.devices, hr.devices]
  · rw [hr.rules, Ledger.rows_concat, Ledger.mem_step, Ledger.mem_step]
    simp only [h.rules]
  · rw [Ledger.rows_concat, ← h.keys, hr.keys]

/-! ## One operation -/

variable {rows : List Device} {rules : List Rule} {keys : List ApiKey}

/-- A change of no device. -/
theorem step_devices_other (hadds : (deviceLedger host).adds e = none) (hdeleted : ∀ id, e ≠ .deleted id)
    (hsets : ∀ id, e.name id = none ∧ e.lastSeen id = none ∧ e.revokedAt id = none) :
    (deviceLedger host).step rows e = rows := by
  refine Ledger.step_other hadds fun d => ?_
  obtain ⟨hname, hseen, hrevoked⟩ := hsets d.id
  simp only [deviceLedger, if_neg (hdeleted d.id), hname, hseen, hrevoked, Option.getD_none, Option.none_or]

/-- A change of no rule. -/
theorem step_rules_other (hadds : ruleLedger.adds e = none) (hpattern : e.pattern = none) :
    ruleLedger.step rules e = rules := by
  refine Ledger.step_other hadds fun rule => ?_
  simp only [ruleLedger, hpattern]
  rfl

/-- A change of no key. -/
theorem step_keys_other (hadds : (keyLedger host).adds e = none) (hrevoked : ∀ hash, e.keyRevokedAt host hash = none) :
    (keyLedger host).step keys e = keys := by
  refine Ledger.step_other hadds fun k => ?_
  simp only [keyLedger, hrevoked, Option.none_or]

/-- An operation on the devices. -/
theorem Records.of_devices (hdevices : db'.devices.rows = (deviceLedger host).step db.devices.rows e)
    (hrules : db'.rules = db.rules) (hkeys : db'.apiKeys = db.apiKeys)
    (hadds : ruleLedger.adds e = none ∧ (keyLedger host).adds e = none)
    (hpattern : e.pattern = none) (hrevoked : ∀ hash, e.keyRevokedAt host hash = none) : Records host e db db' :=
  ⟨hdevices, fun _ => by rw [hrules, step_rules_other hadds.1 hpattern],
    by rw [hkeys, step_keys_other hadds.2 hrevoked]⟩

theorem records_enrolled {id token name : Bytes} {t : Int} (h : db'.rules = db.rules ∧ db'.apiKeys = db.apiKeys ∧
    db'.devices.rows = db.devices.rows ++
      [{ id := id, name := name, tokenHash := Store.hashToken host token, enrolledAt := t }]) :
    Records host (.enrolled id token name t) db db' := by
  have hstep : (deviceLedger host).step db.devices.rows (.enrolled id token name t) = _ := Ledger.step_add fun _ => rfl
  exact .of_devices (h.2.2.trans hstep.symm) h.1 h.2.1 ⟨rfl, rfl⟩ rfl fun _ => rfl

theorem records_heard {id : Bytes} {t : Int} (h : db'.rules = db.rules ∧ db'.apiKeys = db.apiKeys ∧
    db'.devices.rows = db.devices.rows.map fun d => if d.id == id then { d with lastSeen := some t } else d) :
    Records host (.heard id t) db db' := by
  refine .of_devices (h.2.2.trans (Ledger.step_change rfl fun d => ?_).symm) h.1 h.2.1 ⟨rfl, rfl⟩ rfl fun _ => rfl
  by_cases hid : d.id = id <;> simp [deviceLedger, Change.name, Change.lastSeen, Change.revokedAt, hid]

theorem records_updated {id : Bytes} {f : Device → Device} (h : Store.UpdatesDevice id f db db')
    (hadds : (deviceLedger host).adds e = none ∧ ruleLedger.adds e = none ∧ (keyLedger host).adds e = none)
    (hmakes : ∀ d, (deviceLedger host).makes e d = some (if d.id == id then f d else d)) (hpattern : e.pattern = none)
    (hrevoked : ∀ hash, e.keyRevokedAt host hash = none) : Records host e db db' := by
  obtain ⟨-, hrules, hkeys, hrows⟩ := h
  exact .of_devices (hrows.trans (Ledger.step_change hadds.1 hmakes).symm) hrules hkeys hadds.2 hpattern hrevoked

theorem records_revoked {id : Bytes} {t : Int}
    (h : Store.UpdatesDevice id (fun d => { d with revokedAt := some t }) db db') :
    Records host (.revoked id t) db db' := by
  refine records_updated h ⟨rfl, rfl, rfl⟩ (fun d => ?_) rfl fun _ => rfl
  by_cases hid : d.id = id <;> simp [deviceLedger, Change.name, Change.lastSeen, Change.revokedAt, hid]

theorem records_renamed {id name : Bytes} (h : Store.UpdatesDevice id (fun d => { d with name := name }) db db') :
    Records host (.renamed id name) db db' := by
  refine records_updated h ⟨rfl, rfl, rfl⟩ (fun d => ?_) rfl fun _ => rfl
  by_cases hid : d.id = id <;> simp [deviceLedger, Change.name, Change.lastSeen, Change.revokedAt, hid]

theorem records_deleted {id : Bytes} (hrows : db'.devices.rows = db.devices.rows.filter (! ·.id == id))
    (hrules : db'.rules = db.rules) (hkeys : db'.apiKeys = db.apiKeys) : Records host (.deleted id) db db' := by
  refine .of_devices (hrows.trans (Ledger.step_remove rfl fun d => ?_).symm) hrules hkeys ⟨rfl, rfl⟩ rfl fun _ => rfl
  by_cases hid : d.id = id
  · simp [deviceLedger, hid]
  · simp [deviceLedger, Change.name, Change.lastSeen, Change.revokedAt, hid, Ne.symm hid]

/-- An operation on the rules. -/
theorem Records.of_rules (hrules : ∀ rule, rule ∈ db'.rules.rows ↔ rule ∈ ruleLedger.step db.rules.rows e)
    (hdevices : db'.devices = db.devices) (hkeys : db'.apiKeys = db.apiKeys) {pattern : Bytes}
    (hpattern : e.pattern = some pattern) : Records host e db db' := by
  refine ⟨?_, hrules, ?_⟩
  · rw [hdevices]
    cases e with
    | ruleSaved | ruleDeleted => exact (step_devices_other rfl (by simp) fun _ => ⟨rfl, rfl, rfl⟩).symm
    | enrolled | heard | revoked | renamed | deleted | keyIssued | keyRevoked | prefixRevoked => cases hpattern
  · rw [hkeys]
    cases e with
    | ruleSaved | ruleDeleted => exact (step_keys_other rfl fun _ => rfl).symm
    | enrolled | heard | revoked | renamed | deleted | keyIssued | keyRevoked | prefixRevoked => cases hpattern

theorem records_ruleSaved {rule : Rule} (h : Store.SavesRule rule db db') : Records host (.ruleSaved rule) db db' := by
  refine .of_rules (fun rule' => ?_) h.devices h.apiKeys rfl
  rw [h.rules, Ledger.mem_step]
  simp only [ruleLedger, Change.pattern, Option.some.injEq, Option.ite_none_left_eq_some]
  constructor
  · intro h'
    obtain rfl | ⟨hmem, hne⟩ := h'
    · exact .inr rfl
    · exact .inl ⟨rule', hmem, Ne.symm hne, rfl⟩
  · intro h'
    obtain ⟨r, hmem, hne, rfl⟩ | rfl := h'
    · exact .inr ⟨hmem, Ne.symm hne⟩
    · exact .inl rfl

theorem records_ruleDeleted {pattern : Bytes} (hrows : db'.rules.rows = db.rules.rows.filter (! ·.exePattern == pattern))
    (hdevices : db'.devices = db.devices) (hkeys : db'.apiKeys = db.apiKeys) :
    Records host (.ruleDeleted pattern) db db' := by
  refine .of_rules (fun rule => ?_) hdevices hkeys rfl
  rw [hrows, Ledger.step_remove (p := fun rule => ! rule.exePattern == pattern) rfl fun rule => ?_]
  by_cases hp : rule.exePattern = pattern
  · simp [ruleLedger, Change.pattern, hp]
  · simp [ruleLedger, Change.pattern, hp, Ne.symm hp]

/-- An operation on the keys. -/
theorem Records.of_keys (hkeys : db'.apiKeys.rows = (keyLedger host).step db.apiKeys.rows e)
    (hdevices : db'.devices = db.devices) (hrules : db'.rules = db.rules) (hadds : (deviceLedger host).adds e = none)
    (hdeleted : ∀ id, e ≠ .deleted id)
    (hsets : ∀ id, e.name id = none ∧ e.lastSeen id = none ∧ e.revokedAt id = none)
    (hrule : ruleLedger.adds e = none) (hpattern : e.pattern = none) : Records host e db db' :=
  ⟨by rw [hdevices, step_devices_other hadds hdeleted hsets],
    fun _ => by rw [hrules, step_rules_other hrule hpattern], hkeys⟩

theorem records_keyIssued {token label : Bytes} {t : Int} (h : db'.devices = db.devices ∧ db'.rules = db.rules ∧
    db'.apiKeys.rows = db.apiKeys.rows ++
      [{ keyHash := Store.hashToken host token, label := label, scopes := str "read", createdAt := t }]) :
    Records host (.keyIssued token label t) db db' := by
  have hstep : (keyLedger host).step db.apiKeys.rows (.keyIssued token label t) = _ := Ledger.step_add fun _ => rfl
  exact .of_keys (h.2.2.trans hstep.symm) h.1 h.2.1 rfl nofun (fun _ => ⟨rfl, rfl, rfl⟩) rfl rfl

theorem records_keyRevoked {token : Bytes} {t : Int} {n : Nat}
    (h : Store.RevokesKeys (·.keyHash == Store.hashToken host token) t n db db') :
    Records host (.keyRevoked token t) db db' := by
  refine .of_keys (h.apiKeys.trans (Ledger.step_change rfl fun k => ?_).symm) h.devices h.rules rfl nofun
    (fun _ => ⟨rfl, rfl, rfl⟩) rfl rfl
  by_cases hk : k.keyHash = Store.hashToken host token <;> simp [keyLedger, Change.keyRevokedAt, hk]

theorem records_prefixRevoked {pfx : Bytes} {t : Int} {n : Nat}
    (h : Store.RevokesKeys (Store.hashPrefix · == pfx) t n db db') : Records host (.prefixRevoked pfx t) db db' := by
  refine .of_keys (h.apiKeys.trans (Ledger.step_change rfl fun k => ?_).symm) h.devices h.rules rfl nofun
    (fun _ => ⟨rfl, rfl, rfl⟩) rfl rfl
  by_cases hk : k.keyHash.take 8 = pfx <;> simp [keyLedger, Change.keyRevokedAt, Store.hashPrefix, hk]

/-- An operation that the lists do not show. -/
structure Unseen (db db' : Database) : Prop where
  devices : db'.devices = db.devices
  rules : db'.rules = db.rules
  keys : db'.apiKeys = db.apiKeys

theorem Unseen.of_eq (h : db' = db) : Unseen db db' := h ▸ ⟨rfl, rfl, rfl⟩

theorem Recorded.of_unseen (h : Recorded host cs db) (hu : Unseen db db') : Recorded host cs db' :=
  ⟨hu.devices ▸ h.devices, hu.rules ▸ h.rules, hu.keys ▸ h.keys⟩

/-- An operation with its change. -/
theorem Recorded.of_timed {α : Type} {op : Op} {m : Store α} {e : Int → α → Change} (h : Recorded host cs w.db)
    (hm : Store.Timed m fun t db a db' => Records host (e t a) db db') (hstep : op.step host w = (m w).2)
    (hchange : change host op w = (m w).1.toOption.map (e (stamp w))) :
    Recorded host (cs ++ (change host op w).toList) (op.step host w).db := by
  rw [hstep, hchange]
  obtain ⟨a, hok, hr⟩ | ⟨err, herr, hdb⟩ := hm.ends w
  · rw [hok]
    exact h.concat hr
  · rw [herr, hdb]
    show Recorded host (cs ++ []) _
    rwa [List.append_nil]

theorem Recorded.of_read (op : Op) {F : Database → StoreError → Prop} (h : Recorded host cs w.db)
    (hop : Store.Atomic (op.run host) (fun db _ db' => Unseen db db') F) (hnone : change host op w = none) :
    Recorded host (cs ++ (change host op w).toList) (op.step host w).db := by
  rw [hnone, Option.toList_none, List.append_nil]
  obtain ⟨-, hu⟩ | hdb := hop.step host op w
  · exact h.of_unseen hu
  · exact hdb ▸ h

/-- **One operation**, with its change. -/
theorem recorded_step (op : Op) (h : Recorded host cs w.db) :
    Recorded host (cs ++ (change host op w).toList) (op.step host w).db := by
  cases op with
  | createDevice name =>
    exact h.of_timed (e := fun t r => .enrolled r.1 r.2 name t)
      ((Store.timed_createDevice host name).weaken fun _ _ _ _ h => records_enrolled h) Credentials.map_snd rfl
  | insertHeartbeats deviceID agentSentAt hbs =>
    exact h.of_timed (e := fun t _ => .heard deviceID t)
      ((Store.timed_insertHeartbeats deviceID agentSentAt hbs).weaken fun _ _ _ _ h => records_heard h)
      Credentials.map_snd rfl
  | revokeDevice deviceID =>
    exact h.of_timed (e := fun t _ => .revoked deviceID t)
      ((Store.timed_revokeDevice deviceID).weaken fun _ _ _ _ h => records_revoked h) rfl rfl
  | renameDevice deviceID name =>
    exact h.of_timed (e := fun _ _ => .renamed deviceID name)
      ((Store.atomic_renameDevice deviceID name).timed.weaken fun _ _ _ _ h => records_renamed h.1) rfl rfl
  | deleteDevice deviceID =>
    exact h.of_timed (e := fun _ _ => .deleted deviceID)
      ((Store.atomic_deleteDevice deviceID).timed.weaken fun _ _ _ _ h => records_deleted h.2.2.1 h.2.2.2.1 h.2.2.2.2)
      rfl rfl
  | upsertRule pattern category =>
    exact h.of_timed (e := fun t _ => .ruleSaved ⟨pattern, category, t⟩)
      ((Store.timed_upsertRule pattern category).weaken fun _ _ _ _ h => records_ruleSaved h) rfl rfl
  | deleteRule pattern =>
    exact h.of_timed (e := fun _ _ => .ruleDeleted pattern)
      ((Store.timed_deleteRule pattern).weaken fun _ _ _ _ h => records_ruleDeleted h.2.2 h.1 h.2.1) rfl rfl
  | createAPIKey label =>
    exact h.of_timed (e := fun t token => .keyIssued token label t)
      ((Store.timed_createAPIKey host label).weaken fun _ _ _ _ h => records_keyIssued h) Credentials.map_snd rfl
  | revokeAPIKey token =>
    exact h.of_timed (e := fun t _ => .keyRevoked token t)
      ((Store.timed_revokeAPIKey host token).weaken fun _ _ _ _ ⟨_, h⟩ => records_keyRevoked h) rfl rfl
  | revokeAPIKeyByPrefix pfx =>
    exact h.of_timed (e := fun t _ => .prefixRevoked pfx t)
      ((Store.timed_revokeAPIKeyByPrefix pfx).weaken fun _ _ _ _ h => records_prefixRevoked h) Credentials.map_snd rfl
  | recategorize pattern category =>
    exact h.of_read _ ((Store.atomic_recategorize pattern category).discard.weaken fun _ _ _ ⟨_, h⟩ =>
      ⟨h.1, h.2.1, h.2.2.1⟩) rfl
  | deviceIDByToken token =>
    exact h.of_read _ ((Store.atomic_deviceIDByToken host token).discard.weaken fun _ _ _ ⟨_, h⟩ => .of_eq h.1) rfl
  | resolveAPIKey token =>
    exact h.of_read _ ((Store.atomic_resolveAPIKey host token).discard.weaken fun _ _ _ ⟨_, h⟩ => .of_eq h.1) rfl
  | listDevices | listRules | listAPIKeys | activeRatio | listEvents =>
    exact h.of_read _ (Store.atomic_query.discard.weaken fun _ _ _ ⟨_, h⟩ => .of_eq h.1) rfl
  | dwellUsage deviceID lo hi groupBy =>
    exact h.of_read _ ((Store.atomic_dwellUsage host deviceID lo hi groupBy).discard.weaken fun _ _ _ ⟨_, h⟩ =>
      .of_eq h) rfl

/-- **A run**, with its changes. -/
theorem recorded_run (ops : List Op) (h : Recorded host cs w.db) :
    Recorded host (cs ++ changes host ops w) (runOps host ops w).db := by
  induction ops generalizing cs w with
  | nil =>
    rw [changes, List.append_nil]
    exact h
  | cons op ops ih =>
    rw [changes, ← List.append_assoc]
    exact ih (recorded_step op h)

theorem recorded_changes (host : Host) (ops : List Op) (w : World) :
    Recorded host (changes host ops { w with db := {} }) (runOps host ops { w with db := {} }).db :=
  @recorded_run host [] { w with db := {} } ops recorded_empty

/-! ## What becomes of a row -/

/-- A device after changes, if none deletes it. -/
def deviceSince (d : Device) (after : List Change) : Device :=
  { d with
    name := (Ledger.last (Change.name · d.id) after).getD d.name
    lastSeen := (Ledger.last (Change.lastSeen · d.id) after).or d.lastSeen
    revokedAt := (Ledger.last (Change.revokedAt · d.id) after).or d.revokedAt }

/-- A key after changes. -/
def keySince (host : Host) (k : ApiKey) (after : List Change) : ApiKey :=
  { k with revokedAt := (Ledger.last (Change.keyRevokedAt host · k.keyHash) after).or k.revokedAt }

variable {d d' : Device} {k k' : ApiKey} {after : List Change}

/-- What a change makes of a device it leaves. -/
theorem makes_device (h : (deviceLedger host).makes e d = some d') : e ≠ .deleted d.id ∧
    d' = { d with
      name := (e.name d.id).getD d.name
      lastSeen := (e.lastSeen d.id).or d.lastSeen
      revokedAt := (e.revokedAt d.id).or d.revokedAt } := by
  rw [deviceLedger, Option.ite_none_left_eq_some, Option.some_inj] at h
  exact ⟨h.1, h.2.symm⟩

theorem keyed_devices : (deviceLedger host).Keyed Device.id fun e id => decide (e = .deleted id) where
  keeps h := by rw [(makes_device h).2]
  removed := by simp [deviceLedger]

/-- **A device** is what it was last named, heard of and revoked, until it is deleted. -/
theorem madeBy_device : (deviceLedger host).madeBy after d = some d' ↔ .deleted d.id ∉ after ∧ d' = deviceSince d after := by
  rw [keyed_devices.madeBy_eq_some deviceSince (fun _ => rfl) fun after h => ?_]
  · refine and_congr_left fun _ => ⟨fun h hmem => ?_, fun h e he => ?_⟩
    · exact absurd (h _ hmem) (by simp)
    · exact decide_eq_false fun heq => h (heq ▸ he)
  · rw [(makes_device h).2]
    simp only [deviceSince, Ledger.last_cons, Option.getD_or, Option.or_assoc]

theorem keyed_keys : (keyLedger host).Keyed ApiKey.keyHash fun _ _ => false where
  keeps h := by rw [← Option.some.inj h]
  removed := by simp [keyLedger]

/-- **A key** is what it was issued as, and when it was last revoked. -/
theorem madeBy_key : (keyLedger host).madeBy after k = some k' ↔ k' = keySince host k after := by
  rw [keyed_keys.madeBy_eq_some (keySince host) (fun _ => rfl) fun after h => ?_]
  · simp
  · rw [← Option.some.inj h]
    simp only [keySince, Ledger.last_cons, Option.or_assoc]

/-! ## The lists -/

/-- A device as `handleDevices` shows it. -/
def shownDevice (now : Int) (d : Device) : DeviceResponse where
  id := d.id
  name := d.name
  enrolledAt := d.enrolledAt
  lastSeen := d.lastSeen
  revokedAt := d.revokedAt
  status := deviceStatus d now

def shownRule (rule : Rule) : RuleResponse where
  pattern := rule.exePattern
  category := rule.category
  updatedAt := rule.updatedAt

def shownKey (k : ApiKey) : ApiKeyResponse where
  label := k.label
  createdAt := k.createdAt
  revokedAt := k.revokedAt
  hashPrefix := Store.hashPrefix k

variable (host) (r : Request)

theorem body_handleDevices (hq : Store.Quiet w) : ((handleDevices host).serve r w).1.body =
    .devices (((host.orderBy fun d : Device => -d.enrolledAt).sort w.db.devices.rows).map (shownDevice (stamp w))) := by
  refine Answer.run_iff.2 (?_ : (handleDevices host r).Ends (fun resp _ => resp.body = _) w)
  unfold Store.Quiet at hq
  simp [Answer.Ends, handleDevices, Store.listDevices, Store.query, Store.call, Store.timeNowUnix, Store.timeNow, hq,
    writeJSON, shownDevice, stamp]

theorem body_handleRulesList (hq : Store.Quiet w) : (Handler.serve handleRulesList r w).1.body =
    .rules ((w.db.rules.rows.insertionSort fun x y => x.exePattern ≤ y.exePattern).map shownRule) := by
  refine Answer.run_iff.2 (?_ : (handleRulesList r).Ends (fun resp _ => resp.body = _) w)
  unfold Store.Quiet at hq
  simp [Answer.Ends, handleRulesList, Store.listRules, Store.query, Store.call, hq, writeJSON, shownRule]

theorem body_handleKeyList (hq : Store.Quiet w) : ((handleKeyList host).serve r w).1.body =
    .keys (((host.orderBy fun k : ApiKey => -k.createdAt).sort w.db.apiKeys.rows).map shownKey) := by
  refine Answer.run_iff.2 (?_ : (handleKeyList host r).Ends (fun resp _ => resp.body = _) w)
  unfold Store.Quiet at hq
  simp [Answer.Ends, handleKeyList, Store.listAPIKeys, Store.query, Store.call, hq, writeJSON, shownKey]

end Listing

open Listing

/-- **The devices' list** after any run of the store's operations, newest first:
each device that was enrolled and not deleted since, with the name it was last
given, when the server last heard of it and when it was last revoked. -/
theorem devices_listed (host : Host) (ops : List Op) (w : World) (r : Request) :
    let start := { w with db := {} }
    let w' := { runOps host ops start with faults := [] }
    ∃ l, ((handleDevices host).serve r w').1.body = .devices l ∧ (l.map (·.id)).Nodup ∧
      l.Pairwise (fun x y => y.enrolledAt ≤ x.enrolledAt) ∧
      ∀ x, x ∈ l ↔ ∃ before id token name time after,
        changes host ops start = before ++ .enrolled id token name time :: after ∧ .deleted id ∉ after ∧
          x = shownDevice (stamp w') (deviceSince
            { id := id, name := name, tokenHash := Store.hashToken host token, enrolledAt := time } after) := by
  intro start w'
  have h := recorded_changes host ops w
  have hperm := (host.orderBy fun d : Device => -d.enrolledAt).perm w'.db.devices.rows
  have hmem := fun d => (hperm.mem_iff (a := d)).trans (h.devices ▸ Ledger.mem_rows)
  refine ⟨_, body_handleDevices host r rfl, ?_, ?_, fun x => ?_⟩
  · rw [List.map_map]
    exact (hperm.map Device.id).nodup_iff.2 w'.db.devices.nodup
  · rw [List.pairwise_map]
    exact ((host.orderBy fun d : Device => -d.enrolledAt).sorted _).imp fun h => Int.neg_le_neg_iff.1 h
  · simp only [List.mem_map, hmem]
    constructor
    · rintro ⟨d, ⟨before, e, after, d₀, hsplit, hadds, hmade⟩, rfl⟩
      cases e with
      | enrolled id token name time =>
        obtain rfl := Option.some.inj hadds
        obtain ⟨hkept, rfl⟩ := madeBy_device.1 hmade
        exact ⟨before, id, token, name, time, after, hsplit, hkept, rfl⟩
      | heard | revoked | renamed | deleted | ruleSaved | ruleDeleted | keyIssued | keyRevoked | prefixRevoked =>
        cases hadds
    · rintro ⟨before, id, token, name, time, after, hsplit, hkept, rfl⟩
      exact ⟨_, ⟨before, _, after, _, hsplit, rfl, madeBy_device.2 ⟨hkept, rfl⟩⟩, rfl⟩

/-- **The rules' list** after any run, by pattern: each rule that was saved and
neither saved anew nor deleted since. -/
theorem rules_listed (host : Host) (ops : List Op) (w : World) (r : Request) :
    let start := { w with db := {} }
    let w' := { runOps host ops start with faults := [] }
    ∃ l, (Handler.serve handleRulesList r w').1.body = .rules l ∧ l.Pairwise (fun x y => x.pattern < y.pattern) ∧
      ∀ x, x ∈ l ↔ ∃ before after,
        changes host ops start = before ++ .ruleSaved ⟨x.pattern, x.category, x.updatedAt⟩ :: after ∧
          ∀ e ∈ after, e.pattern ≠ some x.pattern := by
  intro start w'
  have h := recorded_changes host ops w
  have hperm := List.perm_insertionSort (fun x y : Rule => x.exePattern ≤ y.exePattern) w'.db.rules.rows
  have hmem : ∀ rule, rule ∈ w'.db.rules.rows ↔ ∃ before after,
      changes host ops start = before ++ .ruleSaved rule :: after ∧ ∀ e ∈ after, e.pattern ≠ some rule.exePattern := by
    intro rule
    rw [h.rules, Ledger.mem_rows_kept fun {e r r'} h => ?_]
    · constructor
      · rintro ⟨before, e, after, hsplit, hadds, hkept⟩
        cases e with
        | ruleSaved rule' =>
          obtain rfl := Option.some.inj hadds
          exact ⟨before, after, hsplit, fun e he hp => hkept e he (if_pos hp)⟩
        | enrolled | heard | revoked | renamed | deleted | ruleDeleted | keyIssued | keyRevoked | prefixRevoked =>
          cases hadds
      · rintro ⟨before, after, hsplit, hkept⟩
        refine ⟨before, _, after, hsplit, rfl, fun e he => ?_⟩
        simp [ruleLedger, hkept e he]
    · rw [ruleLedger, Option.ite_none_left_eq_some, Option.some_inj] at h
      exact h.2.symm
  refine ⟨_, body_handleRulesList r rfl, ?_, fun x => ?_⟩
  · rw [List.pairwise_map]
    have htotal : Std.Total fun x y : Rule => x.exePattern ≤ y.exePattern :=
      ⟨fun x y => List.le_total x.exePattern y.exePattern⟩
    have htrans : IsTrans Rule fun x y : Rule => x.exePattern ≤ y.exePattern := ⟨fun _ _ _ => List.le_trans⟩
    have hle := List.pairwise_insertionSort (fun x y : Rule => x.exePattern ≤ y.exePattern) w'.db.rules.rows
    have hne := List.pairwise_map.1 ((hperm.map Rule.exePattern).nodup_iff.2 w'.db.rules.nodup)
    exact (hle.and hne).imp fun h => List.not_le.1 fun hge => h.2 (List.le_antisymm h.1 hge)
  · rw [List.mem_map]
    constructor
    · rintro ⟨rule, hrule, rfl⟩
      exact (hmem rule).1 (hperm.mem_iff.1 hrule)
    · exact fun hx => ⟨⟨x.pattern, x.category, x.updatedAt⟩, hperm.mem_iff.2 ((hmem _).2 hx), rfl⟩

/-- **The keys' list** after any run, newest first: each key that was issued, once,
and when it was last revoked, by its token or by its prefix. -/
theorem keys_listed (host : Host) (ops : List Op) (w : World) (r : Request) :
    let start := { w with db := {} }
    let w' := { runOps host ops start with faults := [] }
    ∃ keys : List ApiKey, ((handleKeyList host).serve r w').1.body = .keys (keys.map shownKey) ∧
      keys.Pairwise (fun k k' => k'.createdAt ≤ k.createdAt) ∧ (keys.map (·.keyHash)).Nodup ∧
      ∀ k, k ∈ keys ↔ ∃ before token label time after,
        changes host ops start = before ++ .keyIssued token label time :: after ∧
          k = keySince host
            { keyHash := Store.hashToken host token, label := label, scopes := str "read", createdAt := time } after := by
  intro start w'
  have h := recorded_changes host ops w
  have hperm := (host.orderBy fun k : ApiKey => -k.createdAt).perm w'.db.apiKeys.rows
  have hmem := fun k => (hperm.mem_iff (a := k)).trans (h.keys ▸ Ledger.mem_rows)
  refine ⟨_, body_handleKeyList host r rfl, ?_, (hperm.map _).nodup_iff.2 w'.db.apiKeys.nodup, fun k => ?_⟩
  · exact ((host.orderBy fun k : ApiKey => -k.createdAt).sorted _).imp fun h => Int.neg_le_neg_iff.1 h
  · rw [hmem]
    constructor
    · rintro ⟨before, e, after, k₀, hsplit, hadds, hmade⟩
      cases e with
      | keyIssued token label time =>
        obtain rfl := Option.some.inj hadds
        exact ⟨before, token, label, time, after, hsplit, madeBy_key.1 hmade⟩
      | enrolled | heard | revoked | renamed | deleted | ruleSaved | ruleDeleted | keyRevoked | prefixRevoked =>
        cases hadds
    · rintro ⟨before, token, label, time, after, hsplit, rfl⟩
      exact ⟨before, _, after, _, hsplit, rfl, madeBy_key.2 rfl⟩

end ScrewLogger
