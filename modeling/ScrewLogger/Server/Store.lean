/-
The server's store (`store.go`, `rules.go`, `apikeys.go`): four tables and the
operations on them.

Every call into the database or the random source may fail, by a schedule the
operations run against. A statement that fails changes nothing, a transaction
that does not commit is rolled back, and foreign keys are enforced: no
heartbeat is inserted for a device that is not there, and no device deleted
that still has one.
-/
import ScrewLogger.Lib.Effect
import ScrewLogger.Lib.Encoding
import ScrewLogger.Lib.Glob
import ScrewLogger.Lib.Table
import ScrewLogger.Lib.Time
import ScrewLogger.Lib.Window
import ScrewLogger.Protocol

namespace ScrewLogger
open Lib Lib.Eff

/-! ## Tables -/

structure Device where
  id : Bytes
  name : Bytes
  tokenHash : Bytes
  enrolledAt : Int
  lastSeen : Option Int := none
  revokedAt : Option Int := none
  deriving DecidableEq

/-- A stored heartbeat. The column `active` holds 0 or 1. -/
structure HeartbeatRow where
  id : Bytes
  deviceId : Bytes
  ts : Int
  app : Bytes
  category : Bytes
  active : Bool
  receivedAt : Int
  agentSentAt : Int
  deriving DecidableEq

structure Rule where
  exePattern : Bytes
  category : Bytes
  updatedAt : Int
  deriving DecidableEq

structure ApiKey where
  keyHash : Bytes
  label : Bytes
  scopes : Bytes
  createdAt : Int
  revokedAt : Option Int := none
  deriving DecidableEq

structure Database where
  devices : Table Device Device.id := .empty
  heartbeats : Table HeartbeatRow HeartbeatRow.id := .empty
  rules : Table Rule Rule.exePattern := .empty
  apiKeys : Table ApiKey ApiKey.keyHash := .empty

namespace Database

/-- `INSERT OR IGNORE INTO heartbeats`. A row whose id is there is ignored; one
whose device is not there is an error. -/
def insertHeartbeat (r : HeartbeatRow) (db : Database) : Option (Database × Nat) :=
  match db.heartbeats.insert r with
  | none => some (db, 0)
  | some t => if db.devices.Has r.deviceId then some ({ db with heartbeats := t }, 1) else none

def insertDevice (d : Device) (db : Database) : Option (Database × Nat) :=
  (db.devices.insert d).map fun t => ({ db with devices := t }, 1)

def insertKey (k : ApiKey) (db : Database) : Option (Database × Nat) :=
  (db.apiKeys.insert k).map fun t => ({ db with apiKeys := t }, 1)

def updateDevice (id : Bytes) (f : Device → Device) (hf : ∀ d, (f d).id = d.id) (db : Database) :
    Option (Database × Nat) :=
  let (t, n) := db.devices.update (·.id == id) f hf
  some ({ db with devices := t }, n)

/-- `DELETE FROM devices WHERE id = ?`, an error while a heartbeat refers to it. -/
def deleteDevice (id : Bytes) (db : Database) : Option (Database × Nat) :=
  if db.devices.Has id ∧ ∃ h ∈ db.heartbeats.rows, h.deviceId = id then none
  else
    let (t, n) := db.devices.delete (·.id == id)
    some ({ db with devices := t }, n)

def deleteHeartbeats (deviceId : Bytes) (db : Database) : Option (Database × Nat) :=
  let (t, n) := db.heartbeats.delete (·.deviceId == deviceId)
  some ({ db with heartbeats := t }, n)

def upsertRule (r : Rule) (db : Database) : Option (Database × Nat) :=
  let set (old : Rule) := { old with category := r.category, updatedAt := r.updatedAt }
  some ({ db with rules := db.rules.upsert r set (fun _ => rfl) }, 1)

def deleteRule (pattern : Bytes) (db : Database) : Option (Database × Nat) :=
  let (t, n) := db.rules.delete (·.exePattern == pattern)
  some ({ db with rules := t }, n)

/-- `UPDATE heartbeats SET category = ? WHERE lower(app) GLOB lower(?)`, which
fails if there is a row for which the engine refuses the pattern. -/
def recategorize (pattern category : Bytes) (db : Database) : Option (Database × Nat) :=
  if db.heartbeats.rows.any fun h => (glob (lower pattern) (lower h.app)).isNone then none
  else
    let (t, n) := db.heartbeats.update (fun h => glob (lower pattern) (lower h.app) == some true)
      (fun h => { h with category := category }) fun _ => rfl
    some ({ db with heartbeats := t }, n)

def revokeKeys (p : ApiKey → Bool) (now : Int) (db : Database) : Option (Database × Nat) :=
  let (t, n) := db.apiKeys.update p (fun k => { k with revokedAt := some now }) fun _ => rfl
  some ({ db with apiKeys := t }, n)

end Database

/-! ## Running statements -/

/-- What the store's operations run against: the tables, the server's admin
sessions, and what the calls still to come will find. -/
structure World where
  db : Database
  sessions : List (Bytes × Int) := []
  /-- Whether each of the next calls fails. Past its end none does. -/
  faults : List Bool := []
  /-- The clock's next readings. -/
  clock : Nat → Time
  /-- The random bytes to come. -/
  entropy : Nat → UInt8

/-- What the program leaves to the platform it runs on. -/
structure Host where
  sha256 : Bytes → Bytes
  /-- `bcrypt.CompareHashAndPassword` finds a match. -/
  comparePassword : Bytes → Bytes → Bool
  /-- The database engine's order of rows with equal keys. -/
  orderBy : ∀ {α : Type} (key : α → Int), OrderBy α key

/-- A host that leaves rows with equal keys in the order they were inserted. -/
def insertionHost : Host where
  sha256 := id
  comparePassword := fun _ _ => false
  orderBy := OrderBy.byInsertion

inductive StoreError
  /-- An error of the database or its driver. -/
  | sql
  | entropy
  | revoked
  | unknownToken
  | unknownDevice
  | notRevoked
  | unknownKey
  | unknownGroupBy (groupBy : Bytes)
  deriving DecidableEq

abbrev Store (α : Type) := Eff World StoreError α

namespace Store

/-- A call out of the program, which fails when the schedule says so. -/
def call (e : StoreError) : Store Unit := do
  let failed ← take fun w => (w.faults.headD false, { w with faults := w.faults.tail })
  ensure (!failed) e

/-- A statement that reads. -/
def query {α : Type} (f : Database → α) : Store α := do
  call .sql
  read fun w => f w.db

/-- A statement that writes, and how many rows it affected. -/
def exec (f : Database → Option (Database × Nat)) : Store Nat := do
  call .sql
  let db ← read World.db
  let r ← fromOption (f db) .sql
  modify fun w => { w with db := r.1 }
  pure r.2

/-- A transaction: begun, and committed if `body` returns; rolled back if it does not. -/
def inTransaction {α : Type} (body : Store α) : Store α :=
  restoring (fun before after => { after with db := before.db }) do
    call .sql
    let a ← body
    call .sql
    pure a

/-- `time.Now()`. -/
def timeNow {ε : Type} : Eff World ε Time := take fun w => (w.clock 0, { w with clock := fun n => w.clock (n + 1) })

/-- `time.Now().Unix()`. -/
def timeNowUnix {ε : Type} : Eff World ε Int := (fun t => t.unix.toInt) <$> timeNow

/-- `rand.Read` of `n` bytes. -/
def randRead (n : Nat) : Store Bytes := do
  call .entropy
  take fun w => ((List.range n).map w.entropy, { w with entropy := fun i => w.entropy (i + n) })

variable (host : Host)

def hashToken (token : Bytes) : Bytes := hexEncode (host.sha256 token)

/-- A token of random bytes. -/
def newToken (kind tokBytes : Bytes) : Bytes := kind ++ base64Encode tokBytes

/-! ## Devices and heartbeats -/

/-- The row a heartbeat of the batch becomes. -/
def toRow (deviceID : Bytes) (receivedAt agentSentAt : Int) (h : Heartbeat) : HeartbeatRow where
  id := h.id
  deviceId := deviceID
  ts := h.ts.toInt
  app := h.app
  category := h.category
  active := h.active
  receivedAt := receivedAt
  agentSentAt := agentSentAt

/-- Stores a batch in one transaction and counts the rows that were new. -/
def insertHeartbeats (deviceID : Bytes) (agentSentAt : Int) (hbs : List Heartbeat) : Store Nat :=
  inTransaction do
    call .sql -- the statement is prepared
    let receivedAt ← timeNowUnix
    let accepted ← hbs.foldlM (fun accepted h => do
      let n ← exec (Database.insertHeartbeat (toRow deviceID receivedAt agentSentAt h))
      pure (if 0 < n then accepted + 1 else accepted)) 0
    let _ ← exec (Database.updateDevice deviceID (fun d => { d with lastSeen := some receivedAt }) fun _ => rfl)
    pure accepted

/-- Enrolls a device; the id and the token are only told here. -/
def createDevice (name : Bytes) : Store (Bytes × Bytes) := do
  let deviceID ← hexEncode <$> randRead 8
  let token ← newToken (str "sl_") <$> randRead 32
  let now ← timeNowUnix
  let _ ← exec (Database.insertDevice
    { id := deviceID, name := name, tokenHash := hashToken host token, enrolledAt := now })
  pure (deviceID, token)

/-- The unrevoked device a token was issued to. -/
def deviceIDByToken (token : Bytes) : Store Bytes := do
  match ← query fun db => db.devices.rows.find? (·.tokenHash == hashToken host token) with
  | none => stop .unknownToken
  | some d => if d.revokedAt.isSome then stop .revoked else pure d.id

def revokeDevice (deviceID : Bytes) : Store Unit := do
  let now ← timeNowUnix
  let _ ← exec (Database.updateDevice deviceID (fun d => { d with revokedAt := some now }) fun _ => rfl)

def renameDevice (deviceID name : Bytes) : Store Unit := do
  let n ← exec (Database.updateDevice deviceID (fun d => { d with name := name }) fun _ => rfl)
  ensure (n != 0) .unknownDevice

/-- Removes a revoked device and its heartbeats in one transaction. -/
def deleteDevice (deviceID : Bytes) : Store Unit :=
  inTransaction do
    match ← query fun db => db.devices.rows.find? (·.id == deviceID) with
    | none => stop .unknownDevice
    | some d =>
      ensure d.revokedAt.isSome .notRevoked
      let _ ← exec (Database.deleteHeartbeats deviceID)
      let n ← exec (Database.deleteDevice deviceID)
      ensure (n != 0) .unknownDevice

/-- All devices, newest first. -/
def listDevices : Store (List Device) :=
  query fun db => (host.orderBy fun d : Device => -d.enrolledAt).sort db.devices.rows

/-! ## Rules -/

def listRules : Store (List Rule) :=
  query fun db => db.rules.rows.insertionSort fun r r' => r.exePattern ≤ r'.exePattern

def upsertRule (pattern category : Bytes) : Store Unit := do
  let now ← timeNowUnix
  let _ ← exec (Database.upsertRule { exePattern := pattern, category := category, updatedAt := now })

def deleteRule (pattern : Bytes) : Store Unit := do
  let _ ← exec (Database.deleteRule pattern)

/-- Maps the heartbeats whose app the pattern matches to a category, and counts them. -/
def recategorize (pattern category : Bytes) : Store Nat := exec (Database.recategorize pattern category)

/-! ## API keys -/

/-- The first eight hexadecimal digits of a key's hash. -/
def hashPrefix (k : ApiKey) : Bytes := k.keyHash.take 8

def createAPIKey (label : Bytes) : Store Bytes := do
  let token ← newToken (str "ak_") <$> randRead 32
  let now ← timeNowUnix
  let _ ← exec (Database.insertKey
    { keyHash := hashToken host token, label := label, scopes := str "read", createdAt := now })
  pure token

/-- The scopes of an unrevoked key. -/
def resolveAPIKey (token : Bytes) : Store Bytes := do
  match ← query fun db => db.apiKeys.rows.find? (·.keyHash == hashToken host token) with
  | none => stop .unknownKey
  | some k => if k.revokedAt.isSome then stop .revoked else pure k.scopes

def revokeAPIKey (token : Bytes) : Store Unit := do
  let now ← timeNowUnix
  let _ ← exec (Database.revokeKeys (·.keyHash == hashToken host token) now)

/-- Revokes every key with the prefix and counts them. -/
def revokeAPIKeyByPrefix (pfx : Bytes) : Store Nat := do
  let now ← timeNowUnix
  exec (Database.revokeKeys (hashPrefix · == pfx) now)

/-- All keys, newest first. -/
def listAPIKeys : Store (List ApiKey) :=
  query fun db => (host.orderBy fun k : ApiKey => -k.createdAt).sort db.apiKeys.rows

end Store

end ScrewLogger
