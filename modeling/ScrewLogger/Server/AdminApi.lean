/-
The admin API and its sessions (`admin_auth.go`, `admin_api.go`).

A session is a random cookie with the time it expires at, kept in memory.
`ends_adminAPI`: without one that has not expired, the admin API changes no
table and answers nothing but errors.
-/
import ScrewLogger.Server.QueryApi

namespace ScrewLogger
open Lib Lib.Eff Lib.Json

/-- The hash of the admin's password. -/
structure AdminAuth where
  hash : Bytes

def sessionCookieName : Bytes := str "sl_admin"

/-- How long a session stays valid, in nanoseconds. -/
def sessionTTL : Int := 12 * 3600 * Time.second

/-- A request body of one string. Other members are skipped. -/
def stringBody (field : Bytes) (body : Reader) : Option Bytes :=
  (decodeFirst body).bind (readStruct (fun s k v => if isField field k then readString s v else some s) [])

def malformed : Response := writeErr 400 (str "malformed JSON body")

/-! ## Sessions -/

def setCookie (attributes : Bytes) (value : Bytes) : Bytes × Bytes :=
  (str "Set-Cookie", sessionCookieName ++ str "=" ++ value ++ str "; Path=/" ++ attributes ++
    str "; HttpOnly; SameSite=Lax")

/-- The answer that sets the session's cookie. -/
def sessionSet (cookie : Bytes × Bytes) : Response where
  headers := [cookie, contentJSON]
  body := .ok

def login (host : Host) (auth : AdminAuth) : Handler := fun r => do
  ensure (r.method == str "POST") onlyPost
  let password ← fromOption (stringBody (str "password") r.body) malformed
  ensure (host.comparePassword auth.hash password) (writeErr 401 (str "invalid credentials"))
  let token ← mapError (fun _ => storageError) (Store.randRead 32)
  let session := base64Encode token
  let now ← Store.timeNow
  modify fun w =>
    { w with sessions := (session, now.nanos + sessionTTL) :: w.sessions.filter (·.1 != session) }
  pure (sessionSet (setCookie [] session))

def logout : Handler := fun r => do
  match r.cookie sessionCookieName with
  | none => pure ()
  | some c => modify fun w => { w with sessions := w.sessions.filter (·.1 != c) }
  pure (sessionSet (setCookie (str "; Max-Age=0") []))

/-- Whether the session is there and has not expired; one that has is deleted. -/
def sessionValid {ε : Type} (c : Bytes) : Eff World ε Bool := do
  match ← read fun w => w.sessions.lookup c with
  | none => pure false
  | some expiry =>
    let now ← Store.timeNow
    if now.nanos > expiry then
      modify fun w => { w with sessions := w.sessions.filter (·.1 != c) }
      pure false
    else pure true

def unauthorized : Response := writeErr 401 (str "unauthorized")

def requireAdmin (next : Handler) : Handler := fun r => do
  let c ← fromOption (r.cookie sessionCookieName) unauthorized
  let ok ← sessionValid c
  ensure ok unauthorized
  next r

/-! ## Devices -/

def handleDeviceEnroll (host : Host) : Handler := fun r => do
  let name ← fromOption (stringBody (str "name") r.body) malformed
  let (id, token) ← mapError (fun _ => storageError) (Store.createDevice host name)
  pure (writeJSON (.deviceEnroll id token))

def handleDeviceRevoke : Handler := fun r => do
  mapError (fun _ => storageError) (Store.revokeDevice (r.pathValue (str "id")))
  pure (writeJSON .ok)

/-- The most runes a device's name may have. -/
def maxDeviceNameLen : Nat := 128

/-- The answer to an error of an operation on one device. -/
def oneDeviceError : StoreError → Response
  | .unknownDevice => writeErr 404 (str "unknown device")
  | .notRevoked => writeErr 409 (str "device is not revoked")
  | _ => storageError

def handleDeviceRename : Handler := fun r => do
  let body ← fromOption (stringBody (str "name") r.body) malformed
  let name := trimSpace body
  ensure (name != []) (writeErr 400 (str "name must not be empty"))
  ensure ((runes name).length ≤ maxDeviceNameLen) (writeErr 400 (str "name too long (max 128 characters)"))
  mapError oneDeviceError (Store.renameDevice (r.pathValue (str "id")) name)
  pure (writeJSON .ok)

/-- Removes a revoked device and its heartbeats for good. -/
def handleDeviceDelete : Handler := fun r => do
  mapError oneDeviceError (Store.deleteDevice (r.pathValue (str "id")))
  pure (writeJSON .ok)

/-! ## Rules -/

def handleRulesList : Handler := fun _ => do
  let rows ← mapError (fun _ => storageError) Store.listRules
  pure (writeJSON (.rules (rows.map fun r =>
    { pattern := r.exePattern, category := r.category, updatedAt := r.updatedAt })))

structure RuleBody where
  pattern : Bytes := []
  category : Bytes := []
  applyToHistory : Bool := false
  deriving DecidableEq

def RuleBody.setField (b : RuleBody) (k : Bytes) (v : Json) : Option RuleBody :=
  if isField (str "pattern") k then (readString b.pattern v).map fun s => { b with pattern := s }
  else if isField (str "category") k then (readString b.category v).map fun s => { b with category := s }
  else if isField (str "apply_to_history") k then
    (readBool b.applyToHistory v).map fun a => { b with applyToHistory := a }
  else some b

def handleRuleUpsert : Handler := fun r => do
  let body ← fromOption ((decodeFirst r.body).bind (readStruct RuleBody.setField {})) malformed
  mapError (fun _ => storageError) (Store.upsertRule body.pattern body.category)
  if body.applyToHistory then
    let n ← mapError (fun _ => storageError) (Store.recategorize body.pattern body.category)
    pure (writeJSON (.ok (some n)))
  else pure (writeJSON .ok)

def handleRuleDelete : Handler := fun r => do
  let pattern ← fromOption (stringBody (str "pattern") r.body) malformed
  mapError (fun _ => storageError) (Store.deleteRule pattern)
  pure (writeJSON .ok)

/-! ## API keys -/

def handleKeyCreate (host : Host) : Handler := fun r => do
  let label ← fromOption (stringBody (str "label") r.body) malformed
  let key ← mapError (fun _ => storageError) (Store.createAPIKey host label)
  pure (writeJSON (.key key))

def handleKeyList (host : Host) : Handler := fun _ => do
  let rows ← mapError (fun _ => storageError) (Store.listAPIKeys host)
  pure (writeJSON (.keys (rows.map fun k =>
    { label := k.label, createdAt := k.createdAt, revokedAt := k.revokedAt, hashPrefix := Store.hashPrefix k })))

def handleKeyRevoke : Handler := fun r => do
  let n ← mapError (fun _ => storageError) (Store.revokeAPIKeyByPrefix (r.pathValue (str "hash")))
  ensure (n != 0) (writeErr 404 (str "unknown api key"))
  pure (writeJSON .ok)

/-! ## Routes -/

/-- A route under `/admin/api/`. -/
def adminRoute (method : String) (path : List Segment) : Pattern :=
  ⟨some (str method), .literal (str "admin") :: .literal (str "api") :: path⟩

def adminRoutes (host : Host) : Mux Handler :=
  let devices := Segment.literal (str "devices")
  let rules := Segment.literal (str "rules")
  let keys := Segment.literal (str "keys")
  let id := Segment.wild (str "id")
  [(adminRoute "POST" [devices], handleDeviceEnroll host),
    (adminRoute "GET" [devices], handleDevices host),
    (adminRoute "POST" [devices, id, .literal (str "revoke")], handleDeviceRevoke),
    (adminRoute "PUT" [devices, id, .literal (str "name")], handleDeviceRename),
    (adminRoute "DELETE" [devices, id], handleDeviceDelete),
    (adminRoute "GET" [rules], handleRulesList),
    (adminRoute "PUT" [rules], handleRuleUpsert),
    (adminRoute "DELETE" [rules], handleRuleDelete),
    (adminRoute "POST" [keys], handleKeyCreate host),
    (adminRoute "GET" [keys], handleKeyList host),
    (adminRoute "POST" [keys, .wild (str "hash"), .literal (str "revoke")], handleKeyRevoke),
    (adminRoute "GET" [.literal (str "usage")], handleUsage host),
    (adminRoute "GET" [.literal (str "active-ratio")], handleActiveRatio host),
    (adminRoute "GET" [.literal (str "events")], handleEvents host)]

def adminAPI (host : Host) : Handler := requireAdmin (serveMux (adminRoutes host))

/-! ## Behind the session -/

/-- The request carries a session that has not expired at the clock's next reading. -/
def HasSession (r : Request) (w : World) : Prop :=
  ∃ c expiry, r.cookie sessionCookieName = some c ∧ w.sessions.lookup c = some expiry ∧ (w.clock 0).nanos ≤ expiry

variable {r : Request} {w : World}

theorem unauthorized_refuses : unauthorized.Refuses := ⟨by decide, rfl⟩

/-- Without a session, what is behind it is not reached. -/
theorem ends_requireAdmin {next : Handler} (hno : ¬ HasSession r w) :
    (requireAdmin next r).Ends (Refused w) w := by
  simp only [Answer.Ends, requireAdmin, sessionValid, wp_bind, wp_fromOption, wp_read]
  refine ⟨fun c hc => ?_, fun _ => ⟨rfl, unauthorized_refuses⟩⟩
  cases he : w.sessions.lookup c with
  | none => exact ⟨rfl, unauthorized_refuses⟩
  | some expiry =>
    simp only [Store.timeNow, wp_bind, wp_take, wp_ite, wp_modify, wp_pure, wp_ensure]
    refine ⟨fun _ => ⟨fun h => Bool.noConfusion h, fun _ => ⟨rfl, unauthorized_refuses⟩⟩, fun h => ?_⟩
    exact absurd ⟨c, expiry, hc, he, by omega⟩ hno

theorem ends_adminAPI {host : Host} (hno : ¬ HasSession r w) : (adminAPI host r).Ends (Refused w) w :=
  ends_requireAdmin hno

/-- Logging in opens a session and changes no table. -/
theorem ends_login {host : Host} {auth : AdminAuth} : (login host auth r).Ends (Silent w) w := by
  simp only [Answer.Ends, login, wp_bind, wp_ensure, wp_fromOption, wp_mapError]
  refine ⟨fun _ => ⟨fun _ _ => ⟨fun _ => ?_, fun _ => ⟨rfl, rfl⟩⟩, fun _ => ⟨rfl, rfl⟩⟩, fun _ => ⟨rfl, rfl⟩⟩
  refine Store.wp_randRead (fun token w₁ h₁ => ?_) fun w₁ h₁ => ⟨h₁.db, rfl⟩
  exact Store.wp_timeNow fun now w₂ h₂ => ⟨h₂.db.trans h₁.db, rfl⟩

/-- Logging out closes a session and changes no table. -/
theorem ends_logout : (logout r).Ends (Silent w) w := by
  unfold Answer.Ends logout
  cases r.cookie sessionCookieName with
  | none => exact ⟨rfl, rfl⟩
  | some c => exact ⟨rfl, rfl⟩

end ScrewLogger
