/-
The query API (`query_api.go`): reads of the tables for holders of an API key.

The handlers are the admin API's, too. `ends_queryAPI`: none changes anything,
and without an unrevoked key the API answers nothing but errors.
-/
import ScrewLogger.Server.Ingest

namespace ScrewLogger
open Lib Lib.Eff Lib.Json

/-- How many seconds a device may go without a heartbeat before it is offline. -/
def offlineAfter : Int := 120

def deviceStatus (d : Device) (now : Int) : Bytes :=
  if d.revokedAt.isSome then str "revoked"
  else
    match d.lastSeen with
    | none => str "offline"
    | some seen => if now - seen > offlineAfter then str "offline" else str "active"

def handleDevices (host : Host) : Handler := fun _ => do
  let rows ← mapError (fun _ => storageError) (Store.listDevices host)
  let now ← Store.timeNowUnix
  pure (writeJSON (.devices (rows.map fun d =>
    { id := d.id
      name := d.name
      enrolledAt := d.enrolledAt
      lastSeen := d.lastSeen
      revokedAt := d.revokedAt
      status := deviceStatus d now })))

/-- A parameter in unix seconds; a value that is no integer is an error. -/
def intParam (r : Request) (name : Bytes) (default : Int64) : Option Int64 :=
  if r.get name = [] then some default else parseInt64 (r.get name)

/-- The window of a query, up to now unless it says otherwise. -/
def parseWindow (r : Request) : Eff World Response (Int × Int) := do
  let err := writeErr 400 (str "invalid from/to")
  let lo ← fromOption (intParam r (str "from") 0) err
  let now ← Store.timeNow
  let hi ← fromOption (intParam r (str "to") now.unix) err
  pure (lo.toInt, hi.toInt)

def handleUsage (host : Host) : Handler := fun r => do
  let groupBy := if r.get (str "group_by") = [] then str "category" else r.get (str "group_by")
  ensure (groupBy == str "category" || groupBy == str "app") (writeErr 400 (str "invalid group_by"))
  let (lo, hi) ← parseWindow r
  let buckets ← mapError (fun _ => storageError) (Store.dwellUsage host (r.get (str "device")) lo hi groupBy)
  pure (writeJSON (.usage groupBy buckets))

def handleActiveRatio (host : Host) : Handler := fun r => do
  let (lo, hi) ← parseWindow r
  let ar ← mapError (fun _ => storageError) (Store.activeRatio host (r.get (str "device")) lo hi)
  pure (writeJSON (.activeRatio ar))

/-- The limit of a query for events, 0 when there is none. -/
def limitParam (r : Request) : Except Response Int :=
  if r.get (str "limit") = [] then .ok 0
  else
    match parseInt64 (r.get (str "limit")) with
    | none => .error (writeErr 400 (str "invalid limit"))
    | some n =>
      if n.toInt < 1 ∨ n.toInt > 10000 then .error (writeErr 400 (str "limit out of range")) else .ok n.toInt

def handleEvents (host : Host) : Handler := fun r => do
  let (lo, hi) ← parseWindow r
  let limit ← fromExcept (limitParam r)
  let rows ← mapError (fun _ => storageError) (Store.listEvents host (r.get (str "device")) lo hi limit)
  pure (writeJSON (.events rows))

/-- The headers on every response of the query API. -/
def cors : List (Bytes × Bytes) :=
  [(str "Access-Control-Allow-Origin", str "*"),
    (str "Access-Control-Allow-Headers", str "Authorization, Content-Type"),
    (str "Access-Control-Allow-Methods", str "GET, OPTIONS")]

/-- The answer to a token no unrevoked key has. -/
def keyError : StoreError → Response
  | .unknownKey => writeErr 401 (str "unknown api key")
  | .revoked => writeErr 403 (str "api key revoked")
  | _ => storageError

theorem keyError_refuses (e : StoreError) : (keyError e).Refuses := by
  unfold keyError
  split <;> exact ⟨by decide, rfl⟩

def requireAPIKey (host : Host) (next : Handler) : Handler := fun r => Answer.withHeaders cors do
  if r.method = str "OPTIONS" then pure { status := 204 }
  else
    let token ← fromOption (bearerToken r) (writeErr 401 (str "unknown api key"))
    let _ ← mapError keyError (Store.resolveAPIKey host token)
    next r

def getRoute (path : List Bytes) : Pattern := ⟨some (str "GET"), path.map .literal⟩

def queryRoutes (host : Host) : Mux Handler :=
  [(getRoute [str "api", str "v1", str "devices"], handleDevices host),
    (getRoute [str "api", str "v1", str "usage"], handleUsage host),
    (getRoute [str "api", str "v1", str "active-ratio"], handleActiveRatio host),
    (getRoute [str "api", str "v1", str "events"], handleEvents host)]

def queryAPI (host : Host) : Handler := requireAPIKey host (serveMux (queryRoutes host))

/-! ## What the handlers leave alone -/

variable {host : Host} {r : Request} {w : World}

/-- A read of the store, its error answered. -/
theorem wp_read_store {α : Type} {op : Store α} {R : Database → α → Database → Prop}
    {F : Database → StoreError → Prop}
    (h : Store.Atomic op R F) (hR : ∀ db a db', R db a db' → db' = db) {f : StoreError → Response}
    {Q : α → World → Prop} {E : Response → World → Prop} (hQ : ∀ a w', Same w w' → Q a w')
    (hE : ∀ e w', Same w w' → E (f e) w') : wp (mapError f op) Q E w := by
  rw [wp_mapError]
  exact (h w).mono (fun a w' ⟨hs, hr⟩ => hQ a w' ⟨hR _ _ _ hr, hs⟩) fun e w' ⟨h, _⟩ => hE e w' h

theorem wp_parseWindow {Q : Int × Int → World → Prop} {E : Response → World → Prop}
    (hQ : ∀ v w', Same w w' → Q v w') (hE : ∀ e w', Same w w' → E e w') : wp (parseWindow r) Q E w := by
  simp only [parseWindow, wp_bind, wp_fromOption]
  exact ⟨fun lo _ => Store.wp_timeNow fun t w' h => ⟨fun hi _ => hQ _ w' h, fun _ => hE _ w' h⟩,
    fun _ => hE _ w (.refl w)⟩

/-- The handlers of the query API change nothing. -/
theorem ends_queryRoutes : ∀ route ∈ queryRoutes host, (route.2 r).Ends (fun _ w' => Same w w') w := by
  simp only [queryRoutes, List.forall_mem_cons]
  refine ⟨?_, ?_, ?_, ?_, fun _ h => absurd h List.not_mem_nil⟩
  · simp only [Answer.Ends, handleDevices, wp_bind]
    refine wp_read_store Store.atomic_query (fun _ _ _ h => h.1) (fun _ w' h => ?_) fun _ w' h => h
    exact Store.wp_timeNowUnix fun _ w'' h' => h.trans h'
  · simp only [Answer.Ends, handleUsage, wp_bind, wp_ensure]
    refine ⟨fun _ => wp_parseWindow (fun v w' h => ?_) fun _ w' h => h, fun _ => .refl w⟩
    exact wp_read_store (Store.atomic_dwellUsage host _ _ _ _) (fun _ _ _ h => h) (fun _ w'' h' => h.trans h')
      fun _ w'' h' => h.trans h'
  · simp only [Answer.Ends, handleActiveRatio, wp_bind]
    refine wp_parseWindow (fun v w' h => ?_) fun _ w' h => h
    exact wp_read_store Store.atomic_query (fun _ _ _ h => h.1) (fun _ w'' h' => h.trans h') fun _ w'' h' =>
      h.trans h'
  · simp only [Answer.Ends, handleEvents, wp_bind]
    refine wp_parseWindow (fun v w' h => ?_) fun _ w' h => h
    rw [wp_fromExcept]
    refine ⟨fun limit _ => ?_, fun _ _ => h⟩
    exact wp_read_store Store.atomic_query (fun _ _ _ h => h.1) (fun _ w'' h' => h.trans h') fun _ w'' h' =>
      h.trans h'

/-- The request carries an unrevoked API key. -/
def HasKey (host : Host) (r : Request) (db : Database) : Prop :=
  ∃ token, bearerToken r = some token ∧
    ∃ k ∈ db.apiKeys.rows, k.keyHash = Store.hashToken host token ∧ k.revokedAt = none

/-- **Behind the key.** What `next` does not change stays, and without a key
nothing is told. -/
theorem ends_requireAPIKey {next : Handler} (hnext : ∀ w, (next r).Ends (fun _ w' => Same w w') w) :
    (requireAPIKey host next r).Ends (fun resp w' => Same w w' ∧ (resp.Refuses ∨ HasKey host r w.db)) w := by
  refine Answer.ends_withHeaders (fun resp w' h => h) ?_
  unfold Answer.Ends
  rw [wp_ite]
  refine ⟨fun _ => ⟨.refl w, .inl ⟨by decide, rfl⟩⟩, fun _ => ?_⟩
  simp only [wp_bind, wp_fromOption]
  refine ⟨fun token htoken => ?_, fun _ => ⟨.refl w, .inl ⟨by decide, rfl⟩⟩⟩
  rw [wp_mapError]
  refine (Store.atomic_resolveAPIKey host token w).mono (fun scopes w₁ h => ?_) fun e w₁ h =>
    ⟨h.1, .inl (keyError_refuses e)⟩
  obtain ⟨hs, hdb, k, hmem, hhash, -, hrev⟩ := h
  have h₁ : Same w w₁ := ⟨hdb, hs⟩
  exact (hnext w₁).mono fun resp w₂ h₂ => ⟨h₁.trans h₂, .inr ⟨token, htoken, k, hmem, hhash, hrev⟩⟩

theorem ends_queryAPI :
    (queryAPI host r).Ends (fun resp w' => Same w w' ∧ (resp.Refuses ∨ HasKey host r w.db)) w :=
  ends_requireAPIKey fun w => ends_serveMux (fun _ _ => .refl w) fun p handler _ _ hmem _ _ _ _ =>
    ends_queryRoutes (p, handler) hmem

end ScrewLogger
