/-
`POST /v1/ingest` (`ingest.go`).

`ingest_all_or_nothing`: any answer but 200 leaves the tables as they were, and
a 200 says how many of the batch's heartbeats were new and now are rows of the
token's device. Only what is read of the body is limited: bytes after the batch
never are, and a body that goes on past the limit is accepted.
-/
import ScrewLogger.Server.Http

namespace ScrewLogger
open Lib Lib.Eff Lib.Json

/-- The limit of the request body, in bytes. -/
def maxIngestBody : Nat := 0x100000

/-- The token of an `Authorization: Bearer` header. -/
def bearerToken (r : Request) : Option Bytes :=
  let h := r.authorization
  if h.length ≤ 7 ∨ h.take 7 ≠ str "Bearer " then none else some (h.drop 7)

/-- The answer to a token no unrevoked device has. -/
def deviceError : StoreError → Response
  | .revoked => writeErr 403 (str "device token revoked")
  | .unknownToken => writeErr 401 (str "invalid device token")
  | _ => storageError

def ingestHandler (host : Host) : Handler := fun r => do
  ensure (r.method == str "POST") onlyPost
  let token ← fromOption (bearerToken r) (writeErr 401 (str "missing bearer token"))
  let deviceID ← mapError deviceError (Store.deviceIDByToken host token)
  let batch ← fromOption (IngestBatch.decode (r.body.limit maxIngestBody)) (writeErr 400 (str "malformed JSON body"))
  ensure (batch.schemaVersion == schemaVersion) (writeErr 400 (str "unsupported schema_version"))
  let accepted ← mapError (fun _ => storageError)
    (Store.insertHeartbeats deviceID batch.deviceSentAt.toInt batch.heartbeats)
  pure (writeJSON (.ingest { accepted := accepted }))

/-- The device a request's token was issued to, if it is not revoked. -/
structure TokenOf (host : Host) (r : Request) (db : Database) (d : Device) : Prop where
  issued : ∃ token, bearerToken r = some token ∧ d.tokenHash = Store.hashToken host token
  enrolled : d ∈ db.devices.rows
  unrevoked : d.revokedAt = none

/-- What a 200 says. -/
structure Accepted (host : Host) (r : Request) (db db' : Database) (resp : Response) (d : Device)
    (batch : IngestBatch)
    (now : Int) : Prop where
  method : r.method = str "POST"
  token : TokenOf host r db d
  decoded : IngestBatch.decode (r.body.limit maxIngestBody) = some batch
  version : batch.schemaVersion = schemaVersion
  stored : Store.Ingested d.id batch.deviceSentAt.toInt batch.heartbeats now db db'
  body : resp.body =
    .ingest { accepted := (Store.newHeartbeats (db.heartbeats.rows.map (·.id)) batch.heartbeats).length }

/-- How a request ends: with a 200 and its batch stored, or with an error and
nothing changed. -/
inductive IngestEnds (host : Host) (r : Request) (w : World) (resp : Response) (w' : World) : Prop
  | accepted (status : resp.status = 200) (sessions : w'.sessions = w.sessions) (d : Device) (batch : IngestBatch)
      (now : Int) (h : Accepted host r w.db w'.db resp d batch now)
  | refused (status : resp.status ≠ 200) (msg : Bytes) (body : resp.body = .error msg) (same : Same w w')

theorem ends_ingestHandler (host : Host) (r : Request) (w : World) :
    (ingestHandler host r).Ends (IngestEnds host r w) w := by
  have refused {w' : World} {code : Nat} (msg : Bytes) (hcode : code ≠ 200) (h : Same w w') :
      IngestEnds host r w (writeErr code msg) w' := .refused hcode msg rfl h
  simp only [Answer.Ends, ingestHandler, wp_bind, wp_ensure, wp_fromOption, wp_mapError]
  refine ⟨fun hmethod => ⟨fun token htoken => ?_, fun _ => refused _ (by decide) (.refl w)⟩,
    fun _ => .refused (by decide) _ rfl (.refl w)⟩
  refine (Store.atomic_deviceIDByToken host token w).mono (fun id w₁ h => ?_) fun e w₁ h => ?_
  · obtain ⟨hs₁, hdb₁, d, hmem, hhash, hid, hrev⟩ := h
    have h₁ : Same w w₁ := ⟨hdb₁, hs₁⟩
    refine ⟨fun batch hbatch => ⟨fun hversion => ?_, fun _ => refused _ (by decide) h₁⟩,
      fun _ => refused _ (by decide) h₁⟩
    refine (Store.atomic_insertHeartbeats id _ _ w₁).mono (fun n w₂ h => ?_)
      fun e w₂ h => refused _ (by decide) (h₁.trans h.1)
    obtain ⟨hs₂, hn, now, hstored⟩ := h
    rw [hdb₁] at hn hstored
    subst hid
    refine .accepted rfl (hs₂.trans hs₁) d batch now ?_
    exact ⟨beq_iff_eq.1 hmethod, ⟨⟨token, htoken, hhash⟩, hmem, hrev⟩, hbatch, beq_iff_eq.1 hversion, hstored,
      by rw [hn]; rfl⟩
  · cases e <;> exact refused _ (by decide) h.1

/-- A good request is answered with a 200 when nothing fails. -/
theorem ingestHandler_quiet {host : Host} {r : Request} {w : World} {token : Bytes} {d : Device} {batch : IngestBatch}
    (hq : Store.Quiet w) (hmethod : r.method = str "POST") (htoken : bearerToken r = some token)
    (hd : w.db.devices.rows.find? (·.tokenHash == Store.hashToken host token) = some d) (hrev : d.revokedAt = none)
    (hbatch : IngestBatch.decode (r.body.limit maxIngestBody) = some batch)
    (hversion : batch.schemaVersion = schemaVersion) :
    ((ingestHandler host).serve r w).1.status = 200 := by
  refine Answer.run_iff.2 (?_ : (ingestHandler host r).Ends (fun resp _ => resp.status = 200) w)
  simp only [Answer.Ends, ingestHandler, wp_bind, wp_ensure, wp_fromOption, wp_mapError, hmethod, htoken, hbatch,
    hversion, beq_self_eq_true, Option.some.injEq, forall_eq', reduceCtorEq, false_implies, true_implies, and_true,
    Bool.true_eq_false]
  refine (Store.deviceIDByToken_quiet host hq hd hrev).mono (fun id w₁ h => ?_) fun _ _ h => h.elim
  obtain ⟨hid, hq₁, hdb₁⟩ := h
  have hhas : w₁.db.devices.Has id := by
    rw [hdb₁, hid]
    exact Table.has_iff.2 ⟨d, List.mem_of_find?_eq_some hd, rfl⟩
  exact (Store.insertHeartbeats_quiet _ _ hq₁ hhas).mono (fun _ _ _ => rfl) fun _ _ h => h.elim

/-- **Ingest is all or nothing, and its answer is true.** -/
theorem ingest_all_or_nothing (host : Host) (r : Request) (w : World) :
    let resp := ((ingestHandler host).serve r w).1
    let db' := ((ingestHandler host).serve r w).2.db
    (resp.status ≠ 200 → db' = w.db) ∧
      (resp.status = 200 → ∃ d batch now added, TokenOf host r w.db d ∧
        IngestBatch.decode (r.body.limit maxIngestBody) = some batch ∧ batch.schemaVersion = schemaVersion ∧
        (∀ h ∈ batch.heartbeats, db'.heartbeats.Has h.id) ∧
        added = (Store.newHeartbeats (w.db.heartbeats.rows.map (·.id)) batch.heartbeats).map
          (Store.toRow d.id now batch.deviceSentAt.toInt) ∧
        db'.heartbeats.rows = w.db.heartbeats.rows ++ added ∧
        resp.body = .ingest { accepted := added.length }) := by
  intro resp db'
  have h : IngestEnds host r w resp ((ingestHandler host).serve r w).2 :=
    Answer.run_iff.2 (ends_ingestHandler host r w)
  cases h with
  | refused status msg body same => exact ⟨fun _ => same.db, fun h => absurd h status⟩
  | accepted status sessions d batch now h =>
    refine ⟨fun hne => absurd status hne, fun _ => ⟨d, batch, now, _, h.token, h.decoded, h.version, ?_, rfl,
      h.stored.heartbeats, ?_⟩⟩
    · exact h.stored.has_id
    · rw [List.length_map]
      exact h.body

/-! ## A body past the limit -/

/-- A batch of one heartbeat. -/
def oneHeartbeat : IngestBatch where
  schemaVersion := 1
  heartbeats := [{ id := str "h" }]

/-- The batch, and a limit's worth of spaces after it. -/
def paddedRequest : Request where
  method := str "POST"
  path := str "/v1/ingest"
  authorization := str "Bearer t"
  body := { data := oneHeartbeat.marshal ++ List.replicate maxIngestBody 0x20 }

/-- A device whose token is `t`. -/
def deviceT : Device where
  id := str "d"
  name := []
  tokenHash := hexEncode (str "t")
  enrolledAt := 0

def oneDevice : World where
  db := { devices := .single deviceT }
  clock := fun _ => Time.epoch
  entropy := fun _ => 0

/-- A body longer than the limit is accepted: the batch ends before it. -/
theorem padded_body_accepted : ((ingestHandler insertionHost).serve paddedRequest oneDevice).1.status = 200 ∧
    maxIngestBody < paddedRequest.body.data.length := by
  have hlen : oneHeartbeat.marshal.length ≤ maxIngestBody := by decide
  have hne : oneHeartbeat.heartbeats ≠ [] := by simp [oneHeartbeat]
  have hlong : maxIngestBody < paddedRequest.body.data.length := by
    have hpos : 0 < oneHeartbeat.marshal.length := by decide
    simp only [paddedRequest, List.length_append, List.length_replicate]
    omega
  have hbatch : IngestBatch.decode (paddedRequest.body.limit maxIngestBody) = some oneHeartbeat := by
    rw [Reader.limit, if_neg (by omega)]
    simp only [paddedRequest, List.take_append, List.take_of_length_le hlen]
    generalize List.take _ (List.replicate maxIngestBody (0x20 : UInt8)) = rest
    exact (IngestBatch.decode_marshal hne rest true).trans (by decide)
  have htoken : bearerToken paddedRequest = some (str "t") := by decide
  have hd : oneDevice.db.devices.rows.find? (·.tokenHash == Store.hashToken insertionHost (str "t")) =
      some deviceT := by decide
  exact ⟨ingestHandler_quiet rfl rfl htoken hd rfl hbatch rfl, hlong⟩

end ScrewLogger
