/-
The agent's shipper (`shipper.go`): batches of unacked heartbeats, posted to
the server and acked when it answers 200.

`decode_ingestRequest`: whatever the server decodes a request's body to within
its limit is the batch the request was made of.
-/
import ScrewLogger.Agent.Queue
import ScrewLogger.Server.Ingest

namespace ScrewLogger
open Lib Lib.Eff Lib.Json

/-- The most heartbeats of a batch. -/
def batchLimit : Int := 500

structure Shipper where
  token : Bytes

inductive FlushError
  | buffer (e : BufferError)
  /-- No answer came. -/
  | network
  | status (code : Nat)
  deriving DecidableEq

/-- The request that uploads a batch. -/
def ingestRequest (token : Bytes) (batch : IngestBatch) : Request where
  method := str "POST"
  path := str "/v1/ingest"
  authorization := str "Bearer " ++ token
  body := { data := batch.marshal }

/-- Posts unacked heartbeats and acks them when the answer is 200. The buffer
and the HTTP client are parts of a larger state. -/
def Shipper.flush {σ : Type} (s : Shipper) (buf : ∀ {α : Type}, Buf α → Eff σ FlushError α)
    (send : Request → Eff σ FlushError Response) (now : Int64) : Eff σ FlushError Nat := do
  let hbs ← buf (Buf.unacked batchLimit)
  if hbs = [] then pure 0
  else
    let batch : IngestBatch := { schemaVersion := schemaVersion, deviceSentAt := now, heartbeats := hbs }
    let resp ← send (ingestRequest s.token batch)
    ensure (resp.status == 200) (.status resp.status)
    buf (Buf.ack hbs.length)
    pure hbs.length

/-- A flush of a buffer by itself, each request answered as given. -/
def Shipper.flushBy (s : Shipper) (answer : Request → Except FlushError Response) (now : Int64) :
    Eff Machine FlushError Nat :=
  s.flush (mapError .buffer) (fun r => fromExcept (answer r)) now

/-! ## What the server makes of a request -/

theorem bearerToken_ingestRequest {token : Bytes} {batch : IngestBatch} (h : token ≠ []) :
    bearerToken (ingestRequest token batch) = some token := by
  have hlen : (str "Bearer ").length = 7 := by decide
  have hpos := List.length_pos_iff.2 h
  have htake : (str "Bearer " ++ token).take 7 = str "Bearer " := List.take_left' hlen
  have hdrop : (str "Bearer " ++ token).drop 7 = token := List.drop_left' hlen
  simp only [bearerToken, ingestRequest, htake, hdrop, List.length_append, hlen]
  exact if_neg fun h => h.elim (by omega) fun h => h rfl

/-- **A request's batch.** Whatever a body is decoded to within the limit is
what it was made of. -/
theorem decode_ingestRequest {token : Bytes} {batch decoded : IngestBatch} (hne : batch.heartbeats ≠ [])
    (hvalid : ∀ h ∈ batch.heartbeats, h.Valid)
    (h : IngestBatch.decode ((ingestRequest token batch).body.limit maxIngestBody) = some decoded) :
    decoded = batch := by
  obtain ⟨v, hv, hdecoded⟩ := Option.bind_eq_some_iff.1 h
  have hfull : IngestBatch.decode (ingestRequest token batch).body = some decoded := by
    rw [IngestBatch.decode, decodeFirst_limit hv]
    exact hdecoded
  have hbatch := IngestBatch.decode_marshal hne [] false
  rw [List.append_nil] at hbatch
  have hsanitize : batch.sanitize = batch := by rw [IngestBatch.sanitize, Heartbeat.map_sanitize hvalid]
  exact (Option.some.inj (hbatch.symm.trans hfull)).symm.trans hsanitize

end ScrewLogger
