/-
Revocations and ingest requests in flight.

An ingest request checks its token in one step and stores its batch in another,
in a transaction that does not check again. `revocation_is_barrier`: when no
request that has passed the check for the device is waiting to store, its
revocation is final: no heartbeat of it is ever added and its last time seen
stays. `revocation_overtaken` is a run in which one was waiting.
-/
import ScrewLogger.Lib.InFlight
import ScrewLogger.Server.Ingest

namespace ScrewLogger
open Lib Lib.Eff Lib.Json

/-! ## The steps of the handler -/

/-- The handler up to its answer to the token. -/
def ingestCheck (host : Host) (r : Request) : Eff World Response Bytes := do
  ensure (r.method == str "POST") onlyPost
  let token ← fromOption (bearerToken r) (writeErr 401 (str "missing bearer token"))
  mapError deviceError (Store.deviceIDByToken host token)

/-- The handler from there. -/
def ingestStore (r : Request) (deviceID : Bytes) : Answer := do
  let batch ← fromOption (IngestBatch.decode (r.body.limit maxIngestBody)) (writeErr 400 (str "malformed JSON body"))
  ensure (batch.schemaVersion == schemaVersion) (writeErr 400 (str "unsupported schema_version"))
  let accepted ← mapError (fun _ => storageError)
    (Store.insertHeartbeats deviceID batch.deviceSentAt.toInt batch.heartbeats)
  pure (writeJSON (.ingest { accepted := accepted }))

theorem ingestHandler_eq (host : Host) (r : Request) :
    ingestHandler host r = ingestCheck host r >>= ingestStore r := by
  funext w
  simp only [ingestHandler, ingestCheck, bind_assoc]
  rfl

/-! ## Requests in flight -/

/-- A request to the server, to store a batch or to revoke a device. -/
inductive Task
  | ingest (r : Request)
  | revoke (deviceID : Bytes)

/-- The next step of a request, one transaction of the database at most. -/
def Task.step (host : Host) : Task → Phase Bytes → World → Phase Bytes × World
  | .ingest r, p, w => inSteps (ingestCheck host r) (ingestStore r) p w
  | .revoke deviceID, .start, w => (.done, (Store.revokeDevice deviceID w).2)
  | .revoke _, p, w => (p, w)

/-- A request that nothing overtakes leaves what the handler leaves. -/
theorem Task.steps_ingest {host : Host} {r : Request} {w : World} :
    let checked := (Task.ingest r).step host .start w
    ((Task.ingest r).step host checked.1 checked.2).2 = ((ingestHandler host).serve r w).2 := by
  rw [Handler.serve, Answer.run_snd, ingestHandler_eq]
  exact inSteps_alone

/-- Requests in flight on the server's tables. One that is between its steps
has its token's device. -/
abbrev Serving (ι : Type) : Type := InFlight ι (Phase Bytes) World

/-! ## The barrier -/

/-- The heartbeats of a device. -/
def heartbeatsOf (deviceID : Bytes) (db : Database) : List HeartbeatRow :=
  db.heartbeats.rows.filter (·.deviceId == deviceID)

/-- The last time a device was seen. -/
def lastSeenOf (deviceID : Bytes) (db : Database) : List (Option Int) :=
  (db.devices.rows.filter (·.id == deviceID)).map (·.lastSeen)

/-- The device is revoked, and has the heartbeats and the last time seen of `db`. -/
structure Barred (deviceID : Bytes) (db : Database) (w : World) : Prop where
  revoked : ∀ d ∈ w.db.devices.rows, d.id = deviceID → d.revokedAt.isSome
  heartbeats : heartbeatsOf deviceID w.db = heartbeatsOf deviceID db
  lastSeen : lastSeenOf deviceID w.db = lastSeenOf deviceID db

variable {host : Host} {deviceID : Bytes} {db : Database} {w w' : World}

theorem Barred.of_eq (h : Barred deviceID db w) (hdb : w'.db = w.db) : Barred deviceID db w' :=
  ⟨hdb ▸ h.revoked, hdb ▸ h.heartbeats, hdb ▸ h.lastSeen⟩

/-- The rows of a device, once devices are updated. -/
theorem filter_update {g : Device → Device} {rows : List Device} (hid : ∀ d, (g d).id = d.id) :
    (rows.map g).filter (·.id == deviceID) = (rows.filter (·.id == deviceID)).map g := by
  rw [List.filter_map]
  refine congrArg _ (List.filter_congr fun d _ => ?_)
  rw [Function.comp_apply, hid]

/-- A revocation, of any device. -/
theorem Barred.revoke {id : Bytes} (h : Barred deviceID db w) : Barred deviceID db (Store.revokeDevice id w).2 := by
  obtain ⟨_, -, now, hh, -, -, hd⟩ | ⟨_, -, -, hdb⟩ := (Store.atomic_revokeDevice id).ends w
  · refine ⟨?_, ?_, ?_⟩
    · intro d hmem hid
      rw [hd, List.mem_map] at hmem
      obtain ⟨d', hmem', rfl⟩ := hmem
      split at hid
      · next heq => rw [if_pos heq]; rfl
      · next hne =>
        rw [if_neg hne]
        exact h.revoked d' hmem' hid
    · rw [heartbeatsOf, hh]
      exact h.heartbeats
    · rw [lastSeenOf, hd, filter_update fun d => by split <;> rfl, List.map_map, ← h.lastSeen]
      refine List.map_congr_left fun d _ => ?_
      rw [Function.comp_apply]
      split <;> rfl
  · exact h.of_eq hdb

/-- A check of a token: it is not the device's. -/
theorem Barred.check {r : Request} (h : Barred deviceID db w) :
    wp (ingestCheck host r) (fun id w' => id ≠ deviceID ∧ Barred deviceID db w') (fun _ w' =>
      Barred deviceID db w') w := by
  simp only [ingestCheck, wp_bind, wp_ensure, wp_fromOption, wp_mapError]
  refine ⟨fun _ => ⟨fun token _ => ?_, fun _ => h⟩, fun _ => h⟩
  refine (Store.atomic_deviceIDByToken host token w).mono (fun id w₁ h₁ => ?_) fun e w₁ h₁ => h.of_eq h₁.1.db
  obtain ⟨-, hdb, d, hmem, -, hid, hrev⟩ := h₁
  refine ⟨fun heq => ?_, h.of_eq hdb⟩
  have := h.revoked d hmem (hid.trans heq)
  rw [hrev] at this
  cases this

/-- Another device's batch. -/
theorem Barred.store {r : Request} {id : Bytes} (hne : id ≠ deviceID) (h : Barred deviceID db w) :
    Barred deviceID db (ingestStore r id w).2 := by
  refine wp.final ?_
  simp only [ingestStore, wp_bind, wp_ensure, wp_fromOption, wp_mapError, wp_pure]
  refine ⟨fun batch _ => ⟨fun _ => ?_, fun _ => h⟩, fun _ => h⟩
  refine (Store.atomic_insertHeartbeats _ _ _ w).mono (fun n w₁ h₁ => ?_) fun e w₁ h₁ => h.of_eq h₁.1.db
  obtain ⟨-, -, now, hin⟩ := h₁
  refine ⟨?_, ?_, ?_⟩
  · intro d hmem hid
    rw [hin.devices, List.mem_map] at hmem
    obtain ⟨d', hmem', rfl⟩ := hmem
    split at hid
    · next heq => exact absurd ((beq_iff_eq.1 heq).symm.trans hid) hne
    · next hother =>
      rw [if_neg hother]
      exact h.revoked d' hmem' hid
  · rw [heartbeatsOf, hin.heartbeats, List.filter_append, ← heartbeatsOf, h.heartbeats]
    refine List.append_right_eq_self.2 (List.filter_eq_nil_iff.2 fun row hrow => ?_)
    obtain ⟨hb, -, rfl⟩ := List.mem_map.1 hrow
    simpa [Store.toRow] using hne
  · rw [lastSeenOf, hin.devices, filter_update fun d => by split <;> rfl, ← h.lastSeen, lastSeenOf]
    refine congrArg _ ((List.map_congr_left fun d hmem => ?_).trans (List.map_id _))
    rw [List.mem_filter, beq_iff_eq] at hmem
    exact if_neg (by simpa [hmem.2] using hne.symm)

/-- Past the barrier no request waits to store a batch of the device. -/
theorem Barred.step {t : Task} {p : Phase Bytes} (h : Barred deviceID db w) (hp : p ≠ .between deviceID) :
    Barred deviceID db (t.step host p w).2 ∧ (t.step host p w).1 ≠ .between deviceID := by
  cases t with
  | ingest r =>
    cases p with
    | start =>
      show Barred deviceID db (inSteps (ingestCheck host r) (ingestStore r) .start w).2 ∧
        (inSteps (ingestCheck host r) (ingestStore r) .start w).1 ≠ .between deviceID
      refine inSteps_start (T := fun p => p ≠ .between deviceID) Phase.done_ne_between ?_
      exact h.check.mono (fun id w' h => ⟨h.2, fun he => h.1 (Phase.between.inj he)⟩) fun _ _ h => h
    | between id => exact ⟨h.store fun heq => hp (heq ▸ rfl), Phase.done_ne_between⟩
    | done => exact ⟨h, hp⟩
  | revoke id =>
    cases p with
    | start => exact ⟨h.revoke, Phase.done_ne_between⟩
    | between id => exact ⟨h, hp⟩
    | done => exact ⟨h, hp⟩

/-- What a revocation that commits leaves. -/
theorem Barred.of_revoke (h : (Store.revokeDevice deviceID w).1 = .ok ()) :
    Barred deviceID (Store.revokeDevice deviceID w).2.db (Store.revokeDevice deviceID w).2 := by
  obtain ⟨_, -, now, -, -, -, hd⟩ | ⟨_, herr, -⟩ := (Store.atomic_revokeDevice deviceID).ends w
  · refine ⟨fun d hmem hid => ?_, rfl, rfl⟩
    rw [hd, List.mem_map] at hmem
    obtain ⟨d', -, rfl⟩ := hmem
    split at hid
    · next heq => rw [if_pos heq]; rfl
    · next hne => exact absurd (beq_iff_eq.2 hid) hne
  · rw [h] at herr
    cases herr

/-- **A revocation is a barrier** when, as it commits, no request that passed
the check for the device waits to store its batch. -/
theorem revocation_is_barrier {ι : Type} [DecidableEq ι] (host : Host) (tasks : ι → Task) (c : Serving ι) (i : ι)
    (deviceID : Bytes) (hrevoke : tasks i = .revoke deviceID) (hstart : c.phase i = .start)
    (hcommits : (Store.revokeDevice deviceID c.shared).1 = .ok ()) (hnone : ∀ j, c.phase j ≠ .between deviceID)
    (schedule : List ι) :
    let step := fun j => (tasks j).step host
    let revoked := c.advance step i
    let later := revoked.run step schedule
    heartbeatsOf deviceID later.shared.db = heartbeatsOf deviceID revoked.shared.db ∧
      lastSeenOf deviceID later.shared.db = lastSeenOf deviceID revoked.shared.db := by
  intro step revoked later
  have hshared : revoked.shared = (Store.revokeDevice deviceID c.shared).2 := by
    simp only [revoked, step, InFlight.advance_shared, hrevoke, hstart, Task.step]
  have hbarred : Barred deviceID revoked.shared.db revoked.shared := by
    rw [hshared]
    exact .of_revoke hcommits
  have hphase : ∀ j, revoked.phase j ≠ .between deviceID := by
    intro j
    by_cases hj : j = i
    · subst hj
      simp [revoked, step, hrevoke, hstart, Task.step]
    · rw [InFlight.advance_phase_ne hj]
      exact hnone j
  have h : InFlight.Holds (Barred deviceID revoked.shared.db) (fun _ p _ => p ≠ .between deviceID) later :=
    InFlight.run_inv (fun _ _ _ hI hT => hI.step hT) (fun _ _ _ _ _ _ _ hT => hT) ⟨hbarred, hphase⟩
  exact ⟨h.shared.heartbeats, h.shared.lastSeen⟩

/-! ## A request that overtakes -/

/-- A batch of one heartbeat, sent with the token `t`. -/
def ingestT : Request where
  method := str "POST"
  path := str "/v1/ingest"
  authorization := str "Bearer t"
  body := { data := oneHeartbeat.marshal }

/-- The token's device is revoked while its batch comes in. -/
def overtaking : Bool → Task
  | false => .ingest ingestT
  | true => .revoke (str "d")

def nothingDone : Serving Bool where
  phase := fun _ => .start
  shared := oneDevice

/-- The batch comes after the revocation: its token is refused. -/
theorem revocation_first :
    let step := fun j => (overtaking j).step insertionHost
    let revoked := nothingDone.advance step true
    let later := revoked.run step [false, false]
    heartbeatsOf (str "d") later.shared.db = heartbeatsOf (str "d") revoked.shared.db ∧
      lastSeenOf (str "d") later.shared.db = lastSeenOf (str "d") revoked.shared.db :=
  revocation_is_barrier insertionHost overtaking nothingDone true (str "d") rfl rfl rfl
    (fun _ => Phase.start_ne_between) [false, false]

/-- The token is checked, the device revoked, the batch stored. -/
theorem revocation_overtaken :
    let step := fun j => (overtaking j).step insertionHost
    let revoked := nothingDone.run step [false, true]
    let later := revoked.run step [false]
    (revoked.shared.db.devices.rows.map (·.revokedAt)) = [some 0] ∧
      heartbeatsOf (str "d") revoked.shared.db = [] ∧ lastSeenOf (str "d") revoked.shared.db = [none] ∧
      (heartbeatsOf (str "d") later.shared.db).map (·.id) = [str "h"] ∧
      lastSeenOf (str "d") later.shared.db = [some 0] := by
  decide +kernel

end ScrewLogger
