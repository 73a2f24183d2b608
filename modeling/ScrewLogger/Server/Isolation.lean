/-
Two devices, and one without the other (`ingest.go`, `store.go`).

The ids of heartbeats are one key for the whole fleet. `devices_isolated_iff`:
what is stored for a device and what it is answered are what they would be
without the others just if no request of it has an id that one of the others
took before. `id_taken` is a heartbeat lost to such an id.
-/
import ScrewLogger.Lib.Simulation
import ScrewLogger.Server.Ingest

namespace ScrewLogger
open Lib Lib.Eff Lib.Json

/-- A request to ingest, and what the clock and the random numbers are then. -/
structure Post where
  request : Request
  clock : Nat → Time
  entropy : Nat → UInt8

/-- The device a token was issued to, and when it was revoked. -/
def holder (host : Host) (db : Database) (token : Bytes) : Option (Bytes × Option Int) :=
  (db.devices.rows.find? (·.tokenHash == Store.hashToken host token)).map fun d => (d.id, d.revokedAt)

namespace Post

def world (p : Post) (db : Database) : World := { db := db, clock := p.clock, entropy := p.entropy }

/-- When it is received. -/
def receivedAt (p : Post) : Int := (p.clock 0).unix.toInt

/-- The device whose token it carries. -/
def device (host : Host) (db : Database) (p : Post) : Option Bytes :=
  (bearerToken p.request).bind fun token => (holder host db token).map (·.1)

end Post

/-- The request is served. -/
def servePost (host : Host) (db : Database) (p : Post) : Response × Database :=
  let (resp, w) := (ingestHandler host).serve p.request (p.world db)
  (resp, w.db)

/-- What makes a request an accepted one: its device and its batch. -/
structure Post.Carries (host : Host) (db : Database) (p : Post) (id : Bytes) (batch : IngestBatch) : Prop where
  method : p.request.method = str "POST"
  token : ∃ token, bearerToken p.request = some token ∧ holder host db token = some (id, none)
  decoded : IngestBatch.decode (p.request.body.limit maxIngestBody) = some batch
  version : batch.schemaVersion = schemaVersion

/-- The heartbeats of a device. -/
def rowsOf (d : Bytes) (db : Database) : List HeartbeatRow := db.heartbeats.rows.filter (·.deviceId == d)

namespace Store

/-! ## One request -/

variable {host : Host} {w : World} {db : Database} {p : Post}

/-- A call reads no clock. -/
theorem wp_call_clock {e : StoreError} {Q : Unit → World → Prop} {E : StoreError → World → Prop}
    (hQ : ∀ w', Same w w' → w'.clock = w.clock → Q () w') (hE : ∀ w', E e w') : wp (call e) Q E w := by
  simp only [call, wp_bind, wp_take, wp_ensure]
  exact ⟨fun _ => hQ _ ⟨rfl, rfl⟩ rfl, fun _ => hE _⟩

theorem wp_query_clock {α : Type} {f : Database → α} {Q : α → World → Prop} {E : StoreError → World → Prop}
    (hQ : ∀ w', Same w w' → w'.clock = w.clock → Q (f w.db) w') (hE : ∀ w', E .sql w') : wp (query f) Q E w := by
  simp only [query, wp_bind]
  refine wp_call_clock (fun w' h hclock => ?_) hE
  simp only [wp_read, h.db]
  exact hQ w' h hclock

/-- Each row was there before or is stamped with the time. -/
def Stamped (now : Int) (db db' : Database) : Prop :=
  ∀ row ∈ db'.heartbeats.rows, row ∈ db.heartbeats.rows ∨ row.receivedAt = now

theorem Stamped.insert {n : Nat} {db db' db'' : Database} {row : HeartbeatRow} (h : Stamped row.receivedAt db db')
    (hins : db'.insertHeartbeat row = some (db'', n)) : Stamped row.receivedAt db db'' := by
  unfold Database.insertHeartbeat at hins
  split at hins
  · cases hins
    exact h
  · next t ht =>
    split at hins
    · obtain ⟨rfl, -⟩ := Prod.mk.inj (Option.some.inj hins)
      intro r hr
      rw [show _ = _ from (Table.insert_eq_some.1 ht).2] at hr
      rcases List.mem_append.1 hr with hr | hr
      · exact h r hr
      · rw [List.mem_singleton.1 hr]
        exact .inr rfl
    · cases hins

/-- The rows a call adds are stamped with the clock's next reading. -/
theorem wp_insertHeartbeats_clock (deviceID : Bytes) (agentSentAt : Int) (hbs : List Heartbeat) :
    wp (insertHeartbeats deviceID agentSentAt hbs) (fun _ w' => Stamped (w.clock 0).unix.toInt w.db w'.db)
      (fun _ _ => True) w := by
  simp only [insertHeartbeats, inTransaction, wp_restoring, wp_bind]
  refine wp_call_clock (fun w₁ h₁ hclock₁ => ?_) fun _ => trivial
  refine wp_call_clock (fun w₂ h₂ hclock₂ => ?_) fun _ => trivial
  have hnow : w₂.clock 0 = w.clock 0 := by rw [hclock₂, hclock₁]
  rw [timeNowUnix, wp_map, timeNow, wp_take]
  refine (wp_foldlM (E := fun _ _ => True) (fun _ _ w' => Stamped (w.clock 0).unix.toInt w.db w'.db) ?_ ?_).mono ?_ ?_
  · intro row hrow
    exact .inl (h₁.db ▸ h₂.db ▸ hrow)
  · intro done h rest accepted w' _ hw'
    rw [wp_bind]
    refine wp_exec (fun w'' n _ hf => ?_) fun _ _ => trivial
    rw [hnow] at hf
    exact Stamped.insert hw' hf
  · intro accepted w' hw'
    refine wp_exec (fun w'' n _ hf => ?_) fun _ _ => trivial
    have hrows : w''.db.heartbeats = w'.db.heartbeats := (updatesDevice hf).1.1
    refine wp_call_clock (fun w₃ h₃ _ row hrow => ?_) fun _ => trivial
    rw [h₃.db, hrows] at hrow
    exact hw' row hrow
  · exact fun _ _ _ => trivial

/-- What an accepted request leaves and is answered. -/
structure Stores (p : Post) (id : Bytes) (batch : IngestBatch) (db : Database) (resp : Response)
    (db' : Database) : Prop where
  rows : db'.heartbeats.rows = db.heartbeats.rows ++
    (newHeartbeats (db.heartbeats.rows.map (·.id)) batch.heartbeats).map (toRow id p.receivedAt batch.deviceSentAt.toInt)
  devices : ∃ now, db'.devices.rows = db.devices.rows.map fun d =>
    if d.id == id then { d with lastSeen := some now } else d
  resp : resp = writeJSON
    (.ingest { accepted := (newHeartbeats (db.heartbeats.rows.map (·.id)) batch.heartbeats).length })

theorem Ingested.stamped {deviceID : Bytes} {agentSentAt now t : Int} {hbs : List Heartbeat} {db db' : Database}
    (h : Ingested deviceID agentSentAt hbs now db db') (hclock : Stamped t db db') :
    db'.heartbeats.rows = db.heartbeats.rows ++
      (newHeartbeats (db.heartbeats.rows.map (·.id)) hbs).map (toRow deviceID t agentSentAt) := by
  rw [h.heartbeats]
  refine congrArg _ (List.map_congr_left fun hb hmem => ?_)
  have hrow : toRow deviceID now agentSentAt hb ∈ db'.heartbeats.rows := by
    rw [h.heartbeats]
    exact List.mem_append_right _ (List.mem_map_of_mem hmem)
  rcases hclock _ hrow with hold | hnow
  · exact absurd (List.mem_map_of_mem (f := (·.id)) hold) (newHeartbeats_new hmem)
  · have hnow : now = t := hnow
    rw [hnow]

/-- A request that is accepted, and what it comes to. -/
theorem ends_post (host : Host) (db : Database) (p : Post) : (ingestHandler host p.request).Ends
    (fun resp w' => resp.status = 200 → ∃ id batch, p.Carries host db id batch ∧ Stores p id batch db resp w'.db)
    (p.world db) := by
  have refused {code : Nat} {msg : Bytes} {w' : World} (hcode : code ≠ 200) : (writeErr code msg).status = 200 →
      ∃ id batch, p.Carries host db id batch ∧ Stores p id batch db (writeErr code msg) w'.db := fun h =>
        absurd h hcode
  simp only [Answer.Ends, ingestHandler, wp_bind, wp_ensure, wp_fromOption, wp_mapError, deviceIDByToken]
  refine ⟨fun hmethod => ⟨fun token htoken => ?_, fun _ => refused (by decide)⟩, fun _ h => absurd h (by decide)⟩
  refine wp_query_clock (fun w₁ h₁ hclock => ?_) fun _ => refused (by decide)
  cases hfind : db.devices.rows.find? (·.tokenHash == hashToken host token) with
  | none =>
    have hnone : (p.world db).db.devices.rows.find? (·.tokenHash == hashToken host token) = none := hfind
    rw [hnone]
    exact refused (by decide)
  | some d =>
    have hsome : (p.world db).db.devices.rows.find? (·.tokenHash == hashToken host token) = some d := hfind
    rw [hsome]
    simp only [wp_ite, wp_stop, wp_pure]
    refine ⟨fun _ => refused (by decide), fun hrev => ?_⟩
    have hrev : d.revokedAt = none := by simpa using hrev
    refine ⟨fun batch hbatch => ⟨fun hversion => ?_, fun _ => refused (by decide)⟩, fun _ => refused (by decide)⟩
    have hcall := (wp_insertHeartbeats_clock d.id batch.deviceSentAt.toInt batch.heartbeats (w := w₁)).and
      (atomic_insertHeartbeats d.id batch.deviceSentAt.toInt batch.heartbeats w₁)
    refine hcall.mono (fun n w₂ h => ?_) fun _ _ _ => refused (by decide)
    obtain ⟨hstamped, -, hn, now, hi⟩ := h
    rw [hclock] at hstamped
    have hdb : w₁.db = db := h₁.db
    rw [hdb] at hstamped hn hi
    intro _
    refine ⟨d.id, batch, ⟨beq_iff_eq.1 hmethod, ⟨token, htoken, ?_⟩, hbatch, beq_iff_eq.1 hversion⟩,
      ⟨hi.stamped hstamped, ⟨now, hi.devices⟩, by rw [hn]⟩⟩
    rw [holder, hfind, Option.map_some, hrev]

end Store

variable {host : Host} {db db' full alone : Database} {p : Post} {posts : List Post} {d id : Bytes}
    {batch : IngestBatch}

theorem Post.Carries.unique {id' : Bytes} {batch' : IngestBatch} (h : p.Carries host db id batch)
    (h' : p.Carries host db id' batch') : id = id' ∧ batch = batch' := by
  obtain ⟨token, htoken, hholder⟩ := h.token
  obtain ⟨token', htoken', hholder'⟩ := h'.token
  rw [htoken] at htoken'
  cases htoken'
  rw [hholder] at hholder'
  cases hholder'
  exact ⟨rfl, Option.some.inj (h.decoded.symm.trans h'.decoded)⟩

theorem Post.Carries.device_eq (h : p.Carries host db id batch) : p.device host db = some id := by
  obtain ⟨token, htoken, hholder⟩ := h.token
  rw [Post.device, htoken, Option.bind_some, hholder, Option.map_some]

/-- A request with a device and a batch is accepted. -/
theorem Post.Carries.status (h : p.Carries host db id batch) : (servePost host db p).1.status = 200 := by
  obtain ⟨token, htoken, hholder⟩ := h.token
  cases hfind : db.devices.rows.find? (·.tokenHash == Store.hashToken host token) with
  | none =>
    rw [holder, hfind] at hholder
    cases hholder
  | some dev =>
    rw [holder, hfind] at hholder
    have hpair := Prod.mk.inj (Option.some.inj hholder)
    exact ingestHandler_quiet (w := p.world db) rfl h.method htoken hfind hpair.2 h.decoded h.version

/-- **One request**, an accepted one. -/
theorem servePost_stores (haccepted : (servePost host db p).1.status = 200) : ∃ id batch, p.Carries host db id batch ∧
    Store.Stores p id batch db (servePost host db p).1 (servePost host db p).2 :=
  Answer.run_iff.2 (Store.ends_post host db p) haccepted

theorem Post.Carries.stores (h : p.Carries host db id batch) :
    Store.Stores p id batch db (servePost host db p).1 (servePost host db p).2 := by
  obtain ⟨id', batch', hcarries, hstores⟩ := servePost_stores h.status
  obtain ⟨rfl, rfl⟩ := h.unique hcarries
  exact hstores

/-! ## Two runs -/

/-- The same tokens are the same devices'. -/
def SameHolders (host : Host) (db db' : Database) : Prop := ∀ token, holder host db' token = holder host db token

theorem Store.Stores.sameHolders {resp : Response} (h : Store.Stores p id batch db resp db') :
    SameHolders host db db' := by
  obtain ⟨now, hdevices⟩ := h.devices
  intro token
  rw [holder, holder, hdevices, List.find?_map, Option.map_map]
  have hkey : ((fun dev : Device => dev.tokenHash == Store.hashToken host token) ∘ fun dev =>
      if dev.id == id then { dev with lastSeen := some now } else dev) =
        fun dev : Device => dev.tokenHash == Store.hashToken host token := by
    funext dev
    dsimp only [Function.comp_apply]
    split <;> rfl
  rw [hkey]
  refine congrFun (congrArg _ (funext fun dev => ?_)) _
  dsimp only [Function.comp_apply]
  split <;> rfl

theorem Post.Carries.congr (hsame : SameHolders host db db') (h : p.Carries host db id batch) :
    p.Carries host db' id batch := by
  obtain ⟨token, htoken, hholder⟩ := h.token
  exact ⟨h.method, ⟨token, htoken, (hsame token).trans hholder⟩, h.decoded, h.version⟩

theorem Post.device_congr (hsame : SameHolders host db db') : p.device host db' = p.device host db := by
  unfold Post.device
  simp only [hsame _]

/-- The new heartbeats of a batch are a matter of which of its ids are there. -/
theorem newHeartbeats_congr : ∀ {hbs : List Heartbeat} {seen seen' : List Bytes},
    (∀ h ∈ hbs, h.id ∈ seen ↔ h.id ∈ seen') → Store.newHeartbeats seen hbs = Store.newHeartbeats seen' hbs
  | [], _, _, _ => rfl
  | h :: hbs, seen, seen', hsame => by
    obtain ⟨hhead, hrest⟩ := List.forall_mem_cons.1 hsame
    rw [Store.newHeartbeats, Store.newHeartbeats]
    by_cases hseen : h.id ∈ seen
    · rw [if_pos hseen, if_pos (hhead.1 hseen)]
      exact newHeartbeats_congr hrest
    · rw [if_neg hseen, if_neg fun hseen' => hseen (hhead.2 hseen')]
      refine congrArg _ (newHeartbeats_congr fun h' hh' => ?_)
      rw [List.mem_append, List.mem_append, hrest h' hh']

/-- None of the request's ids was taken by another device since `start`. -/
def NotTaken (start : Database) (d : Bytes) (db : Database) (p : Post) : Prop :=
  ∀ batch, IngestBatch.decode (p.request.body.limit maxIngestBody) = some batch → ∀ h ∈ batch.heartbeats,
    ∀ row ∈ db.heartbeats.rows, row.id = h.id → row.deviceId = d ∨ start.heartbeats.Has h.id

/-- The fleet's tables, and those of the device alone. -/
structure Beside (host : Host) (start : Database) (d : Bytes) (full alone : Database) : Prop where
  holders : SameHolders host start full
  holders_alone : SameHolders host start alone
  rows : rowsOf d full = rowsOf d alone
  start_has : ∀ id, start.heartbeats.Has id → full.heartbeats.Has id
  alone_has : ∀ id, alone.heartbeats.Has id ↔ start.heartbeats.Has id ∨ ∃ row ∈ rowsOf d full, row.id = id

variable {start : Database}

theorem mem_rowsOf {row : HeartbeatRow} : row ∈ rowsOf d db ↔ row ∈ db.heartbeats.rows ∧ row.deviceId = d := by
  rw [rowsOf, List.mem_filter, beq_iff_eq]

theorem beside_start : Beside host start d start start where
  holders _ := rfl
  holders_alone _ := rfl
  rows := rfl
  start_has _ h := h
  alone_has id := by
    refine ⟨.inl, fun h => ?_⟩
    rcases h with h | ⟨row, hrow, rfl⟩
    · exact h
    · exact Table.has_iff.2 ⟨row, (mem_rowsOf.1 hrow).1, rfl⟩

/-- What a stored batch makes of a device's rows. -/
theorem Store.Stores.rowsOf_eq {resp : Response} (h : Store.Stores p id batch db resp db') :
    rowsOf d db' = rowsOf d db ++
    if id = d then (Store.newHeartbeats (db.heartbeats.rows.map (·.id)) batch.heartbeats).map
      (Store.toRow id p.receivedAt batch.deviceSentAt.toInt) else [] := by
  rw [rowsOf, rowsOf, h.rows, List.filter_append]
  refine congrArg _ ?_
  by_cases hid : id = d
  · rw [if_pos hid]
    refine List.filter_eq_self.2 fun row hrow => ?_
    obtain ⟨hb, -, rfl⟩ := List.mem_map.1 hrow
    exact beq_iff_eq.2 hid
  · rw [if_neg hid]
    refine List.filter_eq_nil_iff.2 fun row hrow => ?_
    obtain ⟨hb, -, rfl⟩ := List.mem_map.1 hrow
    exact fun heq => hid (beq_iff_eq.1 heq)

theorem Store.Stores.has_of_has {resp : Response} (h : Store.Stores p id batch db resp db') {x : Bytes}
    (hx : db.heartbeats.Has x) : db'.heartbeats.Has x := by
  rw [Table.Has, h.rows, List.map_append]
  exact List.mem_append_left _ hx

/-- **Another device's request.** -/
theorem Beside.other (h : Beside host start d full alone) (hcarries : p.Carries host full id batch) (hid : id ≠ d) :
    Beside host start d (servePost host full p).2 alone := by
  have hstores := hcarries.stores
  have hrows : rowsOf d (servePost host full p).2 = rowsOf d full := by
    rw [hstores.rowsOf_eq, if_neg hid, List.append_nil]
  refine ⟨fun token => (hstores.sameHolders token).trans (h.holders token), h.holders_alone, hrows.trans h.rows,
    fun x hx => hstores.has_of_has (h.start_has x hx), fun x => ?_⟩
  rw [hrows]
  exact h.alone_has x

theorem Beside.same (h : Beside host start d full alone) : SameHolders host full alone := fun token =>
  (h.holders_alone token).trans (h.holders token).symm

/-- Where none of its ids was taken, a request finds the same ids. -/
theorem Beside.has_iff (h : Beside host start d full alone) (hcarries : p.Carries host full d batch)
    (hnot : NotTaken start d full p) {hb : Heartbeat} (hmem : hb ∈ batch.heartbeats) :
    hb.id ∈ full.heartbeats.rows.map (·.id) ↔ hb.id ∈ alone.heartbeats.rows.map (·.id) := by
  constructor
  · intro hfull
    obtain ⟨row, hrow, hid⟩ := List.mem_map.1 hfull
    rcases hnot batch hcarries.decoded hb hmem row hrow hid with hd | hstart
    · exact (h.alone_has _).2 (.inr ⟨row, mem_rowsOf.2 ⟨hrow, hd⟩, hid⟩)
    · exact (h.alone_has _).2 (.inl hstart)
  · intro halone
    rcases (h.alone_has _).1 halone with hstart | ⟨row, hrow, hid⟩
    · exact h.start_has _ hstart
    · exact List.mem_map.2 ⟨row, (mem_rowsOf.1 hrow).1, hid⟩

/-- **A request of the device itself.** -/
theorem Beside.own (h : Beside host start d full alone) (hcarries : p.Carries host full d batch)
    (hnot : NotTaken start d full p) : (servePost host full p).1 = (servePost host alone p).1 ∧
      Beside host start d (servePost host full p).2 (servePost host alone p).2 := by
  have hstores := hcarries.stores
  have hstores' := (hcarries.congr h.same).stores
  have hnew : Store.newHeartbeats (full.heartbeats.rows.map (·.id)) batch.heartbeats =
      Store.newHeartbeats (alone.heartbeats.rows.map (·.id)) batch.heartbeats :=
    newHeartbeats_congr fun hb hmem => h.has_iff hcarries hnot hmem
  have hrows := @Store.Stores.rowsOf_eq full _ p d d batch _ hstores
  have hrows' := @Store.Stores.rowsOf_eq alone _ p d d batch _ hstores'
  rw [if_pos rfl] at hrows hrows'
  refine ⟨by rw [hstores.resp, hstores'.resp, hnew], fun token => (hstores.sameHolders token).trans (h.holders token),
    fun token => (hstores'.sameHolders token).trans (h.holders_alone token), by rw [hrows, hrows', hnew, h.rows],
    fun x hx => hstores.has_of_has (h.start_has x hx), fun x => ?_⟩
  have hadded : (servePost host alone p).2.heartbeats.Has x ↔ alone.heartbeats.Has x ∨ ∃ row ∈
      (Store.newHeartbeats (full.heartbeats.rows.map (·.id)) batch.heartbeats).map
        (Store.toRow d p.receivedAt batch.deviceSentAt.toInt), row.id = x := by
    rw [Table.Has, hstores'.rows, List.map_append, List.mem_append, hnew]
    exact or_congr_right List.mem_map
  rw [hadded, h.alone_has, hrows, or_assoc]
  refine or_congr_right ?_
  constructor
  · rintro (⟨row, hrow, hid⟩ | ⟨row, hrow, hid⟩)
    · exact ⟨row, List.mem_append_left _ hrow, hid⟩
    · exact ⟨row, List.mem_append_right _ hrow, hid⟩
  · rintro ⟨row, hrow, hid⟩
    exact (List.mem_append.1 hrow).elim (fun hrow => .inl ⟨row, hrow, hid⟩) fun hrow => .inr ⟨row, hrow, hid⟩

/-- A heartbeat the device has alone is another's in the fleet. -/
structure Lost (host : Host) (d : Bytes) (full alone : Database) : Prop where
  same : SameHolders host full alone
  taken : ∃ row ∈ full.heartbeats.rows, row.deviceId ≠ d ∧ ∃ own ∈ rowsOf d alone, own.id = row.id

theorem Lost.rowsOf_ne (h : Lost host d full alone) : rowsOf d full ≠ rowsOf d alone := by
  obtain ⟨row, hrow, hother, own, hown, hid⟩ := h.taken
  intro heq
  rw [← heq] at hown
  obtain ⟨hmem, hd⟩ := mem_rowsOf.1 hown
  exact hother (Table.eq_of_key hmem hrow hid ▸ hd)

/-- **An id that was taken**: the device's heartbeat is lost. -/
theorem Beside.lost (h : Beside host start d full alone) (hcarries : p.Carries host full d batch)
    (htaken : ¬ NotTaken start d full p) : Lost host d (servePost host full p).2 (servePost host alone p).2 := by
  have hstores := hcarries.stores
  have hstores' := (hcarries.congr h.same).stores
  unfold NotTaken at htaken
  push Not at htaken
  obtain ⟨batch', hdecoded, hb, hmem, row, hrow, hid, hother, hstart⟩ := htaken
  obtain rfl : batch = batch' := Option.some.inj (hcarries.decoded.symm.trans hdecoded)
  refine ⟨fun token => ?_, row, ?_, hother, ?_⟩
  · rw [hstores'.sameHolders token, hstores.sameHolders token, h.same token]
  · rw [hstores.rows]
    exact List.mem_append_left _ hrow
  · have hnew : hb.id ∉ alone.heartbeats.rows.map (·.id) := by
      intro hhas
      rcases (h.alone_has _).1 hhas with hhas | ⟨row', hrow', hid'⟩
      · exact hstart hhas
      · obtain ⟨hmem', hd⟩ := mem_rowsOf.1 hrow'
        exact hother (Table.eq_of_key hmem' hrow (hid'.trans hid.symm) ▸ hd)
    obtain ⟨hb', hmem', hid'⟩ := List.mem_map.1 ((Store.id_mem_newHeartbeats hmem).resolve_left hnew)
    rw [@Store.Stores.rowsOf_eq alone _ p d d batch _ hstores', if_pos rfl]
    exact ⟨_, List.mem_append_right _ (List.mem_map_of_mem hmem'), hid'.trans hid.symm⟩

/-- The requests of the device. -/
def ownPosts (host : Host) (start : Database) (d : Bytes) (posts : List Post) : List Post :=
  posts.filter fun p => p.device host start == some d

/-- The answers to them. -/
def answersTo (host : Host) (start : Database) (d : Bytes) (answered : List (Post × Response)) : List Response :=
  (answered.filter fun x => x.1.device host start == some d).map (·.2)

theorem ownPosts_cons : ownPosts host start d (p :: posts) =
    if p.device host start = some d then p :: ownPosts host start d posts else ownPosts host start d posts := by
  unfold ownPosts
  rw [List.filter_cons]
  simp only [beq_iff_eq]

theorem answersTo_cons {resp : Response} {answered : List (Post × Response)} :
    answersTo host start d ((p, resp) :: answered) =
      if p.device host start = some d then resp :: answersTo host start d answered
      else answersTo host start d answered := by
  unfold answersTo
  rw [List.filter_cons]
  simp only [beq_iff_eq]
  split <;> rfl

theorem Lost.step (h : Lost host d full alone) (hcarries : p.Carries host full id batch) :
    Lost host d (servePost host full p).2 alone ∧ Lost host d (servePost host full p).2 (servePost host alone p).2 := by
  have hstores := hcarries.stores
  have hstores' := (hcarries.congr h.same).stores
  obtain ⟨row, hrow, hother, own, hown, hid⟩ := h.taken
  have hrow' : row ∈ (servePost host full p).2.heartbeats.rows := by
    rw [hstores.rows]
    exact List.mem_append_left _ hrow
  have hown' : own ∈ rowsOf d (servePost host alone p).2 := by
    rw [hstores'.rowsOf_eq]
    exact List.mem_append_left _ hown
  refine ⟨⟨fun token => ?_, row, hrow', hother, own, hown, hid⟩,
    ⟨fun token => ?_, row, hrow', hother, own, hown', hid⟩⟩
  · rw [hstores.sameHolders token, h.same token]
  · rw [hstores'.sameHolders token, hstores.sameHolders token, h.same token]

theorem Lost.run : ∀ {posts : List Post} {full alone : Database}, Lost host d full alone →
    (∀ resp ∈ (runAll (servePost host) posts full).1, resp.status = 200) →
    Lost host d (runAll (servePost host) posts full).2 (runAll (servePost host) (ownPosts host start d posts) alone).2
  | [], _, _, h, _ => h
  | p :: posts, full, alone, h, haccepted => by
    obtain ⟨hstatus, hrest⟩ : (servePost host full p).1.status = 200 ∧
      ∀ resp ∈ (runAll (servePost host) posts (servePost host full p).2).1, resp.status = 200 :=
        List.forall_mem_cons.1 haccepted
    obtain ⟨id, batch, hcarries, -⟩ := servePost_stores hstatus
    obtain ⟨hskip, hserve⟩ := h.step hcarries
    by_cases hown : p.device host start = some d
    · rw [ownPosts_cons, if_pos hown]
      exact hserve.run hrest
    · rw [ownPosts_cons, if_neg hown]
      exact hskip.run hrest

/-- **Any run.** -/
theorem Beside.run : ∀ {posts : List Post} {full alone : Database}, Beside host start d full alone →
    (∀ resp ∈ (runAll (servePost host) posts full).1, resp.status = 200) →
    ((rowsOf d (runAll (servePost host) posts full).2 =
        rowsOf d (runAll (servePost host) (ownPosts host start d posts) alone).2 ∧
      answersTo host start d (posts.zip (runAll (servePost host) posts full).1) =
        (runAll (servePost host) (ownPosts host start d posts) alone).1) ↔
      Throughout (servePost host) (fun db p => p.device host start = some d → NotTaken start d db p) posts full)
  | [], _, _, h, _ => iff_of_true ⟨h.rows, rfl⟩ trivial
  | p :: posts, full, alone, h, haccepted => by
    obtain ⟨hstatus, hrest⟩ : (servePost host full p).1.status = 200 ∧
      ∀ resp ∈ (runAll (servePost host) posts (servePost host full p).2).1, resp.status = 200 :=
        List.forall_mem_cons.1 haccepted
    obtain ⟨id, batch, hcarries, -⟩ := servePost_stores hstatus
    have hdevice : p.device host start = some id := (Post.device_congr h.holders).symm.trans hcarries.device_eq
    by_cases hid : id = d
    · have hd := hid.symm
      subst hd
      have hanswers : answersTo host start d ((p :: posts).zip (runAll (servePost host) (p :: posts) full).1) =
          (servePost host full p).1 ::
            answersTo host start d (posts.zip (runAll (servePost host) posts (servePost host full p).2).1) :=
        answersTo_cons.trans (if_pos hdevice)
      rw [ownPosts_cons, if_pos hdevice]
      by_cases hnot : NotTaken start d full p
      · obtain ⟨hresp, hbeside⟩ := h.own hcarries hnot
        have hrun := hbeside.run hrest
        have hall : Throughout (servePost host) (fun db p => p.device host start = some d → NotTaken start d db p)
            (p :: posts) full ↔
            Throughout (servePost host) (fun db p => p.device host start = some d → NotTaken start d db p) posts
              (servePost host full p).2 := and_iff_right fun _ => hnot
        rw [hall, ← hrun]
        refine and_congr_right fun _ => ?_
        rw [hanswers, hresp]
        exact List.cons_inj_right _
      · have hlost : Lost host d _ _ := @Lost.run host d start posts _ _ (h.lost hcarries hnot) hrest
        refine iff_of_false (fun heq => hlost.rowsOf_ne heq.1) fun hall => hnot (hall.1 hdevice)
    · have hother : ¬ p.device host start = some d := by
        rw [hdevice]
        exact fun heq => hid (Option.some.inj heq)
      have hanswers : answersTo host start d ((p :: posts).zip (runAll (servePost host) (p :: posts) full).1) =
          answersTo host start d (posts.zip (runAll (servePost host) posts (servePost host full p).2).1) :=
        answersTo_cons.trans (if_neg hother)
      rw [ownPosts_cons, if_neg hother, hanswers]
      refine ((h.other hcarries hid).run hrest).trans ?_
      exact (and_iff_right fun heq => absurd heq hother).symm

/-- **Devices do not interfere** just if no request has an id that another
device took since the start. -/
theorem devices_isolated_iff (host : Host) (start : Database) (posts : List Post) (d : Bytes)
    (haccepted : ∀ resp ∈ (runAll (servePost host) posts start).1, resp.status = 200) :
    let run := runAll (servePost host) posts start
    let alone := runAll (servePost host) (ownPosts host start d posts) start
    (rowsOf d run.2 = rowsOf d alone.2 ∧ answersTo host start d (posts.zip run.1) = alone.1) ↔
      Throughout (servePost host) (fun db p => p.device host start = some d → NotTaken start d db p) posts start :=
  beside_start.run haccepted

/-- A fleet of two. -/
def twoDevices : Database where
  devices :=
    { rows := [deviceT, { id := str "e", name := [], tokenHash := hexEncode (str "u"), enrolledAt := 0 }]
      nodup := by decide }

theorem twoDevices_rows : twoDevices.heartbeats.rows = [] := rfl

/-- A batch, sent with a token. -/
def postOf (token : Bytes) (batch : IngestBatch) : Post where
  request :=
    { method := str "POST"
      path := str "/v1/ingest"
      authorization := str "Bearer " ++ token
      body := ⟨batch.marshal, false⟩ }
  clock := fun _ => .epoch
  entropy := fun _ => 0

/-- The batch of one heartbeat, sent with a token. -/
def postWith (token : Bytes) : Post := postOf token oneHeartbeat

theorem decode_postWith (token : Bytes) :
    IngestBatch.decode ((postWith token).request.body.limit maxIngestBody) = some oneHeartbeat := by
  have hlen : oneHeartbeat.marshal.length ≤ maxIngestBody := by decide
  have hdecode := IngestBatch.decode_marshal (b := oneHeartbeat) (by simp [oneHeartbeat]) [] false
  have hbody : (postWith token).request.body = ⟨oneHeartbeat.marshal, false⟩ := rfl
  rw [hbody, Reader.limit, if_pos hlen]
  rw [List.append_nil] at hdecode
  exact hdecode.trans (by decide)

theorem carries_t : (postWith (str "t")).Carries insertionHost twoDevices (str "d") oneHeartbeat where
  method := rfl
  token := ⟨str "t", by decide, by decide⟩
  decoded := decode_postWith _
  version := rfl

theorem carries_u : (postWith (str "u")).Carries insertionHost twoDevices (str "e") oneHeartbeat where
  method := rfl
  token := ⟨str "u", by decide, by decide⟩
  decoded := decode_postWith _
  version := rfl

/-- The batch of heartbeats of these ids. -/
def batchOf (ids : List String) : IngestBatch where
  schemaVersion := 1
  heartbeats := ids.map fun id => { id := str id }

theorem notTaken_of (hdecoded : IngestBatch.decode (p.request.body.limit maxIngestBody) = some batch)
    (hown : ∀ h ∈ batch.heartbeats, ∀ row ∈ db.heartbeats.rows, row.id = h.id → row.deviceId = d) :
    NotTaken start d db p := by
  intro batch' hdecoded' h hmem row hrow hid
  obtain rfl : batch = batch' := Option.some.inj (hdecoded.symm.trans hdecoded')
  exact .inl (hown h hmem row hrow hid)

/-- Two devices whose requests come in between each other's, replays among them. -/
def interleaved : List Post :=
  [postOf (str "t") (batchOf ["1", "2"]), postOf (str "u") (batchOf ["7"]), postOf (str "t") (batchOf ["2", "3"]),
    postOf (str "u") (batchOf ["7", "8"])]

theorem isolated_interleaved : let run := runAll (servePost insertionHost) interleaved twoDevices
    let alone := runAll (servePost insertionHost) (ownPosts insertionHost twoDevices (str "d") interleaved) twoDevices
    run.2.heartbeats.rows.map (·.id) = [str "1", str "2", str "7", str "3", str "8"] ∧
      rowsOf (str "d") run.2 = rowsOf (str "d") alone.2 ∧
      answersTo insertionHost twoDevices (str "d") (interleaved.zip run.1) = alone.1 := by
  intro run alone
  refine ⟨by decide +kernel, (devices_isolated_iff insertionHost twoDevices interleaved (str "d")
    (by decide +kernel)).2 ⟨fun _ => ?_, fun howner => ?_, fun _ => ?_, fun howner => ?_, trivial⟩⟩
  · exact @notTaken_of _ _ _ (batchOf ["1", "2"]) _ (by decide +kernel) (by decide +kernel)
  · exact absurd howner (by decide +kernel)
  · exact @notTaken_of _ _ _ (batchOf ["2", "3"]) _ (by decide +kernel) (by decide +kernel)
  · exact absurd howner (by decide +kernel)

/-- Two devices send the same id: the second is told that none is new, and has
no row. -/
theorem id_taken : let posts := [postWith (str "u"), postWith (str "t")]
    let run := runAll (servePost insertionHost) posts twoDevices
    let alone := runAll (servePost insertionHost) (ownPosts insertionHost twoDevices (str "d") posts) twoDevices
    (∀ resp ∈ run.1, resp.status = 200) ∧ rowsOf (str "d") run.2 ≠ rowsOf (str "d") alone.2 := by
  dsimp only
  have hother : str "e" ≠ str "d" := by decide
  have hbeside := (@beside_start insertionHost (str "d") twoDevices).other carries_u hother
  have hcarries := carries_t.congr hbeside.holders
  refine ⟨fun resp hresp => ?_, ?_⟩
  · rw [runAll_two] at hresp
    rcases List.mem_cons.1 hresp with hfirst | hsecond
    · rw [hfirst]
      exact carries_u.status
    · rw [List.mem_singleton.1 hsecond]
      exact hcarries.status
  · have hrow : Store.toRow (str "e") (postWith (str "u")).receivedAt 0 { id := str "h" } ∈
        (servePost insertionHost twoDevices (postWith (str "u"))).2.heartbeats.rows := by
      have hnew : Store.newHeartbeats [] oneHeartbeat.heartbeats = [{ id := str "h" }] := rfl
      rw [carries_u.stores.rows, twoDevices_rows, List.map_nil, hnew]
      exact List.mem_append_right _ (List.mem_singleton_self _)
    have htaken : ¬ NotTaken twoDevices (str "d") (servePost insertionHost twoDevices (postWith (str "u"))).2
        (postWith (str "t")) := by
      intro hnot
      rcases hnot oneHeartbeat (decode_postWith _) _ List.mem_cons_self _ hrow rfl with hd | hstart
      · exact hother hd
      · rw [Table.Has, twoDevices_rows] at hstart
        cases hstart
    have hown : ownPosts insertionHost twoDevices (str "d") [postWith (str "u"), postWith (str "t")] =
        [postWith (str "t")] := by
      rw [ownPosts_cons, ownPosts_cons, carries_u.device_eq, carries_t.device_eq, if_neg (by decide), if_pos rfl]
      rfl
    have hne := (hbeside.lost hcarries htaken).rowsOf_ne
    rw [runAll_two, hown, runAll_one]
    dsimp only
    exact hne

end ScrewLogger
