/-
Delivery, over any run of the agent and the server.

`delivered`: a heartbeat whose append returned is on an unacked line of the
agent's file or a row of the server's table, no id has two rows, and every row
is of a heartbeat that was appended. It is so as long as no flush compacts more
entries than a rewrite of the file keeps.
-/
import ScrewLogger.Server.Routes
import ScrewLogger.System.Steps

namespace ScrewLogger
open Lib Lib.Eff Lib.Json

/-! ## What is delivered -/

/-- The row is the heartbeat's. -/
structure Records (row : HeartbeatRow) (h : Heartbeat) : Prop where
  id : row.id = h.id
  ts : row.ts = h.ts.toInt
  app : row.app = h.app
  category : row.category = h.category
  active : row.active = h.active

def Stored (db : Database) (h : Heartbeat) : Prop := ∃ row ∈ db.heartbeats.rows, Records row h

/-- Nothing promised is lost, nothing is stored twice, and nothing but what was
appended. -/
structure Delivered (rows₀ : List HeartbeatRow) (s : System) : Prop where
  kept : ∀ h ∈ s.promised, h ∈ Buf.pending s.agent ∨ Stored s.server.db h
  once : (s.server.db.heartbeats.rows.map (·.id)).Nodup
  genuine : ∀ row ∈ s.server.db.heartbeats.rows, row ∈ rows₀ ∨ ∃ h ∈ s.observed, Records row h

/-! ## What the server does with a request -/

variable {host : Host} {auth : AdminAuth} {fileServer : Request → Nat × Bytes} {token : Bytes} {batch : IngestBatch}

theorem newMux_ingestRequest :
    newMux host auth fileServer (ingestRequest token batch) = ingestHandler host (ingestRequest token batch) := by
  have hpath : ¬ str "/v1/ingest" = str "*" := by decide
  have hroute : (routes host auth fileServer).route (str "POST") (str "/v1/ingest") =
      .handler (ingestHandler host) [] := rfl
  simp only [newMux, serveMux, ingestRequest, if_neg hpath, hroute]

/-- Rows of the batch's heartbeats are added, and a 200 says that all of them
have one. -/
structure Served (hbs : List Heartbeat) (db : Database) (resp : Response) (db' : Database) : Prop where
  rows : ∃ added, db'.heartbeats.rows = db.heartbeats.rows ++ added ∧ ∀ row ∈ added, ∃ h ∈ hbs, Records row h
  has_id : resp.status = 200 → ∀ h ∈ hbs, db'.heartbeats.Has h.id

theorem served_ingestRequest (hne : batch.heartbeats ≠ []) (hvalid : ∀ h ∈ batch.heartbeats, h.Valid) (w : World) :
    Served batch.heartbeats w.db ((newMux host auth fileServer).serve (ingestRequest token batch) w).1
      ((newMux host auth fileServer).serve (ingestRequest token batch) w).2.db := by
  have h : IngestEnds host (ingestRequest token batch) w _ _ := Answer.run_iff.2 (ends_ingestHandler host _ w)
  rw [Handler.serve, newMux_ingestRequest]
  cases h with
  | refused status msg body same =>
    refine ⟨⟨[], ?_, fun row hrow => absurd hrow List.not_mem_nil⟩, fun h200 => absurd h200 status⟩
    rw [same.db, List.append_nil]
  | accepted status sessions d decoded now h =>
    obtain rfl := decode_ingestRequest hne hvalid h.decoded
    refine ⟨⟨_, h.stored.heartbeats, fun row hrow => ?_⟩, fun _ => h.stored.has_id⟩
    obtain ⟨hb, hmem, rfl⟩ := List.mem_map.1 hrow
    exact ⟨hb, Store.newHeartbeats_sublist.subset hmem, rfl, rfl, rfl, rfl, rfl⟩

/-! ## The invariant -/

variable {rows₀ : List HeartbeatRow} {s : System} {acked q : List Heartbeat}

/-- The heartbeats of the appends: valid, and each of an id of its own. -/
structure Observed (rows₀ : List HeartbeatRow) (hbs : List Heartbeat) : Prop where
  valid : ∀ h ∈ hbs, h.Valid
  ids : ∀ h ∈ hbs, ∀ h' ∈ hbs, h.id = h'.id → h = h'
  new : ∀ h ∈ hbs, h.id ∉ rows₀.map (·.id)

/-- The table holds the rows it had, and rows of heartbeats observed. -/
def Recorded (rows₀ : List HeartbeatRow) (hbs : List Heartbeat) (db : Database) : Prop :=
  ∃ added, db.heartbeats.rows = rows₀ ++ added ∧ ∀ row ∈ added, ∃ h ∈ hbs, Records row h

/-- The request uploads heartbeats that were observed. -/
def Uploads (hbs : List Heartbeat) (r : Request) : Prop :=
  ∃ token batch, r = ingestRequest token batch ∧ batch.heartbeats ≠ [] ∧ ∀ h ∈ batch.heartbeats, h ∈ hbs

/-- What is on the agent's disk: of the entries `acked ++ q`, a process that is
there knows where `q` begins. -/
structure OnDisk (s : System) (acked q : List Heartbeat) : Prop where
  file : s.agent.file = Buf.encode (acked ++ q)
  holds : s.up = true → Buf.Holds acked q s.agent
  observed : ∀ h ∈ acked ++ q, h ∈ s.observed
  kept : ∀ h ∈ s.promised, h ∈ q ∨ Stored s.server.db h

structure Inv (rows₀ : List HeartbeatRow) (s : System) (acked q : List Heartbeat) : Prop where
  observed : Observed rows₀ s.observed
  recorded : Recorded rows₀ s.observed s.server.db
  wire : ∀ r ∈ s.wire, Uploads s.observed r
  onDisk : OnDisk s acked q

/-- What is stored stays stored. -/
theorem Stored.mono {db db' : Database} {added : List HeartbeatRow} {h : Heartbeat}
    (hrows : db'.heartbeats.rows = db.heartbeats.rows ++ added) (hs : Stored db h) : Stored db' h := by
  obtain ⟨row, hmem, hrec⟩ := hs
  exact ⟨row, hrows ▸ List.mem_append_left _ hmem, hrec⟩

/-- A row with the id of a heartbeat observed is that heartbeat's. -/
theorem stored_of_has {hbs : List Heartbeat} {db : Database} {h : Heartbeat} (ho : Observed rows₀ hbs)
    (hr : Recorded rows₀ hbs db) (hmem : h ∈ hbs) (hhas : db.heartbeats.Has h.id) : Stored db h := by
  obtain ⟨row, hrow, hid⟩ := Table.has_iff.1 hhas
  obtain ⟨added, hrows, hadded⟩ := hr
  obtain hold | hnew := List.mem_append.1 (hrows ▸ hrow)
  · exact absurd (List.mem_map.2 ⟨row, hold, hid⟩) (ho.new h hmem)
  · obtain ⟨h', hmem', hrec⟩ := hadded row hnew
    obtain rfl := ho.ids h' hmem' h hmem (hrec.id.symm.trans hid)
    exact ⟨row, hrow, hrec⟩

/-- The server processes an upload: whatever it answers, what was kept is kept,
and after a 200 the batch is stored. -/
theorem Inv.process (hi : Inv rows₀ s acked q) (hne : batch.heartbeats ≠ [])
    (hmem : ∀ h ∈ batch.heartbeats, h ∈ s.observed) :
    let served := s.process (newMux host auth fileServer) (ingestRequest token batch)
    Inv rows₀ served.2 acked q ∧ (served.1.status = 200 → ∀ h ∈ batch.heartbeats, Stored served.2.server.db h) := by
  intro served
  have h : Served batch.heartbeats s.server.db served.1 served.2.server.db :=
    served_ingestRequest hne (fun h hh => hi.observed.valid h (hmem h hh)) s.server
  obtain ⟨added, hrows, hadded⟩ := h.rows
  obtain ⟨old, hold, hrecords⟩ := hi.recorded
  have hrecorded : Recorded rows₀ s.observed served.2.server.db := by
    refine ⟨old ++ added, by rw [hrows, hold, List.append_assoc], fun row hrow => ?_⟩
    obtain hrow | hrow := List.mem_append.1 hrow
    · exact hrecords row hrow
    · obtain ⟨hb, hmem', hrec⟩ := hadded row hrow
      exact ⟨hb, hmem hb hmem', hrec⟩
  refine ⟨⟨hi.observed, hrecorded, hi.wire, ?_⟩, fun h200 hb hmem' => ?_⟩
  · refine ⟨hi.onDisk.file, hi.onDisk.holds, hi.onDisk.observed, fun hb hpromised => ?_⟩
    exact (hi.onDisk.kept hb hpromised).imp_right (Stored.mono hrows)
  · exact stored_of_has hi.observed hrecorded (hmem hb hmem') (h.has_id h200 hb hmem')

/-- The agent's file keeps what is not stored. -/
theorem Inv.drop {acked' : List Heartbeat} {n : Nat} {m : Machine} {up : Bool} (hi : Inv rows₀ s acked q)
    (hstored : ∀ h ∈ q.take n, Stored s.server.db h) (hsub : ∀ h ∈ acked', h ∈ acked ++ q)
    (hfile : m.file = Buf.encode (acked' ++ q.drop n)) (hholds : up = true → Buf.Holds acked' (q.drop n) m) :
    Inv rows₀ { s with agent := m, up := up } acked' (q.drop n) := by
  refine ⟨hi.observed, hi.recorded, hi.wire, hfile, hholds, fun h hmem => ?_, fun h hpromised => ?_⟩
  · obtain hmem | hmem := List.mem_append.1 hmem
    · exact hi.onDisk.observed h (hsub h hmem)
    · exact hi.onDisk.observed h (List.mem_append_right _ (List.mem_of_mem_drop hmem))
  · obtain hq | hs := hi.onDisk.kept h hpromised
    · rw [← List.take_append_drop n q, List.mem_append] at hq
      obtain hq | hq := hq
      · exact .inr (hstored h hq)
      · exact .inl hq
    · exact .inr hs

/-- Another agent with the same file, or none. -/
theorem Inv.agent {m : Machine} {up : Bool} (hi : Inv rows₀ s acked q) (hfile : m.file = s.agent.file)
    (hholds : up = true → Buf.Holds acked q m) : Inv rows₀ { s with agent := m, up := up } acked q :=
  @Inv.drop _ _ acked q acked 0 m up hi (fun _ h => absurd h List.not_mem_nil) (fun _ h => List.mem_append_left _ h)
    (hfile.trans hi.onDisk.file) hholds

theorem Inv.died {m : Machine} (hi : Inv rows₀ s acked q) (hfile : m.file = s.agent.file) :
    Inv rows₀ { s with agent := m, up := false } acked q :=
  hi.agent hfile fun h => absurd h (by decide)

theorem Inv.schedule (hi : Inv rows₀ s acked q) (faults : List Fault) :
    Inv rows₀ (s.schedule faults) acked q :=
  hi.agent rfl fun hup => (hi.onDisk.holds hup).tick faults

/-- A heartbeat of a new id is observed. -/
theorem Inv.observe {e : Heartbeat} (hi : Inv rows₀ s acked q) (hvalid : e.Valid)
    (hfresh : ∀ h ∈ s.observed, h.id ≠ e.id) (hnew : ¬ s.server.db.heartbeats.Has e.id) :
    Inv rows₀ { s with observed := e :: s.observed } acked q := by
  have hsub : ∀ h ∈ s.observed, h ∈ e :: s.observed := fun h hh => List.mem_cons_of_mem e hh
  obtain ⟨added, hrows, hadded⟩ := hi.recorded
  refine ⟨⟨?_, ?_, ?_⟩, ⟨added, hrows, fun row hrow => ?_⟩, fun r hr => ?_, hi.onDisk.file, hi.onDisk.holds,
    fun h hh => hsub h (hi.onDisk.observed h hh), hi.onDisk.kept⟩
  · exact List.forall_mem_cons.2 ⟨hvalid, hi.observed.valid⟩
  · intro h hh h' hh' heq
    obtain rfl | hold := List.mem_cons.1 hh
    · obtain rfl | hold' := List.mem_cons.1 hh'
      · rfl
      · exact absurd heq.symm (hfresh h' hold')
    · obtain rfl | hold' := List.mem_cons.1 hh'
      · exact absurd heq (hfresh h hold)
      · exact hi.observed.ids h hold h' hold' heq
  · refine List.forall_mem_cons.2 ⟨fun hold => hnew ?_, hi.observed.new⟩
    rw [Table.Has, hrows, List.map_append]
    exact List.mem_append_left _ hold
  · obtain ⟨h, hh, hrec⟩ := hadded row hrow
    exact ⟨h, hsub h hh, hrec⟩
  · obtain ⟨token, batch, hr, hne, hbatch⟩ := hi.wire r hr
    exact ⟨token, batch, hr, hne, fun h hh => hsub h (hbatch h hh)⟩

/-! ## The steps -/

namespace System

@[simp] theorem wp_onAgent {α : Type} {b : Buf α} {Q : α → System → Prop} {E : FlushError → System → Prop} :
    wp (onAgent b) Q E = fun s => wp b (fun a m => Q a { s with agent := m })
      (fun e m => E (.buffer e) { s with agent := m }) s.agent := by
  rw [onAgent, wp_mapError, wp_zoom]

variable {x : Exchange} {count : Int} {ship : Shipper} {now : Int64}

/-- An upload, whatever becomes of it: only a 200 of the server's own is one. -/
theorem wp_roundTrip {Q : Response → System → Prop} {E : FlushError → System → Prop} (hi : Inv rows₀ s acked q)
    (hne : batch.heartbeats ≠ []) (hmem : ∀ h ∈ batch.heartbeats, h ∈ s.observed)
    (hQ : ∀ resp s', s'.agent = s.agent → s'.up = s.up → Inv rows₀ s' acked q →
      (resp.status = 200 → x = .answered ∧ ∀ h ∈ batch.heartbeats, Stored s'.server.db h) → Q resp s')
    (hE : ∀ s', s'.agent = s.agent → s'.up = s.up → Inv rows₀ s' acked q → E .network s') :
    wp (roundTrip (newMux host auth fileServer) x (ingestRequest token batch)) Q E s := by
  have hsent : Inv rows₀ { s with wire := ingestRequest token batch :: s.wire } acked q := by
    refine ⟨hi.observed, hi.recorded, fun r hr => ?_,
      ⟨hi.onDisk.file, hi.onDisk.holds, hi.onDisk.observed, hi.onDisk.kept⟩⟩
    obtain rfl | hr := List.mem_cons.1 hr
    · exact ⟨token, batch, rfl, hne, hmem⟩
    · exact hi.wire r hr
  have hprocess := @Inv.process host auth fileServer token _ _ _ _ _ hsent hne hmem
  obtain ⟨hprocessed, hstored⟩ := hprocess
  unfold roundTrip
  rw [wp_bind, wp_modify]
  cases x with
  | lost => exact hE _ rfl rfl hsent
  | responseLost => exact hE _ rfl rfl hprocessed
  | turnedAway resp h => exact hQ _ _ rfl rfl hsent fun h200 => absurd h200 h
  | answered => exact hQ _ _ rfl rfl hprocessed fun h200 => ⟨rfl, hstored h200⟩

/-- The invariant, wherever the unacked entries begin. -/
def Safe (rows₀ : List HeartbeatRow) (s : System) : Prop := ∃ acked q, Inv rows₀ s acked q

/-- A batch that is stored is acked. -/
theorem wp_ack_stored (hi : Inv rows₀ s acked q) (hup : s.up = true) (hb : Buf.Benign s.agent)
    (hroom : Buf.Roomy s.agent q (.ack count)) (hstored : ∀ h ∈ q.take count.toNat, Stored s.server.db h) :
    wp (onAgent (Buf.ack count)) (fun _ => Safe rows₀) (fun e s' =>
      Safe rows₀ { s' with up := e != .buffer .crash }) s := by
  have hholds := hi.onDisk.holds hup
  have hvalid : ∀ e ∈ q.drop count.toNat, e.Valid := fun e he =>
    hi.observed.valid e (hi.onDisk.observed e (List.mem_append_right _ (List.mem_of_mem_drop he)))
  have hadvanced (n fs) (hn : n ≤ count.toNat) (up : Bool) :
      Inv rows₀ { s with agent := Buf.advanced { s.agent with faults := fs } (q.take n), up := up }
        (acked ++ q.take n) (q.drop n) := by
    have h := (hholds.tick fs).advanced n
    refine hi.drop (fun e he => hstored e (List.take_subset_take_left q hn he)) (fun e he => ?_) h.file fun _ => h
    exact (List.mem_append.1 he).elim (List.mem_append_left _) fun he =>
      List.mem_append_right _ (List.mem_of_mem_take he)
  have hackedTo (fs) : Safe rows₀ { s with agent := Buf.ackedTo count q { s.agent with faults := fs } } := by
    unfold Buf.ackedTo
    split
    · exact ⟨acked, q, hi.agent rfl fun _ => hholds.tick fs⟩
    · next hpos =>
      split
      · next hhalf =>
        rw [Buf.keep_eq hvalid (hroom (Int.not_le.1 hpos) hhalf)]
        exact ⟨[], _, hi.drop hstored (fun e he => absurd he List.not_mem_nil) rfl fun _ => ⟨rfl, rfl, rfl⟩⟩
      · exact ⟨_, _, hadvanced count.toNat fs (Nat.le_refl _) s.up⟩
  rw [wp_onAgent]
  refine Buf.wp_ack hb hholds.reading (fun fs hfs => hackedTo fs) (fun m' hdied => ?_) fun fs n hn hfs _ => ?_
  · obtain ⟨-, -, hfile | hfile⟩ := hdied
    · exact ⟨acked, q, hi.died hfile⟩
    · obtain ⟨acked', q', h⟩ := hackedTo s.agent.faults
      exact ⟨acked', q', h.died hfile⟩
  · exact ⟨_, _, hadvanced n fs hn true⟩

theorem wp_flush (hi : Inv rows₀ s acked q) (hup : s.up = true) (hb : Buf.Benign s.agent)
    (hroom : x = .answered → Roomy s) :
    wp (ship.flush onAgent (roundTrip (newMux host auth fileServer) x) now) (fun _ => Safe rows₀)
      (fun e s' => Safe rows₀ { s' with up := e != .buffer .crash }) s := by
  have hholds := hi.onDisk.holds hup
  have hobserved : ∀ e ∈ q, e ∈ s.observed := fun e he => hi.onDisk.observed e (List.mem_append_right _ he)
  have hvalid : ∀ e ∈ q, e.Valid := fun e he => hi.observed.valid e (hobserved e he)
  rw [Shipper.flush, wp_bind, wp_onAgent]
  refine Buf.wp_unacked hb hholds.reading (fun fs hfs => ?_) fun e fs hfs he => ?_
  · have hi' : Inv rows₀ { s with agent := { s.agent with faults := fs } } acked q := hi.agent rfl fun _ =>
      hholds.tick fs
    rw [Heartbeat.map_sanitize hvalid, wp_ite]
    refine ⟨fun _ => ⟨acked, q, hi'⟩, fun hne => ?_⟩
    rw [wp_bind]
    refine wp_roundTrip hi' hne (fun h hh => hobserved h (List.mem_of_mem_take hh))
      (fun resp s' hagent hup' h' h200 => ?_)
      fun s' hagent hup' h' => ?_
    · rw [wp_bind, wp_ensure]
      refine ⟨fun hok => ?_, fun _ => ?_⟩
      · obtain ⟨hanswered, hstored⟩ := h200 (beq_iff_eq.1 hok)
        -- acking as many as were sent is acking a batch
        have hbatch : q.take (((q.take batchLimit.toNat).length : Int)).toNat = q.take batchLimit.toNat := by
          rw [Int.toNat_natCast, List.length_take, ← List.take_eq_take_min]
        have hrest : q.drop (((q.take batchLimit.toNat).length : Int)).toNat = q.drop batchLimit.toNat := by
          rw [Int.toNat_natCast, List.length_take, ← List.drop_eq_drop_min]
        rw [wp_bind]
        have hroomy : Buf.Roomy s'.agent q (.ack (q.take batchLimit.toNat).length) := by
          have h := hroom hanswered
          rw [Roomy, hholds.pending hvalid] at h
          rw [hagent]
          intro _ hhalf
          rw [hbatch] at hhalf
          rw [hrest]
          exact h (by decide) hhalf
        refine wp_ack_stored h' (hup'.trans hup) ?_ hroomy (by rwa [hbatch])
        rw [hagent]
        exact hb.suffix hfs
      · exact ⟨acked, q, h'.agent rfl fun _ => h'.onDisk.holds (hup'.trans hup)⟩
    · exact ⟨acked, q, h'.agent rfl fun _ => h'.onDisk.holds (hup'.trans hup)⟩
  · obtain ⟨rfl, -⟩ | ⟨rfl, -⟩ := he
    · exact ⟨acked, q, hi.died rfl⟩
    · exact ⟨acked, q, hi.agent rfl fun _ => hholds.tick fs⟩

/-- A heartbeat is appended. -/
theorem wp_append {e : Heartbeat} (hi : Inv rows₀ s acked q) (hup : s.up = true) (hb : Buf.Benign s.agent)
    (hfits : Buf.overflows s.agent.buf = false) (he : e ∈ s.observed) :
    wp (onAgent (Buf.append e)) (fun _ s' => Safe rows₀ { s' with promised := e :: s'.promised })
      (fun err s' => Safe rows₀ { s' with up := err != .buffer .crash }) s := by
  have hholds := hi.onDisk.holds hup
  have hfile : s.agent.file ++ Buf.line e = Buf.encode (acked ++ (q ++ [e])) := by simp [hholds.file]
  have happended (m : Machine) (up : Bool) (hm : m.file = s.agent.file ++ Buf.line e)
      (h : up = true → Buf.Holds acked (q ++ [e]) m) :
      Inv rows₀ { s with agent := m, up := up } acked (q ++ [e]) := by
    refine ⟨hi.observed, hi.recorded, hi.wire, hm.trans hfile, h, fun h hh => ?_, fun h hh => ?_⟩
    · rw [← List.append_assoc] at hh
      exact (List.mem_append.1 hh).elim (hi.onDisk.observed h) fun hh => List.mem_singleton.1 hh ▸ he
    · exact (hi.onDisk.kept h hh).imp_left (List.mem_append_left _)
  rw [wp_onAgent]
  refine Buf.wp_append_fits hb hholds.isOpen hfits (fun fs hfs => ?_) fun m' hdied => ?_
  · have h := happended (Buf.appended e { s.agent with faults := fs }) s.up rfl fun _ =>
      ⟨hfile, hholds.ackedOff, hholds.isOpen⟩
    refine ⟨acked, q ++ [e], h.observed, h.recorded, h.wire, h.onDisk.file, h.onDisk.holds, h.onDisk.observed,
      fun x hx => ?_⟩
    obtain rfl | hx := List.mem_cons.1 hx
    · exact .inl (List.mem_append_right _ List.mem_cons_self)
    · exact h.onDisk.kept x hx
  · obtain ⟨-, -, hold | hnew⟩ := hdied
    · exact ⟨acked, q, hi.died hold⟩
    · exact ⟨acked, q ++ [e], happended m' false hnew fun h => absurd h (by decide)⟩

/-- The process is started: every entry on the disk is unacked. -/
theorem wp_restart {maxBytes : Int} (hi : Inv rows₀ s acked q) (hb : Buf.Benign s.agent) :
    wp (onAgent (Buf.openBuffer maxBytes)) (fun _ s' => Safe rows₀ { s' with up := true })
      (fun _ s' => Safe rows₀ { s' with up := false }) s := by
  rw [wp_onAgent]
  refine Buf.wp_sys hb (fun fs _ => ?_) fun fs _ _ => ⟨acked, q, hi.died rfl⟩
  refine ⟨[], acked ++ q, hi.observed, hi.recorded, hi.wire, hi.onDisk.file, fun _ => ⟨hi.onDisk.file, rfl, rfl⟩,
    hi.onDisk.observed, fun h hh => ?_⟩
  exact (hi.onDisk.kept h hh).imp_left (List.mem_append_right _)

/-- **One step.** -/
theorem safe_step {s' : System} (h : Safe rows₀ s) (hstep : Step (newMux host auth fileServer) ship Roomy s s') :
    Safe rows₀ s' := by
  obtain ⟨acked, q, hi⟩ := h
  cases hstep with
  | append e faults hb hup hvalid hfresh hnew hfits =>
    have h := wp_append ((hi.schedule faults).observe hvalid hfresh hnew) hup hb hfits List.mem_cons_self
    unfold append
    unfold wp at h
    split at h <;> next heq => simpa only [heq] using h
  | flush x now faults hb hup hroom =>
    have h := @wp_flush host auth fileServer _ _ _ _ _ ship now (hi.schedule faults) hup hb hroom
    unfold flush
    unfold wp at h
    split at h <;> next heq => simpa only [heq] using h
  | restart maxBytes faults hb =>
    have h := @wp_restart _ _ _ _ maxBytes (hi.schedule faults) hb
    unfold restart
    unfold wp at h
    split at h <;> next heq => simpa only [heq] using h
  | replay r hr =>
    obtain ⟨token, batch, rfl, hne, hmem⟩ := hi.wire r hr
    exact ⟨acked, q, (hi.process hne hmem).1⟩

theorem safe_start (maxBytes : Int) (w : World) : Safe w.db.heartbeats.rows (start maxBytes w) := by
  have hnone {P : Heartbeat → Prop} : ∀ h ∈ ([] : List Heartbeat), P h := fun h hh => absurd hh List.not_mem_nil
  refine ⟨[], [], ⟨hnone, hnone, hnone⟩, ⟨[], (List.append_nil _).symm, fun row hrow => absurd hrow List.not_mem_nil⟩,
    fun r hr => absurd hr List.not_mem_nil, rfl, fun _ => ⟨rfl, rfl, rfl⟩, hnone, hnone⟩

/-- **Every run.** -/
theorem safe_reachable {s₀ s : System} (h₀ : Safe rows₀ s₀)
    (h : Reachable (newMux host auth fileServer) ship Roomy s₀ s) : Safe rows₀ s := by
  induction h with
  | refl => exact h₀
  | tail _ hstep ih => exact safe_step ih hstep

theorem Safe.delivers (h : Safe rows₀ s) (hup : s.up = true) : Delivered rows₀ s := by
  obtain ⟨acked, q, hi⟩ := h
  have hvalid : ∀ e ∈ q, e.Valid := fun e he =>
    hi.observed.valid e (hi.onDisk.observed e (List.mem_append_right _ he))
  refine ⟨fun h hh => ?_, s.server.db.heartbeats.nodup, fun row hrow => ?_⟩
  · rw [(hi.onDisk.holds hup).pending hvalid]
    exact hi.onDisk.kept h hh
  · obtain ⟨added, hrows, hadded⟩ := hi.recorded
    obtain hrow | hrow := List.mem_append.1 (hrows ▸ hrow)
    · exact .inl hrow
    · exact .inr (hadded row hrow)

end System

/-- **Delivered at least once, stored at most once.** -/
theorem delivered (host : Host) (auth : AdminAuth) (fileServer : Request → Nat × Bytes) (ship : Shipper)
    (maxBytes : Int) (w : World) (s : System) (hup : s.up = true)
    (h : System.Reachable (newMux host auth fileServer) ship System.Roomy (.start maxBytes w) s) :
    Delivered w.db.heartbeats.rows s :=
  (System.safe_reachable (System.safe_start maxBytes w) h).delivers hup

/-! ## Runs of many appends -/

variable {server : Handler} {ship : Shipper} {room : System → Prop}

/-- The binary digits of a number. -/
def binary (i : Nat) : Bytes := (List.range 31).map fun k => if i.testBit k then 0x31 else 0x30

def numbered (i : Nat) : Heartbeat := { id := binary i }

theorem binary_injective {i j : Nat} (hi : i < 2 ^ 31) (hj : j < 2 ^ 31) (h : binary i = binary j) : i = j := by
  have hbits := List.map_inj_left.1 h
  refine Nat.eq_of_testBit_eq fun k => ?_
  by_cases hk : k < 31
  · have hk := hbits k (List.mem_range.2 hk)
    cases hi' : i.testBit k <;> cases hj' : j.testBit k <;> simp_all
  · have hle : 2 ^ 31 ≤ 2 ^ k := Nat.pow_le_pow_right (by omega) (by omega)
    rw [Nat.testBit_lt_two_pow (by omega), Nat.testBit_lt_two_pow (by omega)]

theorem plain_binary (i : Nat) : Plain (binary i) := by
  intro c hc
  obtain ⟨k, -, rfl⟩ := List.mem_map.1 hc
  split <;> exact ⟨by decide, by decide⟩

theorem valid_numbered (i : Nat) : (numbered i).Valid := ⟨(plain_binary i).valid, rfl, rfl⟩

theorem length_numbered (i : Nat) : (numbered i).marshal.length = 85 := by
  have h : (formatInt (0 : Int64).toInt).length = 1 := by decide
  rw [Heartbeat.length_marshal]
  simp only [numbered, (plain_binary i).quoteBody, h]
  simp [binary, quoteBody, writeBool]
  decide

/-- The first `n` of them. -/
def firstNumbered (n : Nat) : List Heartbeat := (List.range n).map numbered

theorem mem_firstNumbered {n : Nat} {h : Heartbeat} : h ∈ firstNumbered n ↔ ∃ i < n, numbered i = h := by
  simp [firstNumbered]

theorem numbered_injective {i j : Nat} (hi : i < 2 ^ 31) (hj : j < 2 ^ 31) (h : (numbered i).id = (numbered j).id) :
    i = j := binary_injective hi hj h

theorem take_firstNumbered (n k : Nat) : (firstNumbered n).take k = firstNumbered (min k n) := by
  rw [firstNumbered, ← List.map_take, List.take_range]
  rfl

theorem valid_firstNumbered (n : Nat) : ∀ h ∈ firstNumbered n, h.Valid := by
  intro h hh
  obtain ⟨i, -, rfl⟩ := mem_firstNumbered.1 hh
  exact valid_numbered i

theorem length_encode_numbered (n : Nat) : (Buf.encode (firstNumbered n)).length = n * 86 := by
  induction n with
  | zero => rfl
  | succ n ih =>
    rw [firstNumbered, List.range_succ, List.map_append, Buf.encode_append, List.length_append, ← firstNumbered, ih]
    simp [Buf.line_length, length_numbered]
    omega

namespace System

/-- An agent that has appended the first `n` of the heartbeats, `size` bytes of
them since it was started, to a server that was sent nothing. -/
structure Filled (n size : Nat) (s : System) : Prop where
  up : s.up = true
  server : s.server = oneDevice
  observed : s.observed ⊆ firstNumbered n
  promised : firstNumbered n ⊆ s.promised
  holds : Buf.Holds [] (firstNumbered n) s.agent
  size : s.agent.buf.size = size
  maxBytes : s.agent.buf.maxBytes = 0x4000000000000000

theorem filled_start : Filled 0 0 (.start 0x4000000000000000 oneDevice) :=
  ⟨rfl, rfl, List.Subset.refl _, List.Subset.refl _, ⟨rfl, rfl, rfl⟩, rfl, rfl⟩

theorem benign_nil {s : System} : Buf.Benign (s.schedule []).agent := Buf.benign_of_nil rfl

theorem Filled.append {n : Nat} {s : System} (h : Filled n (n * 86) s) (hn : n < 2 ^ 31) :
    Filled (n + 1) ((n + 1) * 86) ((s.schedule []).append (numbered n)) ∧
      Step server ship room s ((s.schedule []).append (numbered n)) := by
  have hfits : Buf.overflows s.agent.buf = false := by
    rw [Buf.overflows, decide_eq_false_iff_not, h.maxBytes, h.size]
    omega
  have hfresh : ∀ h' ∈ s.observed, h'.id ≠ (numbered n).id := by
    intro h' hh' heq
    obtain ⟨i, hi, rfl⟩ := mem_firstNumbered.1 (h.observed hh')
    have := numbered_injective (by omega) hn heq
    omega
  have hnew : ¬ s.server.db.heartbeats.Has (numbered n).id := by
    rw [h.server]
    exact List.not_mem_nil
  refine ⟨?_, .append _ [] benign_nil h.up (valid_numbered n) hfresh hnew hfits⟩
  have hrun : wp (onAgent (Buf.append (numbered n)))
      (fun _ s' => s' = { s with
        agent := Buf.appended (numbered n) (s.schedule []).agent
        observed := numbered n :: s.observed })
      (fun _ _ => False) { s.schedule [] with observed := numbered n :: s.observed } := by
    rw [wp_onAgent]
    refine Buf.wp_append_fits benign_nil h.holds.isOpen hfits (fun fs hfs => ?_) fun m' hdied => hdied.1 rfl
    rw [List.suffix_nil.1 hfs]
    rfl
  obtain ⟨_, s', hok, rfl⟩ := hrun.returns
  have hrange : firstNumbered (n + 1) = firstNumbered n ++ [numbered n] := by
    rw [firstNumbered, List.range_succ, List.map_append]
    rfl
  rw [append_ok hok]
  refine ⟨h.up, h.server, ?_, ?_, ⟨?_, h.holds.ackedOff, h.holds.isOpen⟩, ?_, h.maxBytes⟩
  · rw [hrange]
    exact List.cons_subset.2 ⟨List.mem_append_right _ List.mem_cons_self,
      List.subset_append_of_subset_left _ h.observed⟩
  · rw [hrange]
    exact List.append_subset.2 ⟨fun x hx => List.mem_cons_of_mem _ (h.promised hx), fun x hx =>
      List.mem_singleton.1 hx ▸ List.mem_cons_self⟩
  · show s.agent.file ++ Buf.line (numbered n) = _
    rw [hrange, h.holds.file]
    simp
  · have hline : (Buf.line (numbered n)).length = 86 := by rw [Buf.line_length, length_numbered]
    show s.agent.buf.size + (Buf.line (numbered n)).length = _
    rw [h.size, hline]
    omega

theorem reach_filled : ∀ n ≤ 2 ^ 31, ∃ s, Filled n (n * 86) s ∧
    Reachable server ship room (.start 0x4000000000000000 oneDevice) s
  | 0, _ => ⟨_, filled_start, .refl⟩
  | n + 1, hn => by
    obtain ⟨s, hs, hreach⟩ := reach_filled n (by omega)
    obtain ⟨hfilled, hstep⟩ := hs.append (by omega)
    exact ⟨_, hfilled, hreach.tail hstep⟩

theorem Filled.restart {n : Nat} {s : System} (h : Filled n (n * 86) s) :
    Filled n 0 ((s.schedule []).restart 0x4000000000000000) :=
  ⟨rfl, h.server, h.observed, h.promised, ⟨h.holds.file, rfl, rfl⟩, rfl, rfl⟩

/-- The upload of the first of them. -/
def firstUpload (n : Nat) : IngestBatch where
  schemaVersion := schemaVersion
  heartbeats := firstNumbered n

theorem firstNumbered_ne_nil {n : Nat} (hn : 0 < n) : firstNumbered n ≠ [] :=
  List.ne_nil_of_mem (mem_firstNumbered.2 ⟨0, hn, rfl⟩)

theorem length_firstUpload {n : Nat} (hn : 0 < n) : (firstUpload n).marshal.length = n * 86 + 54 := by
  have hlengths : (firstNumbered n).map (fun h => h.marshal.length) = List.replicate n 85 := by
    refine List.eq_replicate_iff.2 ⟨by simp [firstNumbered], fun k hk => ?_⟩
    obtain ⟨h, hh, rfl⟩ := List.mem_map.1 hk
    obtain ⟨i, -, rfl⟩ := mem_firstNumbered.1 hh
    exact length_numbered i
  have hversion : (formatInt schemaVersion.toInt).length = 1 := by decide
  have hsent : (formatInt (0 : Int64).toInt).length = 1 := by decide
  have hcount : (firstNumbered n).length = n := by simp [firstNumbered]
  rw [IngestBatch.length_marshal (firstNumbered_ne_nil hn)]
  simp only [firstUpload, hlengths, hversion, hsent, hcount, List.sum_replicate, smul_eq_mul]
  omega

/-- It is answered with a 200. -/
theorem firstUpload_accepted {n : Nat} (hn : 0 < n) (hle : n ≤ 500) :
    ((newMux insertionHost auth fileServer).serve (ingestRequest (str "t") (firstUpload n)) oneDevice).1.status =
      200 := by
  have hlen := length_firstUpload hn
  have hlimit : maxIngestBody = 1048576 := rfl
  have hbatch : IngestBatch.decode ((ingestRequest (str "t") (firstUpload n)).body.limit maxIngestBody) =
      some (firstUpload n) := by
    have hne : (firstUpload n).heartbeats ≠ [] := firstNumbered_ne_nil hn
    have h := IngestBatch.decode_marshal hne [] false
    rw [IngestBatch.sanitize, firstUpload, Heartbeat.map_sanitize (valid_firstNumbered n), List.append_nil] at h
    have hfits : (firstUpload n).marshal.length ≤ maxIngestBody := by omega
    exact (congrArg IngestBatch.decode (if_pos hfits)).trans h
  have hd : oneDevice.db.devices.rows.find? (·.tokenHash == Store.hashToken insertionHost (str "t")) =
      some deviceT := by decide
  have htoken : bearerToken (ingestRequest (str "t") (firstUpload n)) = some (str "t") :=
    bearerToken_ingestRequest (by decide)
  have hquiet : Store.Quiet oneDevice := rfl
  have h := ingestHandler_quiet hquiet rfl htoken hd rfl hbatch rfl
  rw [Handler.serve] at h ⊢
  rw [newMux_ingestRequest]
  exact h

theorem firstUpload_served {n : Nat} (hn : 0 < n) (w : World) :
    Served (firstNumbered n) w.db ((newMux host auth fileServer).serve (ingestRequest token (firstUpload n)) w).1
      ((newMux host auth fileServer).serve (ingestRequest token (firstUpload n)) w).2.db :=
  have hne : (firstUpload n).heartbeats ≠ [] := firstNumbered_ne_nil hn
  served_ingestRequest hne (valid_firstNumbered n) w

/-- What a flush of the first 500 of `n` leaves: of the others, as many as a
rewrite keeps. -/
structure Flushed (n : Nat) (s s' : System) : Prop where
  up : s'.up = true
  promised : s'.promised = s.promised
  pending : Buf.pending s'.agent = ((firstNumbered n).drop 500).take Buf.allEntries.toNat
  rows : ∀ row ∈ s'.server.db.heartbeats.rows, ∃ h ∈ firstNumbered 500, Records row h

/-- A file that was found at the start counts for no bytes: any ack is of half
of it, and the rewrite keeps no more than it can. -/
theorem pending_ackedTo {n : Nat} {m : Machine} (hn : 500 < n) (hsize : m.buf.size = 0) (hoff : m.buf.ackedOff = 0) :
    Buf.pending (Buf.ackedTo 500 (firstNumbered n) m) = ((firstNumbered n).drop 500).take Buf.allEntries.toNat := by
  have hdrop : ∀ e ∈ (firstNumbered n).drop 500, e.Valid := fun e he =>
    valid_firstNumbered n e (List.mem_of_mem_drop he)
  have hbytes : (Buf.encode ((firstNumbered n).take 500)).length = 43000 := by
    rw [take_firstNumbered, Nat.min_eq_left hn.le, length_encode_numbered]
  have hacked : (Buf.advanced m ((firstNumbered n).take 500)).buf.ackedOff = 43000 := by
    simp only [Buf.advanced, hoff, hbytes]
  have hhalf : Buf.halfAcked (Buf.advanced m ((firstNumbered n).take 500)).buf = true := by
    rw [Buf.halfAcked, hacked, decide_eq_true_eq]
    show (m.buf.size : Int) ≤ _
    rw [hsize]
    decide
  have hkeep : Buf.keep ((firstNumbered n).drop 500) = ((firstNumbered n).drop 500).take Buf.allEntries.toNat := by
    rw [Buf.keep, Heartbeat.map_sanitize hdrop]
  have htoNat : (500 : Int).toNat = 500 := rfl
  rw [Buf.ackedTo, if_neg (by decide), htoNat, if_pos hhalf, hkeep]
  have hholds (l : List Heartbeat) : Buf.Holds [] l (Buf.rewritten m l) := ⟨rfl, rfl, rfl⟩
  exact (hholds _).pending fun e he => hdrop e (List.mem_of_mem_take he)

theorem Filled.flush {n : Nat} {s : System} (h : Filled n 0 s) (hn : 500 < n) :
    Flushed n s ((s.schedule []).flush (newMux insertionHost auth fileServer) ⟨str "t"⟩ .answered 0) := by
  have hvalid := valid_firstNumbered n
  have hbatch : (firstNumbered n).take batchLimit.toNat = firstNumbered 500 := by
    rw [take_firstNumbered]
    exact congrArg firstNumbered (Nat.min_eq_left hn.le)
  have hcount : ((firstNumbered 500).length : Int) = 500 := by simp [firstNumbered]
  have hshort : (firstNumbered n).all Buf.short = true := by
    refine List.all_eq_true.2 fun h hh => ?_
    obtain ⟨i, -, rfl⟩ := mem_firstNumbered.1 hh
    rw [Buf.short, length_numbered]
    decide
  have hrun : wp ((⟨str "t"⟩ : Shipper).flush onAgent (roundTrip (newMux insertionHost auth fileServer) .answered) 0)
      (fun _ s' => Flushed n s s') (fun _ _ => False) (s.schedule []) := by
    rw [Shipper.flush, wp_bind, wp_onAgent]
    refine Buf.wp_unacked benign_nil (h.holds.tick []).reading (fun fs hfs => ?_) fun e fs _ he => ?_
    · rw [List.suffix_nil.1 hfs, Heartbeat.map_sanitize hvalid, hbatch, if_neg (firstNumbered_ne_nil (by decide))]
      have hserved := @firstUpload_served insertionHost auth fileServer (str "t") 500 (by decide) s.server
      have hstatus := @firstUpload_accepted auth fileServer 500 (by decide) (by decide)
      have hupload :
          ({ schemaVersion := schemaVersion, deviceSentAt := 0, heartbeats := firstNumbered 500 } : IngestBatch) =
          firstUpload 500 := rfl
      rw [← h.server] at hstatus
      simp only [hupload]
      generalize firstUpload 500 = batch at hserved hstatus
      unfold roundTrip
      simp only [wp_bind, wp_modify, wp_take, wp_ensure]
      refine ⟨fun _ => ?_, fun hno => absurd (beq_iff_eq.2 hstatus) (Bool.eq_false_iff.1 hno)⟩
      rw [wp_onAgent, hcount]
      refine Buf.wp_ack benign_nil (h.holds.tick []).reading (fun fs hfs => ?_) (fun m' hdied => hdied.1 rfl)
        fun _ _ _ _ hall => absurd (hshort.symm.trans hall) (by decide)
      rw [List.suffix_nil.1 hfs]
      refine ⟨h.up, rfl, ?_, fun row hrow => ?_⟩
      · exact pending_ackedTo hn h.size h.holds.ackedOff
      · obtain ⟨added, hrows, hadded⟩ := hserved.rows
        have hempty : s.server.db.heartbeats.rows = [] := by rw [h.server]; rfl
        rw [hempty, List.nil_append] at hrows
        refine hadded row ?_
        rw [← hrows]
        exact hrow
    · obtain ⟨-, hne⟩ | ⟨-, hall⟩ := he
      · exact hne rfl
      · exact absurd (hshort.symm.trans hall) (by decide)
  obtain ⟨_, s', hok, hflushed⟩ := hrun.returns
  rw [flush_ok hok]
  exact hflushed

/-- A server that knows one device. -/
def oneServer : Handler := newMux insertionHost ⟨[]⟩ fun _ => (404, [])

def appendedOne : System := ((start 1000 oneDevice).schedule []).append (numbered 0)

def appendedTwo : System := (appendedOne.schedule []).append (numbered 1)

/-- The server stores them, and the response is lost. -/
def storedTwo : System := (appendedTwo.schedule []).flush oneServer ⟨str "t"⟩ .responseLost 0

/-- The agent is started again and appends another. -/
def appendedThree : System := (((storedTwo.schedule []).restart 1000).schedule []).append (numbered 2)

def storedThree : System := (appendedThree.schedule []).flush oneServer ⟨str "t"⟩ .answered 0

theorem reachable_storedThree : Reachable oneServer ⟨str "t"⟩ Roomy (start 1000 oneDevice) storedThree := by
  have h₁ : Step oneServer ⟨str "t"⟩ Roomy (start 1000 oneDevice) appendedOne :=
    .append _ [] benign_nil rfl (valid_numbered 0) (fun _ h => absurd h List.not_mem_nil) List.not_mem_nil (by decide)
  have h₂ : Step oneServer ⟨str "t"⟩ Roomy appendedOne appendedTwo :=
    .append _ [] benign_nil (by decide +kernel) (valid_numbered 1) (by decide +kernel) (by decide +kernel)
      (by decide +kernel)
  have h₃ : Step oneServer ⟨str "t"⟩ Roomy appendedTwo storedTwo :=
    .flush .responseLost 0 [] benign_nil (by decide +kernel) fun h => nomatch h
  have h₄ : Step oneServer ⟨str "t"⟩ Roomy storedTwo ((storedTwo.schedule []).restart 1000) := .restart 1000 [] benign_nil
  have h₅ : Step oneServer ⟨str "t"⟩ Roomy ((storedTwo.schedule []).restart 1000) appendedThree :=
    .append _ [] benign_nil (by decide +kernel) (valid_numbered 2) (by decide +kernel) (by decide +kernel)
      (by decide +kernel)
  have hroomy : appendedThree.Roomy := by
    intro _ _
    decide +kernel
  have h₆ : Step oneServer ⟨str "t"⟩ Roomy appendedThree storedThree :=
    .flush .answered 0 [] benign_nil (by decide +kernel) fun _ => hroomy
  exact (((((Relation.ReflTransGen.single h₁).tail h₂).tail h₃).tail h₄).tail h₅).tail h₆

end System

/-- Two of three heartbeats are sent twice. -/
theorem delivered_three : System.storedThree.promised.length = 3 ∧
    System.storedThree.server.db.heartbeats.rows.length = 3 ∧
    Delivered oneDevice.db.heartbeats.rows System.storedThree :=
  ⟨by decide +kernel, by decide +kernel, delivered insertionHost ⟨[]⟩ (fun _ => (404, [])) ⟨str "t"⟩ 1000 oneDevice
    System.storedThree (by decide +kernel) System.reachable_storedThree⟩

/-- **Past the limit a flush loses a heartbeat**: the last of those it leaves. -/
theorem overfull_flush_loses : ∃ s, s.up = true ∧
    System.Reachable (newMux insertionHost ⟨[]⟩ fun _ => (404, [])) ⟨str "t"⟩ (fun _ => True)
      (.start 0x4000000000000000 oneDevice) s ∧ ¬ Delivered oneDevice.db.heartbeats.rows s := by
  obtain ⟨s, hfilled, hreach⟩ := @System.reach_filled (newMux insertionHost ⟨[]⟩ fun _ => (404, [])) ⟨str "t"⟩
    (fun _ => True) 0x400001F5 (by decide)
  have hstarted := hfilled.restart
  have hflushed := @System.Filled.flush ⟨[]⟩ (fun _ => (404, [])) _ _ hstarted (by decide)
  refine ⟨_, hflushed.up, (hreach.tail (.restart _ [] System.benign_nil)).tail
    (.flush .answered 0 [] System.benign_nil hstarted.up fun _ => trivial), fun hdelivered => ?_⟩
  -- the last one
  have hlast : numbered 0x400001F4 ∈ firstNumbered 0x400001F5 := mem_firstNumbered.2 ⟨_, by decide, rfl⟩
  have hlost {i : Nat} (hi : i < 0x400001F4) (h : (numbered i).id = (numbered 0x400001F4).id) : False := by
    have := numbered_injective (by omega) (by omega) h
    omega
  obtain hpending | ⟨row, hrow, hrec⟩ := hdelivered.kept (numbered 0x400001F4)
    (by rw [hflushed.promised]; exact hstarted.promised hlast)
  · have hmem : numbered 0x400001F4 ∈ firstNumbered (min (500 + Buf.allEntries.toNat) 0x400001F5) := by
      rw [hflushed.pending, List.take_drop] at hpending
      rw [← take_firstNumbered]
      exact List.mem_of_mem_drop hpending
    have hlimit : Buf.allEntries.toNat = 0x40000000 := rfl
    obtain ⟨i, hi, heq⟩ := mem_firstNumbered.1 hmem
    exact hlost (by omega) (congrArg Heartbeat.id heq)
  · obtain ⟨h, hh, hrec'⟩ := hflushed.rows row hrow
    obtain ⟨i, hi, rfl⟩ := mem_firstNumbered.1 hh
    exact hlost (by omega) (hrec'.id.symm.trans hrec.id)

end ScrewLogger
