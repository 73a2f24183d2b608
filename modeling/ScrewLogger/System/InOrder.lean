/-
Order, over any run of the agent and the server.

The agent's file and the server's table mirror an `Outbox` of heartbeats: the
file is what is kept of its log and the rows are what is stored of it, so that
they are in the order of the appends and without a gap (`in_order`). Every step
of the system is some steps of the outbox (`mirrored_step`).
-/
import ScrewLogger.Lib.Outbox
import ScrewLogger.Server.Arrival
import ScrewLogger.System.Delivery

namespace ScrewLogger
open Lib Lib.Eff Lib.Json

/-! ## Rows in order -/

/-- The rows there were, and then a row of each heartbeat. -/
def InRows (rows₀ : List HeartbeatRow) (hbs : List Heartbeat) (db : Database) : Prop :=
  ∃ added, db.heartbeats.rows = rows₀ ++ added ∧ List.Forall₂ Records added hbs

theorem records_toRow (deviceID : Bytes) (now agentSentAt : Int) (hbs : List Heartbeat) :
    List.Forall₂ Records (hbs.map (Store.toRow deviceID now agentSentAt)) hbs := by
  rw [List.forall₂_map_left_iff, List.forall₂_same]
  exact fun h _ => ⟨rfl, rfl, rfl, rfl, rfl⟩

theorem ids_of_records {added : List HeartbeatRow} {hbs : List Heartbeat} (h : List.Forall₂ Records added hbs) :
    added.map (·.id) = hbs.map (·.id) := by
  induction h with
  | nil => rfl
  | cons hrec _ ih => rw [List.map_cons, List.map_cons, hrec.id, ih]

variable {host : Host} {auth : AdminAuth} {fileServer : Request → Nat × Bytes} {token : Bytes} {batch : IngestBatch}
  {rows₀ : List HeartbeatRow} {hbs : List Heartbeat}

/-- How an upload ends. -/
theorem ends_ingestRequest (w : World) : IngestEnds host (ingestRequest token batch) w
    ((newMux host auth fileServer).serve (ingestRequest token batch) w).1
    ((newMux host auth fileServer).serve (ingestRequest token batch) w).2 := by
  have h := Answer.run_iff.2 (ends_ingestHandler host (ingestRequest token batch) w)
  rwa [← @newMux_ingestRequest host auth fileServer] at h

/-- Rows of the batch's new heartbeats are added, or none are and the answer is
no 200. -/
theorem inRows_ingestRequest (hne : batch.heartbeats ≠ []) (hvalid : ∀ h ∈ batch.heartbeats, h.Valid)
    (hnew : ∀ h ∈ batch.heartbeats, h.id ∉ rows₀.map (·.id)) (hnodup : (batch.heartbeats.map (·.id)).Nodup)
    (w : World) (hrows : InRows rows₀ hbs w.db) :
    let served := (newMux host auth fileServer).serve (ingestRequest token batch) w
    (served.1.status ≠ 200 ∧ InRows rows₀ hbs served.2.db) ∨
      InRows rows₀ (hbs ++ batch.heartbeats.filter fun h => h.id ∉ hbs.map (·.id)) served.2.db := by
  intro served
  have h : IngestEnds host (ingestRequest token batch) w served.1 served.2 := ends_ingestRequest w
  obtain ⟨added, hadded, hrecords⟩ := hrows
  cases h with
  | refused status msg body same =>
    refine .inl ⟨status, added, ?_, hrecords⟩
    rw [same.db]
    exact hadded
  | accepted status sessions d decoded now h =>
    obtain rfl := decode_ingestRequest hne hvalid h.decoded
    have hfilter : decoded.heartbeats.filter (fun h => h.id ∉ w.db.heartbeats.rows.map (·.id)) =
        decoded.heartbeats.filter fun h => h.id ∉ hbs.map (·.id) := by
      refine List.filter_congr fun h hh => ?_
      have hold := hnew h hh
      rw [hadded, List.map_append, ids_of_records hrecords]
      simp [hold]
    have hstored := h.stored.heartbeats
    rw [newHeartbeats_eq_filter hnodup, hfilter, hadded, List.append_assoc] at hstored
    exact .inr ⟨_, hstored, List.rel_append hrecords (records_toRow ..)⟩

/-! ## The outbox -/

/-- The system's log: the file is what is kept of it, the rows are what is
stored, and a process that is there knows what is acked. -/
structure Mirrors (rows₀ : List HeartbeatRow) (s : System) (o : Outbox Heartbeat) : Prop where
  valid : ∀ h ∈ s.observed, h.Valid
  distinct : (s.observed.map (·.id)).Nodup
  new : ∀ h ∈ s.observed, h.id ∉ rows₀.map (·.id)
  order : o.log.Sublist s.observed.reverse
  promised : s.promised.reverse.Sublist o.log
  rows : InRows rows₀ (o.log.take o.stored) s.server.db
  wire : ∀ r ∈ s.wire, ∃ p ∈ o.sent, ∃ token batch, r = ingestRequest token batch ∧ batch.heartbeats ≠ [] ∧
    batch.heartbeats = piece o.log p.1 p.2
  file : s.agent.file = Buf.encode (o.log.drop o.kept)
  holds : s.up = true → Buf.Holds (piece o.log o.kept o.acked) o.unacked s.agent

/-- Some steps of the outbox on, the system mirrors it again. -/
def Mirrored (rows₀ : List HeartbeatRow) (o : Outbox Heartbeat) (s : System) : Prop :=
  ∃ o', Outbox.Steps o o' ∧ Mirrors rows₀ s o'

variable {s : System} {o : Outbox Heartbeat}

theorem Mirrors.mirrored (h : Mirrors rows₀ s o) : Mirrored rows₀ o s := ⟨o, .refl, h⟩

theorem Mirrored.after {o' : Outbox Heartbeat} (h : Outbox.Steps o o') (h' : Mirrored rows₀ o' s) :
    Mirrored rows₀ o s := by
  obtain ⟨o'', hsteps, hm⟩ := h'
  exact ⟨o'', h.trans hsteps, hm⟩

namespace Mirrors

theorem mem_observed (h : Mirrors rows₀ s o) {e : Heartbeat} (he : e ∈ o.log) : e ∈ s.observed :=
  List.mem_reverse.1 (h.order.subset he)

theorem nodup (h : Mirrors rows₀ s o) : (o.log.map (·.id)).Nodup := by
  refine (h.order.map _).nodup ?_
  rw [List.map_reverse, List.nodup_reverse]
  exact h.distinct

theorem valid_log (h : Mirrors rows₀ s o) : ∀ e ∈ o.log, e.Valid := fun e he => h.valid e (h.mem_observed he)

/-- Another agent with the same file, or none. -/
theorem agent {m : Machine} {up : Bool} (h : Mirrors rows₀ s o) (hfile : m.file = s.agent.file)
    (hholds : up = true → Buf.Holds (piece o.log o.kept o.acked) o.unacked m) :
    Mirrors rows₀ { s with agent := m, up := up } o :=
  { h with file := hfile.trans h.file, holds := hholds }

theorem died {m : Machine} (h : Mirrors rows₀ s o) (hfile : m.file = s.agent.file) :
    Mirrors rows₀ { s with agent := m, up := false } o :=
  h.agent hfile fun hup => absurd hup (by decide)

theorem schedule (h : Mirrors rows₀ s o) (faults : List Fault) : Mirrors rows₀ (s.schedule faults) o :=
  h.agent rfl fun hup => (h.holds hup).tick faults

/-- A heartbeat of a new id is observed. -/
theorem observe {e : Heartbeat} (h : Mirrors rows₀ s o) (hvalid : e.Valid) (hfresh : ∀ h ∈ s.observed, h.id ≠ e.id)
    (hnew : ¬ s.server.db.heartbeats.Has e.id) : Mirrors rows₀ { s with observed := e :: s.observed } o := by
  obtain ⟨added, hrows, -⟩ := h.rows
  refine { h with valid := ?_, distinct := ?_, new := ?_, order := ?_ }
  · exact List.forall_mem_cons.2 ⟨hvalid, h.valid⟩
  · rw [List.map_cons, List.nodup_cons]
    refine ⟨fun hmem => ?_, h.distinct⟩
    obtain ⟨h', hh', heq⟩ := List.mem_map.1 hmem
    exact hfresh h' hh' heq
  · refine List.forall_mem_cons.2 ⟨fun hold => hnew ?_, h.new⟩
    rw [Table.Has, hrows, List.map_append]
    exact List.mem_append_left _ hold
  · rw [List.reverse_cons]
    exact h.order.trans (List.sublist_append_left _ _)

/-- The server processes a piece: it arrives, or the answer is no 200. -/
theorem process {p : Nat × Nat} (h : Mirrors rows₀ s o) (hp : p ∈ o.sent) (hne : batch.heartbeats ≠ [])
    (hbatch : batch.heartbeats = piece o.log p.1 p.2) :
    let served := s.process (newMux host auth fileServer) (ingestRequest token batch)
    served.1.status ≠ 200 ∧ Mirrors rows₀ served.2 o ∨ Mirrors rows₀ served.2 (o.arrive p hp) := by
  intro served
  have hmem : ∀ e ∈ batch.heartbeats, e ∈ o.log := fun e he => piece_sublist.subset (hbatch ▸ he)
  have hnodup : (batch.heartbeats.map (·.id)).Nodup := hbatch ▸ (piece_sublist.map _).nodup h.nodup
  have hserved := @inRows_ingestRequest host auth fileServer token batch rows₀ _ hne (fun e he =>
    h.valid_log e (hmem e he)) (fun e he => h.new e (h.mem_observed (hmem e he))) hnodup s.server h.rows
  obtain ⟨hstatus, hrows⟩ | hrows := hserved
  · exact .inl ⟨hstatus, { h with rows := hrows }⟩
  · refine .inr { h with rows := ?_ }
    rw [Outbox.take_arrived h.nodup hp, ← hbatch]
    have hserver : InRows rows₀ _ served.2.server.db := hrows
    convert hserver

end Mirrors

/-! ## The steps -/

namespace System

variable {x : Exchange} {ship : Shipper} {now : Int64} {count : Int}

/-- An upload, whatever becomes of it: a 200 is one to a piece that arrived. -/
theorem wp_roundTrip_mirrors {Q : Response → System → Prop} {E : FlushError → System → Prop} {n : Nat}
    (h : Mirrors rows₀ s o) (hne : batch.heartbeats ≠ []) (hbatch : batch.heartbeats = o.unacked.take n)
    (hQ : ∀ resp s', s'.agent = s.agent → s'.up = s.up →
      (resp.status ≠ 200 ∧ Mirrors rows₀ s' (o.send n) ∨ x = .answered ∧ Mirrors rows₀ s' (o.deliver n)) → Q resp s')
    (hE : ∀ s', s'.agent = s.agent → s'.up = s.up →
      (Mirrors rows₀ s' (o.send n) ∨ Mirrors rows₀ s' (o.deliver n)) → E .network s') :
    wp (roundTrip (newMux host auth fileServer) x (ingestRequest token batch)) Q E s := by
  have hpiece : batch.heartbeats = piece o.log o.acked (min (o.acked + n) o.log.length) := by
    rw [piece_eq_take]
    exact hbatch
  have hsent : Mirrors rows₀ { s with wire := ingestRequest token batch :: s.wire } (o.send n) := by
    refine { h with wire := fun r hr => ?_ }
    obtain rfl | hr := List.mem_cons.1 hr
    · exact ⟨_, List.mem_cons_self, token, batch, rfl, hne, hpiece⟩
    · obtain ⟨p, hp, hr⟩ := h.wire r hr
      exact ⟨p, List.mem_cons_of_mem _ hp, hr⟩
  have hprocessed := @Mirrors.process host auth fileServer token _ _ _ _ _ hsent List.mem_cons_self hne hpiece
  unfold roundTrip
  rw [wp_bind, wp_modify]
  cases x with
  | lost => exact hE _ rfl rfl (.inl hsent)
  | responseLost => exact hE _ rfl rfl (hprocessed.imp_left And.right)
  | turnedAway resp hresp => exact hQ _ _ rfl rfl (.inl ⟨hresp, hsent⟩)
  | answered => exact hQ _ _ rfl rfl (hprocessed.imp_right fun h => ⟨rfl, h⟩)

/-- What is stored is acked. -/
theorem wp_ack_mirrors {o₀ : Outbox Heartbeat} (hsteps : Outbox.Steps o₀ o) (h : Mirrors rows₀ s o)
    (hup : s.up = true) (hb : Buf.Benign s.agent) (hroom : Buf.Roomy s.agent o.unacked (.ack count))
    (hcount : o.acked + count.toNat ≤ o.stored) :
    wp (onAgent (Buf.ack count)) (fun _ => Mirrored rows₀ o₀) (fun e s' =>
      Mirrored rows₀ o₀ { s' with up := e != .buffer .crash }) s := by
  have hholds := h.holds hup
  have hvalid : ∀ e ∈ o.unacked.drop count.toNat, e.Valid := fun e he =>
    h.valid_log e (List.mem_of_mem_drop (List.mem_of_mem_drop he))
  have hacked (n) (hn : o.acked + n ≤ o.stored) : Outbox.Steps o₀ (o.ack n hn) := hsteps.tail (.ack n hn)
  have hadvanced (n fs) (hn : o.acked + n ≤ o.stored) (up : Bool) :
      Mirrors rows₀ { s with agent := Buf.advanced { s.agent with faults := fs } (o.unacked.take n), up := up }
        (o.ack n hn) := by
    have hnext := (hholds.tick fs).advanced n
    refine { h with file := h.file, holds := fun _ => ?_ }
    rw [Outbox.unacked, piece_append_take n o.kept_le, List.drop_drop] at hnext
    exact hnext
  have hackedTo (fs) :
      Mirrored rows₀ o₀ { s with agent := Buf.ackedTo count o.unacked { s.agent with faults := fs } } := by
    unfold Buf.ackedTo
    split
    · exact ⟨o, hsteps, h.agent rfl fun _ => hholds.tick fs⟩
    · next hpos =>
      split
      · next hhalf =>
        rw [Buf.keep_eq hvalid (hroom (Int.not_le.1 hpos) hhalf)]
        refine ⟨_, (hacked count.toNat hcount).tail .compact, { h with file := ?_, holds := fun _ => ?_ }⟩
        · rw [Outbox.unacked, List.drop_drop]
          rfl
        · show Buf.Holds (piece o.log (o.acked + count.toNat) (o.acked + count.toNat))
            (o.log.drop (o.acked + count.toNat)) _
          rw [piece_self, ← List.drop_drop]
          exact ⟨rfl, rfl, rfl⟩
      · exact ⟨_, hacked count.toNat hcount, hadvanced count.toNat fs hcount s.up⟩
  rw [wp_onAgent]
  refine Buf.wp_ack hb hholds.reading (fun fs hfs => hackedTo fs) (fun m' hdied => ?_) fun fs n hn hfs _ => ?_
  · obtain ⟨-, -, hfile | hfile⟩ := hdied
    · exact ⟨o, hsteps, h.died hfile⟩
    · obtain ⟨o', hsteps', h'⟩ := hackedTo s.agent.faults
      exact ⟨o', hsteps', h'.died hfile⟩
  · have hle : o.acked + n ≤ o.stored := by omega
    exact ⟨_, hacked n hle, hadvanced n fs hle true⟩

theorem wp_flush_mirrors (h : Mirrors rows₀ s o) (hup : s.up = true) (hb : Buf.Benign s.agent)
    (hroom : x = .answered → Roomy s) :
    wp (ship.flush onAgent (roundTrip (newMux host auth fileServer) x) now) (fun _ => Mirrored rows₀ o)
      (fun e s' => Mirrored rows₀ o { s' with up := e != .buffer .crash }) s := by
  have hholds := h.holds hup
  have hvalid : ∀ e ∈ o.unacked, e.Valid := fun e he => h.valid_log e (List.mem_of_mem_drop he)
  have hticked (fs) : Mirrors rows₀ { s with agent := { s.agent with faults := fs } } o :=
    h.agent rfl fun _ => hholds.tick fs
  have hup_again {s' : System} {o' : Outbox Heartbeat} (hs : Outbox.Steps o o') (h' : Mirrors rows₀ s' o')
      (hup' : s'.up = true) : Mirrored rows₀ o { s' with up := true } :=
    ⟨o', hs, h'.agent rfl fun _ => h'.holds hup'⟩
  have hsend : Outbox.Steps o (o.send batchLimit.toNat) := .single (.send _)
  rw [Shipper.flush, wp_bind, wp_onAgent]
  refine Buf.wp_unacked hb hholds.reading (fun fs hfs => ?_) fun e fs hfs he => ?_
  · rw [Heartbeat.map_sanitize hvalid, wp_ite]
    refine ⟨fun _ => (hticked fs).mirrored, fun hne => ?_⟩
    rw [wp_bind]
    refine wp_roundTrip_mirrors (hticked fs) hne rfl (fun resp s' hagent hup' h' => ?_) fun s' hagent hup' h' => ?_
    · rw [wp_bind, wp_ensure]
      obtain ⟨hstatus, h'⟩ | ⟨hanswered, h'⟩ := h'
      · exact ⟨fun hok => absurd (beq_iff_eq.1 hok) hstatus, fun _ => hup_again hsend h' (hup'.trans hup)⟩
      refine ⟨fun _ => ?_, fun _ => hup_again (.deliver o _) h' (hup'.trans hup)⟩
      have hcount : (((o.unacked.take batchLimit.toNat).length : Int)).toNat = min batchLimit.toNat o.unacked.length := by
        rw [Int.toNat_natCast, List.length_take]
      -- acking as many as were sent is acking a batch
      have hroomy : Buf.Roomy s'.agent o.unacked (.ack (o.unacked.take batchLimit.toNat).length) := by
        have h := hroom hanswered
        rw [Roomy, hholds.pending hvalid] at h
        rw [hagent]
        intro _ hhalf
        rw [hcount, ← List.take_eq_take_min] at hhalf
        rw [hcount, ← List.drop_eq_drop_min]
        exact h (by decide) hhalf
      have hstored : o.acked + (((o.unacked.take batchLimit.toNat).length : Int)).toNat ≤
          (o.deliver batchLimit.toNat).stored := by
        refine Nat.le_trans ?_ (Nat.le_max_right _ _)
        rw [hcount, Outbox.unacked, List.length_drop]
        have hlog : o.acked ≤ o.log.length := Nat.le_trans o.acked_le o.stored_le
        omega
      rw [wp_bind]
      refine wp_ack_mirrors (.deliver o _) h' (hup'.trans hup) ?_ hroomy hstored
      rw [hagent]
      exact hb.suffix hfs
    · obtain h' | h' := h'
      · exact hup_again hsend h' (hup'.trans hup)
      · exact hup_again (.deliver o _) h' (hup'.trans hup)
  · obtain ⟨rfl, -⟩ | ⟨rfl, -⟩ := he
    · exact ((hticked fs).died rfl).mirrored
    · exact hup_again .refl (hticked fs) hup

/-- A heartbeat is appended, and goes on the log, or the process dies. -/
theorem wp_append_mirrors {e : Heartbeat} (h : Mirrors rows₀ s o) (hvalid : e.Valid)
    (hfresh : ∀ h ∈ s.observed, h.id ≠ e.id) (hnew : ¬ s.server.db.heartbeats.Has e.id) (hup : s.up = true)
    (hb : Buf.Benign s.agent) (hfits : Buf.overflows s.agent.buf = false) :
    wp (onAgent (Buf.append e)) (fun _ s' => Mirrored rows₀ o { s' with promised := e :: s'.promised })
      (fun err s' => Mirrored rows₀ o { s' with up := err != .buffer .crash })
      { s with observed := e :: s.observed } := by
  have hobserved := h.observe hvalid hfresh hnew
  have hholds := h.holds hup
  have hlog : o.acked ≤ o.log.length := Nat.le_trans o.acked_le o.stored_le
  have hkept : (o.log ++ [e]).drop o.kept = o.log.drop o.kept ++ [e] :=
    List.drop_append_of_le_length (Nat.le_trans o.kept_le hlog)
  have hunacked : (o.write e).unacked = o.unacked ++ [e] := List.drop_append_of_le_length hlog
  have hfile : s.agent.file ++ Buf.line e = Buf.encode ((o.write e).log.drop (o.write e).kept) := by
    refine Eq.trans ?_ (congrArg Buf.encode hkept.symm)
    rw [h.file]
    simp
  have hwritten {m : Machine} {up : Bool} {promised : List Heartbeat} (hm : m.file = s.agent.file ++ Buf.line e)
      (hholds : up = true → Buf.Holds (piece o.log o.kept o.acked) (o.unacked ++ [e]) m)
      (hpromised : promised.reverse.Sublist (o.log ++ [e])) :
      Mirrored rows₀ o { s with agent := m, up := up, observed := e :: s.observed, promised := promised } := by
    refine ⟨o.write e, .single (.write e), { hobserved with
      order := ?_, promised := hpromised, rows := ?_, wire := fun r hr => ?_, file := hm.trans hfile,
      holds := fun hup => ?_ }⟩
    · rw [List.reverse_cons]
      exact h.order.append_right [e]
    · show InRows rows₀ ((o.log ++ [e]).take o.stored) _
      rw [List.take_append_of_le_length o.stored_le]
      exact h.rows
    · obtain ⟨p, hp, token, batch, hr, hne, hbatch⟩ := h.wire r hr
      exact ⟨p, hp, token, batch, hr, hne, hbatch.trans (piece_append (o.sent_le p hp).2).symm⟩
    · rw [hunacked]
      show Buf.Holds (piece (o.log ++ [e]) o.kept o.acked) _ _
      rw [piece_append hlog]
      exact hholds hup
  rw [wp_onAgent]
  refine Buf.wp_append_fits hb hholds.isOpen hfits (fun fs hfs => ?_) fun m' hdied => ?_
  · refine hwritten rfl (fun _ => (hholds.tick fs).appended e) ?_
    rw [List.reverse_cons]
    exact h.promised.append_right [e]
  · obtain ⟨-, -, hold | hnew⟩ := hdied
    · exact (hobserved.died hold).mirrored
    · exact hwritten hnew (fun hup => absurd hup (by decide)) (h.promised.trans (List.sublist_append_left _ _))

/-- The process is started, and knows of no ack. -/
theorem wp_restart_mirrors {maxBytes : Int} (h : Mirrors rows₀ s o) (hb : Buf.Benign s.agent) :
    wp (onAgent (Buf.openBuffer maxBytes)) (fun _ s' => Mirrored rows₀ o { s' with up := true })
      (fun _ s' => Mirrored rows₀ o { s' with up := false }) s := by
  rw [wp_onAgent]
  refine Buf.wp_sys hb (fun fs _ => ?_) fun fs _ _ => ⟨o, .refl, h.died rfl⟩
  refine ⟨o.restart, .single .restart, { h with holds := fun _ => ?_ }⟩
  show Buf.Holds (piece o.log o.kept o.kept) (o.log.drop o.kept) _
  rw [piece_self]
  exact ⟨h.file, rfl, rfl⟩

/-- **One step of the system is some steps of the outbox.** -/
theorem mirrored_step {s' : System} (h : Mirrors rows₀ s o)
    (hstep : Step (newMux host auth fileServer) ship Roomy s s') : Mirrored rows₀ o s' := by
  cases hstep with
  | append e faults hb hup hvalid hfresh hnew hfits =>
    have h := wp_append_mirrors (h.schedule faults) hvalid hfresh hnew hup hb hfits
    unfold append
    unfold wp at h
    split at h <;> next heq => simpa only [heq] using h
  | flush x now faults hb hup hroom =>
    have h := @wp_flush_mirrors host auth fileServer _ _ _ _ ship now (h.schedule faults) hup hb hroom
    unfold flush
    unfold wp at h
    split at h <;> next heq => simpa only [heq] using h
  | restart maxBytes faults hb =>
    have h := @wp_restart_mirrors _ _ _ maxBytes (h.schedule faults) hb
    unfold restart
    unfold wp at h
    split at h <;> next heq => simpa only [heq] using h
  | replay r hr =>
    obtain ⟨p, hp, token, batch, rfl, hne, hbatch⟩ := h.wire r hr
    obtain ⟨-, h'⟩ | h' := @Mirrors.process host auth fileServer token _ _ _ _ _ h hp hne hbatch
    · exact h'.mirrored
    · exact ⟨_, .single (.arrive p hp), h'⟩

theorem mirrors_start (maxBytes : Int) (w : World) : Mirrors w.db.heartbeats.rows (start maxBytes w) .empty := by
  have hnone {P : Heartbeat → Prop} : ∀ h ∈ ([] : List Heartbeat), P h := fun h hh => absurd hh List.not_mem_nil
  exact ⟨hnone, .nil, hnone, .slnil, .slnil, ⟨[], (List.append_nil _).symm, .nil⟩, fun r hr =>
    absurd hr List.not_mem_nil, rfl, fun _ => ⟨rfl, rfl, rfl⟩⟩

/-- **Every run.** -/
theorem mirrored_reachable {s' : System} (h : Mirrors rows₀ s o)
    (hreach : Reachable (newMux host auth fileServer) ship Roomy s s') : Mirrored rows₀ o s' := by
  induction hreach with
  | refl => exact h.mirrored
  | tail _ hstep ih =>
    obtain ⟨o', hsteps, h'⟩ := ih
    exact (mirrored_step h' hstep).after hsteps

end System

/-- The log of a system: of its heartbeats in the order of their appends, the
first `stored` are the rows, in this order, and those from `acked` on are
unacked in the agent's file. -/
structure LogStored (rows₀ : List HeartbeatRow) (s : System) (log : List Heartbeat) (acked stored : Nat) : Prop where
  order : log.Sublist s.observed.reverse
  promised : s.promised.reverse.Sublist log
  acked_le : acked ≤ stored
  stored_le : stored ≤ log.length
  rows : InRows rows₀ (log.take stored) s.server.db
  pending : s.up = true → Buf.pending s.agent = log.drop acked

theorem Mirrors.logStored (h : Mirrors rows₀ s o) : LogStored rows₀ s o.log o.acked o.stored :=
  ⟨h.order, h.promised, o.acked_le, o.stored_le, h.rows, fun hup => (h.holds hup).pending fun e he =>
    h.valid_log e (List.mem_of_mem_drop he)⟩

/-- **Stored in order and without a gap**, at every point of a run: later the
log is longer and more of it is stored. -/
theorem in_order (host : Host) (auth : AdminAuth) (fileServer : Request → Nat × Bytes) (ship : Shipper)
    (maxBytes : Int) (w : World) (s s' : System)
    (h : System.Reachable (newMux host auth fileServer) ship System.Roomy (.start maxBytes w) s)
    (h' : System.Reachable (newMux host auth fileServer) ship System.Roomy s s') :
    ∃ log acked stored log' acked' stored', LogStored w.db.heartbeats.rows s log acked stored ∧
      LogStored w.db.heartbeats.rows s' log' acked' stored' ∧ log <+: log' ∧ stored ≤ stored' := by
  obtain ⟨o, -, hm⟩ := System.mirrored_reachable (System.mirrors_start maxBytes w) h
  obtain ⟨o', hsteps, hm'⟩ := System.mirrored_reachable hm h'
  exact ⟨_, _, _, _, _, _, hm.logStored, hm'.logStored, hsteps.grows.log, hsteps.grows.stored⟩

/-- Three appends, and a flush whose response is lost. -/
theorem in_order_response_lost : ∃ s s' log acked stored log' acked' stored', s.promised ≠ [] ∧
    LogStored oneDevice.db.heartbeats.rows s log acked stored ∧
    LogStored oneDevice.db.heartbeats.rows s' log' acked' stored' ∧ log <+: log' ∧ stored ≤ stored' := by
  obtain ⟨s, hfilled, hreach⟩ := @System.reach_filled (newMux insertionHost ⟨[]⟩ fun _ => (404, [])) ⟨str "t"⟩
    System.Roomy 3 (by decide)
  have hflush : System.Reachable (newMux insertionHost ⟨[]⟩ fun _ => (404, [])) ⟨str "t"⟩ System.Roomy s _ :=
    .single (.flush .responseLost 0 [] System.benign_nil hfilled.up fun h => nomatch h)
  have hmem := hfilled.promised (mem_firstNumbered.2 ⟨0, by decide, rfl⟩)
  exact ⟨s, _, (in_order insertionHost ⟨[]⟩ (fun _ => (404, [])) ⟨str "t"⟩ 0x4000000000000000 oneDevice s _ hreach
    hflush).imp fun _ h => h.imp fun _ h => h.imp fun _ h => h.imp fun _ h => h.imp fun _ h => h.imp fun _ h =>
    ⟨List.ne_nil_of_mem hmem, h⟩⟩

end ScrewLogger
