/-
A backlog is uploaded.

While the server takes what it is sent, a flush uploads a batch if its body is
within the limit and nothing otherwise (`drain_step`): a backlog whose batches
are is gone after as many flushes as it has batches, and every heartbeat of it
is a row (`drained`), while a batch past the limit stays where it is with all
that are behind it (`leftBy_stuck`).
-/
import ScrewLogger.System.BatchSize
import ScrewLogger.System.InOrder

namespace ScrewLogger
open Lib Lib.Eff Lib.Json

/-! ## The server goes on welcoming -/

variable {host : Host} {auth : AdminAuth} {fileServer : Request → Nat × Bytes} {token : Bytes} {batch : IngestBatch}
  {w : World}

/-- An upload, taken or not, meets no failure. -/
theorem quiet_ingestRequest (hw : Welcomes host token w) :
    Store.Quiet ((ingestHandler host).serve (ingestRequest token batch) w).2 := by
  obtain ⟨d, hd, hrev⟩ := hw.device
  refine Answer.run_iff.2 (?_ : (ingestHandler host _).Ends (fun _ w' => Store.Quiet w') w)
  simp only [Answer.Ends, ingestHandler, wp_bind, wp_ensure, wp_fromOption, wp_mapError,
    bearerToken_ingestRequest hw.nonempty, Option.some.injEq, forall_eq', reduceCtorEq, false_implies, and_true]
  refine ⟨fun _ => ?_, fun _ => hw.quiet⟩
  refine (Store.deviceIDByToken_quiet host hw.quiet hd hrev).mono (fun id w₁ h => ?_) fun _ _ h => h.elim
  obtain ⟨hid, hq₁, hdb₁⟩ := h
  have hhas : w₁.db.devices.Has id := by
    rw [hdb₁, hid]
    exact Table.has_iff.2 ⟨d, List.mem_of_find?_eq_some hd, rfl⟩
  exact ⟨fun decoded _ => ⟨fun _ => (Store.insertHeartbeats_quiet _ _ hq₁ hhas).mono (fun _ _ h => h)
    fun _ _ h => h.elim, fun _ => hq₁⟩, fun _ => hq₁⟩

/-- Being seen does not change whose a token is. -/
theorem Welcomes.after (hw : Welcomes host token w) :
    Welcomes host token ((ingestHandler host).serve (ingestRequest token batch) w).2 := by
  refine ⟨quiet_ingestRequest hw, hw.nonempty, ?_⟩
  have h : IngestEnds host (ingestRequest token batch) w _ _ := Answer.run_iff.2 (ends_ingestHandler host _ w)
  obtain ⟨d, hd, hrev⟩ := hw.device
  cases h with
  | refused status msg body same =>
    refine ⟨d, ?_, hrev⟩
    rw [Handler.serve, same.db]
    exact hd
  | accepted status sessions d' decoded now h =>
    have hsame : (fun d : Device => d.tokenHash == Store.hashToken host token) ∘
        (fun d => if d.id == d'.id then { d with lastSeen := some now } else d) =
        fun d => d.tokenHash == Store.hashToken host token := by
      funext d
      simp only [Function.comp]
      split <;> rfl
    refine ⟨if d.id == d'.id then { d with lastSeen := some now } else d, ?_, ?_⟩
    · rw [Handler.serve, h.stored.devices, List.find?_map, hsame, hd]
      rfl
    · split <;> exact hrev

/-! ## Flushes -/

/-- The batch a flush sends of the heartbeats. -/
def nextUpload (q : List Heartbeat) (now : Int64) : IngestBatch where
  schemaVersion := schemaVersion
  deviceSentAt := now
  heartbeats := q.take batchLimit.toNat

/-- What flushes at these times leave of the heartbeats, where all that is
within the limit is taken. -/
def leftBy : List Heartbeat → List Int64 → List Heartbeat
  | q, [] => q
  | q, now :: times =>
    if (nextUpload q now).marshal.length ≤ maxIngestBody then leftBy (q.drop batchLimit.toNat) times
    else leftBy q times

/-- Where every batch is within the limit, `k` flushes upload `k` batches. -/
theorem leftBy_eq_drop : ∀ {times : List Int64} {q : List Heartbeat},
    (∀ k, ∀ now ∈ times, (nextUpload (q.drop (k * batchLimit.toNat)) now).marshal.length ≤ maxIngestBody) →
    leftBy q times = q.drop (times.length * batchLimit.toNat)
  | [], q, _ => by simp [leftBy]
  | now :: times, q, hfits => by
    have hnow := hfits 0 now List.mem_cons_self
    rw [Nat.zero_mul, List.drop_zero] at hnow
    have hrest : ∀ k, ∀ now ∈ times,
        (nextUpload ((q.drop batchLimit.toNat).drop (k * batchLimit.toNat)) now).marshal.length ≤ maxIngestBody := by
      intro k now' hmem
      rw [List.drop_drop, Nat.add_comm, ← Nat.succ_mul]
      exact hfits (k + 1) now' (List.mem_cons_of_mem _ hmem)
    rw [leftBy, if_pos hnow, leftBy_eq_drop hrest, List.drop_drop, List.length_cons, Nat.succ_mul, Nat.add_comm]

/-- A batch past the limit keeps its place. -/
theorem leftBy_stuck {q : List Heartbeat} : ∀ {times : List Int64},
    (∀ now ∈ times, maxIngestBody < (nextUpload q now).marshal.length) → leftBy q times = q
  | [], _ => rfl
  | now :: times, hlong => by
    obtain ⟨hnow, hrest⟩ := List.forall_mem_cons.1 hlong
    rw [leftBy, if_neg (Nat.not_le.2 hnow), leftBy_stuck hrest]

/-- What is left after an ack, the rewrite of a file of so many entries included. -/
theorem Buf.Holds.ackedTo {acked q : List Heartbeat} {m : Machine} (count : Int) (h : Buf.Holds acked q m)
    (hvalid : ∀ e ∈ q, e.Valid) (hfew : q.length ≤ Buf.allEntries.toNat) :
    ∃ acked', Buf.Holds acked' (q.drop count.toNat) (Buf.ackedTo count q m) := by
  have hrest : ∀ e ∈ q.drop count.toNat, e.Valid := fun e he => hvalid e (List.mem_of_mem_drop he)
  have hlen : (q.drop count.toNat).length ≤ Buf.allEntries.toNat := by
    rw [List.length_drop]
    omega
  unfold Buf.ackedTo
  split
  · next hle =>
    rw [Int.toNat_of_nonpos hle, List.drop_zero]
    exact ⟨acked, h⟩
  · split
    · rw [Buf.keep_eq hrest hlen]
      exact ⟨[], rfl, rfl, rfl⟩
    · exact ⟨_, h.advanced count.toNat⟩

namespace System

variable {rows₀ : List HeartbeatRow} {s : System} {acked q : List Heartbeat} {ship : Shipper} {now : Int64}

/-- Flushes at these times, all of them answered. -/
def flushAll (server : Handler) (ship : Shipper) (times : List Int64) (s : System) : System :=
  times.foldl (fun s now => (s.schedule []).flush server ship .answered now) s

/-- A system with the backlog `q`, of a server that welcomes its uploads. -/
structure Draining (host : Host) (ship : Shipper) (s : System) (q : List Heartbeat) : Prop where
  up : s.up = true
  holds : ∃ acked, Buf.Holds acked q s.agent
  welcomes : Welcomes host ship.token s.server
  valid : ∀ e ∈ q, e.Valid
  short : q.all Buf.short = true
  few : q.length ≤ Buf.allEntries.toNat

/-- A flush that is answered acks what it sent after a 200, and leaves all as it was after another status. -/
theorem wp_flush_answered {server : Handler} (hholds : Buf.Holds acked q s.agent) (hvalid : ∀ e ∈ q, e.Valid)
    (hshort : q.all Buf.short = true) (hfaults : s.agent.faults = []) (hne : q ≠ []) :
    let served := server.serve (ingestRequest ship.token (nextUpload q now)) s.server
    wp (ship.flush onAgent (roundTrip server .answered) now)
      (fun _ s' => served.1.status = 200 ∧ s'.up = s.up ∧ s'.server = served.2 ∧
        s'.agent = Buf.ackedTo (q.take batchLimit.toNat).length q s.agent)
      (fun e s' => e = .status served.1.status ∧ served.1.status ≠ 200 ∧ s'.up = s.up ∧ s'.server = served.2 ∧
        s'.agent = s.agent) s := by
  intro served
  have hbatch : q.take batchLimit.toNat ≠ [] := by
    obtain ⟨e, q, rfl⟩ := List.exists_cons_of_ne_nil hne
    exact List.cons_ne_nil e _
  have hb : Buf.Benign s.agent := Buf.benign_of_nil hfaults
  rw [Shipper.flush, wp_bind, wp_onAgent]
  refine Buf.wp_unacked hb hholds.reading (fun fs hfs => ?_) fun e fs hfs he => ?_
  · rw [Buf.eq_of_suffix hfs hfaults, Heartbeat.map_sanitize hvalid, if_neg hbatch]
    unfold roundTrip
    simp only [wp_bind, wp_modify, wp_take, wp_ensure]
    refine ⟨fun h200 => ?_, fun hno => ⟨rfl, fun h => ?_, rfl, rfl, rfl⟩⟩
    · rw [wp_onAgent]
      refine Buf.wp_ack hb hholds.reading (fun fs hfs => ?_) (fun m' hdied => absurd hfaults hdied.1)
        fun _ _ _ _ hall => absurd (hshort.symm.trans hall) (by decide)
      exact ⟨beq_iff_eq.1 h200, rfl, rfl, congrArg (Buf.ackedTo _ q) (Buf.eq_of_suffix hfs hfaults)⟩
    · exact absurd (beq_iff_eq.2 h) (Bool.eq_false_iff.1 hno)
  · obtain ⟨-, hfs⟩ | ⟨-, hall⟩ := he
    · exact absurd hfaults hfs
    · exact absurd (hshort.symm.trans hall) (by decide)

/-- With nothing to send, nothing is. -/
theorem wp_flush_nothing {server : Handler} (hholds : Buf.Holds acked [] s.agent) (hfaults : s.agent.faults = []) :
    wp (ship.flush onAgent (roundTrip server .answered) now) (fun _ s' => s' = s) (fun _ _ => False) s := by
  rw [Shipper.flush, wp_bind, wp_onAgent]
  refine Buf.wp_unacked (Buf.benign_of_nil hfaults) hholds.reading (fun fs hfs => ?_) fun e fs hfs he => ?_
  · rw [Buf.eq_of_suffix hfs hfaults]
    rfl
  · obtain ⟨-, hfs⟩ | ⟨-, hall⟩ := he
    · exact hfs hfaults
    · exact absurd hall (by decide)

variable (auth : AdminAuth) (fileServer : Request → Nat × Bytes)

/-- The batch is taken if its body is within the limit. -/
theorem Draining.status_iff (now : Int64) (h : Draining host ship s q) (hne : q ≠ []) :
    ((newMux host auth fileServer).serve (ingestRequest ship.token (nextUpload q now)) s.server).1.status = 200 ↔
      (nextUpload q now).marshal.length ≤ maxIngestBody := by
  have hbatch : (nextUpload q now).heartbeats ≠ [] := by
    obtain ⟨e, q, rfl⟩ := List.exists_cons_of_ne_nil hne
    exact List.cons_ne_nil e _
  have hmux : (newMux host auth fileServer).serve (ingestRequest ship.token (nextUpload q now)) s.server =
      (ingestHandler host).serve (ingestRequest ship.token (nextUpload q now)) s.server := by
    rw [Handler.serve, newMux_ingestRequest, Handler.serve]
  rw [hmux]
  constructor
  · intro h200
    by_contra hlong
    exact refused_past_limit host s.server hbatch (Nat.not_le.1 hlong) h200
  · exact fun hfits => taken_within_limit hbatch rfl hfits h.welcomes

/-- **One flush.** -/
theorem Draining.flush (h : Draining host ship s q) :
    Draining host ship ((s.schedule []).flush (newMux host auth fileServer) ship .answered now) (leftBy q [now]) := by
  obtain ⟨acked, hholds⟩ := h.holds
  have hschedule : Buf.Holds acked q (s.schedule []).agent := hholds.tick []
  by_cases hnil : q = []
  · subst hnil
    have hleft : leftBy [] [now] = [] := by simp [leftBy]
    obtain ⟨_, s', hok, rfl⟩ := (wp_flush_nothing hschedule rfl).returns
    rw [flush_ok hok, hleft]
    exact ⟨h.up, ⟨acked, hschedule⟩, h.welcomes, h.valid, h.short, h.few⟩
  · have hwelcome : Welcomes host ship.token
        ((newMux host auth fileServer).serve (ingestRequest ship.token (nextUpload q now)) s.server).2 := by
      rw [Handler.serve, newMux_ingestRequest]
      exact h.welcomes.after
    have hstatus := h.status_iff auth fileServer now hnil
    have hrun := @wp_flush_answered _ _ _ ship now (newMux host auth fileServer) hschedule h.valid h.short rfl hnil
    have hcount : (((q.take batchLimit.toNat).length : Int)).toNat = min batchLimit.toNat q.length := by
      rw [Int.toNat_natCast, List.length_take]
    unfold System.flush
    unfold wp at hrun
    split at hrun
    · next heq =>
      obtain ⟨h200, hup, hserver, hagent⟩ := hrun
      have hleft : leftBy q [now] = q.drop batchLimit.toNat := if_pos (hstatus.1 h200)
      obtain ⟨acked', hacked⟩ := Buf.Holds.ackedTo (q.take batchLimit.toNat).length hschedule h.valid h.few
      rw [hcount, ← List.drop_eq_drop_min, ← hagent] at hacked
      simp only [heq]
      rw [hleft]
      refine ⟨hup.trans h.up, ⟨acked', hacked⟩, hserver ▸ hwelcome, fun e he => h.valid e (List.mem_of_mem_drop he),
        ?_, ?_⟩
      · exact List.all_eq_true.2 fun e he => List.all_eq_true.1 h.short e (List.mem_of_mem_drop he)
      · rw [List.length_drop]
        exact Nat.le_trans (Nat.sub_le _ _) h.few
    · next heq =>
      obtain ⟨rfl, hno, -, hserver, hagent⟩ := hrun
      have hleft : leftBy q [now] = q := if_neg fun hfits => hno (hstatus.2 hfits)
      simp only [heq]
      rw [hleft]
      exact ⟨rfl, ⟨acked, by rw [hagent]; exact hschedule⟩, hserver ▸ hwelcome, h.valid, h.short, h.few⟩

theorem leftBy_cons (q : List Heartbeat) (now : Int64) (times : List Int64) :
    leftBy q (now :: times) = leftBy (leftBy q [now]) times := by
  by_cases h : (nextUpload q now).marshal.length ≤ maxIngestBody <;> simp [leftBy, h]

/-- **Any flushes.** -/
theorem Draining.flushAll : ∀ {times : List Int64} {s : System} {q : List Heartbeat}, Draining host ship s q →
    Draining host ship (s.flushAll (newMux host auth fileServer) ship times) (leftBy q times)
  | [], _, _, h => h
  | now :: times, s, q, h => by
    rw [leftBy_cons]
    exact Draining.flushAll (h.flush auth fileServer)

theorem Draining.roomy (h : Draining host ship s q) : Roomy s := by
  obtain ⟨acked, hholds⟩ := h.holds
  intro _ _
  rw [hholds.pending h.valid, List.length_drop]
  exact Nat.le_trans (Nat.sub_le _ _) h.few

/-- Each flush is a step. -/
theorem Draining.reaches : ∀ (times : List Int64) {s : System} {q : List Heartbeat}, Draining host ship s q →
    Reachable (newMux host auth fileServer) ship Roomy s (s.flushAll (newMux host auth fileServer) ship times)
  | [], _, _, _ => .refl
  | now :: times, s, q, h => by
    refine .head (.flush .answered now [] benign_nil h.up fun _ => h.roomy) ?_
    exact Draining.reaches times (h.flush auth fileServer)

end System

/-- **A backlog is uploaded**, in as many flushes as it has batches: then no
heartbeat is unacked, and each of those promised is a row, in the order of the
appends. -/
theorem drained (host : Host) (auth : AdminAuth) (fileServer : Request → Nat × Bytes) (ship : Shipper)
    (maxBytes : Int) (w : World) (s : System) (times : List Int64) (hup : s.up = true)
    (hreach : System.Reachable (newMux host auth fileServer) ship System.Roomy (.start maxBytes w) s)
    (hwelcomes : Welcomes host ship.token s.server) (hshort : (Buf.pending s.agent).all Buf.short = true)
    (hfew : (Buf.pending s.agent).length ≤ Buf.allEntries.toNat)
    (hfits : ∀ k, ∀ now ∈ times,
      (nextUpload ((Buf.pending s.agent).drop (k * batchLimit.toNat)) now).marshal.length ≤ maxIngestBody)
    (htimes : (Buf.pending s.agent).length ≤ times.length * batchLimit.toNat) :
    let s' := s.flushAll (newMux host auth fileServer) ship times
    s'.up = true ∧ Buf.pending s'.agent = [] ∧
      ∃ log, InRows w.db.heartbeats.rows log s'.server.db ∧ s'.promised.reverse.Sublist log ∧
        log.Sublist s'.observed.reverse := by
  intro s'
  obtain ⟨o, -, hm⟩ := System.mirrored_reachable (System.mirrors_start maxBytes w) hreach
  have hvalid : ∀ e ∈ o.unacked, e.Valid := fun e he => hm.valid_log e (List.mem_of_mem_drop he)
  have hpending := (hm.holds hup).pending hvalid
  rw [hpending] at hshort hfew hfits htimes
  have hdraining : System.Draining host ship s o.unacked := ⟨hup, ⟨_, hm.holds hup⟩, hwelcomes, hvalid, hshort, hfew⟩
  have hdone : System.Draining host ship s' [] := by
    have h : System.Draining host ship s' (leftBy o.unacked times) := hdraining.flushAll auth fileServer
    rwa [leftBy_eq_drop hfits, List.drop_eq_nil_of_le htimes] at h
  obtain ⟨acked', hholds⟩ := hdone.holds
  obtain ⟨o', -, hm'⟩ := System.mirrored_reachable hm (hdraining.reaches auth fileServer times)
  refine ⟨hdone.up, hholds.pending hdone.valid, o'.log, ?_, hm'.promised, hm'.order⟩
  have hnone : o'.unacked = [] := by
    rw [← (hm'.holds hdone.up).pending fun e he => hm'.valid_log e (List.mem_of_mem_drop he)]
    exact hholds.pending hdone.valid
  have hall : o'.log.length ≤ o'.stored := Nat.le_trans (List.drop_eq_nil_iff.1 hnone) o'.acked_le
  have hrows := hm'.rows
  rwa [List.take_of_length_le hall] at hrows

/-- Three heartbeats, and one flush. -/
theorem drained_three : ∃ s : System, (Buf.pending s.agent).length = 3 ∧
    let s' := s.flushAll (newMux insertionHost ⟨[]⟩ fun _ => (404, [])) ⟨str "t"⟩ [0]
    s'.up = true ∧ Buf.pending s'.agent = [] ∧
      ∃ log, InRows oneDevice.db.heartbeats.rows log s'.server.db ∧ s'.promised.reverse.Sublist log ∧
        log.Sublist s'.observed.reverse := by
  obtain ⟨s, hfilled, hreach⟩ := @System.reach_filled (newMux insertionHost ⟨[]⟩ fun _ => (404, [])) ⟨str "t"⟩
    System.Roomy 3 (by decide)
  have hpending : Buf.pending s.agent = firstNumbered 3 := hfilled.holds.pending (valid_firstNumbered 3)
  have hshort : (Buf.pending s.agent).all Buf.short = true := by
    rw [hpending]
    refine List.all_eq_true.2 fun h hh => ?_
    obtain ⟨i, -, rfl⟩ := mem_firstNumbered.1 hh
    rw [Buf.short, length_numbered]
    decide
  have hfits : ∀ k, ∀ now ∈ [(0 : Int64)],
      (nextUpload ((Buf.pending s.agent).drop (k * batchLimit.toNat)) now).marshal.length ≤ maxIngestBody := by
    intro k now hnow
    obtain rfl := List.mem_singleton.1 hnow
    rw [hpending]
    cases k with
    | zero =>
      have hlimit : maxIngestBody = 1048576 := rfl
      have hlen := System.length_firstUpload (by decide : 0 < 3)
      have hupload : nextUpload (firstNumbered 3) 0 = System.firstUpload 3 := rfl
      rw [Nat.zero_mul, List.drop_zero, hupload]
      omega
    | succ k =>
      have hnone : (firstNumbered 3).drop ((k + 1) * batchLimit.toNat) = [] := by
        refine List.drop_eq_nil_of_le ?_
        show 3 ≤ (k + 1) * 500
        omega
      rw [hnone]
      decide
  have hwelcomes : Welcomes insertionHost (str "t") s.server := hfilled.server ▸ welcomes_oneDevice
  refine ⟨s, by rw [hpending]; rfl, ?_⟩
  exact drained insertionHost ⟨[]⟩ (fun _ => (404, [])) ⟨str "t"⟩ 0x4000000000000000 oneDevice s [0] hfilled.up hreach
    hwelcomes hshort (by rw [hpending]; decide) hfits (by rw [hpending]; decide)

end ScrewLogger
