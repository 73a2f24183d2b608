/-
A batch and the limit of the server's request body.

Three limits meet: 4096 bytes of a sample's line, 500 heartbeats of a batch and
1 MiB of a body. `batch_accepted_iff`: a batch is taken just if its app names, as
JSON escapes them, leave room for the rest. Where they do not, the flush changes
nothing and the next one sends the same batch: `long_names_refused` is 500
heartbeats of a name of 4000 bytes.
-/
import ScrewLogger.Agent.RunSamples
import ScrewLogger.Agent.Torn
import Mathlib.Algebra.Order.BigOperators.Group.List

namespace ScrewLogger
open Lib Lib.Eff Lib.Json

/-- The bytes of a batch of entries of samples. -/
def batchBytes (hbs : List Heartbeat) (now : Int64) : Nat :=
  (hbs.map fun h =>
    (quoteBody h.app).length + (formatInt h.ts.toInt).length + (writeBool h.active).length + 98).sum +
      (formatInt now.toInt).length + 53

/-- The entries of the next batch. -/
def Agent.batch (a : Agent) : List Heartbeat := (Buf.pending a.machine).take batchLimit.toNat

/-- The names of the next batch leave room for the rest of the body. -/
def Agent.Fits (a : Agent) (now : Int64) : Prop := batchBytes a.batch now ≤ maxIngestBody

/-- The request that uploads the next batch. -/
def Agent.upload (a : Agent) (token : Bytes) (now : Int64) : Request :=
  ingestRequest token ⟨schemaVersion, now, a.batch⟩

/-- Nothing fails at the server, and the token is an unrevoked device's. -/
structure Welcomes (host : Host) (token : Bytes) (w : World) : Prop where
  quiet : Store.Quiet w
  nonempty : token ≠ []
  device : ∃ d, w.db.devices.rows.find? (·.tokenHash == Store.hashToken host token) = some d ∧ d.revokedAt = none

/-- The server answers 200 whenever it can. -/
structure TakenBy (host : Host) (token : Bytes) (r : Request) : Prop where
  size : r.body.data.length ≤ maxIngestBody
  answer : ∀ w, Welcomes host token w → ((ingestHandler host).serve r w).1.status = 200

/-! ## The size of a body -/

theorem length_marshal_sampled {hbs : List Heartbeat} {now : Int64} (hne : hbs ≠ []) (h : ∀ e ∈ hbs, Sampled e) :
    (IngestBatch.marshal ⟨schemaVersion, now, hbs⟩).length = batchBytes hbs now := by
  have hentries : ∀ {l : List Heartbeat}, (∀ e ∈ l, Sampled e) →
      (l.map fun e => e.marshal.length).sum + l.length = (l.map fun e =>
        (quoteBody e.app).length + (formatInt e.ts.toInt).length + (writeBool e.active).length + 98).sum := by
    intro l
    induction l with
    | nil => exact fun _ => rfl
    | cons e l ih =>
      intro hl
      obtain ⟨he, hl⟩ := List.forall_mem_cons.1 hl
      have ih := ih hl
      simp only [List.map_cons, List.sum_cons, List.length_cons, he.length_marshal]
      omega
  have hversion : (formatInt schemaVersion.toInt).length = 1 := by decide
  have hsum := hentries h
  rw [IngestBatch.length_marshal hne, batchBytes]
  simp only [hversion]
  omega

/-! ## What the server makes of it -/

/-- A body past the limit is no batch. -/
theorem decode_past_limit {token : Bytes} {batch : IngestBatch} (hne : batch.heartbeats ≠ [])
    (hlong : maxIngestBody < batch.marshal.length) :
    IngestBatch.decode ((ingestRequest token batch).body.limit maxIngestBody) = none := by
  have hsplit : batch.marshal = batch.marshal.take maxIngestBody ++ batch.marshal.drop maxIngestBody :=
    (List.take_append_drop _ _).symm
  have hrest : batch.marshal.drop maxIngestBody ≠ [] := by
    intro hnil
    have hlength := congrArg List.length hnil
    rw [List.length_drop, List.length_nil] at hlength
    omega
  have hbody : (ingestRequest token batch).body.limit maxIngestBody = ⟨batch.marshal.take maxIngestBody, true⟩ := by
    rw [Reader.limit, if_neg (by simp only [ingestRequest]; omega)]
    rfl
  rw [hbody, IngestBatch.decode, (IngestBatch.objectText_marshal hne).decodeFirst_torn hsplit hrest]
  rfl

/-- So it is not taken, whatever the server's state is. -/
theorem refused_past_limit (host : Host) {token : Bytes} {batch : IngestBatch} (w : World)
    (hne : batch.heartbeats ≠ [])
    (hlong : maxIngestBody < batch.marshal.length) :
    ((ingestHandler host).serve (ingestRequest token batch) w).1.status ≠ 200 := by
  have h : IngestEnds host (ingestRequest token batch) w _ _ := Answer.run_iff.2 (ends_ingestHandler host _ w)
  intro h200
  cases h with
  | refused status msg body same => exact status h200
  | accepted status sessions d decoded now h =>
    exact absurd (h.decoded.symm.trans (decode_past_limit hne hlong)) (by simp)

theorem taken_within_limit {host : Host} {token : Bytes} {batch : IngestBatch} {w : World}
    (hne : batch.heartbeats ≠ [])
    (hversion : batch.schemaVersion = schemaVersion) (hfits : batch.marshal.length ≤ maxIngestBody)
    (hw : Welcomes host token w) : ((ingestHandler host).serve (ingestRequest token batch) w).1.status = 200 := by
  obtain ⟨d, hd, hrev⟩ := hw.device
  have hbody : (ingestRequest token batch).body.limit maxIngestBody = ⟨batch.marshal, false⟩ := if_pos hfits
  have hdecode := IngestBatch.decode_marshal hne [] false
  rw [List.append_nil] at hdecode
  exact @ingestHandler_quiet host _ w token d batch.sanitize hw.quiet rfl (bearerToken_ingestRequest hw.nonempty) hd hrev
    (hbody ▸ hdecode) hversion

/-- **A batch is taken** just if its bytes are within the limit. -/
theorem takenBy_iff {host : Host} {token : Bytes} {batch : IngestBatch} (hne : batch.heartbeats ≠ [])
    (hversion : batch.schemaVersion = schemaVersion) :
    TakenBy host token (ingestRequest token batch) ↔ batch.marshal.length ≤ maxIngestBody := by
  constructor
  · intro h
    exact h.size
  · intro hfits
    exact ⟨hfits, fun w hw => taken_within_limit hne hversion hfits hw⟩

namespace Agent

variable {a : Agent}

theorem Ready.batch (h : Ready a) : ∃ acked q, Buf.Holds acked q a.machine ∧ (∀ e ∈ q, Sampled e) ∧
    a.batch = Shipper.nextBatch q ∧ ∀ e ∈ a.batch, Sampled e := by
  obtain ⟨acked, q, hholds, hq⟩ := h.holds
  have hbatch : a.batch = Shipper.nextBatch q := by rw [Agent.batch, hholds.pending_sanitize, Shipper.nextBatch]
  refine ⟨acked, q, hholds, hq, hbatch, fun e he => ?_⟩
  rw [hbatch] at he
  obtain ⟨e', he', rfl⟩ := List.mem_map.1 (List.mem_of_mem_take he)
  exact (hq e' he').sanitize

/-- A flush that is refused changes nothing. -/
theorem Ready.flush_refused {s : Shipper} {now : Int64} {answer : Request → Except FlushError Response}
    {resp : Response}
    (h : Ready a) (hne : a.batch ≠ []) (hanswer : answer (a.upload s.token now) =
      .ok resp) (hstatus : resp.status ≠ 200) :
    s.flushBy answer now a.machine = (.error (.status resp.status), a.machine) := by
  obtain ⟨acked, q, hholds, hq, hbatch, -⟩ := h.batch
  rw [upload, hbatch] at hanswer
  rw [Shipper.flushBy_eq hholds.reading h.lines.faults (kind_sampled.all_short hq), if_neg (hbatch ▸ hne), hanswer]
  exact if_neg hstatus

end Agent

/-- **A batch of samples is taken** just if its names leave room in the body;
where they do not, a flush is refused and leaves the buffer as it was. -/
theorem batch_accepted_iff (host : Host) (maxBytes : Int) (events : List Agent.Event) (s : Shipper) (now : Int64)
    (hevents : ∀ e ∈ events, e.Genuine) (hne : (Agent.run [] maxBytes events).batch ≠ []) :
    let a := Agent.run [] maxBytes events
    (Buf.unacked batchLimit a.machine).1 = .ok a.batch ∧
      (TakenBy host s.token (a.upload s.token now) ↔ a.Fits now) ∧
      (¬ a.Fits now → ∀ w, ∃ code ≠ 200,
        s.flushBy (fun r => .ok ((ingestHandler host).serve r w).1) now a.machine =
          (.error (.status code), a.machine)) := by
  intro a
  have hready : Agent.Ready a := Agent.sampled_run maxBytes hevents
  obtain ⟨acked, q, hholds, hq, hbatch, hsampled⟩ := hready.batch
  have hlength : (IngestBatch.marshal ⟨schemaVersion, now, a.batch⟩).length = batchBytes a.batch now :=
    length_marshal_sampled hne hsampled
  refine ⟨?_, ?_, fun hlong w => ?_⟩
  · rw [hbatch]
    exact congrArg Prod.fst (hholds.reading.step_unacked hready.lines.faults (kind_sampled.all_short hq) batchLimit)
  · rw [Agent.upload, takenBy_iff hne rfl, hlength]
    exact Iff.rfl
  · have hlong : maxIngestBody < (IngestBatch.marshal ⟨schemaVersion, now, a.batch⟩).length := by
      rw [hlength]
      exact Nat.lt_of_not_le hlong
    have hstatus := @refused_past_limit host s.token ⟨schemaVersion, now, a.batch⟩ w hne hlong
    exact ⟨_, hstatus, hready.flush_refused hne rfl hstatus⟩

/-! ## Two runs -/

/-- A UUID. -/
def someUuid : Bytes := str "123e4567-e89b-12d3-a456-426614174000"

theorem isUuid_someUuid : IsUuid someUuid := ⟨by decide, by decide⟩

theorem welcomes_oneDevice : Welcomes insertionHost (str "t") oneDevice := ⟨rfl, by decide, deviceT, by decide, rfl⟩

/-- Samples of two apps, a flush that fails, a new start and one more sample. -/
def severalSamples : List Agent.Event :=
  [.sample (Sample.marshal ⟨str "a.exe", true⟩) .epoch someUuid,
    .sample (Sample.marshal ⟨str "b.exe", true⟩) .epoch someUuid,
    .flush ⟨str "t"⟩ (fun _ => .error .network) 0, .restart 1000,
    .sample (Sample.marshal ⟨str "b.exe", false⟩) .epoch someUuid]

theorem several_samples_accepted :
    let a := Agent.run [] 1000 severalSamples
    a.batch.length = 3 ∧ TakenBy insertionHost (str "t") (a.upload (str "t") 0) := by
  intro a
  have hlength : a.batch.length = 3 := by decide +kernel
  have hgenuine : ∀ e ∈ severalSamples, e.Genuine := by
    simp only [severalSamples, List.forall_mem_cons]
    exact ⟨⟨by decide, isUuid_someUuid⟩, ⟨by decide, isUuid_someUuid⟩, trivial, trivial,
      ⟨by decide, isUuid_someUuid⟩, fun _ h => absurd h List.not_mem_nil⟩
  have hne : a.batch ≠ [] := by
    intro hnil
    rw [hnil] at hlength
    cases hlength
  refine ⟨hlength, (batch_accepted_iff insertionHost 1000 _ ⟨str "t"⟩ 0 hgenuine hne).2.1.2 ?_⟩
  show batchBytes a.batch 0 ≤ maxIngestBody
  decide +kernel

/-- The moment `n` keep-alives after the epoch. -/
def keepAliveAt (n : Nat) : Time :=
  if h : (n : Int) < 0x8000000000 then
    ⟨n * defaultKeepAlive, by unfold defaultKeepAlive Time.second; omega, by unfold defaultKeepAlive Time.second; omega⟩
  else .epoch

theorem nanos_keepAliveAt {n : Nat} (hn : n ≤ 1000) : (keepAliveAt n).nanos = n * defaultKeepAlive := by
  have hlt : (n : Int) < 0x8000000000 := by omega
  unfold keepAliveAt
  split
  · rfl
  · omega

/-- A sample of the name at each keep-alive. -/
def namedSamples (name : Bytes) (n : Nat) : List Agent.Event :=
  (List.range n).map fun i => .sample (Sample.marshal ⟨name, true⟩) (keepAliveAt i) someUuid

/-- The entry of one of them. -/
def namedEntry (name : Bytes) (i : Nat) : Heartbeat where
  id := someUuid
  ts := (keepAliveAt i).unix
  app := name
  category := Agent.uncategorized
  active := true

/-- A plain name of 4000 bytes. -/
structure Long (name : Bytes) : Prop where
  plain : Plain name
  length : name.length = 4000

variable {name : Bytes}

theorem Long.quoteBody (h : Long name) : (quoteBody name).length = 4000 := by rw [h.plain.quoteBody, h.length]

theorem Long.ne_nil (h : Long name) : name ≠ [] := by
  intro hnil
  have hlength := h.length
  rw [hnil] at hlength
  cases hlength

theorem Long.sampled (h : Long name) (i : Nat) : Sampled (namedEntry name i) := by
  refine ⟨isUuid_someUuid, rfl, ?_⟩
  show (Json.quoteBody name).length ≤ _
  rw [h.quoteBody]
  decide

theorem Long.sanitize (h : Long name) (i : Nat) : (namedEntry name i).sanitize = namedEntry name i := by
  refine Heartbeat.sanitize_eq_self ⟨?_, ?_, ?_⟩
  · exact isUuid_someUuid.plain.valid
  · exact h.plain.valid
  · show validUtf8 Agent.uncategorized = true
    decide

theorem Long.decode (h : Long name) : decodeSample (Sample.marshal ⟨name, true⟩) = .ok ⟨name, true⟩ := by
  have hsanitize : Sample.sanitize ⟨name, true⟩ = ⟨name, true⟩ := by rw [Sample.sanitize,
    toValid_eq_self h.plain.valid]
  exact (decode_encode ⟨name, true⟩ h.ne_nil).trans (by rw [hsanitize])

theorem Long.length_line (h : Long name) : (Sample.marshal ⟨name, true⟩).length < maxSampleLine := by
  have hkeys : (quote (str "app")).length = 5 ∧ (quote (str "active")).length = 8 ∧
    (writeBool true).length = 4 := by decide
  obtain ⟨h₁, h₂, h₃⟩ := hkeys
  simp only [Sample.marshal, writeObject, List.map_cons, List.map_nil, List.length_cons, List.length_append,
    List.length_nil, length_joinWith, writeMember, List.sum_cons, List.sum_nil, h₁, h₂, h₃, length_quote, h.quoteBody]
  decide

/-- The agent once `n` of the samples have arrived. -/
structure Filling (name : Bytes) (n : Nat) (a : Agent) : Prop where
  holds : Buf.Holds [] ((List.range n).map (namedEntry name)) a.machine
  faults : a.machine.faults = []
  maxBytes : a.machine.buf.maxBytes = 1000000000
  size : a.machine.buf.size = a.machine.file.length
  keepAlive : a.builder.keepAlive = defaultKeepAlive
  lastEmit : ∀ m, n = m + 1 → a.builder.lastEmit = keepAliveAt m
  started : n = 0 → a.builder.started = false

theorem Long.length_encode (h : Long name) (n : Nat) :
    (Buf.encode ((List.range n).map (namedEntry name))).length ≤ 5000 * n := by
  induction n with
  | zero => exact Nat.le_refl 0
  | succ n ih =>
    have hentry := (h.sampled n).length_marshal
    have hts := length_formatInt_le (namedEntry name n).ts
    have hactive := length_writeBool_le (namedEntry name n).active
    have hname : (Json.quoteBody (namedEntry name n).app).length = 4000 := h.quoteBody
    rw [List.range_succ, List.map_append, Buf.encode_append, List.length_append, List.map_singleton, Buf.encode_cons,
      Buf.encode_nil, List.append_nil, Buf.line_length]
    omega

/-- Each of the samples is due: the last entry is a keep-alive old. -/
theorem Filling.step {n : Nat} {a : Agent} (hname : Long name) (h : Filling name n a) (hn : n ≤ 1000) :
    Filling name (n + 1) (a.step [] (.sample (Sample.marshal ⟨name, true⟩) (keepAliveAt n) someUuid)) := by
  have hdue : a.builder.due ⟨keepAliveAt n, name, true⟩ = true := by
    cases n with
    | zero =>
      rw [HeartbeatBuilder.due, h.started rfl, Bool.not_false, Bool.true_or, Bool.true_or, Bool.true_or]
    | succ m =>
      have hold : a.builder.keepAlive ≤ (keepAliveAt (m + 1)).sub a.builder.lastEmit := by
        rw [h.lastEmit m rfl, h.keepAlive, Time.le_sub (by decide) (by decide), nanos_keepAliveAt hn,
          nanos_keepAliveAt (n := m) (by omega)]
        unfold defaultKeepAlive Time.second
        omega
      rw [HeartbeatBuilder.due, decide_eq_true hold, Bool.or_true]
  have hstep : a.step [] (.sample (Sample.marshal ⟨name, true⟩) (keepAliveAt n) someUuid) =
      { builder := a.builder.emitted ⟨keepAliveAt n, name, true⟩,
        machine := (Buf.append (namedEntry name n) a.machine).2 } := by
    rw [Agent.step, hname.decode]
    simp only [Agent.observe, HeartbeatBuilder.observe, if_pos hdue]
    rfl
  have hfile := h.holds.file
  rw [List.nil_append] at hfile
  have hover : Buf.overflows a.machine.buf = false := by
    have hlength := hname.length_encode n
    rw [Buf.overflows, decide_eq_false_iff_not, h.maxBytes, h.size, hfile]
    omega
  have happend : (Buf.append (namedEntry name n) a.machine).2 = Buf.appended (namedEntry name n) a.machine := by
    have hcall := Buf.step_append_fits (h := namedEntry name n) h.faults h.holds.isOpen hover
    rw [← snd_map]
    exact congrArg Prod.snd hcall
  rw [happend] at hstep
  rw [hstep]
  refine ⟨⟨?_, ?_, ?_⟩, h.faults, ?_, ?_, h.keepAlive, ?_, fun hzero => absurd hzero n.succ_ne_zero⟩
  · show a.machine.file ++ Buf.line (namedEntry name n) = _
    rw [hfile, List.range_succ, List.map_append, List.map_singleton]
    simp
  · exact (Buf.appended_ackedOff _ _).trans h.holds.ackedOff
  · exact (Buf.appended_isOpen _ _).trans h.holds.isOpen
  · exact (Buf.appended_maxBytes _ _).trans h.maxBytes
  · show a.machine.buf.size + _ = (a.machine.file ++ _).length
    rw [h.size, List.length_append]
  · intro m hm
    obtain rfl := Nat.succ.inj hm
    simp only [HeartbeatBuilder.emitted]

theorem Long.filling (h : Long name) (n : Nat) (hn : n ≤ 1000) :
    Filling name n (Agent.run [] 1000000000 (namedSamples name n)) := by
  induction n with
  | zero => exact ⟨⟨rfl, rfl, rfl⟩, rfl, rfl, rfl, rfl, fun _ hm => by (cases hm), fun _ => rfl⟩
  | succ n ih =>
    rw [namedSamples, List.range_succ, List.map_append, Agent.run, List.foldl_append]
    exact (ih (by omega)).step h (by omega)

/-- The batch of 500 of them. -/
theorem Long.batch (h : Long name) :
    (Agent.run [] 1000000000 (namedSamples name 500)).batch = (List.range 500).map (namedEntry name) := by
  have hsanitize : ((List.range 500).map (namedEntry name)).map Heartbeat.sanitize =
    (List.range 500).map (namedEntry name) := by
    rw [List.map_map]
    exact List.map_congr_left fun i _ => h.sanitize i
  rw [Agent.batch, (h.filling 500 (by decide)).holds.pending_sanitize, hsanitize, List.take_of_length_le]
  simp [batchLimit]

theorem Long.past_limit (h : Long name) : maxIngestBody <
    (IngestBatch.marshal ⟨schemaVersion, 0, (List.range 500).map (namedEntry name)⟩).length := by
  have hne : (List.range 500).map (namedEntry name) ≠ [] := by simp
  have hsampled : ∀ e ∈ (List.range 500).map (namedEntry name), Sampled e := by
    rw [List.forall_mem_map]
    exact fun i _ => h.sampled i
  have hsum := List.card_nsmul_le_sum (((List.range 500).map (namedEntry name)).map fun h =>
    (Json.quoteBody h.app).length + (formatInt h.ts.toInt).length + (writeBool h.active).length + 98) 4000 (by
      rw [List.map_map, List.forall_mem_map]
      intro i _
      show 4000 ≤ (Json.quoteBody name).length + _ + _ + 98
      rw [h.quoteBody]
      omega)
  rw [List.length_map, List.length_map, List.length_range, smul_eq_mul] at hsum
  rw [length_marshal_sampled hne hsampled, batchBytes]
  have hlimit : maxIngestBody = 1048576 := rfl
  omega

/-- A name of 4000 times `a`. -/
def longName : Bytes := List.replicate 4000 0x61

theorem long_longName : Long longName where
  plain c hc := by
    rw [List.eq_of_mem_replicate hc]
    decide
  length := List.length_replicate

/-- **Five hundred samples of a long name**: the body is past the limit, so that
the server refuses it, and the agent has it all still to send. -/
theorem long_names_refused :
    let a := Agent.run [] 1000000000 (namedSamples longName 500)
    (Sample.marshal ⟨longName, true⟩).length < maxSampleLine ∧ a.batch.length = 500 ∧
      Welcomes insertionHost (str "t") oneDevice ∧
      ((ingestHandler insertionHost).serve (a.upload (str "t") 0) oneDevice).1.status ≠ 200 ∧
      ¬ TakenBy insertionHost (str "t") (a.upload (str "t") 0) := by
  intro a
  have hbatch : a.batch = (List.range 500).map (namedEntry longName) := long_longName.batch
  have hne : (List.range 500).map (namedEntry longName) ≠ [] := by simp
  have hlong := long_longName.past_limit
  have hrefused (hbs : List Heartbeat) (hne : hbs ≠ [])
      (hlong : maxIngestBody < (IngestBatch.marshal ⟨schemaVersion, 0, hbs⟩).length) :
      ((ingestHandler insertionHost).serve (ingestRequest (str "t") ⟨schemaVersion, 0, hbs⟩) oneDevice).1.status ≠ 200 :=
    refused_past_limit insertionHost oneDevice hne hlong
  refine ⟨long_longName.length_line, ?_, welcomes_oneDevice, ?_, fun htaken => ?_⟩
  · rw [hbatch, List.length_map, List.length_range]
  · rw [Agent.upload, hbatch]
    exact hrefused _ hne hlong
  · have hsize := htaken.size
    rw [Agent.upload, hbatch] at hsize
    exact absurd hsize (Nat.not_le.2 hlong)

end ScrewLogger
