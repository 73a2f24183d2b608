/-
The agent in service mode (`RunSamples`, `Observe`, `shipLoop`): samples go
through the heartbeat builder and the categorizer into the buffer, and a flush
uploads from it, between two samples.

`sampled_run`: with no rules, every entry of the buffer is one of a sample, whose
line the buffer's own scanner can read.
-/
import ScrewLogger.Agent.Accounting
import ScrewLogger.Agent.Categorize
import ScrewLogger.Agent.Heartbeat
import ScrewLogger.Agent.Sample
import ScrewLogger.Agent.Shipper

namespace ScrewLogger
open Lib Lib.Eff Lib.Json

/-- The builder, the buffer and the disk under it. -/
structure Agent where
  builder : HeartbeatBuilder
  machine : Machine

/-- The limit of `readClient` for a line of the pipe. -/
def maxSampleLine : Nat := 4096

/-- A character of a UUID: a hex digit, or a dash. -/
def isUuidChar (c : UInt8) : Bool := 0x30 ≤ c && c ≤ 0x39 || 0x61 ≤ c && c ≤ 0x66 || c == 0x2D

/-- A UUID as text. -/
structure IsUuid (id : Bytes) : Prop where
  length : id.length = 36
  chars : id.all isUuidChar = true

namespace Agent

/-- `New`, on what is on the disk. -/
def new (maxBytes : Int) (m : Machine) : Agent where
  builder := newHeartbeatBuilder defaultKeepAlive
  machine := (Buf.openBuffer maxBytes m).2

/-- `Observe`. The id is of a new UUID. -/
def observe (rules : List Rule) (id : Bytes) (o : Observation) (a : Agent) : Agent :=
  match a.builder.observe o with
  | (none, b) => { a with builder := b }
  | (some h, b) =>
    { builder := b, machine := (Buf.append { h with id := id, category := categorize rules o.app } a.machine).2 }

inductive Event
  /-- A line of the pipe, the time and the next UUID. -/
  | sample (line : Bytes) (time : Time) (id : Bytes)
  | flush (s : Shipper) (answer : Request → Except FlushError Response) (now : Int64)
  /-- The process is started again. -/
  | restart (maxBytes : Int)

def step (rules : List Rule) (a : Agent) : Event → Agent
  | .sample line time id =>
    match decodeSample line with
    | .ok s => a.observe rules id ⟨time, s.app, s.active⟩
    | .error _ => a
  | .flush s answer now => { a with machine := (s.flushBy answer now a.machine).2 }
  | .restart maxBytes => new maxBytes a.machine

/-- From an empty disk. -/
def run (rules : List Rule) (maxBytes : Int) (events : List Event) : Agent :=
  events.foldl (step rules) (new maxBytes (Buf.onDisk []))

end Agent

/-! ## A flush -/

namespace Shipper

variable {m : Machine} {q acked : List Heartbeat} {s : Shipper} {answer : Request → Except FlushError Response}
    {now : Int64}

/-- The entries of the next batch. -/
def nextBatch (q : List Heartbeat) : List Heartbeat := (q.map Heartbeat.sanitize).take batchLimit.toNat

theorem ack_eq {count : Int} (h : Buf.Reading q m) (hfaults : m.faults = []) (hshort : q.all Buf.short = true) :
    Buf.ack count m = (.ok (), Buf.ackedTo count q m) := by
  have hwp : wp (Buf.ack count) (fun _ m' => m' = Buf.ackedTo count q m) (fun _ _ => False) m := by
    refine Buf.wp_ack (Buf.benign_of_nil hfaults) h (fun fs hfs => ?_) (fun m' hd => hd.1 hfaults)
      fun _ _ _ _ hall => absurd (hshort.symm.trans hall) (by decide)
    rw [Buf.eq_of_suffix hfs hfaults]
  obtain ⟨_, _, hrun, rfl⟩ := hwp.returns
  exact hrun

/-- **A flush.** -/
theorem flushBy_eq (h : Buf.Reading q m) (hfaults : m.faults = []) (hshort : q.all Buf.short = true) :
    s.flushBy answer now m =
      if nextBatch q = [] then (.ok 0, m)
      else match answer (ingestRequest s.token ⟨schemaVersion, now, nextBatch q⟩) with
        | .error e => (.error e, m)
        | .ok resp =>
          if resp.status = 200 then (.ok (nextBatch q).length, Buf.ackedTo (nextBatch q).length q m)
          else (.error (.status resp.status), m) := by
  have hread : mapError FlushError.buffer (Buf.unacked batchLimit) m = (.ok (nextBatch q), m) := by
    have hstep : Buf.unacked batchLimit m = (.ok (nextBatch q), m) := h.step_unacked hfaults hshort batchLimit
    simp only [mapError, hstep]
  have hack : mapError FlushError.buffer (Buf.ack (nextBatch q).length) m =
      (.ok (), Buf.ackedTo (nextBatch q).length q m) := by
    simp only [mapError, ack_eq h hfaults hshort]
  rw [flushBy, flush, bind_of_ok hread]
  by_cases hnone : nextBatch q = []
  · rw [if_pos hnone, if_pos hnone]
    rfl
  · rw [if_neg hnone, if_neg hnone]
    cases hanswer : answer (ingestRequest s.token ⟨schemaVersion, now, nextBatch q⟩) with
    | error e => exact bind_of_error rfl
    | ok resp =>
      have hsend : (fromExcept (.ok resp) : Eff Machine FlushError Response) m = (.ok resp, m) := rfl
      rw [bind_of_ok hsend]
      dsimp only
      by_cases hstatus : resp.status = 200
      · have hensure : (ensure (resp.status == 200) (.status resp.status) : Eff Machine FlushError Unit) m =
          (.ok (), m) := by
          rw [hstatus]
          rfl
        rw [if_pos hstatus, bind_of_ok hensure, bind_of_ok hack]
        rfl
      · rw [if_neg hstatus]
        refine bind_of_error ?_
        have hbeq : (resp.status == 200) = false := beq_false_of_ne hstatus
        rw [hbeq]
        rfl

end Shipper

/-! ## The entries of a run -/

/-- An entry of a sample, no rules given. -/
structure Sampled (e : Heartbeat) : Prop where
  id : IsUuid e.id
  category : e.category = Agent.uncategorized
  app : (quoteBody e.app).length ≤ 6 * (maxSampleLine - 1)

theorem IsUuid.plain {id : Bytes} (h : IsUuid id) : Plain id := by
  have hchar : ∀ n < 256, isUuidChar (UInt8.ofNat n) = true →
      UInt8.ofNat n < 0x80 ∧ htmlSafe (UInt8.ofNat n) = true := by decide +kernel
  intro c hc
  have hsafe := hchar c.toNat c.toNat_lt
  rw [UInt8.ofNat_toNat] at hsafe
  exact hsafe (List.all_eq_true.1 h.chars c hc)

/-- A formatted integer of 64 bits has at most 20 characters. -/
theorem length_formatInt_le (i : Int64) : (formatInt i.toInt).length ≤ 20 := by
  have hdigits : (formatNat i.toInt.natAbs).length ≤ 19 := by
    unfold formatNat
    split
    · decide
    · have hlt : i.toInt.natAbs < 10 ^ 19 := by
        have hlow := Int64.le_toInt i
        have hhigh := Int64.toInt_lt i
        omega
      simpa using (Nat.digits_length_le_iff (by decide) _).2 hlt
  unfold formatInt
  split
  · rw [List.length_cons]
    omega
  · omega

theorem length_writeBool_le (b : Bool) : (writeBool b).length ≤ 5 := by cases b <;> decide

theorem quoteBody_uncategorized : (quoteBody Agent.uncategorized).length = 13 := by decide

theorem Sampled.length_marshal {e : Heartbeat} (h : Sampled e) : e.marshal.length =
    (formatInt e.ts.toInt).length + (quoteBody e.app).length + (writeBool e.active).length + 97 := by
  rw [e.length_marshal, h.id.plain.quoteBody, h.id.length, h.category, quoteBody_uncategorized]
  omega

/-- The buffer's scanner reads what a sample's line gives. -/
theorem Sampled.short {e : Heartbeat} (h : Sampled e) : Buf.short e = true := by
  have hts := length_formatInt_le e.ts
  have hactive := length_writeBool_le e.active
  have happ := h.app
  have hline : maxSampleLine = 4096 := rfl
  have hscan : maxScanTokenSize = 65536 := rfl
  rw [Buf.short, h.length_marshal, decide_eq_true_eq]
  omega

theorem Sampled.sanitize {e : Heartbeat} (h : Sampled e) : Sampled e.sanitize := by
  have happ := length_quoteBody_toValid e.app
  refine ⟨?_, ?_, happ.trans h.app⟩
  · show IsUuid (toValid e.id)
    rw [toValid_eq_self h.id.plain.valid]
    exact h.id
  · show toValid e.category = _
    rw [h.category]
    decide

theorem kind_sampled : Buf.Kind Sampled := ⟨fun _ h => h.short, fun _ h => h.sanitize⟩

namespace Agent

/-- The UUID of an event is one, and its line is one the pipe's scanner reads. -/
def Event.Genuine : Event → Prop
  | .sample line _ id => line.length < maxSampleLine ∧ IsUuid id
  | _ => True

/-- The file is open, and of entries of samples. -/
structure Ready (a : Agent) : Prop where
  lines : Buf.LinesOf Sampled a.machine
  isOpen : a.machine.buf.isOpen = true

variable {a : Agent}

theorem Ready.holds (h : Ready a) : ∃ acked q, Buf.Holds acked q a.machine ∧ ∀ e ∈ q, Sampled e := by
  obtain ⟨acked, q, hholds, hkind⟩ := h.lines.holds h.isOpen
  exact ⟨acked, q, hholds, fun e he => hkind e (List.mem_append_right _ he)⟩

theorem Ready.append {e : Heartbeat} {b : HeartbeatBuilder} (h : Ready a) (he : Sampled e) :
    Ready { builder := b, machine := (Buf.append e a.machine).2 } := by
  obtain ⟨acked, q, hholds, hkind⟩ := h.holds
  have hstep := hholds.reading.step_append h.lines.faults (kind_sampled.all_short hkind) e
  have hperform : (Buf.append e a.machine).2 = Buf.appended e (Buf.rotated q a.machine) := by
    rw [← snd_map]
    exact congrArg Prod.snd hstep
  refine ⟨?_, ?_⟩
  · show Buf.LinesOf Sampled (Buf.append e a.machine).2
    have hact : Buf.LinesOf Sampled (Buf.perform a.machine (.call (.append e))).2 :=
      Buf.linesOf_act kind_sampled h.lines fun e' he' => by
        cases he'
        exact he
    exact snd_map (m := Buf.append e) ▸ hact
  · show (Buf.append e a.machine).2.buf.isOpen = true
    rw [hperform]
    exact Buf.rotated_isOpen h.isOpen

theorem Ready.flush {s : Shipper} {answer : Request → Except FlushError Response} {now : Int64} (h : Ready a) :
    Ready { a with machine := (s.flushBy answer now a.machine).2 } := by
  obtain ⟨acked, q, hholds, hkind⟩ := h.lines.holds h.isOpen
  have hq : ∀ e ∈ q, Sampled e := fun e he => hkind e (List.mem_append_right _ he)
  have hack : Ready { a with machine := Buf.ackedTo (Shipper.nextBatch q).length q a.machine } := by
    refine ⟨Buf.linesOf_acked kind_sampled h.lines hholds hkind, ?_⟩
    show (Buf.ackedTo _ q a.machine).buf.isOpen = true
    unfold Buf.ackedTo
    split
    · exact h.isOpen
    · split
      · rfl
      · exact h.isOpen
  rw [Shipper.flushBy_eq hholds.reading h.lines.faults (kind_sampled.all_short hq)]
  split
  · exact h
  · split
    · exact h
    · split
      · exact hack
      · exact h

theorem ready_new {m : Machine} {maxBytes : Int} (h : Buf.LinesOf Sampled m) : Ready (new maxBytes m) := by
  have hopen : (Buf.openBuffer maxBytes m).2 = { m with buf := { maxBytes := maxBytes } } := by
    rw [← snd_map]
    exact Buf.perform_openBuffer maxBytes h.faults
  obtain ⟨acked, q, hfile, -, hkind⟩ := h.entries
  rw [new, hopen]
  exact ⟨⟨⟨[], acked ++ q, hfile, rfl, hkind⟩, h.faults⟩, rfl⟩

/-- **One event.** -/
theorem Ready.step {e : Event} (h : Ready a) (he : e.Genuine) : Ready (a.step [] e) := by
  cases e with
  | flush s answer now => exact h.flush
  | restart maxBytes => exact ready_new h.lines
  | sample line time id =>
    obtain ⟨hline, hid⟩ := he
    rw [Agent.step]
    split
    · next s hs =>
      rw [observe]
      split
      · exact ⟨h.lines, h.isOpen⟩
      · next hb b hobserve =>
        have happ : hb.app = s.app := by
          unfold HeartbeatBuilder.observe at hobserve
          split at hobserve
          · cases hobserve
            rfl
          · cases hobserve
        refine h.append ⟨hid, rfl, ?_⟩
        have hlength := length_app_le hs
        show (quoteBody hb.app).length ≤ _
        rw [happ]
        omega
    · exact h

/-- **Any events.** -/
theorem sampled_run (maxBytes : Int) {events : List Event} (h : ∀ e ∈ events, e.Genuine) :
    Ready (run [] maxBytes events) := by
  have hfold : ∀ {events : List Event} {a : Agent}, (∀ e ∈ events, e.Genuine) → Ready a →
      Ready (events.foldl (Agent.step []) a) := by
    intro events
    induction events with
    | nil => exact fun _ ha => ha
    | cons e events ih =>
      intro a hevents ha
      obtain ⟨he, hevents⟩ := List.forall_mem_cons.1 hevents
      exact ih hevents (ha.step he)
  exact hfold h (ready_new ⟨⟨[], [], rfl, rfl, fun _ he => absurd he List.not_mem_nil⟩, rfl⟩)

end Agent
end ScrewLogger
