/-
The pace of the uploads (`agent.go`, `shipLoop`; `shipper.go`, `NextInterval`).

After each flush the loop's timer is set: to a minute, or after failures in a row
to 15 seconds, a minute and 5 minutes. Time is not the program's: that a timer's
loop runs at most `latency` late and that a flush takes `took` at most are
conditions on a run.

`caught_up`: once nothing is in the way, a backlog is uploaded within the 5 minutes
and a minute more for each batch of it, while heartbeats go on coming in.
`in_use_shown_active`: a device whose user is at work is never listed as offline.
-/
import ScrewLogger.Lib.Actions
import ScrewLogger.Server.Listing
import ScrewLogger.System.Drain
import ScrewLogger.System.Reported

namespace ScrewLogger
open Lib Lib.Eff

/-! ## The timer -/

def healthyFlushInterval : Int := 60 * Time.second

def backoffSteps : List Int := [15 * Time.second, 60 * Time.second, 300 * Time.second]

/-- `NextInterval`: how long to wait, and the failures in a row. -/
def nextInterval (failures : Nat) (failed : Bool) : Int × Nat :=
  if !failed then (healthyFlushInterval, 0)
  else
    let step := if backoffSteps.length ≤ failures then backoffSteps.length - 1 else failures
    (backoffSteps.getD step 0, failures + 1)

/-- The ladder's last step is its longest, and none is 0. -/
theorem nextInterval_bounds (failures : Nat) (failed : Bool) :
    0 ≤ (nextInterval failures failed).1 ∧ (nextInterval failures failed).1 ≤ 300 * Time.second := by
  have hstep : ∀ step < 3, 0 ≤ backoffSteps.getD step 0 ∧ backoffSteps.getD step 0 ≤ 300 * Time.second := by decide
  cases failed with
  | false => exact (by decide : 0 ≤ healthyFlushInterval ∧ healthyFlushInterval ≤ 300 * Time.second)
  | true =>
    refine hstep _ ?_
    have hlength : backoffSteps.length = 3 := rfl
    split <;> omega

/-- A deployment, and its ship loop's timer. -/
structure Paced where
  deployment : Deployment
  failures : Nat := 0
  /-- When the timer fires. -/
  due : Int
  /-- The latest time so far. -/
  now : Int
  /-- The flushes so far. -/
  flushes : Nat := 0
  /-- The heartbeats appended since the last flush. -/
  appended : Nat := 0

namespace Paced

inductive Action
  | observe (o : Observation) (id : Bytes)
  /-- A flush, from `start` to `stop`. -/
  | flush (x : Exchange) (sentAt : Int64) (faults : List Fault) (start stop : Int)
  | restart (maxBytes flushInterval : Int) (faults : List Fault) (start : Int)
  /-- The server processes the `i`-th request on the wire again. -/
  | replay (i : Nat)

variable (server : Handler) (ship : Shipper) (rules : List Agent.Rule)

/-- What happens, in order of time. -/
def act (p : Paced) : Action → Option Paced
  | .observe o id => some { p with
      deployment := p.deployment.observe rules id o
      now := max p.now o.time.nanos
      appended := p.appended + if p.deployment.builder.due o then 1 else 0 }
  | .flush x sentAt faults _ stop =>
    let s := p.deployment.system.schedule faults
    let failed := !(ship.flush System.onAgent (System.roundTrip server x) sentAt s).1.isOk
    let next := nextInterval p.failures failed
    some {
      deployment := { p.deployment with system := s.flush server ship x sentAt }
      failures := next.2
      due := stop + next.1
      now := stop
      flushes := p.flushes + 1 }
  | .restart maxBytes flushInterval faults start => some {
      deployment := { p.deployment with
        builder := newHeartbeatBuilder defaultKeepAlive
        system := (p.deployment.system.schedule faults).restart maxBytes }
      due := start + flushInterval
      now := start
      flushes := p.flushes }
  | .replay i => p.deployment.system.wire[i]?.map fun r =>
    { p with deployment := { p.deployment with system := (p.deployment.system.process server r).2 } }

/-- The agent's first start. -/
def first (maxBytes flushInterval start : Int) (w : World) : Paced where
  deployment := .start maxBytes w
  due := start + flushInterval
  now := start

variable (latency took : Int)

/-- What holds of an action. -/
def Meets (p : Paced) : Action → Prop
  | .observe o id => p.deployment.system.up = true ∧
      (p.deployment.builder.due o = true → Deployment.Takes p.deployment.system (Deployment.heartbeat rules id o)) ∧
      o.time.nanos ≤ p.due + latency
  | .flush x _ faults start stop => p.deployment.system.up = true ∧
      Buf.Benign (p.deployment.system.schedule faults).agent ∧ (x = .answered → p.deployment.system.Roomy) ∧
      p.now ≤ start ∧ p.due ≤ start ∧ start ≤ p.due + latency ∧ start ≤ stop ∧ stop ≤ start + took
  | .restart _ flushInterval faults start => Buf.Benign (p.deployment.system.schedule faults).agent ∧ p.now ≤ start ∧
      0 ≤ flushInterval ∧ flushInterval ≤ 300 * Time.second
  | .replay _ => True

/-- Nothing is in the way: the entries are short and fewer than a rewrite keeps,
each flush is answered and its batch within the limit. -/
def Clear (p : Paced) : Action → Prop
  | .observe o id => Buf.short (Deployment.heartbeat rules id o) = true ∧
      (Buf.pending p.deployment.system.agent).length < Buf.allEntries.toNat
  | .flush x sentAt faults _ _ => x = .answered ∧ faults = [] ∧
      (nextUpload (Buf.pending p.deployment.system.agent) sentAt).marshal.length ≤ maxIngestBody
  | .restart .. => False
  | .replay _ => False

/-- At most `r` heartbeats between two flushes. -/
def Slow (r : Nat) (p : Paced) : Action → Prop
  | .flush .. => p.appended ≤ r
  | _ => True

/-- The user is at work: when a flush starts, the last poll is 14 seconds old at
most. The server reads the time while the flush lasts. -/
def AtWork (p : Paced) : Action → Prop
  | .flush _ _ _ start stop => (∃ o ∈ p.deployment.seen.getLast?, start ≤ o.time.nanos + 14 * Time.second) ∧
      start ≤ (p.deployment.system.server.clock 0).nanos ∧ (p.deployment.system.server.clock 0).nanos ≤ stop
  | _ => True

/-- A run whose actions meet `P`. -/
def Runs (P : Paced → Action → Prop) (actions : List Action) (p p' : Paced) : Prop :=
  EachMeets (act server ship rules) P actions p ∧ actAll (act server ship rules) actions p = some p'

/-- An agent that is there, a server that takes its uploads, and entries that are
short and not too many. -/
structure Ready (host : Host) (ship : Shipper) (p : Paced) : Prop where
  up : p.deployment.system.up = true
  welcomes : Welcomes host ship.token p.deployment.system.server
  short : (Buf.pending p.deployment.system.agent).all Buf.short = true
  few : (Buf.pending p.deployment.system.agent).length ≤ Buf.allEntries.toNat

variable {server ship rules latency took} {p p' : Paced} {a : Action}

/-- An action is a step of the deployment. -/
theorem Meets.step (h : p.Meets rules latency took a) (hact : p.act server ship rules a = some p') :
    Deployment.Step server ship rules p.deployment p'.deployment := by
  cases a with
  | observe o id =>
    cases hact
    exact .observe o id h.1 h.2.1
  | flush x sentAt faults start stop =>
    cases hact
    exact .flush x sentAt faults h.2.1 h.1 h.2.2.1
  | restart maxBytes flushInterval faults start =>
    cases hact
    exact .restart maxBytes faults h.1
  | replay i =>
    obtain ⟨r, hr, rfl⟩ := Option.map_eq_some_iff.1 hact
    exact .replay r (List.mem_of_getElem? hr)

/-! ## The timer's bounds -/

/-- The timer is 5 minutes ahead at most, and the time not past the loop's delay. -/
structure Timed (latency : Int) (p : Paced) : Prop where
  due : p.due ≤ p.now + 300 * Time.second
  now : p.now ≤ p.due + latency
  seen : ∀ o ∈ p.deployment.seen, o.time.nanos ≤ p.now
  emitted : p.deployment.builder.started = true → p.deployment.builder.lastEmit.nanos ≤ p.now

/-- What an observation adds to what was seen, and to the last heartbeat. -/
theorem Timed.observed (h : Timed latency p) (o : Observation) (id : Bytes) :
    let d := p.deployment.observe rules id o
    (∀ o' ∈ d.seen, o'.time.nanos ≤ max p.now o.time.nanos) ∧
      (d.builder.started = true → d.builder.lastEmit.nanos ≤ max p.now o.time.nanos) := by
  have hseen : ∀ o' ∈ p.deployment.seen ++ [o], o'.time.nanos ≤ max p.now o.time.nanos := by
    intro o' ho'
    rcases List.mem_append.1 ho' with ho' | ho'
    · have := h.seen o' ho'
      omega
    · obtain rfl := List.mem_singleton.1 ho'
      omega
  cases hemits : p.deployment.builder.due o with
  | false =>
    rw [Deployment.observe_not_due hemits]
    refine ⟨hseen, fun hstarted => ?_⟩
    have := h.emitted hstarted
    dsimp only at this ⊢
    omega
  | true =>
    rw [Deployment.observe_due hemits]
    exact ⟨hseen, fun _ => Int.le_max_right ..⟩

theorem Timed.act (h : Timed latency p) (hlatency : 0 ≤ latency) (hmeets : p.Meets rules latency took a)
    (hact : p.act server ship rules a = some p') : Timed latency p' := by
  have hdue := h.due
  have hnow := h.now
  cases a with
  | observe o id =>
    obtain rfl := Option.some.inj hact
    obtain ⟨-, -, htime⟩ := hmeets
    obtain ⟨hseen, hemitted⟩ := @Timed.observed rules latency p h o id
    exact ⟨by dsimp only; omega, by dsimp only; omega, hseen, hemitted⟩
  | flush x sentAt faults start stop =>
    obtain rfl := Option.some.inj hact
    have hwait := nextInterval_bounds p.failures
      (!(ship.flush System.onAgent (System.roundTrip server x) sentAt (p.deployment.system.schedule faults)).1.isOk)
    obtain ⟨-, -, -, hlater, -, -, hstop, -⟩ := hmeets
    refine ⟨by dsimp only; omega, by dsimp only; omega, fun o ho => ?_, fun hstarted => ?_⟩
    · have := h.seen o ho
      dsimp only
      omega
    · have := h.emitted hstarted
      dsimp only
      omega
  | restart maxBytes flushInterval faults start =>
    obtain rfl := Option.some.inj hact
    obtain ⟨-, hlater, hpos, hlong⟩ := hmeets
    refine ⟨by dsimp only; omega, by dsimp only; omega, fun o ho => ?_,
      fun hstarted => absurd hstarted (by simp [newHeartbeatBuilder])⟩
    have := h.seen o ho
    dsimp only
    omega
  | replay i =>
    obtain ⟨r, -, rfl⟩ := Option.map_eq_some_iff.1 hact
    exact ⟨hdue, hnow, h.seen, h.emitted⟩

end Paced

/-! ## The backlog -/

variable {host : Host} {auth : AdminAuth} {fileServer : Request → Nat × Bytes} {ship : Shipper} {s : System}
  {q : List Heartbeat} {e : Heartbeat} {sentAt : Int64}

namespace System

/-- One heartbeat more. -/
theorem Draining.append (h : Draining host ship s q) (hvalid : e.Valid) (hshort : Buf.short e = true)
    (hfew : q.length < Buf.allEntries.toNat) (hfits : Buf.overflows s.agent.buf = false) :
    Draining host ship ((s.schedule []).append e) (q ++ [e]) ∧ ((s.schedule []).append e).server = s.server := by
  obtain ⟨acked, hholds⟩ := h.holds
  have hopen : s.agent.buf.isOpen = true := hholds.isOpen
  have hrun : wp (onAgent (Buf.append e))
      (fun _ s' => s' = { s with agent := Buf.appended e { s.agent with faults := [] }, observed := e :: s.observed })
      (fun _ _ => False) { s.schedule [] with observed := e :: s.observed } := by
    rw [wp_onAgent]
    exact Buf.wp_append_fits benign_nil hopen hfits (fun fs hfs => by rw [List.suffix_nil.1 hfs]; rfl)
      fun m' hdied => hdied.1 rfl
  obtain ⟨_, s', hok, rfl⟩ := hrun.returns
  rw [append_ok hok]
  refine ⟨⟨h.up, ⟨acked, (hholds.tick []).appended e⟩, h.welcomes, ?_, ?_, ?_⟩, rfl⟩
  · exact List.forall_mem_append.2 ⟨h.valid, by simpa using hvalid⟩
  · simp [h.short, hshort]
  · rw [List.length_append, List.length_singleton]
    omega

/-- A batch within the limit is taken. -/
theorem Draining.flush_returns (h : Draining host ship s q) (auth : AdminAuth) (fileServer : Request → Nat × Bytes)
    (hfits : (nextUpload q sentAt).marshal.length ≤ maxIngestBody) :
    (ship.flush onAgent (roundTrip (newMux host auth fileServer) .answered) sentAt (s.schedule [])).1.isOk = true ∧
      (q ≠ [] → ((s.schedule []).flush (newMux host auth fileServer) ship .answered sentAt).server =
        ((newMux host auth fileServer).serve (ingestRequest ship.token (nextUpload q sentAt)) s.server).2) := by
  obtain ⟨acked, hholds⟩ := h.holds
  have hschedule : Buf.Holds acked q (s.schedule []).agent := hholds.tick []
  by_cases hnil : q = []
  · subst hnil
    obtain ⟨_, s', hok, -⟩ := (wp_flush_nothing hschedule rfl).returns
    exact ⟨by rw [hok]; rfl, fun hne => absurd rfl hne⟩
  · have hstatus := (h.status_iff auth fileServer sentAt hnil).2 hfits
    have hrun := @wp_flush_answered _ _ _ ship sentAt (newMux host auth fileServer) hschedule h.valid h.short rfl hnil
    unfold System.flush
    unfold wp at hrun
    split at hrun
    · next heq =>
      simp only [heq]
      exact ⟨rfl, fun _ => hrun.2.2.1⟩
    · exact absurd hstatus hrun.2.1

theorem Draining.pending (h : Draining host ship s q) : Buf.pending s.agent = q := by
  obtain ⟨acked, hholds⟩ := h.holds
  exact hholds.pending h.valid

end System

namespace Paced

variable {rules : List Agent.Rule} {latency took : Int} {r backlog : Nat} {p₀ p p' : Paced} {a : Action}

/-- The backlog after some flushes since `p₀`, `r` heartbeats between two of them. -/
structure CatchingUp (host : Host) (ship : Shipper) (latency took : Int) (r backlog : Nat) (p₀ p : Paced) :
    Prop where
  timed : Timed latency p
  flushed : ∃ k, p.flushes = p₀.flushes + k ∧
    p.due ≤ p₀.now + 300 * Time.second + k * (healthyFlushInterval + latency + took) ∧
    ∃ q, System.Draining host ship p.deployment.system q ∧ q.length ≤ backlog - k * (500 - r) + p.appended

theorem CatchingUp.act (h : CatchingUp host ship latency took r backlog p₀ p) (hr : r ≤ 500)
    (hlatency : 0 ≤ latency) (hmeets : p.Meets rules latency took a) (hclear : p.Clear rules a) (hslow : p.Slow r a)
    (hact : p.act (newMux host auth fileServer) ship rules a = some p') :
    CatchingUp host ship latency took r backlog p₀ p' := by
  refine ⟨h.timed.act hlatency hmeets hact, ?_⟩
  obtain ⟨k, hk, hdue, q, hdraining, hlen⟩ := h.flushed
  cases a with
  | observe o id =>
    obtain rfl := Option.some.inj hact
    obtain ⟨hshort, hfew⟩ := hclear
    rw [hdraining.pending] at hfew
    cases hemits : p.deployment.builder.due o with
    | false =>
      rw [Deployment.observe_not_due hemits]
      exact ⟨k, hk, hdue, q, hdraining, by simpa [hemits] using hlen⟩
    | true =>
      have htakes := hmeets.2.1 hemits
      obtain ⟨happended, -⟩ := hdraining.append htakes.valid hshort hfew htakes.fits
      rw [Deployment.observe_due hemits]
      refine ⟨k, hk, hdue, _, happended, ?_⟩
      simp only [List.length_append, List.length_singleton, if_true]
      omega
  | flush x sentAt faults start stop =>
    obtain ⟨rfl, rfl, hfits⟩ := hclear
    rw [hdraining.pending] at hfits
    obtain ⟨hok, -⟩ := hdraining.flush_returns auth fileServer hfits
    have hflushed : System.Draining host ship ((p.deployment.system.schedule []).flush (newMux host auth fileServer)
        ship .answered sentAt) (leftBy q [sentAt]) := hdraining.flush auth fileServer
    have hleft : leftBy q [sentAt] = q.drop 500 := if_pos hfits
    rw [hleft] at hflushed
    obtain ⟨-, -, -, -, -, hlate, -, hstop⟩ := hmeets
    have happended : p.appended ≤ r := hslow
    obtain rfl := Option.some.inj hact
    refine ⟨k + 1, by simp only [hk]; omega, ?_, _, hflushed, ?_⟩
    · have hhealthy : (nextInterval p.failures (!(ship.flush System.onAgent
          (System.roundTrip (newMux host auth fileServer) .answered) sentAt (p.deployment.system.schedule [])).1.isOk)).1 =
          healthyFlushInterval := by rw [hok]; rfl
      dsimp only
      rw [hhealthy, Int.natCast_succ, Int.add_mul, Int.one_mul]
      omega
    · rw [List.length_drop, Nat.succ_mul]
      omega
  | restart maxBytes flushInterval faults start => exact hclear.elim
  | replay i => exact hclear.elim

end Paced

/-! ## When a device was last seen -/

namespace Store

variable {w : World}

theorem clock_deviceIDByToken (token : Bytes) :
    wp (deviceIDByToken host token) (fun _ w' => w'.clock = w.clock) (fun _ _ => True) w := by
  simp only [deviceIDByToken, query, call, wp_bind, wp_take, wp_ensure, wp_read]
  refine ⟨fun _ => ?_, fun _ => trivial⟩
  split
  · trivial
  · rw [wp_ite]
    exact ⟨fun _ => trivial, fun _ => rfl⟩

end Store

theorem seen_ingestHandler (r : Request) (w : World) : (ingestHandler host r).Ends (fun resp w' => resp.status = 200 →
    ∃ d, TokenOf host r w.db d ∧ ∀ d' ∈ w'.db.devices.rows, d'.id = d.id → d'.lastSeen = some (stamp w)) w := by
  simp only [Answer.Ends, ingestHandler, wp_bind, wp_ensure, wp_fromOption, wp_mapError]
  refine ⟨fun _ => ⟨fun token htoken => ?_, fun _ h => absurd h (by decide)⟩, fun _ h => absurd h (by decide)⟩
  refine ((Store.atomic_deviceIDByToken host token w).and (Store.clock_deviceIDByToken token)).mono
    (fun id w₁ h => ?_) fun e w₁ _ => ?_
  · obtain ⟨⟨-, -, d, hmem, hhash, rfl, hrev⟩, hclock⟩ := h
    refine ⟨fun batch _ => ⟨fun _ => ?_, fun _ h => absurd h (by decide)⟩, fun _ h => absurd h (by decide)⟩
    refine (Store.seen_insertHeartbeats d.id _ _).mono (fun n w₂ h _ => ?_) fun e w₂ _ h => absurd h (by decide)
    refine ⟨d, ⟨⟨token, htoken, hhash⟩, hmem, hrev⟩, fun d' hd' hid => ?_⟩
    rw [h d' hd' hid, stamp, stamp, hclock]
  · cases e <;> simp [deviceError, storageError, writeErr]

theorem deviceStatus_active {d : Device} {now seen : Int} (hrev : d.revokedAt = none) (hseen : d.lastSeen = some seen)
    (hnow : now ≤ seen + offlineAfter) : deviceStatus d now = str "active" := by
  rw [deviceStatus, hrev, hseen]
  refine (if_neg (by decide)).trans (if_neg ?_)
  omega

/-- The device is enrolled, and the server has heard of it at `seen`. -/
def SeenAt (deviceID : Bytes) (seen : Time) (db : Database) : Prop :=
  ∃ d ∈ db.devices.rows, d.id = deviceID ∧ d.revokedAt = none ∧ d.lastSeen = some seen.unix.toInt

/-- An upload that is taken. -/
theorem seenAt_ingestRequest {token deviceID : Bytes} {batch : IngestBatch} {w w' : World} (hne : batch.heartbeats ≠ [])
    (hversion : batch.schemaVersion = schemaVersion) (hfits : batch.marshal.length ≤ maxIngestBody)
    (hw : Welcomes host token w) (hw' : w' = ((ingestHandler host).serve (ingestRequest token batch) w).2)
    (hdevice : ∀ d ∈ w.db.devices.rows, d.tokenHash = Store.hashToken host token → d.id = deviceID)
    (hdevice' : ∀ d ∈ w'.db.devices.rows, d.tokenHash = Store.hashToken host token → d.id = deviceID) :
    SeenAt deviceID (w.clock 0) w'.db := by
  subst hw'
  have h200 := taken_within_limit hne hversion hfits hw
  obtain ⟨d, htoken, hseen⟩ := Answer.run_iff.2 (seen_ingestHandler (ingestRequest token batch) w) h200
  obtain ⟨token', hbearer, hhash⟩ := htoken.issued
  rw [bearerToken_ingestRequest hw.nonempty, Option.some_inj] at hbearer
  subst hbearer
  have hid : d.id = deviceID := hdevice d htoken.enrolled hhash
  have hafter : Welcomes host token ((ingestHandler host).serve (ingestRequest token batch) w).2 := hw.after
  obtain ⟨d', hfind, hrev⟩ := hafter.device
  have hmem := List.mem_of_find?_eq_some hfind
  have hhash' := List.find?_some hfind
  rw [beq_iff_eq] at hhash'
  have hid' : d'.id = deviceID := hdevice' d' hmem hhash'
  exact ⟨d', hmem, hid', hrev, hseen d' hmem (hid'.trans hid.symm)⟩

namespace Paced

variable {rules : List Agent.Rule} {latency took : Int} {p₀ p p' : Paced} {a : Action} {deviceID : Bytes}
  {rows₀ : List HeartbeatRow}

/-- A user at work, from `p₀` on where something was there to upload. -/
structure Working (host : Host) (ship : Shipper) (deviceID : Bytes) (rows₀ : List HeartbeatRow) (latency took : Int)
    (p₀ p : Paced) : Prop where
  timed : Timed latency p
  telling : Deployment.Telling host ship.token deviceID rows₀ p.deployment
  later : p₀.flushes ≤ p.flushes
  backlog : ∃ q, System.Draining host ship p.deployment.system q ∧
    (q = [] → (∀ o ∈ p.deployment.seen, o.time.nanos < p.due - 45 * Time.second) ∧
      (p.deployment.builder.started = true → p.deployment.builder.lastEmit.nanos ≤ p.due - healthyFlushInterval))
  heard : p.flushes ≠ p₀.flushes → ∃ seen : Time, SeenAt deviceID seen p.deployment.system.server.db ∧
    seen.nanos ≤ p.now ∧ p.due ≤ seen.nanos + took + healthyFlushInterval

/-- An observation that brings no heartbeat is one soon after a heartbeat. -/
theorem Working.observe (h : Working host ship deviceID rows₀ latency took p₀ p) (hlatency : 0 ≤ latency)
    {o : Observation} {id : Bytes} (hmeets : p.Meets rules latency took (.observe o id))
    (hclear : p.Clear rules (.observe o id))
    (hact : p.act (newMux host auth fileServer) ship rules (.observe o id) = some p') :
    Working host ship deviceID rows₀ latency took p₀ p' := by
  have htimed := h.timed.act hlatency hmeets hact
  have htelling := h.telling.step (hmeets.step hact)
  obtain ⟨q, hdraining, hidle⟩ := h.backlog
  obtain rfl := Option.some.inj hact
  obtain ⟨hshort, hfew⟩ := hclear
  rw [hdraining.pending] at hfew
  have hlater : p.flushes ≠ p₀.flushes → ∃ seen : Time, SeenAt deviceID seen p.deployment.system.server.db ∧
      seen.nanos ≤ max p.now o.time.nanos ∧ p.due ≤ seen.nanos + took + healthyFlushInterval := by
    intro hflushed
    obtain ⟨seen, hseen, hnow, hdue⟩ := h.heard hflushed
    exact ⟨seen, hseen, by omega, hdue⟩
  cases hemits : p.deployment.builder.due o with
  | false =>
    rw [Deployment.observe_not_due hemits, hemits] at htimed
    rw [Deployment.observe_not_due hemits] at htelling ⊢
    refine ⟨htimed, htelling, h.later, ⟨q, hdraining, fun hnil => ?_⟩, hlater⟩
    obtain ⟨hold, hlast⟩ := hidle hnil
    obtain ⟨hstarted, -, -, hrecent⟩ := HeartbeatBuilder.not_due h.telling.keepAlive hemits
    refine ⟨fun o' ho' => ?_, hlast⟩
    rcases List.mem_append.1 ho' with ho' | ho'
    · exact hold o' ho'
    · obtain rfl := List.mem_singleton.1 ho'
      have hemitted := hlast hstarted
      simp only [healthyFlushInterval, defaultKeepAlive] at hemitted hrecent
      dsimp only
      omega
  | true =>
    have htakes := hmeets.2.1 hemits
    obtain ⟨happended, hserver⟩ := hdraining.append htakes.valid hshort hfew htakes.fits
    rw [Deployment.observe_due hemits, hemits] at htimed
    rw [Deployment.observe_due hemits] at htelling ⊢
    refine ⟨htimed, htelling, h.later, ⟨_, happended, fun hnil => absurd hnil (by simp)⟩, ?_⟩
    dsimp only
    rw [hserver]
    exact hlater

/-- There is something to upload, and the server hears of the device. -/
theorem Working.flush (h : Working host ship deviceID rows₀ latency took p₀ p) (hlatency : 0 ≤ latency)
    {sentAt : Int64} {start stop : Int} (hmeets : p.Meets rules latency took (.flush .answered sentAt [] start stop))
    (hclear : p.Clear rules (.flush .answered sentAt [] start stop))
    (hatWork : p.AtWork (.flush .answered sentAt [] start stop))
    (hact : p.act (newMux host auth fileServer) ship rules (.flush .answered sentAt [] start stop) = some p') :
    Working host ship deviceID rows₀ latency took p₀ p' := by
  have htimed := h.timed.act hlatency hmeets hact
  have htelling := h.telling.step (hmeets.step hact)
  obtain ⟨q, hdraining, hidle⟩ := h.backlog
  obtain ⟨-, -, hfits⟩ := hclear
  rw [hdraining.pending] at hfits
  obtain ⟨⟨o, ho, hrecent⟩, hafter, hbefore⟩ := hatWork
  obtain ⟨-, -, -, hlater, hdue, -, hstop, htook⟩ := hmeets
  obtain rfl := Option.some.inj hact
  have hne : q ≠ [] := by
    intro hnil
    have hpolled := (hidle hnil).1 o (List.mem_of_mem_getLast? ho)
    simp only [Time.second] at hpolled hrecent
    omega
  obtain ⟨hok, hserver⟩ := hdraining.flush_returns auth fileServer hfits
  have hhealthy : (nextInterval p.failures (!(ship.flush System.onAgent
      (System.roundTrip (newMux host auth fileServer) .answered) sentAt (p.deployment.system.schedule [])).1.isOk)).1 =
      healthyFlushInterval := by rw [hok]; rfl
  have hseen := h.timed.seen
  have hemitted := h.timed.emitted
  refine ⟨htimed, htelling, Nat.le_succ_of_le h.later,
    ⟨_, hdraining.flush auth fileServer, fun _ => ⟨fun o' ho' => ?_, fun hstarted => ?_⟩⟩, fun _ => ?_⟩
  · have := hseen o' ho'
    dsimp only
    rw [hhealthy]
    simp only [healthyFlushInterval, Time.second]
    omega
  · have := hemitted hstarted
    dsimp only
    rw [hhealthy]
    omega
  · refine ⟨p.deployment.system.server.clock 0, ?_, hbefore, ?_⟩
    · have hserved : ((p.deployment.system.schedule []).flush (newMux host auth fileServer) ship .answered sentAt).server =
          ((ingestHandler host).serve (ingestRequest ship.token (nextUpload q sentAt)) p.deployment.system.server).2 := by
        rw [hserver hne, Handler.serve, newMux_ingestRequest, Handler.serve]
      have hbatch : (nextUpload q sentAt).heartbeats ≠ [] := by
        obtain ⟨e, q, rfl⟩ := List.exists_cons_of_ne_nil hne
        exact List.cons_ne_nil e _
      exact seenAt_ingestRequest hbatch rfl hfits hdraining.welcomes hserved h.telling.owned.device htelling.owned.device
    · dsimp only
      rw [hhealthy]
      omega

theorem Working.act (h : Working host ship deviceID rows₀ latency took p₀ p) (hlatency : 0 ≤ latency)
    (hmeets : p.Meets rules latency took a) (hclear : p.Clear rules a) (hatWork : p.AtWork a)
    (hact : p.act (newMux host auth fileServer) ship rules a = some p') :
    Working host ship deviceID rows₀ latency took p₀ p' := by
  cases a with
  | observe o id => exact h.observe hlatency hmeets hclear hact
  | flush x sentAt faults start stop =>
    obtain ⟨rfl, rfl, -⟩ := id hclear
    exact h.flush hlatency hmeets hclear hatWork hact
  | restart maxBytes flushInterval faults start => exact hclear.elim
  | replay i => exact hclear.elim

/-! ## From the first start on -/

/-- What every run keeps. -/
theorem timed_run {maxBytes flushInterval start : Int} {w : World} {actions : List Action} (hlatency : 0 ≤ latency)
    (hpos : 0 ≤ flushInterval) (hlong : flushInterval ≤ 300 * Time.second)
    (hdevice : ∀ d ∈ w.db.devices.rows, d.tokenHash = Store.hashToken host ship.token → d.id = deviceID)
    (hrun : Runs (newMux host auth fileServer) ship rules (Meets rules latency took) actions
      (first maxBytes flushInterval start w) p) :
    Timed latency p ∧ Deployment.Telling host ship.token deviceID w.db.heartbeats.rows p.deployment := by
  have hfirst : Timed latency (first maxBytes flushInterval start w) := by
    refine ⟨?_, ?_, fun o ho => absurd ho List.not_mem_nil, fun hstarted => absurd hstarted Bool.false_ne_true⟩
    · simp only [first]
      omega
    · simp only [first]
      omega
  exact actAll_inv_of (I := fun p => Timed latency p ∧
    Deployment.Telling host ship.token deviceID w.db.heartbeats.rows p.deployment)
    (fun h hmeets hact => ⟨h.1.act hlatency hmeets hact, h.2.step (hmeets.step hact)⟩)
    ⟨hfirst, Deployment.telling_start maxBytes hdevice⟩ hrun.1 hrun.2

/-- The backlog of a run's state. -/
theorem Ready.draining (h : Ready host ship p)
    (htelling : Deployment.Telling host ship.token deviceID rows₀ p.deployment) :
    System.Draining host ship p.deployment.system (Buf.pending p.deployment.system.agent) := by
  obtain ⟨o, hm⟩ := htelling.mirrors
  have hvalid : ∀ e ∈ o.unacked, e.Valid := fun e he => hm.valid_log e (List.mem_of_mem_drop he)
  have hpending : Buf.pending p.deployment.system.agent = o.unacked := (hm.holds h.up).pending hvalid
  have hshort := h.short
  have hfew := h.few
  rw [hpending] at hshort hfew ⊢
  exact ⟨h.up, ⟨_, hm.holds h.up⟩, h.welcomes, hvalid, hshort, hfew⟩

end Paced

open Paced

/-- **Caught up.** From any state that outages, crashes and restarts lead to: once
nothing is in the way, and no more than `r` heartbeats come in between two flushes,
a backlog of up to `n` times what a batch has more than `r` is uploaded 5 minutes
and `n` rounds of the timer later. All heartbeats but those since the last flush are
rows then, in the order of the appends. -/
theorem caught_up (host : Host) (auth : AdminAuth) (fileServer : Request → Nat × Bytes) (ship : Shipper)
    (rules : List Agent.Rule) (maxBytes flushInterval start latency took : Int) (w : World) (deviceID : Bytes)
    (r n : Nat) (before after : List Paced.Action) {p p' : Paced} (hr : r ≤ 500) (hlatency : 0 ≤ latency)
    (htook : 0 ≤ took) (hpos : 0 ≤ flushInterval) (hlong : flushInterval ≤ 300 * Time.second)
    (hdevice : ∀ d ∈ w.db.devices.rows, d.tokenHash = Store.hashToken host ship.token → d.id = deviceID)
    (hbefore : Runs (newMux host auth fileServer) ship rules (Meets rules latency took) before
      (first maxBytes flushInterval start w) p)
    (hready : Ready host ship p)
    (hafter : Runs (newMux host auth fileServer) ship rules
      (fun p a => p.Meets rules latency took a ∧ p.Clear rules a ∧ p.Slow r a) after p p')
    (hbacklog : (Buf.pending p.deployment.system.agent).length ≤ n * (500 - r))
    (hlate : p.now + 300 * Time.second + latency + n * (healthyFlushInterval + latency + took) < p'.now) :
    (Buf.pending p'.deployment.system.agent).length ≤ p'.appended ∧
      ∃ log acked stored, LogStored w.db.heartbeats.rows p'.deployment.system log acked stored ∧
        log.length ≤ acked + p'.appended := by
  obtain ⟨htimed, htelling⟩ := timed_run hlatency hpos hlong hdevice hbefore
  have hstart : CatchingUp host ship latency took r (Buf.pending p.deployment.system.agent).length p p := by
    refine ⟨htimed, 0, rfl, ?_, _, hready.draining htelling, by omega⟩
    have := htimed.due
    simpa using this
  obtain ⟨⟨htimed', k, -, hdue, q, hdraining, hlen⟩, htelling'⟩ := actAll_inv_of
    (I := fun p' => CatchingUp host ship latency took r (Buf.pending p.deployment.system.agent).length p p' ∧
      Deployment.Telling host ship.token deviceID w.db.heartbeats.rows p'.deployment)
    (fun h hmeets hact => ⟨h.1.act hr hlatency hmeets.1 hmeets.2.1 hmeets.2.2 hact, h.2.step (hmeets.1.step hact)⟩)
    ⟨hstart, htelling⟩ hafter.1 hafter.2
  have hrounds : n ≤ k := by
    by_contra hfew
    have hround : 0 ≤ healthyFlushInterval + latency + took := by
      simp only [healthyFlushInterval, Time.second]
      omega
    have hle : (k : Int) * (healthyFlushInterval + latency + took) ≤ n * (healthyFlushInterval + latency + took) :=
      Int.mul_le_mul_of_nonneg_right (by omega) hround
    have := htimed'.now
    omega
  have hgone : (Buf.pending p.deployment.system.agent).length ≤ k * (500 - r) :=
    Nat.le_trans hbacklog (Nat.mul_le_mul_right _ hrounds)
  have hpending : (Buf.pending p'.deployment.system.agent).length ≤ p'.appended := by
    rw [hdraining.pending]
    omega
  obtain ⟨o, hm⟩ := htelling'.mirrors
  refine ⟨hpending, o.log, o.acked, o.stored, hm.logStored, ?_⟩
  rw [hm.logStored.pending hdraining.up, List.length_drop] at hpending
  omega

/-- **Shown as active.** From a flush on that has something to upload, at any time
until the next flush must be over, the devices' list shows the device of a user at
work as active. -/
theorem in_use_shown_active (host : Host) (auth : AdminAuth) (fileServer : Request → Nat × Bytes) (ship : Shipper)
    (rules : List Agent.Rule) (maxBytes flushInterval start latency took : Int) (w : World) (deviceID : Bytes)
    (before after : List Paced.Action) {p p' : Paced} (hlatency : 0 ≤ latency)
    (hbound : latency + 2 * took ≤ healthyFlushInterval) (hpos : 0 ≤ flushInterval)
    (hlong : flushInterval ≤ 300 * Time.second)
    (hdevice : ∀ d ∈ w.db.devices.rows, d.tokenHash = Store.hashToken host ship.token → d.id = deviceID)
    (hbefore : Runs (newMux host auth fileServer) ship rules (Meets rules latency took) before
      (first maxBytes flushInterval start w) p)
    (hready : Ready host ship p) (hsome : Buf.pending p.deployment.system.agent ≠ [])
    (hafter : Runs (newMux host auth fileServer) ship rules
      (fun p a => p.Meets rules latency took a ∧ p.Clear rules a ∧ p.AtWork a) after p p')
    (hflushed : p'.flushes ≠ p.flushes) (t : Time) (hthen : t.nanos ≤ p'.due + latency + took) (r : Request) :
    ∃ l, ((handleDevices host).serve r { p'.deployment.system.server with clock := fun _ => t }).1.body = .devices l ∧
      (∃ x ∈ l, x.id = deviceID) ∧ ∀ x ∈ l, x.id = deviceID → x.status = str "active" := by
  obtain ⟨htimed, htelling⟩ := timed_run hlatency hpos hlong hdevice hbefore
  have hstart : Working host ship deviceID w.db.heartbeats.rows latency took p p :=
    ⟨htimed, htelling, Nat.le_refl _, ⟨_, hready.draining htelling, fun hnil => absurd hnil hsome⟩, fun hne =>
      absurd rfl hne⟩
  have hworking : Working host ship deviceID w.db.heartbeats.rows latency took p p' :=
    actAll_inv_of (fun h hmeets hact => h.act hlatency hmeets.1 hmeets.2.1 hmeets.2.2 hact) hstart hafter.1 hafter.2
  obtain ⟨q, hdraining, -⟩ := hworking.backlog
  obtain ⟨seen, ⟨d, hd, hid, hrev, hseen⟩, -, hdue⟩ := hworking.heard hflushed
  have hactive : deviceStatus d t.unix.toInt = str "active" := by
    refine deviceStatus_active hrev hseen ?_
    simp only [healthyFlushInterval, Time.toInt_unix, Time.second, offlineAfter] at *
    omega
  have hquiet : Store.Quiet { p'.deployment.system.server with clock := fun _ => t } := hdraining.welcomes.quiet
  refine ⟨_, Listing.body_handleDevices host r hquiet, ?_, fun x hx hxid => ?_⟩
  · exact ⟨_, List.mem_map.2 ⟨d, ((host.orderBy _).perm _).mem_iff.2 hd, rfl⟩, hid⟩
  · obtain ⟨d', hd', rfl⟩ := List.mem_map.1 hx
    obtain rfl := Table.eq_of_key (((host.orderBy _).perm _).mem_iff.1 hd') hd (hxid.trans hid.symm)
    exact hactive

/-! ## A run -/

namespace Paced

instance : ∀ x : Exchange, Decidable (x = .answered)
  | .answered => .isTrue rfl
  | .lost | .responseLost | .turnedAway .. => .isFalse (by simp)

instance : DecidablePred Buf.Benign := fun m => inferInstanceAs (Decidable (∀ f ∈ m.faults, f = .none ∨ f = .crash))

instance (rules : List Agent.Rule) (latency took : Int) (p : Paced) : ∀ a, Decidable (p.Meets rules latency took a)
  | .observe .. => inferInstanceAs (Decidable (_ ∧ (_ → _) ∧ _))
  | .flush .. => inferInstanceAs (Decidable (_ ∧ _ ∧ (_ → System.Roomy _) ∧ _ ∧ _ ∧ _ ∧ _ ∧ _))
  | .restart .. => inferInstanceAs (Decidable (_ ∧ _ ∧ _ ∧ _))
  | .replay _ => .isTrue trivial

instance (rules : List Agent.Rule) (p : Paced) : ∀ a, Decidable (p.Clear rules a)
  | .observe .. => inferInstanceAs (Decidable (_ ∧ _))
  | .flush .. => inferInstanceAs (Decidable (_ ∧ _ ∧ _))
  | .restart .. | .replay _ => .isFalse id

instance (r : Nat) (p : Paced) : ∀ a, Decidable (p.Slow r a)
  | .flush .. => inferInstanceAs (Decidable (_ ≤ _))
  | .observe .. | .restart .. | .replay _ => .isTrue trivial

instance (p : Paced) : ∀ a, Decidable (p.AtWork a)
  | .flush .. => inferInstanceAs (Decidable ((∃ o ∈ _, _) ∧ _ ∧ _))
  | .observe .. | .restart .. | .replay _ => .isTrue trivial

/-- So many seconds after the epoch. -/
def secondsAfter (n : Nat) : Time :=
  if h : (n : Int) < 0x8000000000 then ⟨n * Time.second, by unfold Time.second; omega, by unfold Time.second; omega⟩
  else .epoch

def pollAfter (n : Nat) : Action := .observe ⟨secondsAfter n, str "code.exe", true⟩ [UInt8.ofNat n]

def flushAt (x : Exchange) (n : Nat) : Action := .flush x 0 [] (n * Time.second) (n * Time.second)

/-- A server whose clock reads 30 seconds, 90, and so on. -/
def workday : World := { oneDevice with clock := fun n => secondsAfter (30 + 60 * n) }

theorem workday_device :
    ∀ d ∈ workday.db.devices.rows, d.tokenHash = Store.hashToken insertionHost (str "t") → d.id = str "d" :=
  fun d hd _ => by
    obtain rfl := List.mem_singleton.1 hd
    rfl

/-- A state with a short backlog, and a run from there. -/
structure Evaluates (P : Paced → Action → Prop) (actions : List Action) (Q : Paced → Bool) (p : Paced) :
    Prop where
  up : p.deployment.system.up = true
  quiet : p.deployment.system.server.faults = []
  device : (p.deployment.system.server.db.devices.rows.find?
    (·.tokenHash == Store.hashToken insertionHost (str "t"))).any (·.revokedAt = none) = true
  short : (Buf.pending p.deployment.system.agent).all Buf.short = true
  length : (Buf.pending p.deployment.system.agent).length = 1
  meets : EachMeets (act System.oneServer ⟨str "t"⟩ []) P actions p
  run : ((actAll (act System.oneServer ⟨str "t"⟩ []) actions p).any Q) = true

instance (P : Paced → Action → Prop) [∀ p a, Decidable (P p a)] (actions : List Action) (Q : Paced → Bool)
    (p : Paced) : Decidable (Evaluates P actions Q p) :=
  decidable_of_iff (p.deployment.system.up = true ∧ p.deployment.system.server.faults = [] ∧ _ = true ∧ _ = true ∧
    _ = 1 ∧ EachMeets _ P actions p ∧ _ = true)
    ⟨fun ⟨h₁, h₂, h₃, h₄, h₅, h₆, h₇⟩ => ⟨h₁, h₂, h₃, h₄, h₅, h₆, h₇⟩,
      fun ⟨h₁, h₂, h₃, h₄, h₅, h₆, h₇⟩ => ⟨h₁, h₂, h₃, h₄, h₅, h₆, h₇⟩⟩

theorem Evaluates.ready {P : Paced → Action → Prop} {actions : List Action} {Q : Paced → Bool} {p : Paced}
    (h : Evaluates P actions Q p) : Ready insertionHost ⟨str "t"⟩ p := by
  obtain ⟨d, hd, hrev⟩ := (Option.any_eq_true _ _).1 h.device
  refine ⟨h.up, ⟨h.quiet, by decide, d, hd, of_decide_eq_true hrev⟩, h.short, ?_⟩
  rw [h.length]
  decide

theorem Evaluates.runs {P : Paced → Action → Prop} {actions : List Action} {Q : Paced → Bool} {p : Paced}
    (h : Evaluates P actions Q p) : ∃ p', Runs System.oneServer ⟨str "t"⟩ [] P actions p p' ∧ Q p' = true := by
  obtain ⟨p', hp', hQ⟩ := (Option.any_eq_true _ _).1 h.run
  exact ⟨p', ⟨h.meets, hp'⟩, hQ⟩

end Paced

/-- An upload is lost, and the next one is not. -/
theorem caught_up_after_loss : ∃ p' : Paced, p'.now = 405 * Time.second ∧
    (Buf.pending p'.deployment.system.agent).length ≤ p'.appended ∧
      ∃ log acked stored, LogStored workday.db.heartbeats.rows p'.deployment.system log acked stored ∧
        log.length ≤ acked + p'.appended := by
  have hmeets : EachMeets (act System.oneServer ⟨str "t"⟩ []) (Meets [] 0 0) [pollAfter 20, flushAt .lost 30]
      (first 1000 (30 * Time.second) 0 workday) := by
    decide +kernel
  have hrun : ((actAll (act System.oneServer ⟨str "t"⟩ []) [pollAfter 20, flushAt .lost 30]
      (first 1000 (30 * Time.second) 0 workday)).any fun p => p.now = 30 * Time.second ∧
        Evaluates (fun p a => p.Meets [] 0 0 a ∧ p.Clear [] a ∧ p.Slow 0 a)
          ((List.range 7).map fun k => flushAt .answered (45 + 60 * k)) (fun p' => p'.now = 405 * Time.second) p) = true := by
    decide +kernel
  obtain ⟨p, hp, hthen⟩ := (Option.any_eq_true _ _).1 hrun
  obtain ⟨hnow, h⟩ := of_decide_eq_true hthen
  obtain ⟨p', hafter, hnow'⟩ := h.runs
  have hnow' := of_decide_eq_true hnow'
  refine ⟨p', hnow', ?_⟩
  exact caught_up insertionHost ⟨[]⟩ (fun _ => (404, [])) ⟨str "t"⟩ [] 1000 (30 * Time.second) 0 0 0 workday
    (str "d") 0 1 _ _ (by decide) (by decide) (by decide) (by decide) (by decide) workday_device ⟨hmeets, hp⟩ h.ready hafter
    (by rw [h.length]; decide) (by rw [hnow, hnow']; decide)

/-- Two minutes of work. -/
theorem in_use_shown_active_workday : ∃ p' : Paced, ∃ l,
    ((handleDevices insertionHost).serve { method := str "GET", path := str "/api/v1/devices" }
      { p'.deployment.system.server with clock := fun _ => secondsAfter 180 }).1.body = .devices l ∧
      (∃ x ∈ l, x.id = str "d") ∧ ∀ x ∈ l, x.id = str "d" → x.status = str "active" := by
  have hmeets : EachMeets (act System.oneServer ⟨str "t"⟩ []) (Meets [] 0 (30 * Time.second)) [pollAfter 20]
      (first 1000 (30 * Time.second) 0 workday) := by
    decide +kernel
  have hrun : ((actAll (act System.oneServer ⟨str "t"⟩ []) [pollAfter 20]
      (first 1000 (30 * Time.second) 0 workday)).any fun p => p.flushes = 0 ∧
        Evaluates (fun p a => p.Meets [] 0 (30 * Time.second) a ∧ p.Clear [] a ∧ p.AtWork a)
          [flushAt .answered 30, pollAfter 34, pollAfter 48, pollAfter 62, pollAfter 76, flushAt .answered 90]
          (fun p' => p'.flushes = 2 ∧ p'.due = 150 * Time.second) p) = true := by
    decide +kernel
  obtain ⟨p, hp, hthen⟩ := (Option.any_eq_true _ _).1 hrun
  obtain ⟨hflushes, h⟩ := of_decide_eq_true hthen
  obtain ⟨p', hafter, hthen'⟩ := h.runs
  obtain ⟨hflushes', hdue⟩ := of_decide_eq_true hthen'
  refine ⟨p', ?_⟩
  exact in_use_shown_active insertionHost ⟨[]⟩ (fun _ => (404, [])) ⟨str "t"⟩ [] 1000 (30 * Time.second) 0 0
    (30 * Time.second) workday (str "d") _ _ (by decide) (by decide) (by decide) (by decide) workday_device
    ⟨hmeets, hp⟩ h.ready (List.ne_nil_of_length_pos (by rw [h.length]; decide)) hafter (by rw [hflushes, hflushes']; decide)
    (secondsAfter 180) (by rw [hdue]; decide) _

end ScrewLogger
