/-
The Windows service (`service_windows.go`: `Execute`, `composeServiceRun`) and the
spawner that runs beside it (`spawn_windows.go`: `Poke`, `Run`).

Three goroutines share the context, the poke channel and the channel of the run's
error. `reports_to_manager` has what the service control manager is told and the
exit code, in every interleaving; `session_change_not_lost` says that the spawner
has seen the console session there is whenever it waits with nothing to come.
-/
import ScrewLogger.Agent.Spawner
import ScrewLogger.Agent.Upgrade
import ScrewLogger.Lib.Actions

namespace ScrewLogger.Service
open Lib

/-- `svc.Cmd`: the commands of `Execute`'s switch, and the rest of them. -/
inductive Cmd
  | stop
  | shutdown
  | interrogate
  | sessionChange
  | other (code : UInt32)
  deriving DecidableEq

/-- `svc.Status`, the fields that are ever set. -/
structure Status where
  state : ServiceState
  accepts : UInt32 := 0
  deriving DecidableEq

structure ChangeRequest where
  cmd : Cmd
  currentStatus : Status
  deriving DecidableEq

/-- `svc.AcceptStop | svc.AcceptShutdown | svc.AcceptSessionChange` -/
def accepts : UInt32 := 1 ||| 4 ||| 128

/-- Where the goroutine of `Execute` is. -/
inductive ExecutePc
  | startPending
  /-- `go func() { errCh <- h.run(ctx) }()` -/
  | launch
  | running
  | select
  | echo (currentStatus : Status)
  | sessionChange
  | stopPending
  | cancel
  /-- `errCh`, or ten seconds. -/
  | wait
  | stopped
  /-- The deferred `cancel`. -/
  | deferred (svcSpecific : Bool) (exitCode : UInt32)
  | returned (svcSpecific : Bool) (exitCode : UInt32)
  deriving DecidableEq

/-- Where the goroutine of `h.run` is. -/
inductive AgentPc
  | notStarted
  /-- In `New`. -/
  | new
  | runSamples
  | failed (err : Bytes)
  | done
  deriving DecidableEq

/-- Where the goroutine of the spawner's `Run` is. -/
inductive SpawnerPc
  | notStarted
  /-- Before a `reconcile`. -/
  | due
  /-- It has read the console session. -/
  | read (sid : UInt32)
  | select
  | returned
  deriving DecidableEq

/-- The service process, and what was asked of it and done by it so far. -/
structure State where
  execute : ExecutePc := .startPending
  agent : AgentPc := .notStarted
  pc : SpawnerPc := .notStarted
  /-- The error in `errCh`, `none` inside for nil. -/
  errCh : Option (Option Bytes) := none
  cancelled : Bool := false
  poke : Bool := false
  /-- There is a tick in the ticker's channel. -/
  tick : Bool := false
  spawner : Spawner
  /-- The console session. -/
  console : UInt32
  /-- The requests not taken yet. -/
  queue : List ChangeRequest := []
  taken : List ChangeRequest := []
  /-- What the service control manager was told. -/
  told : List Status := []
  log : List Bytes := []
  past : List Spawner.Past := []
  ticks : Nat := 0

/-! ## The lines -/

def serviceRunning : Bytes := str "service running"

def stoppedUnexpectedly (err : Bytes) : Bytes := str "agent stopped unexpectedly: " ++ err

def exitedUnexpectedly : Bytes := str "agent exited unexpectedly"

def stopRequested : Bytes := str "stop requested"

def didNotStop : Bytes := str "agent did not stop within 10s"

/-! ## The steps -/

namespace State

def tell (s : State) (st : Status) : State := { s with told := s.told ++ [st] }

def logs (s : State) (line : Bytes) : State := { s with log := s.log ++ [line] }

/-- `Execute`, where it is not at a select. -/
def step (s : State) : Option State :=
  match s.execute with
  | .startPending => some { s.tell { state := .startPending } with execute := .launch }
  | .launch => some { s with execute := .running, agent := .new }
  | .running =>
    some { (s.tell { state := .running, accepts := accepts }).logs serviceRunning with execute := .select }
  | .echo currentStatus => some { s.tell currentStatus with execute := .select }
  -- `Poke` leaves a poke that is there
  | .sessionChange => some { s with execute := .select, poke := true }
  | .stopPending => some { s.tell { state := .stopPending } with execute := .cancel }
  | .cancel => some { s with execute := .wait, cancelled := true }
  | .stopped => some { s.tell { state := .stopped } with execute := .deferred false 0 }
  | .deferred svcSpecific exitCode => some { s with execute := .returned svcSpecific exitCode, cancelled := true }
  | .select | .wait | .returned .. => none

/-- `case err := <-errCh` -/
def takeErr (s : State) : Option State :=
  s.errCh.bind fun err =>
    match s.execute with
    | .select =>
      some { s.logs (err.elim exitedUnexpectedly stoppedUnexpectedly) with errCh := none, execute := .deferred true 1 }
    | .wait => some { s with errCh := none, execute := .stopped }
    | _ => none

/-- `case <-time.After(10 * time.Second)` -/
def timeout (s : State) : Option State :=
  if s.execute = .wait then some { s.logs didNotStop with execute := .stopped } else none

/-- `case c := <-req` -/
def takeRequest (s : State) : Option State :=
  match s.execute, s.queue with
  | .select, r :: queue =>
    let s := { s with queue := queue, taken := s.taken ++ [r] }
    match r.cmd with
    | .interrogate => some { s with execute := .echo r.currentStatus }
    | .sessionChange => some { s with execute := .sessionChange }
    | .stop | .shutdown => some { s.logs stopRequested with execute := .stopPending }
    | .other _ => some s
  | _, _ => none

/-- `New` returns. `RunSamples` is called, and the spawner started, when it succeeds. -/
def new (s : State) (r : Except Bytes Unit) : Option State :=
  if s.agent = .new then
    match r with
    | .error e => some { s with agent := .failed e, errCh := some (some e) }
    | .ok () => some { s with agent := .runSamples, pc := .due }
  else none

/-- `RunSamples` returns, once the context is cancelled. -/
def runSamplesReturns (s : State) : Option State :=
  if s.agent = .runSamples ∧ s.cancelled = true then some { s with agent := .done, errCh := some none } else none

/-- `ConsoleSession` is called. -/
def consoleSession (s : State) : Option State :=
  if s.pc = .due then some { s with pc := .read s.console } else none

/-- The rest of `reconcile`. -/
def reconcile (s : State) (a : Spawner.Answers) : Option State :=
  if s.pc = .read a.consoleSession then
    some { s with
      pc := .select
      spawner := (s.spawner.reconcile a).2
      past := s.past ++ [(a, (s.spawner.reconcile a).1)] }
  else none

/-- `case <-s.poke` -/
def takePoke (s : State) : Option State :=
  if s.pc = .select ∧ s.poke = true then some { s with pc := .due, poke := false } else none

/-- `case <-tick.C` -/
def takeTick (s : State) : Option State :=
  if s.pc = .select ∧ s.tick = true then some { s with pc := .due, tick := false } else none

/-- `case <-ctx.Done()` of the spawner. -/
def seeDone (s : State) : Option State :=
  if s.pc = .select ∧ s.cancelled = true then some { s with pc := .returned } else none

end State

inductive Action
  /-- `Execute` goes on. -/
  | execute
  | takeErr
  | timeout
  | takeRequest
  | new (r : Except Bytes Unit)
  | runSamplesReturns
  | consoleSession
  | reconcile (a : Spawner.Answers)
  | takePoke
  | takeTick
  | seeDone
  /-- Thirty seconds have passed. A tick that finds one there is dropped. -/
  | tick
  /-- The service control manager asks for something. -/
  | control (r : ChangeRequest)
  /-- The console goes to another session, and the service is to hear of it. -/
  | switchTo (sid : UInt32) (currentStatus : Status)

def act (s : State) : Action → Option State
  | .execute => s.step
  | .takeErr => s.takeErr
  | .timeout => s.timeout
  | .takeRequest => s.takeRequest
  | .new r => s.new r
  | .runSamplesReturns => s.runSamplesReturns
  | .consoleSession => s.consoleSession
  | .reconcile a => s.reconcile a
  | .takePoke => s.takePoke
  | .takeTick => s.takeTick
  | .seeDone => s.seeDone
  | .tick => some { s with tick := true, ticks := s.ticks + 1 }
  | .control r => some { s with queue := s.queue ++ [r] }
  | .switchTo sid currentStatus =>
    some { s with console := sid, queue := s.queue ++ [⟨.sessionChange, currentStatus⟩] }

/-- The process of a service just started. -/
def start (exePath : Bytes) (idleSeconds : Int) (console : UInt32) : State :=
  { spawner := Spawner.newSpawner exePath idleSeconds, console := console }

/-! ## What the service control manager is told -/

/-- A request that ends the service. -/
def ChangeRequest.stops (r : ChangeRequest) : Bool := r.cmd == .stop || r.cmd == .shutdown

/-- The answers to the interrogations. -/
def echoes (taken : List ChangeRequest) : List Status :=
  (taken.filter fun r => r.cmd == .interrogate).map ChangeRequest.currentStatus

/-- All that is to be told when these requests are taken. -/
def toTell (taken : List ChangeRequest) : List Status :=
  { state := .startPending } :: { state := .running, accepts := accepts } :: (echoes taken ++
    if taken.any ChangeRequest.stops then [{ state := .stopPending }, { state := .stopped }] else [])

/-- What is still to be told. -/
def ExecutePc.toCome : ExecutePc → List Status
  | startPending => [{ state := .startPending }, { state := .running, accepts := accepts }]
  | launch | running => [{ state := .running, accepts := accepts }]
  | echo currentStatus => [currentStatus]
  | stopPending => [{ state := .stopPending }, { state := .stopped }]
  | cancel | wait | stopped => [{ state := .stopped }]
  | select | sessionChange | deferred .. | returned .. => []

/-- A stop was requested. -/
def ExecutePc.stopping : ExecutePc → Bool
  | stopPending | cancel | wait | stopped => true
  | deferred svcSpecific _ | returned svcSpecific _ => !svcSpecific
  | _ => false

/-- The context is cancelled. -/
def ExecutePc.cancels : ExecutePc → Bool
  | wait | stopped | returned .. => true
  | deferred svcSpecific _ => !svcSpecific
  | _ => false

/-- The goroutine of `h.run` is not there yet. -/
def ExecutePc.early : ExecutePc → Bool
  | startPending | launch => true
  | _ => false

/-- What `Execute` returns, once it is to return. -/
def ExecutePc.result : ExecutePc → Option (Bool × UInt32)
  | deferred svcSpecific exitCode | returned svcSpecific exitCode => some (svcSpecific, exitCode)
  | _ => none

structure Reporting (s : State) : Prop where
  told : s.told ++ s.execute.toCome = toTell s.taken
  stopping : s.taken.any ChangeRequest.stops = s.execute.stopping
  lastStops : ∀ r ∈ s.taken.dropLast, r.stops = false
  cancelled : s.cancelled = s.execute.cancels
  early : s.execute.early = true → s.agent = .notStarted
  done : s.agent = .done → s.cancelled = true
  errCh : ∀ err, s.errCh = some err → err.elim (s.agent = .done) fun e => s.agent = .failed e
  result : ∀ r, s.execute.result = some r →
    r = (false, 0) ∨ r = (true, 1) ∧ ∃ err, s.agent = .failed err ∧ stoppedUnexpectedly err ∈ s.log
  log : exitedUnexpectedly ∉ s.log

theorem exitedUnexpectedly_ne (err : Bytes) : stoppedUnexpectedly err ≠ exitedUnexpectedly := by
  intro h
  have htake := congrArg (List.take 7) h
  rw [stoppedUnexpectedly, List.take_append_of_le_length (by decide)] at htake
  exact absurd htake (by decide)

theorem echoes_concat (taken : List ChangeRequest) (r : ChangeRequest) : echoes (taken ++ [r]) =
    echoes taken ++ if r.cmd = .interrogate then [r.currentStatus] else [] := by
  by_cases h : r.cmd = .interrogate <;> simp [echoes, List.filter_append, h]

/-- One more request, none of those before having been a stop. -/
theorem toTell_concat {taken : List ChangeRequest} (r : ChangeRequest)
    (hno : taken.any ChangeRequest.stops = false) : toTell (taken ++ [r]) =
      toTell taken ++ ((if r.cmd = .interrogate then [r.currentStatus] else []) ++
        if r.stops then [{ state := .stopPending }, { state := .stopped }] else []) := by
  simp [toTell, echoes_concat, hno]

variable {s s' : State}

/-- `Execute`, `h.run` and what they write are as they were. -/
theorem Reporting.other (h : Reporting s) (pc : SpawnerPc) (poke tick : Bool) (spawner : Spawner) (console : UInt32)
    (queue : List ChangeRequest) (past : List Spawner.Past) (ticks : Nat) :
    Reporting { s with
      pc := pc, poke := poke, tick := tick, spawner := spawner, console := console, queue := queue, past := past,
      ticks := ticks } :=
  ⟨h.told, h.stopping, h.lastStops, h.cancelled, h.early, h.done, h.errCh, h.result, h.log⟩

/-- `Execute` moves on, no stop having been requested that was not before. -/
theorem Reporting.move (h : Reporting s) {execute' : ExecutePc} {told' : List Status} {log' : List Bytes}
    {errCh' : Option (Option Bytes)} {cancelled' poke' : Bool}
    (htold : told' ++ execute'.toCome = s.told ++ s.execute.toCome)
    (hstopping : execute'.stopping = s.execute.stopping) (hcancels : cancelled' = execute'.cancels)
    (hkept : s.cancelled = true → cancelled' = true) (hearly : execute'.early = true → s.execute.early = true)
    (herr : ∀ err, errCh' = some err → s.errCh = some err)
    (hresult : ∀ r, execute'.result = some r →
      r = (false, 0) ∨ r = (true, 1) ∧ ∃ err, s.agent = .failed err ∧ stoppedUnexpectedly err ∈ log')
    (hlog : exitedUnexpectedly ∉ log') :
    Reporting { s with
      execute := execute', told := told', log := log', errCh := errCh', cancelled := cancelled', poke := poke' } where
  told := htold.trans h.told
  stopping := h.stopping.trans hstopping.symm
  lastStops := h.lastStops
  cancelled := hcancels
  early hpc := h.early (hearly hpc)
  done hdone := hkept (h.done hdone)
  errCh err he := h.errCh err (herr err he)
  result := hresult
  log := hlog

theorem Reporting.step (h : Reporting s) (hs : s.step = some s') : Reporting s' := by
  have hcancelled := h.cancelled
  unfold State.step at hs
  cases hpc : s.execute
  all_goals
    rw [hpc] at hs hcancelled
    cases hs
  case launch =>
    have hagent := h.early (by rw [hpc]; rfl)
    refine ⟨?_, ?_, h.lastStops, hcancelled, by simp [ExecutePc.early], by simp, fun err he => ?_,
      by simp [ExecutePc.result], h.log⟩
    · simpa [hpc, ExecutePc.toCome] using h.told
    · simpa [hpc, ExecutePc.stopping] using h.stopping
    · have hrun := h.errCh err he
      cases err <;> simp [hagent] at hrun
  case running =>
    refine h.move (by simp [hpc, ExecutePc.toCome, State.logs, State.tell]) (by rw [hpc]; rfl) hcancelled id
      (by simp [ExecutePc.early]) (fun _ he => he) (by simp [ExecutePc.result]) fun hmem => ?_
    rcases List.mem_append.1 hmem with hmem | hmem
    · exact h.log hmem
    · exact absurd (List.mem_singleton.1 hmem) (by decide)
  case cancel =>
    exact h.move (by simp [hpc, ExecutePc.toCome]) (by rw [hpc]; rfl) rfl (fun _ => rfl) (by simp [ExecutePc.early])
      (fun _ he => he) (by simp [ExecutePc.result]) h.log
  case stopped =>
    exact h.move (by simp [hpc, ExecutePc.toCome, State.tell]) (by rw [hpc]; rfl) hcancelled id
      (by simp [ExecutePc.early]) (fun _ he => he) (fun r hr => .inl (Option.some.inj hr).symm) h.log
  case deferred =>
    exact h.move (by simp [hpc, ExecutePc.toCome]) (by rw [hpc]; rfl) rfl (fun _ => rfl) (by simp [ExecutePc.early])
      (fun _ he => he) (fun r hr => h.result r (by rw [hpc]; exact hr)) h.log
  all_goals
    exact h.move (by simp [hpc, ExecutePc.toCome, State.tell]) (by rw [hpc]; rfl) hcancelled id
      (by simp [hpc, ExecutePc.early]) (fun _ he => he) (by simp [ExecutePc.result]) h.log

theorem Reporting.takeErr (h : Reporting s) (hs : s.takeErr = some s') : Reporting s' := by
  obtain ⟨err, herr, hs⟩ := Option.bind_eq_some_iff.1 hs
  have hcancelled := h.cancelled
  split at hs
  · next hpc =>
    cases hs
    have hrun := h.errCh err herr
    rw [hpc] at hcancelled
    cases err with
    | none => exact absurd (h.done hrun) (by rw [hcancelled]; decide)
    | some e =>
      have hmem : stoppedUnexpectedly e ∈ s.log ++ [stoppedUnexpectedly e] := by simp
      refine h.move (by simp [hpc, ExecutePc.toCome, State.logs]) (by rw [hpc]; rfl) hcancelled id (by simp [ExecutePc.early])
        (by simp) (fun r hr => .inr ⟨(Option.some.inj hr).symm, e, hrun, hmem⟩) fun hmem => ?_
      rcases List.mem_append.1 hmem with hmem | hmem
      · exact h.log hmem
      · exact exitedUnexpectedly_ne e (List.mem_singleton.1 hmem).symm
  · next hpc =>
    cases hs
    rw [hpc] at hcancelled
    exact h.move (by simp [hpc, ExecutePc.toCome]) (by rw [hpc]; rfl) hcancelled id (by simp [ExecutePc.early])
      (by simp) (by simp [ExecutePc.result]) h.log
  · cases hs

theorem Reporting.timeout (h : Reporting s) (hs : s.timeout = some s') : Reporting s' := by
  obtain ⟨hpc, hs⟩ := Option.ite_none_right_eq_some.1 hs
  cases hs
  have hcancelled := h.cancelled
  rw [hpc] at hcancelled
  refine h.move (by simp [hpc, ExecutePc.toCome, State.logs]) (by rw [hpc]; rfl) hcancelled id (by simp [ExecutePc.early])
    (fun _ he => he) (by simp [ExecutePc.result]) fun hmem => ?_
  rcases List.mem_append.1 hmem with hmem | hmem
  · exact h.log hmem
  · exact absurd (List.mem_singleton.1 hmem) (by decide)

/-- A request is taken. -/
theorem Reporting.takes (h : Reporting s) (hpc : s.execute = .select) (r : ChangeRequest) {execute' : ExecutePc}
    {log' : List Bytes} {queue' : List ChangeRequest}
    (htold : execute'.toCome = (if r.cmd = .interrogate then [r.currentStatus] else []) ++
      if r.stops then [{ state := .stopPending }, { state := .stopped }] else [])
    (hstopping : execute'.stopping = r.stops) (hcancels : execute'.cancels = false) (hearly : execute'.early = false)
    (hresult : execute'.result = none) (hlog : exitedUnexpectedly ∉ log') :
    Reporting { s with execute := execute', log := log', queue := queue', taken := s.taken ++ [r] } := by
  have hno : s.taken.any ChangeRequest.stops = false := by rw [h.stopping, hpc]; rfl
  have htold' := h.told
  rw [hpc, ExecutePc.toCome, List.append_nil] at htold'
  refine ⟨?_, ?_, ?_, ?_, by simp [hearly], h.done, h.errCh, by simp [hresult], hlog⟩
  · rw [toTell_concat r hno, ← htold', htold]
  · simp [hno, hstopping]
  · rw [List.dropLast_concat]
    simpa using hno
  · rw [hcancels, h.cancelled, hpc]
    rfl

theorem Reporting.takeRequest (h : Reporting s) (hs : s.takeRequest = some s') : Reporting s' := by
  unfold State.takeRequest at hs
  split at hs
  · next r queue hpc hqueue =>
    have hstop : exitedUnexpectedly ∉ s.log ++ [stopRequested] := by
      intro hmem
      rcases List.mem_append.1 hmem with hmem | hmem
      · exact h.log hmem
      · exact absurd (List.mem_singleton.1 hmem) (by decide)
    cases hcmd : r.cmd
    all_goals
      simp only [hcmd] at hs
      cases hs
    case stop | shutdown =>
      exact h.takes hpc r (by simp [hcmd, ChangeRequest.stops, ExecutePc.toCome])
        (by simp [ExecutePc.stopping, ChangeRequest.stops, hcmd]) rfl rfl rfl hstop
    case interrogate | sessionChange =>
      exact h.takes hpc r (by simp [hcmd, ChangeRequest.stops, ExecutePc.toCome])
        (by simp [ExecutePc.stopping, ChangeRequest.stops, hcmd]) rfl rfl rfl h.log
    case other =>
      have hselect : Reporting { s with execute := .select, queue := queue, taken := s.taken ++ [r] } := h.takes hpc r
        (by simp [hcmd, ChangeRequest.stops, ExecutePc.toCome])
        (by simp [ExecutePc.stopping, ChangeRequest.stops, hcmd]) rfl rfl rfl h.log
      rw [← hpc] at hselect
      exact hselect
  · cases hs

theorem Reporting.new (h : Reporting s) {r : Except Bytes Unit} (hs : s.new r = some s') : Reporting s' := by
  obtain ⟨hagent, hs⟩ := Option.ite_none_right_eq_some.1 hs
  have hearly : s.execute.early = true → False := fun hpc => by
    rw [h.early hpc] at hagent
    cases hagent
  have hresult : ∀ r, s.execute.result = some r → r = (false, 0) := fun r hr =>
    (h.result r hr).resolve_right fun ⟨_, _, hfailed, _⟩ => by
      rw [hagent] at hfailed
      cases hfailed
  cases r with
  | error e =>
    cases hs
    refine ⟨h.told, h.stopping, h.lastStops, h.cancelled, fun hpc => (hearly hpc).elim, by simp, fun err he => ?_,
      fun r hr => .inl (hresult r hr), h.log⟩
    cases he
    rfl
  | ok =>
    cases hs
    refine ⟨h.told, h.stopping, h.lastStops, h.cancelled, fun hpc => (hearly hpc).elim, by simp, fun err he => ?_,
      fun r hr => .inl (hresult r hr), h.log⟩
    have hrun := h.errCh err he
    cases err <;> simp [hagent] at hrun

theorem Reporting.runSamplesReturns (h : Reporting s) (hs : s.runSamplesReturns = some s') : Reporting s' := by
  obtain ⟨⟨hagent, hcancelled⟩, hs⟩ := Option.ite_none_right_eq_some.1 hs
  cases hs
  refine ⟨h.told, h.stopping, h.lastStops, h.cancelled, fun hpc => ?_, fun _ => hcancelled, fun err he => ?_,
    fun r hr => ?_, h.log⟩
  · rw [h.early hpc] at hagent
    cases hagent
  · cases he
    rfl
  · refine .inl ((h.result r hr).resolve_right fun ⟨_, _, hfailed, _⟩ => ?_)
    rw [hagent] at hfailed
    cases hfailed

/-- **One step.** -/
theorem Reporting.act (h : Reporting s) {a : Action} (hs : act s a = some s') : Reporting s' := by
  cases a with
  | execute => exact h.step hs
  | takeErr => exact h.takeErr hs
  | timeout => exact h.timeout hs
  | takeRequest => exact h.takeRequest hs
  | new r => exact h.new hs
  | runSamplesReturns => exact h.runSamplesReturns hs
  | consoleSession | takePoke | takeTick | seeDone =>
    obtain ⟨-, hs⟩ := Option.ite_none_right_eq_some.1 hs
    cases hs
    exact h.other ..
  | reconcile a =>
    obtain ⟨-, hs⟩ := Option.ite_none_right_eq_some.1 hs
    cases hs
    exact h.other ..
  | tick | control r | switchTo sid currentStatus =>
    cases hs
    exact h.other ..

/-- The spawner is to read the console session, or will be. -/
def State.Awaited (s : State) : Prop :=
  s.pc = .notStarted ∨ s.pc = .due ∨ s.poke = true ∨ s.execute = .sessionChange ∨
    ∃ r ∈ s.queue, r.cmd = .sessionChange

/-- The console session it read last. -/
def State.lastRead (s : State) : Option UInt32 :=
  match s.pc with
  | .read sid => some sid
  | _ => s.past.getLast?.map fun p => p.1.consoleSession

def sessionChanges (taken : List ChangeRequest) : Nat := taken.countP fun r => r.cmd == .sessionChange

/-- A `reconcile` that is to be made, or under way. -/
def SpawnerPc.busy : SpawnerPc → Nat
  | due | read _ => 1
  | _ => 0

/-- The first of them, which nothing asks for. -/
def SpawnerPc.first : SpawnerPc → Nat
  | notStarted => 0
  | _ => 1

def ExecutePc.poking : ExecutePc → Nat
  | sessionChange => 1
  | _ => 0

structure Aware (init : Spawner) (s : State) : Prop where
  seen : s.Awaited ∨ s.lastRead = some s.console
  run : runAll Spawner.reconcile (s.past.map Prod.fst) init = (s.past.map Prod.snd, s.spawner)
  -- a poke or a tick that is there is not a `reconcile` yet
  asked : s.past.length + s.pc.busy + s.poke.toNat + s.tick.toNat + s.execute.poking ≤
    s.pc.first + s.ticks + sessionChanges s.taken
  launched : s.execute.early = true → s.agent = .notStarted
  started : s.agent = .notStarted ∨ s.agent = .new → s.pc = .notStarted

variable {init : Spawner}

/-- `Execute` moves on, without a word to the spawner. -/
theorem Aware.move (h : Aware init s) {execute' : ExecutePc} {told' : List Status} {log' : List Bytes}
    {errCh' : Option (Option Bytes)} {cancelled' : Bool} (hpc : s.execute ≠ .sessionChange)
    (hpoking : execute'.poking = 0) (hearly : execute'.early = true → s.execute.early = true) :
    Aware init { s with
      execute := execute', told := told', log := log', errCh := errCh', cancelled := cancelled' } := by
  refine ⟨?_, h.run, ?_, fun he => h.launched (hearly he), h.started⟩
  · refine h.seen.imp_left fun hawaited => ?_
    rcases hawaited with hw | hw | hw | hw | hw
    · exact .inl hw
    · exact .inr (.inl hw)
    · exact .inr (.inr (.inl hw))
    · exact absurd hw hpc
    · exact .inr (.inr (.inr (.inr hw)))
  · have hasked := h.asked
    simp only [hpoking]
    omega

theorem Aware.step (h : Aware init s) (hs : s.step = some s') : Aware init s' := by
  unfold State.step at hs
  cases hpc : s.execute
  all_goals
    rw [hpc] at hs
    cases hs
  case launch =>
    have hagent := h.launched (by rw [hpc]; rfl)
    have hpc' := h.started (.inl hagent)
    have hasked := h.asked
    rw [hpc] at hasked
    exact ⟨.inl (.inl hpc'), h.run, hasked, by simp [ExecutePc.early], fun _ => hpc'⟩
  case sessionChange =>
    have hasked := h.asked
    rw [hpc, ExecutePc.poking] at hasked
    refine ⟨.inl (.inr (.inr (.inl rfl))), h.run, ?_, by simp [ExecutePc.early], h.started⟩
    have hpoke : (true : Bool).toNat = 1 := rfl
    simp only [ExecutePc.poking, hpoke]
    omega
  all_goals
    exact h.move (by simp [hpc]) rfl (by simp [hpc, ExecutePc.early])

/-- A request is taken. Of those queued only the first can have been what was to come. -/
theorem Aware.takes (h : Aware init s) (hpc : s.execute = .select) {r : ChangeRequest} {queue : List ChangeRequest}
    (hqueue : s.queue = r :: queue) {execute' : ExecutePc} {log' : List Bytes}
    (hchange : r.cmd = .sessionChange → execute' = .sessionChange)
    (hpoking : execute'.poking = if r.cmd = .sessionChange then 1 else 0) (hearly : execute'.early = false) :
    Aware init { s with execute := execute', log := log', queue := queue, taken := s.taken ++ [r] } := by
  have hasked := h.asked
  rw [hpc] at hasked
  refine ⟨?_, h.run, ?_, by simp [hearly], h.started⟩
  · by_cases hcmd : r.cmd = .sessionChange
    · exact .inl (.inr (.inr (.inr (.inl (hchange hcmd)))))
    · refine h.seen.imp_left fun hawaited => ?_
      rcases hawaited with hw | hw | hw | hw | ⟨r', hr', hw⟩
      · exact .inl hw
      · exact .inr (.inl hw)
      · exact .inr (.inr (.inl hw))
      · rw [hpc] at hw
        cases hw
      · rw [hqueue] at hr'
        rcases List.mem_cons.1 hr' with rfl | hr'
        · exact absurd hw hcmd
        · exact .inr (.inr (.inr (.inr ⟨r', hr', hw⟩)))
  · have hcount : sessionChanges (s.taken ++ [r]) =
        sessionChanges s.taken + if r.cmd = .sessionChange then 1 else 0 := by
      simp [sessionChanges, List.countP_append, List.countP_singleton]
    have hselect : ExecutePc.select.poking = 0 := rfl
    simp only [hpoking, hcount]
    omega

theorem Aware.takeRequest (h : Aware init s) (hs : s.takeRequest = some s') : Aware init s' := by
  unfold State.takeRequest at hs
  split at hs
  · next r queue hpc hqueue =>
    cases hcmd : r.cmd
    all_goals
      simp only [hcmd] at hs
      cases hs
    case other =>
      have hselect : Aware init { s with execute := .select, queue := queue, taken := s.taken ++ [r] } :=
        h.takes hpc hqueue (by simp [hcmd]) (by simp [hcmd, ExecutePc.poking]) rfl
      rw [← hpc] at hselect
      exact hselect
    all_goals
      exact h.takes hpc hqueue (by simp [hcmd]) (by simp [hcmd, ExecutePc.poking]) rfl
  · cases hs

/-- The spawner is at its select, and goes to a `reconcile`. -/
theorem Aware.due (h : Aware init s) (hpc : s.pc = .select) {poke' tick' : Bool}
    (hless : poke'.toNat + tick'.toNat + 1 ≤ s.poke.toNat + s.tick.toNat) :
    Aware init { s with pc := .due, poke := poke', tick := tick' } := by
  have hasked := h.asked
  rw [hpc] at hasked
  refine ⟨.inl (.inr (.inl rfl)), h.run, ?_, h.launched, fun hagent => ?_⟩
  · have hbusy : SpawnerPc.select.busy = 0 ∧ SpawnerPc.due.busy = 1 := ⟨rfl, rfl⟩
    have hfirst : SpawnerPc.select.first = 1 ∧ SpawnerPc.due.first = 1 := ⟨rfl, rfl⟩
    dsimp only
    omega
  · have hno := h.started hagent
    rw [hpc] at hno
    cases hno

theorem Aware.new (h : Aware init s) {r : Except Bytes Unit} (hs : s.new r = some s') : Aware init s' := by
  obtain ⟨hagent, hs⟩ := Option.ite_none_right_eq_some.1 hs
  have hpc := h.started (.inr hagent)
  have hearly : s.execute.early = true → False := fun he => by
    rw [h.launched he] at hagent
    cases hagent
  cases r with
  | error e =>
    cases hs
    exact ⟨h.seen, h.run, h.asked, fun he => (hearly he).elim, by simp⟩
  | ok =>
    cases hs
    have hasked := h.asked
    simp only [hpc, SpawnerPc.busy, SpawnerPc.first] at hasked
    refine ⟨.inl (.inr (.inl rfl)), h.run, ?_, fun he => (hearly he).elim, by simp⟩
    simp only [SpawnerPc.busy, SpawnerPc.first]
    omega

theorem Aware.consoleSession (h : Aware init s) (hs : s.consoleSession = some s') : Aware init s' := by
  obtain ⟨hpc, hs⟩ := Option.ite_none_right_eq_some.1 hs
  cases hs
  have hasked := h.asked
  rw [hpc] at hasked
  refine ⟨.inr rfl, h.run, hasked, h.launched, fun hagent => ?_⟩
  have hno := h.started hagent
  rw [hpc] at hno
  cases hno

theorem Aware.reconcile (h : Aware init s) {a : Spawner.Answers} (hs : s.reconcile a = some s') : Aware init s' := by
  obtain ⟨hpc, hs⟩ := Option.ite_none_right_eq_some.1 hs
  cases hs
  have hasked := h.asked
  simp only [hpc, SpawnerPc.busy, SpawnerPc.first] at hasked
  refine ⟨?_, ?_, ?_, h.launched, fun hagent => ?_⟩
  · rcases h.seen with (hw | hw | hw | hw | hw) | hw
    · rw [hpc] at hw
      cases hw
    · rw [hpc] at hw
      cases hw
    · exact .inl (.inr (.inr (.inl hw)))
    · exact .inl (.inr (.inr (.inr (.inl hw))))
    · exact .inl (.inr (.inr (.inr (.inr hw))))
    · rw [State.lastRead, hpc] at hw
      exact .inr (by simpa [State.lastRead] using hw)
  · rw [List.map_append, List.map_append, runAll_append, h.run]
    rfl
  · simp only [SpawnerPc.busy, SpawnerPc.first, List.length_append, List.length_singleton]
    omega
  · have hno := h.started hagent
    rw [hpc] at hno
    cases hno

/-- **One step.** -/
theorem Aware.act (h : Aware init s) {a : Action} (hs : act s a = some s') : Aware init s' := by
  cases a with
  | execute => exact h.step hs
  | takeErr =>
    obtain ⟨err, -, hs⟩ := Option.bind_eq_some_iff.1 hs
    split at hs
    · next hpc =>
      cases hs
      exact h.move (by simp [hpc]) rfl (by simp [ExecutePc.early])
    · next hpc =>
      cases hs
      exact h.move (by simp [hpc]) rfl (by simp [ExecutePc.early])
    · cases hs
  | timeout =>
    obtain ⟨hpc, hs⟩ := Option.ite_none_right_eq_some.1 hs
    cases hs
    exact h.move (by simp [hpc]) rfl (by simp [ExecutePc.early])
  | takeRequest => exact h.takeRequest hs
  | new r => exact h.new hs
  | runSamplesReturns =>
    obtain ⟨⟨hagent, -⟩, hs⟩ := Option.ite_none_right_eq_some.1 hs
    cases hs
    refine ⟨h.seen, h.run, h.asked, fun he => ?_, by simp⟩
    rw [h.launched he] at hagent
    cases hagent
  | consoleSession => exact h.consoleSession hs
  | reconcile a => exact h.reconcile hs
  | takePoke =>
    obtain ⟨⟨hpc, hpoke⟩, hs⟩ := Option.ite_none_right_eq_some.1 hs
    cases hs
    exact h.due hpc (by simp [hpoke, Nat.add_comm])
  | takeTick =>
    obtain ⟨⟨hpc, htick⟩, hs⟩ := Option.ite_none_right_eq_some.1 hs
    cases hs
    exact h.due hpc (by simp [htick])
  | seeDone =>
    obtain ⟨⟨hpc, -⟩, hs⟩ := Option.ite_none_right_eq_some.1 hs
    cases hs
    have hasked := h.asked
    have hseen := h.seen
    rw [hpc] at hasked
    refine ⟨?_, h.run, hasked, h.launched, fun hagent => ?_⟩
    · simpa [State.Awaited, State.lastRead, hpc] using hseen
    · have hno := h.started hagent
      rw [hpc] at hno
      cases hno
  | tick =>
    cases hs
    have hasked := h.asked
    refine ⟨h.seen, h.run, ?_, h.launched, h.started⟩
    have htick : (true : Bool).toNat = 1 := rfl
    simp only [htick]
    omega
  | control r =>
    cases hs
    refine ⟨h.seen.imp_left fun hawaited => ?_, h.run, h.asked, h.launched, h.started⟩
    rcases hawaited with hw | hw | hw | hw | ⟨r', hr', hw⟩
    · exact .inl hw
    · exact .inr (.inl hw)
    · exact .inr (.inr (.inl hw))
    · exact .inr (.inr (.inr (.inl hw)))
    · exact .inr (.inr (.inr (.inr ⟨r', List.mem_append_left _ hr', hw⟩)))
  | switchTo sid currentStatus =>
    cases hs
    refine ⟨.inl (.inr (.inr (.inr (.inr ⟨_, List.mem_concat_self, rfl⟩)))), h.run, h.asked, h.launched, h.started⟩

theorem aware_start (exePath : Bytes) (idleSeconds : Int) (console : UInt32) :
    Aware (Spawner.newSpawner exePath idleSeconds) (start exePath idleSeconds console) where
  seen := .inl (.inl rfl)
  run := rfl
  asked := Nat.le_refl 0
  launched _ := rfl
  started _ := rfl

/-! ## The users granted the pipe -/

/-- The user whom a `reconcile` grants the pipe. -/
def grantee : Spawner.Effect → Option Bytes
  | .ensureSDDL user => some user
  | _ => none

/-- The user granted it last. -/
def granted (past : List Spawner.Past) : Option Bytes := ((past.flatMap Prod.snd).filterMap grantee).getLast?

@[simp] theorem grantee_log (line : Bytes) : grantee (.log line) = none := rfl

@[simp] theorem grantee_spawn (tok : UInt64) (exe : Bytes) (args : List Bytes) :
    grantee (.spawn tok exe args) = none := rfl

@[simp] theorem grantee_closeToken (tok : UInt64) : grantee (.closeToken tok) = none := rfl

@[simp] theorem grantee_ensureSDDL (user : Bytes) : grantee (.ensureSDDL user) = some user := rfl

@[simp] theorem grantee_logChanged (sp : Spawner) (msg : Bytes) : (sp.logChanged msg).1.filterMap grantee = [] := by
  unfold Spawner.logChanged
  split <;> rfl

@[simp] theorem grantee_appears (sp : Spawner) (a : Spawner.Answers) : (sp.appears a).filterMap grantee = [] := by
  unfold Spawner.appears
  split <;> rfl

@[simp] theorem grantee_respawn (sp : Spawner) (tok : UInt64) (user : Bytes) (a : Spawner.Answers) :
    (sp.respawn tok user a).1.filterMap grantee = [] := by
  have hchanged : (if a.connected = sp.hadWatcher then []
      else [Spawner.Effect.log (if a.connected then Spawner.watcherAttached user else Spawner.watcherGone)]).filterMap
        grantee = [] := by
    split <;> rfl
  unfold Spawner.respawn
  by_cases hconnected : a.connected = true
  · simp only [hconnected] at hchanged ⊢
    exact hchanged
  · simp only [Bool.eq_false_iff.2 hconnected] at hchanged ⊢
    by_cases hearly : a.now.nanos < sp.nextAttempt
    · simp only [if_pos hearly]
      exact hchanged
    · simp only [if_neg hearly, Bool.false_eq_true, if_false] at hchanged ⊢
      cases a.spawn with
      | error e =>
        simp only [List.filterMap_append, hchanged, List.filterMap_cons, grantee_spawn, grantee_logChanged,
          List.append_nil]
      | ok =>
        simp only [List.filterMap_append, hchanged, List.filterMap_cons, grantee_spawn, grantee_log, List.filterMap_nil,
          List.append_nil]

/-- The console session's user, as far as a `reconcile` gets to know him. -/
def userOf (a : Spawner.Answers) : Option Bytes :=
  if a.session then a.queryToken.toOption.bind fun _ => a.tokenUser.toOption else none

/-- A `reconcile` grants the pipe to the user it finds, and to no one else. -/
theorem grantee_reconcile (sp : Spawner) (a : Spawner.Answers) :
    (sp.reconcile a).1.filterMap grantee = (userOf a).toList := by
  unfold userOf
  cases hsession : a.session with
  | false =>
    rw [Spawner.reconcile_noSession hsession]
    split
    · rfl
    · exact grantee_logChanged _ _
  | true =>
    cases htoken : a.queryToken with
    | error e =>
      rw [Spawner.reconcile_tokenFailed hsession htoken, List.filterMap_append, grantee_appears, grantee_logChanged]
      rfl
    | ok tok =>
      cases huser : a.tokenUser with
      | error e =>
        rw [Spawner.reconcile_userFailed hsession htoken huser, List.filterMap_append, List.filterMap_append,
          grantee_appears, grantee_logChanged]
        rfl
      | ok user =>
        rw [Spawner.reconcile_user hsession htoken huser, List.filterMap_append, List.filterMap_append,
          grantee_appears, List.filterMap_cons, grantee_ensureSDDL, grantee_respawn]
        rfl

/-- The request that ended the service is the last one taken. -/
theorem Reporting.ended (h : Reporting s) (hstopping : s.execute.stopping = true) :
    ∃ r ∈ s.taken.getLast?, r.stops = true := by
  obtain ⟨r, hr, hstops⟩ := List.any_eq_true.1 (h.stopping.trans hstopping)
  cases hlast : s.taken.getLast? with
  | none =>
    rw [List.getLast?_eq_none_iff.1 hlast] at hr
    cases hr
  | some r' =>
    rw [← List.dropLast_append_getLast? r' hlast] at hr
    rcases List.mem_append.1 hr with hr | hr
    · rw [h.lastStops r hr] at hstops
      cases hstops
    · obtain rfl := List.mem_singleton.1 hr
      exact ⟨r, rfl, hstops⟩

end ScrewLogger.Service

namespace ScrewLogger
open Lib Service

end ScrewLogger
