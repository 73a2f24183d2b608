/-
The service with its pipe server (`composeServiceRun`): one context for both, and
the spawner, which alone calls `EnsureSDDL`.

A `reconcile` that finds the console session's user grants him the pipe, which may
take it through the sleeps of `dropPendingLocked`, asks whether a watcher is
attached, and goes on. `console_user_attached` puts the invariant of the pipe
beside that of the session changes: when all changes have been seen to, the client
that is attached got in by the descriptor of the user at the console.
-/
import ScrewLogger.Agent.Attached
import ScrewLogger.Agent.Service

namespace ScrewLogger.Console
open Lib Service

structure State where
  service : Service.State
  pipe : Pipe.State := Pipe.initial
  /-- The user whom the `reconcile` under way has granted the pipe. -/
  ensured : Option Bytes := none

inductive Action
  /-- Of the service, but for `reconcile`. -/
  | service (a : Service.Action)
  /-- Of the pipe's goroutines and clients. -/
  | pipe (a : Pipe.Action)
  | ensureSDDL (userSID : Bytes)
  | resume
  /-- The rest of a `reconcile`. -/
  | reconcile (a : Spawner.Answers)

namespace State

/-- The context is the pipe server's as well. -/
def withService (s : State) (service : Service.State) : State :=
  { s with service := service, pipe := { s.pipe with cancelled := service.cancelled } }

/-- `EnsureSDDL` has returned. -/
def ensureReturned (s : State) : Bool :=
  match s.pipe.ensure 0 with
  | .idle => true
  | .asleep .. => false

end State

/-- Not for the spawner or the context to do. -/
def ofPipe : Pipe.Action → Bool
  | .cancel | .ensureSDDL .. | .resume _ => false
  | _ => true

def act (s : State) : Action → Option State
  | .service (.reconcile _) => none
  | .service a => (Service.act s.service a).map s.withService
  | .pipe a =>
    -- `Serve` is started when `New` has succeeded
    if ofPipe a = true ∧ s.service.pc ≠ .notStarted then (Pipe.act s.pipe a).map fun pipe => { s with pipe := pipe }
    else none
  | .ensureSDDL userSID =>
    match s.service.pc, s.ensured with
    | .read _, none =>
      (s.pipe.ensureSDDL 0 userSID).map fun pipe => { s with pipe := pipe, ensured := some userSID }
    | _, _ => none
  | .resume => (s.pipe.resume 0).map fun pipe => { s with pipe := pipe }
  | .reconcile a =>
    if s.ensured = userOf a ∧ s.ensureReturned = true ∧ (s.ensured.isSome = true → a.connected = s.pipe.p.connected) then
      (s.service.reconcile a).map fun service => { s with service := service, ensured := none }
    else none

def start (exePath : Bytes) (idleSeconds : Int) (console : UInt32) : State :=
  { service := Service.start exePath idleSeconds console }

/-! ## The descriptor -/

/-- The descriptor that grants leave, one after the other. The empty name is no user's. -/
def descriptor (users : List Bytes) : Bytes :=
  users.foldl (fun sddl user => if user = [] then sddl else userSD user) baseSD

/-- The users granted the pipe so far. -/
def State.grants (s : State) : List Bytes :=
  (s.service.past.flatMap Prod.snd).filterMap grantee ++ s.ensured.toList

theorem descriptor_concat (users : List Bytes) (user : Bytes) :
    descriptor (users ++ [user]) = if user = [] then descriptor users else userSD user := by
  simp [descriptor]

variable {s s' : Pipe.State}

theorem ensureSDDL_sddl {k : Nat} {userSID : Bytes} (hs : s.ensureSDDL k userSID = some s') :
    s'.p.sddl = if userSID = [] then s.p.sddl else userSD userSID := by
  rw [Pipe.State.ensureSDDL] at hs
  split at hs
  · cases hs
  split at hs
  · next hempty =>
    cases hs
    rw [if_pos hempty]
  next hempty =>
    rw [if_neg hempty]
    split at hs
    · next heq =>
      cases hs
      exact heq.symm
    · dsimp only at hs
      split at hs <;> cases hs <;> rfl

theorem serveStep_sddl {ok : Bool} (hs : s.serveStep ok = some s') : s'.p.sddl = s.p.sddl := by
  unfold Pipe.State.serveStep at hs
  cases hpc : s.serve
  all_goals
    simp only [hpc] at hs
    (try split at hs) <;> (try split at hs) <;> cases hs <;> rfl

/-- The spawner alone changes the descriptor. -/
theorem act_sddl {a : Pipe.Action} (hof : ofPipe a = true) (hs : Pipe.act s a = some s') : s'.p.sddl = s.p.sddl := by
  cases a with
  | cancel | ensureSDDL | resume => cases hof
  | dial h =>
    rw [Pipe.act] at hs
    split at hs <;> cases hs
    rfl
  | serve ok => exact serveStep_sddl hs
  | connect h err =>
    obtain ⟨c, l, rfl, -⟩ := Pipe.State.connectStep_frame hs
    rfl
  | read h chunk =>
    obtain ⟨r, rfl⟩ := Pipe.State.read_frame hs
    rfl
  | reader h room =>
    obtain ⟨p, r, l, rfl, hp, -⟩ := Pipe.State.readerStep_frame hs
    rcases hp with rfl | ⟨-, rfl⟩ <;> rfl

/-! ## Both at once -/

/-- A step of the service that is no `reconcile` leaves the past alone, and the spawner in one that it has begun. -/
theorem service_frame {t t' : Service.State} {a : Service.Action} (hstarted : t.agent = .new → t.pc = .notStarted)
    (hno : ∀ answers, a ≠ .reconcile answers) (hs : Service.act t a = some t') :
    t'.past = t.past ∧ ∀ sid, t.pc = .read sid → t'.pc = .read sid := by
  cases a with
  | reconcile answers => exact absurd rfl (hno answers)
  | execute =>
    rw [Service.act, Service.State.step] at hs
    split at hs <;> cases hs <;> exact ⟨rfl, fun _ hpc => hpc⟩
  | takeErr =>
    obtain ⟨err, -, hs⟩ := Option.bind_eq_some_iff.1 hs
    split at hs <;> cases hs <;> exact ⟨rfl, fun _ hpc => hpc⟩
  | timeout =>
    obtain ⟨-, hs⟩ := Option.ite_none_right_eq_some.1 hs
    cases hs
    exact ⟨rfl, fun _ hpc => hpc⟩
  | takeRequest =>
    rw [Service.act, Service.State.takeRequest] at hs
    split at hs
    · dsimp only at hs
      split at hs <;> cases hs <;> exact ⟨rfl, fun _ hpc => hpc⟩
    · cases hs
  | new r =>
    obtain ⟨hagent, hs⟩ := Option.ite_none_right_eq_some.1 hs
    have hpc := hstarted hagent
    cases r <;> cases hs <;> exact ⟨rfl, fun _ hread => by rw [hpc] at hread; cases hread⟩
  | runSamplesReturns =>
    obtain ⟨-, hs⟩ := Option.ite_none_right_eq_some.1 hs
    cases hs
    exact ⟨rfl, fun _ hpc => hpc⟩
  | consoleSession =>
    obtain ⟨hpc, hs⟩ := Option.ite_none_right_eq_some.1 hs
    cases hs
    exact ⟨rfl, fun _ hread => by rw [hpc] at hread; cases hread⟩
  | takePoke | takeTick | seeDone =>
    obtain ⟨⟨hpc, -⟩, hs⟩ := Option.ite_none_right_eq_some.1 hs
    cases hs
    exact ⟨rfl, fun _ hread => by rw [hpc] at hread; cases hread⟩
  | tick | control r | switchTo sid currentStatus =>
    cases hs
    exact ⟨rfl, fun _ hpc => hpc⟩

structure Inv (init : Spawner) (s : State) : Prop where
  aware : Aware init s.service
  pipe : Pipe.Inv s.pipe.serve s.pipe
  sddl : s.pipe.p.sddl = descriptor s.grants
  during : s.ensured.isSome = true → ∃ sid, s.service.pc = .read sid

variable {init : Spawner}

theorem Inv.service {s s' : State} (h : Inv init s) {a : Service.Action} (hs : act s (.service a) = some s') :
    Inv init s' := by
  obtain ⟨hno, t, ht, rfl⟩ : (∀ answers, a ≠ .reconcile answers) ∧
      ∃ t, Service.act s.service a = some t ∧ s.withService t = s' := by
    cases a with
    | reconcile answers => cases hs
    | _ => exact ⟨by simp, Option.map_eq_some_iff.1 hs⟩
  obtain ⟨hpast, hread⟩ := service_frame (fun hagent => h.aware.started (.inr hagent)) hno ht
  refine ⟨h.aware.act ht, { h.pipe with }, ?_, fun hensured => ?_⟩
  · rw [State.grants]
    simp only [State.withService, hpast]
    exact h.sddl
  · obtain ⟨sid, hpc⟩ := h.during hensured
    exact ⟨sid, hread sid hpc⟩

theorem Inv.ensureSDDL {s s' : State} (h : Inv init s) {userSID : Bytes}
    (hs : act s (.ensureSDDL userSID) = some s') : Inv init s' := by
  rw [act] at hs
  split at hs
  · next sid hpc hensured =>
    obtain ⟨pipe, hpipe, rfl⟩ := Option.map_eq_some_iff.1 hs
    refine ⟨h.aware, Pipe.ensureSDDL_inv h.pipe hpipe, ?_, fun _ => ⟨sid, hpc⟩⟩
    have hgrants : s.grants = (s.service.past.flatMap Prod.snd).filterMap grantee := by
      rw [State.grants, hensured]
      exact List.append_nil _
    have hgrants' : State.grants { s with pipe := pipe, ensured := some userSID } = s.grants ++ [userSID] := by
      rw [hgrants]
      rfl
    rw [ensureSDDL_sddl hpipe, hgrants', descriptor_concat, h.sddl]
  · cases hs

theorem Inv.reconcile {s s' : State} (h : Inv init s) {a : Spawner.Answers}
    (hs : act s (.reconcile a) = some s') : Inv init s' := by
  obtain ⟨⟨hensured, -⟩, hs⟩ := Option.ite_none_right_eq_some.1 hs
  obtain ⟨t, ht, rfl⟩ := Option.map_eq_some_iff.1 hs
  have haware := h.aware.reconcile ht
  obtain ⟨-, ht⟩ := Option.ite_none_right_eq_some.1 ht
  cases ht
  refine ⟨haware, h.pipe, ?_, fun hno => by cases hno⟩
  -- what was granted during the `reconcile` is now what it granted
  have hgrants : s.grants = (s.service.past.flatMap Prod.snd).filterMap grantee ++ (userOf a).toList := by
    rw [State.grants, hensured]
  rw [h.sddl, hgrants, State.grants]
  simp only [List.flatMap_append, List.filterMap_append, List.flatMap_singleton, grantee_reconcile]
  rw [Option.toList_none, List.append_nil]

/-- **One step of either.** -/
theorem Inv.act {s s' : State} (h : Inv init s) {a : Action} (hs : act s a = some s') : Inv init s' := by
  cases a with
  | service a => exact h.service hs
  | pipe a =>
    obtain ⟨⟨hof, -⟩, hs⟩ := Option.ite_none_right_eq_some.1 hs
    obtain ⟨pipe, hpipe, rfl⟩ := Option.map_eq_some_iff.1 hs
    exact ⟨h.aware, Pipe.act_inv h.pipe hpipe, (act_sddl hof hpipe).trans h.sddl, h.during⟩
  | ensureSDDL userSID => exact h.ensureSDDL hs
  | resume =>
    obtain ⟨pipe, hpipe, rfl⟩ := Option.map_eq_some_iff.1 hs
    have hsddl : pipe.p.sddl = s.pipe.p.sddl := by
      obtain ⟨c, l, rfl, -⟩ := Pipe.State.resume_frame hpipe
      rfl
    exact ⟨h.aware, Pipe.resume_inv h.pipe hpipe, hsddl.trans h.sddl, h.during⟩
  | reconcile a => exact h.reconcile hs

theorem inv_start (exePath : Bytes) (idleSeconds : Int) (console : UInt32) :
    Inv (Spawner.newSpawner exePath idleSeconds) (start exePath idleSeconds console) where
  aware := aware_start exePath idleSeconds console
  pipe := Pipe.initial_inv
  sddl := rfl
  during h := by cases h

end ScrewLogger.Console

namespace ScrewLogger
open Lib Service

namespace Console

/-- The answers to a launch in session 2. -/
def grantedOther : Spawner.Answers :=
  { Spawner.granted with consoleSession := 2, tokenUser := .ok (str "S-1-5-21-200") }

/-- A user's watcher connects, another user comes to the console, and his does. -/
def userSwitch : List Action :=
  [.service .execute, .service .execute, .service .execute, .service (.new (.ok ())), .service .consoleSession,
    .ensureSDDL (str "S-1-5-21-100"), .reconcile Spawner.granted] ++
  (Pipe.untilWaiting ++ Pipe.clientComes 0).map .pipe ++
  [.service (.switchTo 2 { state := .running }), .service .takeRequest, .service .execute, .service .takePoke,
    .service .consoleSession, .ensureSDDL (str "S-1-5-21-200"), .reconcile grantedOther] ++
  (Pipe.untilWaiting ++ Pipe.clientComes 1).map .pipe

end Console

end ScrewLogger
