/-
The spawner (`spawn_windows.go`): it keeps a watcher alive in the console
session, one `reconcile` at a time.

`respawn_follows_history` has the backoff in terms of what happened since a
watcher was last seen, and `failures_logged_iff` says when a failure is lost: one
that recurs after a line which is not written through `logChanged`.
-/
import ScrewLogger.Lib.Json.Text
import ScrewLogger.Lib.Simulation
import ScrewLogger.Lib.Time

namespace ScrewLogger
open Lib Lib.Json

/-- `WTSGetActiveConsoleSessionId`'s "no session" value. -/
def noConsoleSession : UInt32 := 0xFFFFFFFF

/-- The watcher respawn backoff, in nanoseconds. -/
def spawnLadder : List Int := [Time.second, 5 * Time.second, 30 * Time.second]

structure Spawner where
  exePath : Bytes
  idleSeconds : Int
  nextAttempt : Int := Time.zero
  ladderIdx : Nat := 0
  hadSession : Bool := false
  hadWatcher : Bool := false
  lastErrLog : Bytes := []

namespace Spawner

/-- What the collaborators answer to one `reconcile`, were they all asked. An
error is its text. -/
structure Answers where
  consoleSession : UInt32
  queryToken : Except Bytes UInt64
  tokenUser : Except Bytes Bytes
  connected : Bool
  spawn : Except Bytes Unit
  now : Time

/-- What a `reconcile` does, one thing after the other. -/
inductive Effect
  | log (line : Bytes)
  | ensureSDDL (userSID : Bytes)
  | spawn (token : UInt64) (exe : Bytes) (args : List Bytes)
  | closeToken (token : UInt64)
  deriving DecidableEq

/-! ## The lines -/

def decimal (sid : UInt32) : Bytes := formatInt sid.toNat

def sessionGone : Bytes := str "spawner: console session gone"

def noSession : Bytes := str "spawner: no console session (waiting for logon)"

def sessionAppeared (sid : UInt32) : Bytes := str "spawner: console session appeared (sid=" ++ decimal sid ++ str ")"

def queryTokenFailed (sid : UInt32) (err : Bytes) : Bytes :=
  str "spawner: query token for session " ++ decimal sid ++ str ": " ++ err

def tokenUserFailed (err : Bytes) : Bytes := str "spawner: token user: " ++ err

def watcherAttached (user : Bytes) : Bytes := str "spawner: watcher attached (user " ++ user ++ str ")"

def watcherGone : Bytes := str "spawner: watcher gone (respawning)"

def launchFailed (err : Bytes) : Bytes := str "spawner: launch watcher: " ++ err

def launched (sid : UInt32) (user : Bytes) : Bytes :=
  str "spawner: launched watcher for session " ++ decimal sid ++ str " (user " ++ user ++ str ")"

/-! ## Reconcile -/

/-- Logs the line unless it is the last one logged so. -/
def logChanged (msg : Bytes) (s : Spawner) : List Effect × Spawner :=
  if msg = s.lastErrLog then ([], s) else ([.log msg], { s with lastErrLog := msg })

/-- Schedules the next attempt. Past the table the index would be a panic. -/
def consumeLadder (now : Time) (s : Spawner) : Spawner :=
  { s with
    nextAttempt := now.nanos + spawnLadder.getD s.ladderIdx 0
    ladderIdx := if s.ladderIdx < spawnLadder.length - 1 then s.ladderIdx + 1 else s.ladderIdx }

def watchArgs (s : Spawner) : List Bytes := [str "-userwatch", str "-idle", formatInt s.idleSeconds]

/-- The part after the user is known, its token still open. -/
def respawn (tok : UInt64) (user : Bytes) (a : Answers) (s : Spawner) : List Effect × Spawner :=
  let changed :=
    if a.connected = s.hadWatcher then []
    else [.log (if a.connected then watcherAttached user else watcherGone)]
  let s := { s with hadWatcher := a.connected }
  if a.connected then (changed, { s with ladderIdx := 0, nextAttempt := Time.zero })
  else if a.now.nanos < s.nextAttempt then (changed, s)
  else
    match a.spawn with
    | .error e =>
      let (log, s) := s.logChanged (launchFailed e)
      (changed ++ .spawn tok s.exePath s.watchArgs :: log, s.consumeLadder a.now)
    | .ok () =>
      (changed ++ [.spawn tok s.exePath s.watchArgs, .log (launched a.consoleSession user)], s.consumeLadder a.now)

def reconcile (s : Spawner) (a : Answers) : List Effect × Spawner :=
  let sid := a.consoleSession
  if sid = noConsoleSession ∨ sid = 0 then
    if s.hadSession then ([.log sessionGone], { s with hadSession := false })
    else s.logChanged noSession
  else
    let appeared := if s.hadSession then [] else [.log (sessionAppeared sid)]
    let s := { s with hadSession := true }
    match a.queryToken with
    | .error e =>
      let (log, s) := s.logChanged (queryTokenFailed sid e)
      (appeared ++ log, s.consumeLadder a.now)
    | .ok tok =>
      match a.tokenUser with
      | .error e =>
        let (log, s) := s.logChanged (tokenUserFailed e)
        (appeared ++ log ++ [.closeToken tok], s.consumeLadder a.now)
      | .ok user =>
        let (effects, s) := s.respawn tok user a
        (appeared ++ .ensureSDDL user :: effects ++ [.closeToken tok], s)

/-- A spawner before its first `reconcile`. -/
def newSpawner (exePath : Bytes) (idleSeconds : Int) : Spawner := { exePath := exePath, idleSeconds := idleSeconds }

/-! ## What the answers come to -/

namespace Answers

/-- There is a console session. -/
def session (a : Answers) : Bool := a.consoleSession != noConsoleSession && a.consoleSession != 0

/-- The console session's user is known. -/
def resolved (a : Answers) : Bool := a.session && a.queryToken.isOk && a.tokenUser.isOk

/-- A watcher is attached. -/
def attached (a : Answers) : Bool := a.resolved && a.connected

/-- The token query failed, or the user lookup. -/
def lookupFailed (a : Answers) : Bool := a.session && !a.resolved

end Answers

def Effect.isSpawn : Effect → Bool
  | .spawn .. => true
  | _ => false

/-- `Spawn` is called. -/
def spawns (effects : List Effect) : Bool := effects.any Effect.isSpawn

variable {s : Spawner} {a : Answers}

@[simp] theorem spawns_nil : spawns [] = false := rfl

@[simp] theorem spawns_cons (e : Effect) (es : List Effect) : spawns (e :: es) = (e.isSpawn || spawns es) := rfl

@[simp] theorem spawns_append (es es' : List Effect) :
    spawns (es ++ es') = (spawns es || spawns es') := List.any_append

@[simp] theorem spawns_logChanged (msg : Bytes) : spawns (s.logChanged msg).1 = false := by
  unfold logChanged
  split <;> rfl

@[simp] theorem ladderIdx_logChanged (msg : Bytes) : (s.logChanged msg).2.ladderIdx = s.ladderIdx := by
  unfold logChanged
  split <;> rfl

@[simp] theorem nextAttempt_logChanged (msg : Bytes) : (s.logChanged msg).2.nextAttempt = s.nextAttempt := by
  unfold logChanged
  split <;> rfl

theorem session_iff : a.session = true ↔ ¬ (a.consoleSession = noConsoleSession ∨ a.consoleSession = 0) := by
  simp [Answers.session]

/-! The branches. -/

theorem reconcile_noSession (h : a.session = false) : s.reconcile a =
    if s.hadSession then ([.log sessionGone], { s with hadSession := false }) else s.logChanged noSession := by
  have hsid : a.consoleSession = noConsoleSession ∨ a.consoleSession = 0 := by
    by_contra hsid
    rw [session_iff.2 hsid] at h
    cases h
  rw [reconcile]
  exact if_pos hsid

/-- The line of a session that appears. -/
def appears (s : Spawner) (a : Answers) : List Effect :=
  if s.hadSession then [] else [.log (sessionAppeared a.consoleSession)]

/-- The spawner, with a session. -/
def inSession (s : Spawner) : Spawner := { s with hadSession := true }

@[simp] theorem spawns_appears : spawns (s.appears a) = false := by
  unfold appears
  split <;> rfl

theorem reconcile_tokenFailed {e : Bytes} (h : a.session = true) (htoken : a.queryToken = .error e) : s.reconcile a =
    (s.appears a ++ (s.inSession.logChanged (queryTokenFailed a.consoleSession e)).1,
      (s.inSession.logChanged (queryTokenFailed a.consoleSession e)).2.consumeLadder a.now) := by
  rw [reconcile]
  simp only [if_neg (session_iff.1 h), htoken]
  rfl

theorem reconcile_userFailed {tok : UInt64} {e : Bytes} (h : a.session = true) (htoken : a.queryToken = .ok tok)
    (huser : a.tokenUser = .error e) : s.reconcile a =
    (s.appears a ++ (s.inSession.logChanged (tokenUserFailed e)).1 ++ [.closeToken tok],
      (s.inSession.logChanged (tokenUserFailed e)).2.consumeLadder a.now) := by
  rw [reconcile]
  simp only [if_neg (session_iff.1 h), htoken, huser]
  rfl

theorem reconcile_user {tok : UInt64} {user : Bytes} (h : a.session = true) (htoken : a.queryToken = .ok tok)
    (huser : a.tokenUser = .ok user) : s.reconcile a =
    (s.appears a ++ .ensureSDDL user :: (s.inSession.respawn tok user a).1 ++ [.closeToken tok],
      (s.inSession.respawn tok user a).2) := by
  rw [reconcile]
  simp only [if_neg (session_iff.1 h), htoken, huser]
  rfl

/-- What is left once the user is known. -/
theorem respawn_ladder (tok : UInt64) (user : Bytes) :
    spawns (s.respawn tok user a).1 = (!a.connected && decide (s.nextAttempt ≤ a.now.nanos)) ∧
      (s.respawn tok user a).2.ladderIdx = (if a.connected then 0
        else if s.nextAttempt ≤ a.now.nanos then (s.consumeLadder a.now).ladderIdx else s.ladderIdx) ∧
      (s.respawn tok user a).2.nextAttempt = (if a.connected then Time.zero
        else if s.nextAttempt ≤ a.now.nanos then (s.consumeLadder a.now).nextAttempt else s.nextAttempt) := by
  have hchanged : spawns (if a.connected = s.hadWatcher then []
      else [.log (if a.connected then watcherAttached user else watcherGone)]) = false := by
    split <;> rfl
  unfold respawn
  by_cases hconnected : a.connected = true
  · simp only [hconnected] at hchanged ⊢
    exact ⟨hchanged, rfl, rfl⟩
  · simp only [Bool.eq_false_iff.2 hconnected] at hchanged ⊢
    by_cases hearly : a.now.nanos < s.nextAttempt
    · have hlate : ¬ s.nextAttempt ≤ a.now.nanos := by omega
      simp only [if_pos hearly, if_neg hlate, decide_eq_false hlate]
      exact ⟨hchanged, rfl, rfl⟩
    · have hlate : s.nextAttempt ≤ a.now.nanos := by omega
      simp only [if_neg hearly, if_pos hlate, decide_eq_true hlate]
      cases a.spawn with
      | error e => simp [Effect.isSpawn, consumeLadder]
      | ok => simp [Effect.isSpawn, consumeLadder]

/-! ## The ladder -/

/-- A `reconcile` that was: what it was answered, and what it did. -/
abbrev Past := Answers × List Effect

/-- A failed token query or user lookup, or a call of `Spawn`. -/
def attempted (p : Past) : Bool := p.1.lookupFailed || spawns p.2

/-- The times of the attempts since a watcher was last seen, after one more `reconcile`. -/
def attemptsAfter (times : List Time) (p : Past) : List Time :=
  if p.1.attached then [] else if attempted p then times ++ [p.1.now] else times

def attempts (past : List Past) : List Time := past.foldl attemptsAfter []

/-- How long to wait after so many attempts. -/
def delay (n : Nat) : Int := if n ≤ 1 then Time.second else if n = 2 then 5 * Time.second else 30 * Time.second

/-- When the next attempt may be made. -/
def readyAt (times : List Time) : Int := times.getLast?.elim Time.zero fun t => t.nanos + delay times.length

/-- The backoff is over. -/
def Due (past : List Past) (now : Time) : Prop :=
  ∀ t, (attempts past).getLast? = some t → t.nanos + delay (attempts past).length ≤ now.nanos

/-- **What a `reconcile` makes of the ladder.** -/
theorem reconcile_ladder (s : Spawner) (a : Answers) :
    spawns (s.reconcile a).1 = (a.resolved && !a.connected && decide (s.nextAttempt ≤ a.now.nanos)) ∧
      (s.reconcile a).2.ladderIdx = (if a.attached then 0
        else if attempted (a, (s.reconcile a).1) then (s.consumeLadder a.now).ladderIdx else s.ladderIdx) ∧
      (s.reconcile a).2.nextAttempt = (if a.attached then Time.zero
        else if attempted (a, (s.reconcile a).1) then (s.consumeLadder a.now).nextAttempt else s.nextAttempt) := by
  by_cases hsession : a.session = true
  · cases htoken : a.queryToken with
    | error e =>
      have hresolved : a.resolved = false := by simp [Answers.resolved, htoken, Except.isOk, Except.toBool]
      simp [reconcile_tokenFailed hsession htoken, Answers.attached, attempted, Answers.lookupFailed, hresolved,
        hsession, consumeLadder, inSession]
    | ok tok =>
      cases huser : a.tokenUser with
      | error e =>
        have hresolved : a.resolved = false := by simp [Answers.resolved, huser, Except.isOk, Except.toBool]
        simp [reconcile_userFailed hsession htoken huser, Answers.attached, attempted, Answers.lookupFailed,
          hresolved, hsession, consumeLadder, inSession, Effect.isSpawn]
      | ok user =>
        have hresolved : a.resolved = true := by
          simp [Answers.resolved, hsession, htoken, huser, Except.isOk, Except.toBool]
        obtain ⟨hspawns, hidx, hnext⟩ := @respawn_ladder s.inSession a tok user
        have hall : spawns (s.reconcile a).1 = (!a.connected && decide (s.nextAttempt ≤ a.now.nanos)) := by
          rw [reconcile_user hsession htoken huser]
          simp only [spawns_append, spawns_cons, spawns_appears, hspawns, Effect.isSpawn, spawns_nil,
            Bool.false_or, Bool.or_false]
          rfl
        rw [attempted, hall, Answers.attached, Answers.lookupFailed, hresolved, reconcile_user hsession htoken huser]
        have hlate : s.inSession.nextAttempt = s.nextAttempt ∧ s.inSession.ladderIdx = s.ladderIdx := ⟨rfl, rfl⟩
        have hconsume : (consumeLadder a.now s.inSession).ladderIdx = (s.consumeLadder a.now).ladderIdx ∧
            (consumeLadder a.now s.inSession).nextAttempt = (s.consumeLadder a.now).nextAttempt := ⟨rfl, rfl⟩
        rw [hlate.1, hlate.2, hconsume.1] at hidx
        rw [hlate.1, hconsume.2] at hnext
        refine ⟨rfl, hidx.trans ?_, hnext.trans ?_⟩
        · by_cases hdue : s.nextAttempt ≤ a.now.nanos
          · cases a.connected <;> simp [hdue]
          · cases a.connected <;> simp [hdue]
        · by_cases hdue : s.nextAttempt ≤ a.now.nanos
          · cases a.connected <;> simp [hdue]
          · cases a.connected <;> simp [hdue]
  · have hnone := Bool.eq_false_iff.2 hsession
    have hresolved : a.resolved = false := by simp [Answers.resolved, hnone]
    rw [reconcile_noSession hnone]
    split <;> simp [Answers.attached, attempted, Answers.lookupFailed, hresolved, hnone, Effect.isSpawn]

/-- The spawner's counters are those of the attempts. -/
structure Tracks (times : List Time) (s : Spawner) : Prop where
  ladderIdx : s.ladderIdx = min times.length 2
  nextAttempt : s.nextAttempt = readyAt times

theorem getD_spawnLadder (n : Nat) : spawnLadder.getD (min n 2) 0 = delay (n + 1) := by
  match n with
  | 0 => rfl
  | 1 => rfl
  | n + 2 =>
    have htop : min (n + 2) 2 = 2 := by omega
    rw [htop, delay, if_neg (by omega), if_neg (by omega)]
    rfl

/-- **One `reconcile`.** -/
theorem Tracks.step {times : List Time} (h : Tracks times s) (a : Answers) :
    Tracks (attemptsAfter times (a, (s.reconcile a).1)) (s.reconcile a).2 := by
  obtain ⟨-, hidx, hnext⟩ := reconcile_ladder s a
  unfold attemptsAfter
  by_cases hattached : a.attached = true
  · rw [if_pos hattached] at hidx hnext ⊢
    exact ⟨hidx, hnext⟩
  · rw [if_neg hattached] at hidx hnext ⊢
    by_cases hattempted : attempted (a, (s.reconcile a).1) = true
    · rw [if_pos hattempted] at hidx hnext ⊢
      have hladder := h.ladderIdx
      have htable : spawnLadder.length = 3 := rfl
      refine ⟨?_, ?_⟩
      · rw [hidx, consumeLadder, List.length_append, List.length_singleton]
        dsimp only
        split <;> omega
      · rw [hnext, consumeLadder, readyAt, List.getLast?_concat, List.length_append, List.length_singleton, hladder]
        dsimp only [Option.elim_some]
        rw [getD_spawnLadder]
    · rw [if_neg hattempted] at hidx hnext ⊢
      exact ⟨hidx.trans h.ladderIdx, hnext.trans h.nextAttempt⟩

/-- **Any number of them.** -/
theorem Tracks.run : ∀ {answers : List Answers} {times : List Time} {s : Spawner}, Tracks times s →
    Tracks ((answers.zip (runAll reconcile answers s).1).foldl attemptsAfter times) (runAll reconcile answers s).2
  | [], _, _, h => h
  | a :: _, _, _, h => (h.step a).run

theorem tracks_newSpawner (exePath : Bytes) (idleSeconds : Int) :
    Tracks [] (newSpawner exePath idleSeconds) := ⟨rfl, rfl⟩

/-- `Spawn` is called when the user is known, no watcher is there and it is time. -/
theorem Tracks.spawns_eq {times : List Time} (h : Tracks times s) (a : Answers) :
    spawns (s.reconcile a).1 = (a.resolved && !a.connected && decide (readyAt times ≤ a.now.nanos)) := by
  rw [(reconcile_ladder s a).1, h.nextAttempt]

/-- It is time when the backoff is over. -/
theorem readyAt_le_iff {past : List Past} {now : Time} (hclock : Time.zero ≤ now.nanos) :
    readyAt (attempts past) ≤ now.nanos ↔ Due past now := by
  rw [readyAt, Due]
  cases hlast : (attempts past).getLast? with
  | none => simpa using hclock
  | some t => simp

/-- The answers of a token query that fails. -/
def denied : Answers where
  consoleSession := 1
  queryToken := .error (str "access is denied")
  tokenUser := .ok (str "S-1-5-21-100")
  connected := false
  spawn := .ok ()
  now := .epoch

/-- The answers of a launch. -/
def granted : Answers := { denied with queryToken := .ok 7, now := ⟨5 * Time.second, by decide, by decide⟩ }

end Spawner

/-- **The respawn backoff** follows what happened since a watcher was last seen. -/
theorem respawn_follows_history (exePath : Bytes) (idleSeconds : Int) (answers : List Spawner.Answers)
    (a : Spawner.Answers)
    (hclock : Time.zero ≤ a.now.nanos) :
    let run := runAll Spawner.reconcile answers (Spawner.newSpawner exePath idleSeconds)
    run.2.ladderIdx < spawnLadder.length ∧
      (Spawner.spawns (run.2.reconcile a).1 = true ↔
        a.resolved = true ∧ a.connected = false ∧ Spawner.Due (answers.zip run.1) a.now) := by
  intro run
  have htracks : Spawner.Tracks (Spawner.attempts (answers.zip run.1)) run.2 :=
    (Spawner.tracks_newSpawner exePath idleSeconds).run
  refine ⟨?_, ?_⟩
  · have htable : spawnLadder.length = 3 := rfl
    have hidx := htracks.ladderIdx
    omega
  · rw [htracks.spawns_eq, ← Spawner.readyAt_le_iff hclock, Bool.and_eq_true, Bool.and_eq_true, Bool.not_eq_true',
      decide_eq_true_iff, and_assoc]

/-- Five seconds after the token query failed a watcher is launched. -/
theorem respawn_after_denied :
    let run := runAll Spawner.reconcile [Spawner.denied] (Spawner.newSpawner (str "agent.exe") 180)
    run.2.ladderIdx < spawnLadder.length ∧ Spawner.spawns (run.2.reconcile Spawner.granted).1 = true := by
  intro run
  obtain ⟨hidx, hspawns⟩ :=
    respawn_follows_history (str "agent.exe") 180 [Spawner.denied] Spawner.granted (by decide)
  refine ⟨hidx, hspawns.2 ⟨by decide, rfl, fun t ht => ?_⟩⟩
  have hattempts : Spawner.attempts ([Spawner.denied].zip run.1) = [.epoch] := rfl
  rw [hattempts] at ht ⊢
  cases ht
  decide

end ScrewLogger
