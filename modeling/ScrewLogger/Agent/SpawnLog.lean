/-
The spawner's log.

A failure is logged unless it is the last line logged through `logChanged`; but
a session that comes or goes, a watcher attached, lost or launched is logged past
it. `failures_logged_iff`: no failure is lost just if none has the text of the
failure before it with one of these in between. `failure_lost` is a token query
that fails as before, once a watcher was launched.
-/
import ScrewLogger.Agent.Spawner

namespace ScrewLogger
open Lib

namespace Spawner

/-- The lines that are logged. -/
def linesOf (effects : List Effect) : List Bytes := effects.filterMap fun
  | .log line => some line
  | _ => none

/-- The message of the failure met, `Spawn` having been called or not. -/
def failureOf (a : Answers) (spawned : Bool) : Option Bytes :=
  if a.session then
    match a.queryToken with
    | .error e => some (queryTokenFailed a.consoleSession e)
    | .ok _ =>
      match a.tokenUser with
      | .error e => some (tokenUserFailed e)
      | .ok _ =>
        match a.spawn with
        | .error e => if spawned then some (launchFailed e) else none
        | .ok () => none
  else none

/-- A failure of the `reconcile` is the last line logged: it was logged, or was
the last line already. -/
def Told (log : List Bytes) (p : Past) : Prop :=
  ∀ msg, failureOf p.1 (spawns p.2) = some msg → (log ++ linesOf p.2).getLast? = some msg

/-- Every failure is told. -/
def AllTold : List Bytes → List Past → Prop
  | _, [] => True
  | log, p :: past => Told log p ∧ AllTold (log ++ linesOf p.2) past

/-! ## What happened before -/

/-- What the answers so far come to: the attempts, the session and the watcher
there were, and the last message that was a failure or of no session. -/
structure Memory where
  attempts : List Time := []
  session : Bool := false
  watcher : Bool := false
  message : Option Bytes := none
  /-- Since that message something changed. -/
  changed : Bool := false

namespace Memory

/-- It is time to spawn. -/
def due (mem : Memory) (a : Answers) : Bool := a.resolved && !a.connected && decide (readyAt mem.attempts ≤ a.now.nanos)

/-- A session came or went, or a watcher was attached, lost or launched. -/
def changes (mem : Memory) (a : Answers) : Bool :=
  a.session != mem.session || a.resolved && a.connected != mem.watcher || mem.due a && a.spawn.isOk

/-- The message of the answers. That there is no session is one, too. -/
def messageOf (mem : Memory) (a : Answers) : Option Bytes :=
  if a.session then failureOf a (mem.due a) else if mem.session then none else some noSession

def after (mem : Memory) (a : Answers) : Memory where
  attempts := if a.attached then [] else if a.lookupFailed || mem.due a then mem.attempts ++ [a.now] else mem.attempts
  session := a.session
  watcher := if a.resolved then a.connected else mem.watcher
  message := (mem.messageOf a).or mem.message
  changed := if (mem.messageOf a).isSome then false else mem.changed || mem.changes a

end Memory

/-- The failure is the last message again, and something changed in between. -/
def Recurs (mem : Memory) (a : Answers) : Prop :=
  ∃ msg, failureOf a (mem.due a) = some msg ∧ mem.message = some msg ∧ (mem.changed || mem.changes a) = true

/-- No failure recurs so. -/
def NoneRecurs : Memory → List Answers → Prop
  | _, [] => True
  | mem, a :: answers => ¬ Recurs mem a ∧ NoneRecurs (mem.after a) answers

/-! ## The lines of a reconcile -/

variable {s : Spawner} {a : Answers}

@[simp] theorem linesOf_nil : linesOf [] = [] := rfl

@[simp] theorem linesOf_append (es es' : List Effect) :
    linesOf (es ++ es') = linesOf es ++ linesOf es' := List.filterMap_append

@[simp] theorem linesOf_log (line : Bytes) (es : List Effect) : linesOf (.log line :: es) = line :: linesOf es := rfl

@[simp] theorem linesOf_ensureSDDL (user : Bytes) (es : List Effect) :
    linesOf (.ensureSDDL user :: es) = linesOf es := rfl

@[simp] theorem linesOf_spawn (tok : UInt64) (exe : Bytes) (args : List Bytes) (es : List Effect) :
    linesOf (.spawn tok exe args :: es) = linesOf es := rfl

@[simp] theorem linesOf_closeToken (tok : UInt64) (es : List Effect) :
    linesOf (.closeToken tok :: es) = linesOf es := rfl

/-- What `logChanged` writes. -/
def fresh (last msg : Bytes) : List Bytes := if msg = last then [] else [msg]

@[simp] theorem linesOf_logChanged (msg : Bytes) : linesOf (s.logChanged msg).1 = fresh s.lastErrLog msg := by
  unfold logChanged fresh
  split <;> rfl

@[simp] theorem lastErrLog_logChanged (msg : Bytes) : (s.logChanged msg).2.lastErrLog = msg := by
  unfold logChanged
  split
  · next h => exact h.symm
  · rfl

@[simp] theorem hadSession_logChanged (msg : Bytes) : (s.logChanged msg).2.hadSession = s.hadSession := by
  unfold logChanged
  split <;> rfl

@[simp] theorem hadWatcher_logChanged (msg : Bytes) : (s.logChanged msg).2.hadWatcher = s.hadWatcher := by
  unfold logChanged
  split <;> rfl

/-- A line that is written past `logChanged`. -/
inductive Direct : Bytes → Prop
  | sessionGone : Direct sessionGone
  | sessionAppeared (sid : UInt32) : Direct (sessionAppeared sid)
  | watcherAttached (user : Bytes) : Direct (watcherAttached user)
  | watcherGone : Direct watcherGone
  | launched (sid : UInt32) (user : Bytes) : Direct (launched sid user)

/-! The first sixteen bytes tell the lines apart. -/

theorem take_append_str {s t : Bytes} (h : 16 ≤ s.length) :
    (s ++ t).take 16 = s.take 16 := List.take_append_of_le_length h

theorem Direct.take {line : Bytes} (h : Direct line) :
    line.take 16 ∈ [str "spawner: console", str "spawner: watcher", str "spawner: launche"] := by
  cases h with
  | sessionGone => decide
  | watcherGone => decide
  | sessionAppeared sid =>
    rw [Spawner.sessionAppeared, List.append_assoc, take_append_str (by decide)]
    decide
  | watcherAttached user =>
    rw [Spawner.watcherAttached, List.append_assoc, take_append_str (by decide)]
    decide
  | launched sid user =>
    rw [Spawner.launched, List.append_assoc, List.append_assoc, List.append_assoc, take_append_str (by decide)]
    decide

theorem failureOf_take {msg : Bytes} {spawned : Bool} (h : failureOf a spawned = some msg) :
    msg.take 16 ∈ [str "spawner: query t", str "spawner: token u", str "spawner: launch "] := by
  unfold failureOf at h
  split at h
  · split at h
    · cases h
      rw [queryTokenFailed, List.append_assoc, List.append_assoc, take_append_str (by decide)]
      decide
    · split at h
      · cases h
        rw [tokenUserFailed, take_append_str (by decide)]
        decide
      · split at h
        · split at h
          · cases h
            rw [launchFailed, take_append_str (by decide)]
            decide
          · cases h
        · cases h
  · cases h

/-- A failure's line is none that is written directly. -/
theorem Direct.ne_failure {line msg : Bytes} {spawned : Bool} (h : Direct line)
    (hmsg : failureOf a spawned = some msg) :
    line ≠ msg := by
  have hdisjoint : ([str "spawner: console", str "spawner: watcher", str "spawner: launche"].all fun x =>
      !([str "spawner: query t", str "spawner: token u", str "spawner: launch "].contains x)) =
        true := by decide +kernel
  intro heq
  have hno := List.all_eq_true.1 hdisjoint _ h.take
  rw [heq, List.contains_iff_mem.2 (failureOf_take hmsg)] at hno
  cases hno

theorem noSession_ne_failure {msg : Bytes} {spawned : Bool} (hmsg : failureOf a spawned = some msg) :
    noSession ≠ msg := by
  intro heq
  have htake := heq ▸ failureOf_take hmsg
  exact absurd htake (by decide +kernel)

/-- A failure has a message. -/
theorem failure_ne_nil {msg : Bytes} {spawned : Bool} (hmsg : failureOf a spawned = some msg) : msg ≠ [] := by
  rintro rfl
  exact absurd (failureOf_take hmsg) (by decide +kernel)

/-- What a `reconcile` writes: lines of what changed, and then its message, if
it has one, unless that was the last. -/
structure Writes (mem : Memory) (last : Bytes) (p : Past) (s' : Spawner) : Prop where
  lines : ∃ direct, linesOf p.2 = direct ++ ((mem.messageOf p.1).elim [] (fresh last)) ∧ (∀ l ∈ direct, Direct l) ∧
    (direct = [] ↔ mem.changes p.1 = false)
  lastErrLog : s'.lastErrLog = (mem.messageOf p.1).getD last
  hadSession : s'.hadSession = p.1.session
  hadWatcher : s'.hadWatcher = if p.1.resolved then p.1.connected else mem.watcher

/-- The memory a spawner has of itself. -/
structure Memory.Of (mem : Memory) (s : Spawner) : Prop where
  tracks : Tracks mem.attempts s
  session : mem.session = s.hadSession
  watcher : mem.watcher = s.hadWatcher

theorem Memory.Of.spawns_eq {mem : Memory} (h : mem.Of s) (a : Answers) : spawns (s.reconcile a).1 = mem.due a :=
  h.tracks.spawns_eq a

theorem linesOf_appears : linesOf (s.appears a) = if s.hadSession then [] else [sessionAppeared a.consoleSession] := by
  unfold appears
  split <;> rfl

/-- The lines of a session that appears, and what they come to. -/
theorem direct_appears {l : Bytes} (h : l ∈ linesOf (s.appears a)) : Direct l := by
  rw [linesOf_appears] at h
  split at h
  · cases h
  · exact List.mem_singleton.1 h ▸ .sessionAppeared _

/-- The line of a watcher that is attached or gone. -/
def turns (s : Spawner) (a : Answers) (user : Bytes) : List Bytes :=
  if a.connected = s.hadWatcher then [] else [if a.connected then watcherAttached user else watcherGone]

theorem direct_turns {user l : Bytes} (h : l ∈ s.turns a user) : Direct l := by
  unfold turns at h
  split at h
  · cases h
  · rw [List.mem_singleton.1 h]
    split
    · exact .watcherAttached user
    · exact .watcherGone

/-- What is written once the user is known. -/
theorem respawn_lines (tok : UInt64) (user : Bytes) :
    linesOf (s.respawn tok user a).1 = s.turns a user ++ (if spawns (s.respawn tok user a).1 then
      match a.spawn with
      | .error e => fresh s.lastErrLog (launchFailed e)
      | .ok () => [launched a.consoleSession user]
    else []) ∧
    (s.respawn tok user a).2.lastErrLog = (if spawns (s.respawn tok user a).1 then
      match a.spawn with
      | .error e => launchFailed e
      | .ok () => s.lastErrLog
    else s.lastErrLog) ∧
    (s.respawn tok user a).2.hadSession = s.hadSession ∧ (s.respawn tok user a).2.hadWatcher = a.connected := by
  have hturns : linesOf (if a.connected = s.hadWatcher then []
      else [.log (if a.connected then watcherAttached user else watcherGone)]) = s.turns a user := by
    unfold turns
    split <;> rfl
  rw [(respawn_ladder tok user).1]
  unfold respawn
  by_cases hconnected : a.connected = true
  · simp only [hconnected] at hturns ⊢
    exact ⟨by simpa using hturns, rfl, rfl, rfl⟩
  · simp only [Bool.eq_false_iff.2 hconnected] at hturns ⊢
    by_cases hearly : a.now.nanos < s.nextAttempt
    · have hlate : ¬ s.nextAttempt ≤ a.now.nanos := by omega
      simp only [if_pos hearly, decide_eq_false hlate]
      exact ⟨by simpa using hturns, rfl, rfl, rfl⟩
    · have hlate : s.nextAttempt ≤ a.now.nanos := by omega
      simp only [if_neg hearly, decide_eq_true hlate]
      cases a.spawn with
      | error e =>
        refine ⟨?_, ?_, ?_, ?_⟩
        · simpa using hturns
        · simp [consumeLadder]
        · simp [consumeLadder]
        · simp [consumeLadder]
      | ok =>
        refine ⟨?_, rfl, rfl, rfl⟩
        simpa using hturns

theorem linesOf_appears_eq_nil : linesOf (s.appears a) = [] ↔ s.hadSession = true := by
  rw [linesOf_appears]
  split <;> simp_all

/-- Without the user nothing is due. -/
theorem Memory.due_unresolved {mem : Memory} (h : a.resolved = false) : mem.due a = false := by simp [Memory.due, h]

/-- A session whose user is not known. -/
theorem writes_lookupFailed {mem : Memory} {msg : Bytes} {closes : List Effect} (hmem : mem.Of s)
    (hsession : a.session = true) (hresolved : a.resolved = false) (hfailure : failureOf a false = some msg)
    (hcloses : linesOf closes = [])
    (hrun : s.reconcile a =
      (s.appears a ++ (s.inSession.logChanged msg).1 ++ closes, (s.inSession.logChanged msg).2.consumeLadder a.now)) :
    Writes mem s.lastErrLog (a, (s.reconcile a).1) (s.reconcile a).2 := by
  have hspawns : mem.due a = false := Memory.due_unresolved hresolved
  have hmessage : mem.messageOf a = some msg := by rw [Memory.messageOf, if_pos hsession, hspawns, hfailure]
  refine ⟨⟨linesOf (s.appears a), ?_, fun l hl => direct_appears hl, ?_⟩, ?_, ?_, ?_⟩
  · rw [hmessage, hrun]
    simp [inSession, hcloses]
  · rw [linesOf_appears_eq_nil, Memory.changes, hsession, hresolved, hspawns, hmem.session]
    simp
  · rw [hmessage, hrun]
    simp [consumeLadder]
  · rw [hrun]
    simp [consumeLadder, inSession, hsession]
  · rw [hrun]
    simp [consumeLadder, inSession, hresolved, hmem.watcher]

section

variable {mem : Memory} {tok : UInt64} {user : Bytes}

theorem resolved_of_user (hsession : a.session = true) (htoken : a.queryToken = .ok tok)
    (huser : a.tokenUser = .ok user) : a.resolved = true := by
  simp [Answers.resolved, hsession, htoken, huser, Except.isOk, Except.toBool]

/-- What is written before a launch. -/
theorem direct_turned {l : Bytes} (h : l ∈ linesOf (s.appears a) ++ s.inSession.turns a user) : Direct l :=
  (List.mem_append.1 h).elim direct_appears direct_turns

theorem turned_eq_nil (hmem : mem.Of s) (hsession : a.session = true) :
    linesOf (s.appears a) ++ s.inSession.turns a user = [] ↔
      (a.session != mem.session || a.connected != mem.watcher) = false := by
  have hturns : s.inSession.turns a user = [] ↔ a.connected = mem.watcher := by
    rw [hmem.watcher, turns]
    split <;> simp_all [inSession]
  rw [List.append_eq_nil_iff, linesOf_appears_eq_nil, hturns, hsession, hmem.session]
  simp

/-- A session whose user is known. -/
theorem reconcile_lines (hmem : mem.Of s) (hsession : a.session = true) (htoken : a.queryToken = .ok tok)
    (huser : a.tokenUser = .ok user) :
    linesOf (s.reconcile a).1 = linesOf (s.appears a) ++ s.inSession.turns a user ++ (if mem.due a then
      match a.spawn with
      | .error e => fresh s.lastErrLog (launchFailed e)
      | .ok () => [launched a.consoleSession user]
    else []) ∧
    (s.reconcile a).2.lastErrLog = (if mem.due a then
      match a.spawn with
      | .error e => launchFailed e
      | .ok () => s.lastErrLog
    else s.lastErrLog) ∧
    (s.reconcile a).2.hadSession = true ∧ (s.reconcile a).2.hadWatcher = a.connected := by
  obtain ⟨hlines, hlast, hhad, hwatcher⟩ := @respawn_lines s.inSession a tok user
  have hspawns : mem.due a = spawns (s.inSession.respawn tok user a).1 := by
    rw [← hmem.spawns_eq, reconcile_user hsession htoken huser]
    simp [Effect.isSpawn]
  rw [← hspawns] at hlines hlast
  rw [reconcile_user hsession htoken huser]
  refine ⟨?_, hlast, hhad, hwatcher⟩
  simp only [linesOf_append, linesOf_ensureSDDL, linesOf_closeToken, linesOf_nil, List.append_nil, hlines,
    List.append_assoc]
  rfl

theorem writes_user (hmem : mem.Of s) (hsession : a.session = true) (htoken : a.queryToken = .ok tok)
    (huser : a.tokenUser = .ok user) : Writes mem s.lastErrLog (a, (s.reconcile a).1) (s.reconcile a).2 := by
  have hresolved := resolved_of_user hsession htoken huser
  obtain ⟨hlines, hlast, hhad, hwatcher⟩ := reconcile_lines hmem hsession htoken huser
  have hnone := @turned_eq_nil s a mem user hmem hsession
  cases hspawn : a.spawn with
  | error e =>
    have hmessage : mem.messageOf a = if mem.due a then some (launchFailed e) else none := by
      simp [Memory.messageOf, failureOf, hsession, htoken, huser, hspawn]
    rw [hspawn] at hlines hlast
    refine ⟨⟨linesOf (s.appears a) ++ s.inSession.turns a user, ?_, fun l hl => direct_turned hl, ?_⟩, ?_, ?_, ?_⟩
    · rw [hmessage, hlines]
      cases mem.due a <;> rfl
    · rw [hnone, Memory.changes, hresolved, hspawn]
      simp [Except.isOk, Except.toBool]
    · rw [hmessage, hlast]
      cases mem.due a <;> rfl
    · rw [hhad, hsession]
    · rw [hwatcher, if_pos hresolved]
  | ok =>
    have hmessage : mem.messageOf a = none := by
      simp [Memory.messageOf, failureOf, hsession, htoken, huser, hspawn]
    rw [hspawn] at hlines hlast
    refine ⟨⟨linesOf (s.appears a) ++ s.inSession.turns a user ++
      (if mem.due a then [launched a.consoleSession user] else []), ?_, fun l hl => ?_, ?_⟩, ?_, ?_, ?_⟩
    · rw [hmessage, hlines]
      simp
    · obtain hl | hl := List.mem_append.1 hl
      · exact direct_turned hl
      · split at hl
        · exact List.mem_singleton.1 hl ▸ .launched _ _
        · cases hl
    · rw [List.append_eq_nil_iff, hnone, Memory.changes, hresolved, hspawn]
      cases mem.due a <;> simp [Except.isOk, Except.toBool]
    · rw [hmessage, hlast, ite_self]
      rfl
    · rw [hhad, hsession]
    · rw [hwatcher, if_pos hresolved]

theorem writes_noSession (hmem : mem.Of s) (hnone : a.session = false) :
    Writes mem s.lastErrLog (a, (s.reconcile a).1) (s.reconcile a).2 := by
  have hresolved : a.resolved = false := by simp [Answers.resolved, hnone]
  have hspawns : mem.due a = false := Memory.due_unresolved hresolved
  have hfalse : ¬ a.session = true := by simp [hnone]
  by_cases hhad : s.hadSession = true
  · have hrun : s.reconcile a = ([.log sessionGone], { s with hadSession := false }) := by
      rw [reconcile_noSession hnone, if_pos hhad]
    have hmessage : mem.messageOf a = none := by
      rw [Memory.messageOf, if_neg hfalse, hmem.session, if_pos hhad]
    refine ⟨⟨[sessionGone], ?_, fun l hl => List.mem_singleton.1 hl ▸ .sessionGone, ?_⟩, ?_, ?_, ?_⟩
    · rw [hmessage, hrun]
      rfl
    · rw [Memory.changes, hnone, hmem.session, hhad]
      simp
    · rw [hmessage, hrun]
      rfl
    · rw [hrun, hnone]
    · rw [hrun, hresolved, hmem.watcher]
      rfl
  · have hrun : s.reconcile a = s.logChanged noSession := by rw [reconcile_noSession hnone, if_neg hhad]
    have hmessage : mem.messageOf a = some noSession := by
      rw [Memory.messageOf, if_neg hfalse, hmem.session, if_neg hhad]
    refine ⟨⟨[], ?_, fun l hl => absurd hl List.not_mem_nil, ?_⟩, ?_, ?_, ?_⟩
    · rw [hmessage, hrun]
      simp
    · rw [Memory.changes, hnone, hresolved, hspawns, hmem.session, Bool.eq_false_iff.2 hhad]
      simp
    · rw [hmessage, hrun]
      simp
    · rw [hrun, hadSession_logChanged, hnone, Bool.eq_false_iff.2 hhad]
    · rw [hrun, hadWatcher_logChanged, hresolved, hmem.watcher]
      rfl

/-- **One reconcile**, by how far it gets. -/
theorem reconcile_writes (hmem : mem.Of s) : Writes mem s.lastErrLog (a, (s.reconcile a).1) (s.reconcile a).2 := by
  cases hsession : a.session with
  | false => exact writes_noSession hmem hsession
  | true =>
    cases htoken : a.queryToken with
    | error e =>
      refine @writes_lookupFailed s a mem (queryTokenFailed a.consoleSession e) [] hmem hsession ?_ ?_ rfl ?_
      · simp [Answers.resolved, htoken, Except.isOk, Except.toBool]
      · simp [failureOf, hsession, htoken]
      · rw [reconcile_tokenFailed hsession htoken, List.append_nil]
    | ok tok =>
      cases huser : a.tokenUser with
      | error e =>
        refine writes_lookupFailed hmem hsession ?_ ?_ rfl (reconcile_userFailed hsession htoken huser)
        · simp [Answers.resolved, huser, Except.isOk, Except.toBool]
        · simp [failureOf, hsession, htoken, huser]
      | ok user => exact writes_user hmem hsession htoken huser

end

/-! ## Runs -/

/-- What ties the memory, the spawner and the log, as long as no failure has recurred. -/
structure Recalls (mem : Memory) (log : List Bytes) (s : Spawner) : Prop extends mem.Of s where
  lastErrLog : s.lastErrLog = mem.message.getD []
  /-- Since something changed, the last line is one written directly. -/
  direct : mem.changed = true → ∃ l, log.getLast? = some l ∧ Direct l
  /-- As long as nothing did, it is the failure. -/
  last : mem.changed = false → ∀ a spawned msg, failureOf a spawned = some msg → mem.message = some msg →
    log.getLast? = some msg

theorem recalls_newSpawner (exePath : Bytes) (idleSeconds : Int) :
    Recalls {} [] (newSpawner exePath idleSeconds) where
  tracks := tracks_newSpawner exePath idleSeconds
  session := rfl
  watcher := rfl
  lastErrLog := rfl
  direct h := by cases h
  last _ _ _ _ _ h := by cases h

theorem getLast?_append_direct {log direct : List Bytes} (hdirect : ∀ l ∈ direct, Direct l) (hne : direct ≠ []) :
    ∃ l, (log ++ direct).getLast? = some l ∧ Direct l := by
  refine ⟨direct.getLast hne, ?_, hdirect _ (List.getLast_mem hne)⟩
  rw [List.getLast?_append_of_ne_nil _ hne, List.getLast?_eq_some_getLast hne]

variable {mem : Memory} {log : List Bytes} {msg : Bytes}

theorem messageOf_failure (h : failureOf a (mem.due a) = some msg) : mem.messageOf a = some msg := by
  have hsession : a.session = true := by
    by_contra hsession
    rw [failureOf, if_neg hsession] at h
    cases h
  rw [Memory.messageOf, if_pos hsession, h]

/-- A message is a failure's, or says that there is no session. -/
theorem failure_of_messageOf (h : mem.messageOf a = some msg) :
    failureOf a (mem.due a) = some msg ∨ msg = noSession := by
  unfold Memory.messageOf at h
  split at h
  · exact .inl h
  · split at h
    · cases h
    · exact .inr (Option.some.inj h).symm

/-- Once something changed, the last line is one written directly. -/
theorem Recalls.direct_after {direct : List Bytes} (h : Recalls mem log s) (hdirect : ∀ l ∈ direct, Direct l)
    (hchanges : direct = [] ↔ mem.changes a = false) (hmoved : (mem.changed || mem.changes a) = true) :
    ∃ l, (log ++ direct).getLast? = some l ∧ Direct l := by
  by_cases hempty : direct = []
  · rw [hchanges.1 hempty, Bool.or_false] at hmoved
    rw [hempty, List.append_nil]
    exact h.direct hmoved
  · exact getLast?_append_direct hdirect hempty

theorem Recalls.message (h : Recalls mem log s) (hne : s.lastErrLog ≠ []) : mem.message = some s.lastErrLog := by
  rw [h.lastErrLog] at hne ⊢
  cases hmem : mem.message with
  | none =>
    rw [hmem] at hne
    exact absurd rfl hne
  | some msg => rfl

/-- A failure that does not recur is told. -/
theorem Recalls.told (h : Recalls mem log s) (hnot : ¬ Recurs mem a) (hmsg : failureOf a (mem.due a) = some msg) :
    (log ++ linesOf (s.reconcile a).1).getLast? = some msg := by
  obtain ⟨direct, hlines, -, hchanges⟩ := (reconcile_writes (a := a) h.toOf).lines
  have hlines : linesOf (s.reconcile a).1 = direct ++ fresh s.lastErrLog msg := by
    rw [messageOf_failure hmsg] at hlines
    exact hlines
  rw [hlines, fresh]
  by_cases hsame : msg = s.lastErrLog
  · -- it was the last message, and nothing changed since
    have hmem : mem.message = some msg := hsame ▸ h.message (hsame ▸ failure_ne_nil hmsg)
    have hstill : (mem.changed || mem.changes a) = false :=
      Bool.eq_false_iff.2 fun hmoved => hnot ⟨msg, hmsg, hmem, hmoved⟩
    rw [Bool.or_eq_false_iff] at hstill
    rw [if_pos hsame, hchanges.2 hstill.2, List.append_nil, List.append_nil]
    exact h.last hstill.1 _ _ msg hmsg hmem
  · rw [if_neg hsame, ← List.append_assoc, List.getLast?_concat]

/-- A failure that recurs is lost. -/
theorem Recalls.not_told (h : Recalls mem log s) (hrecurs : Recurs mem a) :
    ¬ Told log (a, (s.reconcile a).1) := by
  obtain ⟨msg, hmsg, hmem, hmoved⟩ := hrecurs
  obtain ⟨direct, hlines, hdirect, hchanges⟩ := (reconcile_writes (a := a) h.toOf).lines
  have hsame : s.lastErrLog = msg := by rw [h.lastErrLog, hmem, Option.getD_some]
  have hlines : linesOf (s.reconcile a).1 = direct := by
    rw [messageOf_failure hmsg, Option.elim_some, hsame, fresh, if_pos rfl, List.append_nil] at hlines
    exact hlines
  intro htold
  have hlast : (log ++ linesOf (s.reconcile a).1).getLast? = some msg := htold msg (by rwa [h.toOf.spawns_eq])
  rw [hlines] at hlast
  obtain ⟨l, hl, hline⟩ := h.direct_after hdirect hchanges hmoved
  exact hline.ne_failure hmsg (Option.some.inj (hl.symm.trans hlast))

/-- **One `reconcile`**: where no failure recurs, one is told. -/
theorem Recalls.step (h : Recalls mem log s) (hnot : ¬ Recurs mem a) :
    Told log (a, (s.reconcile a).1) ∧
      Recalls (mem.after a) (log ++ linesOf (s.reconcile a).1) (s.reconcile a).2 := by
  have hwrites := reconcile_writes (a := a) h.toOf
  obtain ⟨direct, hlines, hdirect, hchanges⟩ := hwrites.lines
  have hlast := hwrites.lastErrLog
  have hof : (mem.after a).Of (s.reconcile a).2 := by
    have htracks := h.tracks.step a
    rw [attemptsAfter, attempted, h.toOf.spawns_eq] at htracks
    exact ⟨htracks, hwrites.hadSession.symm, hwrites.hadWatcher.symm⟩
  refine ⟨fun msg hmsg => h.told hnot (h.toOf.spawns_eq a ▸ hmsg), ?_⟩
  cases hmessage : mem.messageOf a with
  | none =>
    rw [hmessage] at hlines hlast
    have hlines : linesOf (s.reconcile a).1 = direct := hlines.trans (List.append_nil direct)
    have hafter : (mem.after a).message = mem.message ∧
        (mem.after a).changed = (mem.changed || mem.changes a) := by
      simp [Memory.after, hmessage]
    refine ⟨hof, ?_, fun hchanged => ?_, fun hchanged a' spawned msg hmsg hmem => ?_⟩
    · rw [hlast, hafter.1, h.lastErrLog]
      rfl
    · rw [hafter.2] at hchanged
      rw [hlines]
      exact h.direct_after hdirect hchanges hchanged
    · rw [hafter.2, Bool.or_eq_false_iff] at hchanged
      rw [hlines, hchanges.2 hchanged.2, List.append_nil]
      rw [hafter.1] at hmem
      exact h.last hchanged.1 a' spawned msg hmsg hmem
  | some m =>
    rw [hmessage] at hlast
    have hafter : (mem.after a).message = some m ∧
        (mem.after a).changed = false := by
      simp [Memory.after, hmessage]
    refine ⟨hof, ?_, fun hchanged => ?_, fun _ a' spawned msg hmsg hmem => ?_⟩
    · rw [hlast, hafter.1]
      rfl
    · rw [hafter.2] at hchanged
      cases hchanged
    · rw [hafter.1] at hmem
      obtain rfl := Option.some.inj hmem
      obtain hfailure | rfl := failure_of_messageOf hmessage
      · exact h.told hnot hfailure
      · exact absurd rfl (noSession_ne_failure hmsg)

/-- **Any run.** -/
theorem Recalls.run : ∀ {answers : List Answers} {mem : Memory} {log : List Bytes} {s : Spawner}, Recalls mem log s →
    (AllTold log (answers.zip (runAll reconcile answers s).1) ↔ NoneRecurs mem answers)
  | [], _, _, _, _ => Iff.rfl
  | a :: answers, mem, log, s, h => by
    show (Told log (a, (s.reconcile a).1) ∧ AllTold (log ++ linesOf (s.reconcile a).1)
        (answers.zip (runAll reconcile answers (s.reconcile a).2).1)) ↔
      (¬ Recurs mem a ∧ NoneRecurs (mem.after a) answers)
    constructor
    · intro htold
      have hnot : ¬ Recurs mem a := fun hrecurs => h.not_told hrecurs htold.1
      exact ⟨hnot, (Recalls.run (h.step hnot).2).1 htold.2⟩
    · intro hnone
      obtain ⟨htold, hnext⟩ := h.step hnone.1
      exact ⟨htold, (Recalls.run hnext).2 hnone.2⟩

end Spawner

/-- **No failure is lost** just if none is the last message again with a launch,
an attach, a loss or a change of session in between. -/
theorem failures_logged_iff (exePath : Bytes) (idleSeconds : Int) (answers : List Spawner.Answers) :
    let run := runAll Spawner.reconcile answers (Spawner.newSpawner exePath idleSeconds)
    Spawner.AllTold [] (answers.zip run.1) ↔ Spawner.NoneRecurs {} answers :=
  (Spawner.recalls_newSpawner exePath idleSeconds).run

/-- A token query fails, a watcher is launched, and the query fails again: of
the three lines that are logged the last is that of the launch. -/
theorem failure_lost :
    let answers := [Spawner.denied, Spawner.granted, Spawner.denied]
    let run := runAll Spawner.reconcile answers (Spawner.newSpawner (str "agent.exe") 180)
    run.1.flatMap Spawner.linesOf =
        [Spawner.sessionAppeared 1, Spawner.queryTokenFailed 1 (str "access is denied"),
          Spawner.launched 1 (str "S-1-5-21-100")] ∧
      ¬ Spawner.AllTold [] (answers.zip run.1) := by
  intro answers run
  refine ⟨by decide +kernel, fun htold => ?_⟩
  have hlast := htold.2.2.1 (Spawner.queryTokenFailed 1 (str "access is denied")) (by decide +kernel)
  exact absurd hlast (by decide +kernel)

end ScrewLogger
