/-
The launch of a watcher (`spawn_windows.go`, `spawnWatcherProcess`): a suspended
child in the user's session, put into a job that dies with the service, and resumed.

Any call into the system may fail, or be the last before the service's process dies.
`watchers_end_with_service`: whatever fails, and whenever the process ends, a watcher
that is left and runs is one that the system refused to put into the job; a launch
that returns leaves nothing open but the job; and no failure is for good.
-/
import ScrewLogger.Agent.Install
import ScrewLogger.Agent.Spawner
import ScrewLogger.Lib.Effect

namespace ScrewLogger
open Lib Lib.Eff

namespace Launch

/-- What becomes of a call into the system. -/
inductive Call
  | done
  | failed (err : Bytes)
  /-- The process dies before the call. -/
  | died
  deriving DecidableEq

inductive Error
  | failed (err : Bytes)
  | died
  deriving DecidableEq

/-- What is to be closed or destroyed, by its number. -/
inductive Resource
  | env (n : Nat)
  | job (n : Nat)
  | process (n : Nat)
  | thread (n : Nat)
  deriving DecidableEq

structure Child where
  number : Nat
  token : UInt64
  exe : Bytes
  cmdLine : Bytes
  /-- It has not run yet. -/
  suspended : Bool := true
  job : Option Nat := none
  /-- `AssignProcessToJobObject` failed. -/
  refused : Bool := false
  alive : Bool := true
  deriving DecidableEq

/-- The service's process, and the system around it. -/
structure Host where
  watcherJob : Option Nat := none
  /-- The number of the next object. -/
  next : Nat := 0
  opened : List Resource := []
  /-- Those that could not be closed. -/
  stuck : List Resource := []
  /-- The jobs that end their processes when their handle is closed. -/
  killOnClose : List Nat := []
  children : List Child := []
  log : List Bytes := []
  up : Bool := true
  /-- What becomes of the calls to come. -/
  calls : List Call := []

abbrev Launcher (α : Type) := Eff Host Error α

/-! ## Calls -/

def nextCall : Launcher Call := take fun h => (h.calls.headD .done, { h with calls := h.calls.tail })

def die {α : Type} : Launcher α := do
  modify fun h => { h with up := false }
  stop .died

/-- A call that makes an object, or some. -/
def create (resources : Nat → List Resource) (f : Nat → Host → Host) : Launcher Nat := do
  match ← nextCall with
  | .done =>
    let n ← read Host.next
    modify fun h => f n { h with next := n + 1, opened := resources n ++ h.opened }
    pure n
  | .failed err => stop (.failed err)
  | .died => die

/-- A call that closes or destroys one. Nobody looks at what it returns. -/
def release (r : Resource) : Launcher Unit := do
  match ← nextCall with
  | .done => modify fun h => { h with opened := h.opened.filter fun r' => r' ≠ r }
  | .failed _ => modify fun h => { h with stuck := r :: h.stuck }
  | .died => die

/-- `defer`: `final` runs after `m`, unless the process has died. -/
def deferred {α : Type} (final : Launcher Unit) (m : Launcher α) : Launcher α := fun h =>
  match m h with
  | (.error .died, h') => (.error .died, h')
  | (r, h') =>
    match final h' with
    | (.ok (), h'') => (r, h'')
    | (.error e, h'') => (.error e, h'')

/-- Logs an error of `m` on its way. -/
def logging {α : Type} (line : Bytes → Bytes) (m : Launcher α) : Launcher α := fun h =>
  match m h with
  | (.error (.failed err), h') => (.error (.failed err), { h' with log := h'.log ++ [line err] })
  | r => r

/-- `fmt.Errorf` with `%w`. -/
def wrap (what : Bytes) : Error → Error
  | .failed err => .failed (what ++ err)
  | .died => .died

def updateChild (n : Nat) (f : Child → Child) (h : Host) : Host :=
  { h with children := h.children.map fun c => if c.number = n then f c else c }

/-! ## The job -/

def createKillOnCloseJob : Launcher Nat := do
  let n ← create (fun n => [.job n]) fun _ h => h
  match ← nextCall with
  | .done =>
    modify fun h => { h with killOnClose := n :: h.killOnClose }
    pure n
  | .failed err =>
    release (.job n)
    stop (.failed err)
  | .died => die

def jobCreateFailed (err : Bytes) : Bytes := str "spawner: watcher job create failed (retrying next spawn): " ++ err

/-- A failure is not kept: the next launch tries again. -/
def getWatcherJob : Launcher Nat := do
  match ← read Host.watcherJob with
  | some job => pure job
  | none =>
    let job ← logging jobCreateFailed createKillOnCloseJob
    modify fun h => { h with watcherJob := some job }
    pure job

/-! ## The child -/

def notPlaced (err : Bytes) : Bytes :=
  str "spawner: watcher not placed in kill-on-close job (running anyway): " ++ err

/-- `UTF16PtrFromString` takes no NUL. -/
def invalidArgument : Error := .failed (str "invalid argument")

def assign (job child : Nat) : Launcher Unit := do
  match ← nextCall with
  | .done => modify (updateChild child fun c => { c with job := some job })
  | .failed err =>
    modify (updateChild child fun c => { c with refused := true })
    modify fun h => { h with log := h.log ++ [notPlaced err] }
  | .died => die

/-- `ResumeThread`. Nobody looks at what it returns. -/
def resumeThread (child : Nat) : Launcher Unit := do
  match ← nextCall with
  | .done => modify (updateChild child fun c => { c with suspended := false })
  | .failed _ => pure ()
  | .died => die

def spawnIntoJob (tok : UInt64) (exe cmdLine : Bytes) (job : Nat) : Launcher Nat := do
  ensure (!cmdLine.contains 0) invalidArgument
  ensure (!exe.contains 0) invalidArgument
  let child ← create (fun n => [.process n, .thread n]) fun n h =>
    { h with children := h.children ++ [{ number := n, token := tok, exe := exe, cmdLine := cmdLine }] }
  assign job child
  resumeThread child
  pure child

/-- The arguments of a call of `Spawn`. -/
structure Request where
  tok : UInt64
  exe : Bytes
  args : List Bytes
  deriving DecidableEq

def Request.line (r : Request) : Bytes :=
  r.args.foldl (fun line a => line ++ str " " ++ escapeArg a) (doubleQuote :: r.exe ++ [doubleQuote])

def spawnWatcherProcess (r : Request) : Launcher Unit := do
  let env ← mapError (wrap (str "environment block: ")) (create (fun n => [.env n]) fun _ h => h)
  deferred (release (.env env)) do
    let job ← mapError (wrap (str "watcher job object: ")) getWatcherJob
    let child ← spawnIntoJob r.tok r.exe r.line job
    release (.process child)
    release (.thread child)

/-- A call of `Spawn`, as long as there is a process to make it. -/
def launch (h : Host) (r : Request) : Except Error Unit × Host :=
  if h.up then spawnWatcherProcess r h else (.error .died, h)

/-- The process ends: the system closes what it had open, and a job's processes end with its handle. -/
def Host.exit (h : Host) : Host :=
  { h with
    up := false
    opened := []
    children := h.children.map fun c =>
      { c with alive := c.alive && !c.job.any fun j => h.opened.contains (.job j) && h.killOnClose.contains j } }

/-! ## What becomes of a call -/

section
variable {α : Type} {h : Host} {E : Error → Host → Prop}

/-- The rest of the schedule. -/
def Host.called (h : Host) : Host := { h with calls := h.calls.tail }

def Host.call (h : Host) : Call := h.calls.headD .done

theorem wp_create {resources : Nat → List Resource} {f : Nat → Host → Host} {Q : Nat → Host → Prop}
    (hdone : h.call = .done → Q h.next (f h.next
      { h.called with next := h.next + 1, opened := resources h.next ++ h.opened }))
    (hfailed : ∀ err, h.call = .failed err → E (.failed err) h.called)
    (hdied : h.call = .died → E .died { h.called with up := false }) : wp (create resources f) Q E h := by
  change wp (match h.call with | .done => _ | .failed err => _ | .died => _) Q E h.called
  cases hcall : h.call with
  | done => exact hdone hcall
  | failed err => exact hfailed err hcall
  | died => exact hdied hcall

theorem wp_release {r : Resource} {Q : Unit → Host → Prop}
    (hdone : h.call = .done → Q () { h.called with opened := h.opened.filter fun r' => r' ≠ r })
    (hfailed : ∀ err, h.call = .failed err → Q () { h.called with stuck := r :: h.stuck })
    (hdied : h.call = .died → E .died { h.called with up := false }) : wp (release r) Q E h := by
  change wp (match h.call with | .done => _ | .failed err => _ | .died => _) Q E h.called
  cases hcall : h.call with
  | done => exact hdone hcall
  | failed err => exact hfailed err hcall
  | died => exact hdied hcall

theorem wp_assign {job child : Nat} {Q : Unit → Host → Prop}
    (hdone : h.call = .done → Q () (updateChild child (fun c => { c with job := some job }) h.called))
    (hfailed : ∀ err, h.call = .failed err →
      Q () { updateChild child (fun c => { c with refused := true }) h.called with log := h.log ++ [notPlaced err] })
    (hdied : h.call = .died → E .died { h.called with up := false }) : wp (assign job child) Q E h := by
  change wp (match h.call with | .done => _ | .failed err => _ | .died => _) Q E h.called
  cases hcall : h.call with
  | done => exact hdone hcall
  | failed err => exact hfailed err hcall
  | died => exact hdied hcall

theorem wp_resumeThread {child : Nat} {Q : Unit → Host → Prop}
    (hdone : h.call = .done → Q () (updateChild child (fun c => { c with suspended := false }) h.called))
    (hfailed : ∀ err, h.call = .failed err → Q () h.called)
    (hdied : h.call = .died → E .died { h.called with up := false }) : wp (resumeThread child) Q E h := by
  change wp (match h.call with | .done => _ | .failed err => _ | .died => _) Q E h.called
  cases hcall : h.call with
  | done => exact hdone hcall
  | failed err => exact hfailed err hcall
  | died => exact hdied hcall

theorem wp_deferred {final : Launcher Unit} {m : Launcher α} {Q : α → Host → Prop}
    (hm : wp m (fun a => wp final (fun _ => Q a) E)
      (fun e h' => (e = .died → E e h') ∧ (e ≠ .died → wp final (fun _ => E e) E h')) h) :
    wp (deferred final m) Q E h := by
  unfold wp deferred at *
  cases hrun : m h with
  | mk r h' =>
    rw [hrun] at hm
    cases r with
    | ok a =>
      dsimp only at hm ⊢
      cases hfinal : final h' with
      | mk r' h'' =>
        rw [hfinal] at hm
        cases r' <;> exact hm
    | error e =>
      cases e with
      | died => exact hm.1 rfl
      | failed err =>
        have hm := hm.2 (by simp)
        dsimp only at hm ⊢
        cases hfinal : final h' with
        | mk r' h'' =>
          rw [hfinal] at hm
          cases r' <;> exact hm

theorem wp_logging {line : Bytes → Bytes} {m : Launcher α} {Q : α → Host → Prop}
    (hm : wp m Q (fun e h' => (e = .died → E e h') ∧
      ∀ err, e = .failed err → E e { h' with log := h'.log ++ [line err] }) h) : wp (logging line m) Q E h := by
  unfold wp logging at *
  cases hrun : m h with
  | mk r h' =>
    rw [hrun] at hm
    cases r with
    | ok a => exact hm
    | error e =>
      cases e with
      | died => exact hm.1 rfl
      | failed err => exact hm.2 err rfl

end

/-! ## What holds throughout -/

/-- What holds at any moment, `held` being what is to be closed before the launch returns. -/
structure Inv (held : List Resource) (h : Host) : Prop where
  numbers : ∀ c ∈ h.children, c.number < h.next
  opened : ∀ r ∈ h.opened, r ∈ h.stuck ∨ r ∈ held ∨ ∃ j, h.watcherJob = some j ∧ r = .job j
  job : ∀ j, h.watcherJob = some j → .job j ∈ h.opened ∧ j ∈ h.killOnClose
  kept : ∀ c ∈ h.children, c.suspended = true ∨ c.refused = true ∨ ∃ j, h.watcherJob = some j ∧ c.job = some j

variable {held : List Resource} {h h₀ : Host}

theorem Inv.called (hI : Inv held h) : Inv held h.called := ⟨hI.numbers, hI.opened, hI.job, hI.kept⟩

theorem Inv.died (hI : Inv held h) : Inv held { h.called with up := false } :=
  ⟨hI.numbers, hI.opened, hI.job, hI.kept⟩

theorem Inv.logged (hI : Inv held h) (log : List Bytes) : Inv held { h with log := log } :=
  ⟨hI.numbers, hI.opened, hI.job, hI.kept⟩

/-- What a child was made with. -/
def Child.what (c : Child) : UInt64 × Bytes × Bytes := (c.token, c.exe, c.cmdLine)

def Request.what (r : Request) : UInt64 × Bytes × Bytes := (r.tok, r.exe, r.line)

def Host.launched (h : Host) : List (UInt64 × Bytes × Bytes) := h.children.map Child.what

/-- How a part of a launch that began with `h₀` ends when it fails. -/
def Fails (held : List Resource) (h₀ : Host) (e : Error) (h : Host) : Prop :=
  (∃ held', Inv held' h) ∧ (e = .died → h.up = false) ∧
    (e ≠ .died → Inv held h ∧ h.launched = h₀.launched ∧ h.up = h₀.up)

theorem Inv.fails_died (hI : Inv held h) {held' : List Resource} :
    Fails held' h₀ .died { h.called with up := false } :=
  ⟨⟨held, hI.died⟩, fun _ => rfl, fun hno => absurd rfl hno⟩

/-- Something is closed that is no job in use. -/
theorem Inv.release {r : Resource} {Q : Unit → Host → Prop} {held' : List Resource} (hI : Inv (r :: held) h)
    (hr : ∀ j, h.watcherJob = some j → r ≠ .job j)
    (hQ : ∀ h', Inv held h' → h'.launched = h.launched → h'.up = h.up → h'.watcherJob = h.watcherJob → Q () h') :
    wp (release r) Q (Fails held' h₀) h := by
  refine wp_release (fun _ => hQ _ ⟨hI.numbers, fun r' hr' => ?_, fun j hj => ?_, hI.kept⟩ rfl rfl rfl)
    (fun _ _ => hQ _ ⟨hI.numbers, fun r' hr' => ?_, hI.job, hI.kept⟩ rfl rfl rfl) fun _ => hI.fails_died
  · obtain ⟨hr', hne⟩ := List.mem_filter.1 hr'
    rcases hI.opened r' hr' with hmem | hmem | hjob
    · exact .inl hmem
    · exact .inr (.inl ((List.mem_cons.1 hmem).resolve_left (of_decide_eq_true hne)))
    · exact .inr (.inr hjob)
  · obtain ⟨hmem, hkill⟩ := hI.job j hj
    exact ⟨List.mem_filter.2 ⟨hmem, decide_eq_true (hr j hj).symm⟩, hkill⟩
  · rcases hI.opened r' hr' with hmem | hmem | hjob
    · exact .inl (List.mem_cons_of_mem _ hmem)
    · rcases List.mem_cons.1 hmem with rfl | hmem
      · exact .inl List.mem_cons_self
      · exact .inr (.inl hmem)
    · exact .inr (.inr hjob)

/-- A child is changed into one that is still kept. -/
theorem Inv.update (hI : Inv held h) {n : Nat} {f : Child → Child} (hnumber : ∀ c, (f c).number = c.number)
    (hkept : ∀ c ∈ h.children, c.number = n →
      (f c).suspended = true ∨ (f c).refused = true ∨ ∃ j, h.watcherJob = some j ∧ (f c).job = some j) :
    Inv held (updateChild n f h) := by
  refine ⟨fun c hc => ?_, hI.opened, hI.job, fun c hc => ?_⟩
  · obtain ⟨c', hc', rfl⟩ := List.mem_map.1 hc
    have hlt := hI.numbers c' hc'
    split
    · rw [hnumber]
      exact hlt
    · exact hlt
  · obtain ⟨c', hc', rfl⟩ := List.mem_map.1 hc
    split
    · next heq => exact hkept c' hc' heq
    · exact hI.kept c' hc'

theorem launched_updateChild {n : Nat} {f : Child → Child} (hf : ∀ c, (f c).what = c.what) :
    (updateChild n f h).launched = h.launched := by
  rw [Host.launched, updateChild, List.map_map]
  refine List.map_congr_left fun c _ => ?_
  rw [Function.comp_apply]
  split
  · exact hf c
  · rfl

theorem createKillOnCloseJob_spec (hI : Inv held h) (hnone : h.watcherJob = none) :
    wp createKillOnCloseJob
      (fun n h' => Inv held { h' with watcherJob := some n } ∧ h'.launched = h.launched ∧ h'.up = h.up)
      (Fails held h) h := by
  rw [createKillOnCloseJob, wp_bind]
  refine wp_create (fun _ => ?_) (fun err _ => ⟨⟨held, hI.called⟩, by simp, fun _ => ⟨hI.called, rfl, rfl⟩⟩) fun _ =>
    hI.fails_died
  let t : Host := { h.called with next := h.next + 1, opened := .job h.next :: h.opened }
  have ht : Inv (.job h.next :: held) t := by
    refine ⟨fun c hc => (hI.numbers c hc).trans (Nat.lt_succ_self _), fun r hr => ?_, fun j hj => ?_, hI.kept⟩
    · rcases List.mem_cons.1 hr with rfl | hr
      · exact .inr (.inl List.mem_cons_self)
      · exact (hI.opened r hr).imp_right (Or.imp_left (List.mem_cons_of_mem _))
    · have hj : h.watcherJob = some j := hj
      rw [hnone] at hj
      cases hj
  have hnone' : ∀ j, t.called.watcherJob = some j → Resource.job h.next ≠ .job j := fun j hj => by
    have hj : h.watcherJob = some j := hj
    rw [hnone] at hj
    cases hj
  change wp (nextCall >>= _) _ _ t
  rw [wp_bind]
  change wp (match t.call with | .done => _ | .failed err => _ | .died => _) _ _ t.called
  cases t.call with
  | done =>
    refine ⟨⟨ht.numbers, fun r hr => ?_, fun j hj => ?_, fun c hc => ?_⟩, rfl, rfl⟩
    · rcases List.mem_cons.1 hr with rfl | hr
      · exact .inr (.inr ⟨_, rfl, rfl⟩)
      · rcases hI.opened r hr with hmem | hmem | ⟨j, hj, -⟩
        · exact .inl hmem
        · exact .inr (.inl hmem)
        · rw [hnone] at hj
          cases hj
    · cases hj
      exact ⟨List.mem_cons_self, List.mem_cons_self⟩
    · rcases hI.kept c hc with hs | hs | ⟨j, hj, -⟩
      · exact .inl hs
      · exact .inr (.inl hs)
      · rw [hnone] at hj
        cases hj
  | failed err =>
    dsimp only
    rw [wp_bind]
    exact ht.called.release hnone' fun h' hI' hlaunched hup _ =>
      ⟨⟨held, hI'⟩, by simp, fun _ => ⟨hI', hlaunched, hup⟩⟩
  | died => exact ht.fails_died

theorem getWatcherJob_spec (hI : Inv held h) :
    wp getWatcherJob (fun j h' => Inv held h' ∧ h'.watcherJob = some j ∧ h'.launched = h.launched ∧ h'.up = h.up)
      (Fails held h) h := by
  rw [getWatcherJob, wp_bind, wp_read]
  dsimp only
  cases hjob : h.watcherJob with
  | some job => exact ⟨hI, hjob, rfl, rfl⟩
  | none =>
    dsimp only
    rw [wp_bind]
    refine wp_logging ((createKillOnCloseJob_spec hI hjob).mono (fun n h' hn => ⟨hn.1, rfl, hn.2⟩) fun e h' he => ?_)
    refine ⟨fun _ => he, ?_⟩
    rintro err rfl
    obtain ⟨hI', hlaunched, hup⟩ := he.2.2 (by simp)
    exact ⟨⟨held, hI'.logged _⟩, by simp, fun _ => ⟨hI'.logged _, hlaunched, hup⟩⟩

/-- The child is in the job, or was refused: it may run. -/
def Host.Settled (h : Host) (n : Nat) : Prop :=
  ∀ c ∈ h.children, c.number = n → c.refused = true ∨ ∃ j, h.watcherJob = some j ∧ c.job = some j

theorem settled_updateChild {n : Nat} {f : Child → Child} (hf : ∀ c, (f c).number = c.number →
    (f c).refused = true ∨ ∃ j, h.watcherJob = some j ∧ (f c).job = some j) (hnumber : ∀ c, (f c).number = c.number) :
    (updateChild n f h).Settled n := by
  intro c hc hn
  obtain ⟨c', -, rfl⟩ := List.mem_map.1 hc
  by_cases heq : c'.number = n
  · rw [if_pos heq]
    exact hf c' (hnumber c')
  · rw [if_neg heq] at hn
    exact absurd hn heq

theorem assign_spec {job n : Nat} {held' : List Resource} (hI : Inv held h) (hjob : h.watcherJob = some job) :
    wp (assign job n)
      (fun _ h' => Inv held h' ∧ h'.Settled n ∧ h'.launched = h.launched ∧ h'.up = h.up ∧ h'.watcherJob = h.watcherJob)
      (Fails held' h₀) h := by
  refine wp_assign (fun _ => ?_) (fun err _ => ?_) fun _ => hI.fails_died
  · exact ⟨hI.called.update (fun _ => rfl) fun _ _ _ => .inr (.inr ⟨job, hjob, rfl⟩),
      settled_updateChild (fun _ _ => .inr ⟨job, hjob, rfl⟩) fun _ => rfl, launched_updateChild fun _ => rfl, rfl, rfl⟩
  · have hI' := hI.called.update (n := n) (f := fun c => { c with refused := true }) (fun _ => rfl) fun _ _ _ =>
      .inr (.inl rfl)
    have hsettled : (updateChild n (fun c => { c with refused := true }) h.called).Settled n :=
      settled_updateChild (fun _ _ => .inl rfl) fun _ => rfl
    exact ⟨hI'.logged _, hsettled, launched_updateChild fun _ => rfl, rfl, rfl⟩

theorem resumeThread_spec {n : Nat} {held' : List Resource} (hI : Inv held h) (hsettled : h.Settled n) :
    wp (resumeThread n)
      (fun _ h' => Inv held h' ∧ h'.launched = h.launched ∧ h'.up = h.up ∧ h'.watcherJob = h.watcherJob)
      (Fails held' h₀) h := by
  refine wp_resumeThread (fun _ => ?_) (fun _ _ => ⟨hI.called, rfl, rfl, rfl⟩) fun _ => hI.fails_died
  exact ⟨hI.called.update (fun _ => rfl) fun c hc hn => .inr (hsettled c hc hn), launched_updateChild fun _ => rfl,
    rfl, rfl⟩

theorem spawnIntoJob_spec {tok : UInt64} {exe cmdLine : Bytes} {job : Nat} (hI : Inv held h)
    (hjob : h.watcherJob = some job) :
    wp (spawnIntoJob tok exe cmdLine job)
      (fun n h' => Inv (.process n :: .thread n :: held) h' ∧ h'.launched = h.launched ++ [(tok, exe, cmdLine)] ∧
        h'.up = h.up) (Fails held h) h := by
  have hfails : Fails held h invalidArgument h :=
    ⟨⟨held, hI⟩, by simp [invalidArgument], fun _ => ⟨hI, rfl, rfl⟩⟩
  rw [spawnIntoJob]
  simp only [wp_bind, wp_ensure]
  refine ⟨fun _ => ⟨fun _ => ?_, fun _ => hfails⟩, fun _ => hfails⟩
  refine wp_create (fun _ => ?_) (fun err _ => ⟨⟨held, hI.called⟩, by simp, fun _ => ⟨hI.called, rfl, rfl⟩⟩) fun _ =>
    hI.fails_died
  let child : Child := { number := h.next, token := tok, exe := exe, cmdLine := cmdLine }
  let t : Host :=
    { h.called with
      next := h.next + 1
      opened := [.process h.next, .thread h.next] ++ h.opened
      children := h.children ++ [child] }
  have ht : Inv (.process h.next :: .thread h.next :: held) t := by
    refine ⟨fun c hc => ?_, fun r hr => ?_, fun j hj => ?_, fun c hc => ?_⟩
    · rcases List.mem_append.1 hc with hc | hc
      · exact (hI.numbers c hc).trans (Nat.lt_succ_self _)
      · obtain rfl := List.mem_singleton.1 hc
        exact Nat.lt_succ_self _
    · rcases List.mem_append.1 hr with hr | hr
      · exact .inr (.inl (List.mem_append_left held hr))
      · exact (hI.opened r hr).imp_right (Or.imp_left (List.mem_append_right [_, _]))
    · obtain ⟨hmem, hkill⟩ := hI.job j hj
      exact ⟨List.mem_append_right _ hmem, hkill⟩
    · rcases List.mem_append.1 hc with hc | hc
      · exact hI.kept c hc
      · obtain rfl := List.mem_singleton.1 hc
        exact .inl rfl
  have hlaunched : t.launched = h.launched ++ [(tok, exe, cmdLine)] := by
    rw [Host.launched, List.map_append]
    rfl
  refine (assign_spec ht hjob).mono (fun _ h₁ h₁' => ?_) fun _ _ he => he
  obtain ⟨hI₁, hsettled, hlaunched₁, hup₁, -⟩ := h₁'
  refine (resumeThread_spec hI₁ hsettled).mono (fun _ h₂ h₂' => ?_) fun _ _ he => he
  obtain ⟨hI₂, hlaunched₂, hup₂, -⟩ := h₂'
  exact ⟨hI₂, hlaunched₂.trans (hlaunched₁.trans hlaunched), hup₂.trans hup₁⟩

theorem Fails.wrap {held : List Resource} {e : Error} (hfails : Fails held h₀ e h) (what : Bytes) :
    Fails held h₀ (wrap what e) h := by
  cases e with
  | died => exact hfails
  | failed err => exact ⟨hfails.1, by simp [Launch.wrap], fun _ => hfails.2.2 (by simp)⟩

/-- It failed, of what had been as before it. -/
theorem Fails.since {held : List Resource} {e : Error} {h₁ : Host} (hfails : Fails held h₁ e h)
    (hlaunched : h₁.launched = h₀.launched) (hup : h₁.up = h₀.up) : Fails held h₀ e h :=
  ⟨hfails.1, hfails.2.1, fun hno =>
    ⟨(hfails.2.2 hno).1, (hfails.2.2 hno).2.1.trans hlaunched, (hfails.2.2 hno).2.2.trans hup⟩⟩

/-- **One launch.** -/
theorem spawnWatcherProcess_spec (r : Request) (hI : Inv [] h) :
    wp (spawnWatcherProcess r) (fun _ h' => Inv [] h' ∧ h'.launched = h.launched ++ [r.what] ∧ h'.up = h.up)
      (Fails [] h) h := by
  rw [spawnWatcherProcess, wp_bind, wp_mapError]
  refine wp_create (fun _ => ?_) (fun err _ => ⟨⟨[], hI.called⟩, by simp [wrap], fun _ => ⟨hI.called, rfl, rfl⟩⟩)
    fun _ => hI.fails_died
  let t : Host := { h.called with next := h.next + 1, opened := .env h.next :: h.opened }
  have ht : Inv [.env h.next] t := by
    refine ⟨fun c hc => (hI.numbers c hc).trans (Nat.lt_succ_self _), fun r hr => ?_, fun j hj => ?_, hI.kept⟩
    · rcases List.mem_cons.1 hr with rfl | hr
      · exact .inr (.inl List.mem_cons_self)
      · exact (hI.opened r hr).imp_right (Or.imp_left (absurd · List.not_mem_nil))
    · obtain ⟨hmem, hkill⟩ := hI.job j hj
      exact ⟨List.mem_cons_of_mem _ hmem, hkill⟩
  -- on every way out but death the environment is destroyed
  have hleave : ∀ {e h'}, Fails [.env h.next] h e h' → (e = .died → Fails [] h e h') ∧
      (e ≠ .died → wp (release (.env h.next)) (fun _ => Fails [] h e) (Fails [] h) h') := by
    intro e h' hfails
    refine ⟨fun hdied => ⟨hfails.1, hfails.2.1, fun hno => absurd hdied hno⟩, fun hno => ?_⟩
    obtain ⟨hI', hlaunched, hup⟩ := hfails.2.2 hno
    exact hI'.release (by simp) fun h'' hI'' hlaunched' hup' _ =>
      ⟨⟨[], hI''⟩, fun hdied => absurd hdied hno, fun _ => ⟨hI'', hlaunched'.trans hlaunched, hup'.trans hup⟩⟩
  refine wp_deferred ?_
  rw [wp_bind, wp_mapError]
  refine (getWatcherJob_spec ht).mono (fun job h₁ h₁' => ?_) fun e h' he => hleave ((he.wrap _).since rfl rfl)
  obtain ⟨hI₁, hjob, hlaunched₁, hup₁⟩ := h₁'
  rw [wp_bind]
  refine (spawnIntoJob_spec hI₁ hjob).mono (fun n h₂ h₂' => ?_) fun e h' he => hleave (he.since hlaunched₁ hup₁)
  obtain ⟨hI₂, hlaunched₂, hup₂⟩ := h₂'
  rw [wp_bind]
  refine wp.mono (hI₂.release (Q := fun _ h' => Inv [.thread n, .env h.next] h' ∧ h'.launched = h₂.launched ∧
    h'.up = h₂.up) (by simp) fun h' hI' hlaunched' hup' _ => ⟨hI', hlaunched', hup'⟩) (fun _ h₃ h₃' => ?_)
    fun e h' he => hleave he
  obtain ⟨hI₃, hlaunched₃, hup₃⟩ := h₃'
  refine wp.mono (hI₃.release (Q := fun _ h' => Inv [.env h.next] h' ∧ h'.launched = h₃.launched ∧ h'.up = h₃.up)
    (by simp) fun h' hI' hlaunched' hup' _ => ⟨hI', hlaunched', hup'⟩) (fun _ h₄ h₄' => ?_) fun e h' he => hleave he
  obtain ⟨hI₄, hlaunched₄, hup₄⟩ := h₄'
  have hlaunched : h₄.launched = h.launched ++ [r.what] := by
    rw [hlaunched₄, hlaunched₃, hlaunched₂, hlaunched₁]
    rfl
  have hup : h₄.up = h.up := hup₄.trans (hup₃.trans (hup₂.trans hup₁))
  exact hI₄.release (by simp) fun h' hI' hlaunched' hup' _ => ⟨hI', hlaunched'.trans hlaunched, hup'.trans hup⟩

/-! ## Any number of launches -/

/-- What is to be launched by the calls that return nil. -/
def returned (rs : List Request) (answers : List (Except Error Unit)) : List (UInt64 × Bytes × Bytes) :=
  (rs.zip answers).filterMap fun p => if p.2.isOk then some p.1.what else none

/-- After any number of launches, the process alive or not. -/
structure Ran (what : List (UInt64 × Bytes × Bytes)) (h : Host) : Prop where
  inv : ∃ held, Inv held h
  idle : h.up = true → Inv [] h ∧ h.launched = what

theorem Ran.after {what : List (UInt64 × Bytes × Bytes)} (hran : Ran what h) (r : Request) :
    Ran (what ++ if (launch h r).1.isOk then [r.what] else []) (launch h r).2 := by
  unfold Launch.launch
  by_cases hup : h.up = true
  · obtain ⟨hI, rfl⟩ := hran.idle hup
    rw [if_pos hup]
    have hspec := spawnWatcherProcess_spec r hI
    unfold wp at hspec
    split at hspec
    · next heq =>
      rw [heq]
      exact ⟨⟨[], hspec.1⟩, fun _ => ⟨hspec.1, hspec.2.1⟩⟩
    · next e h' heq =>
      rw [heq]
      refine ⟨hspec.1, fun hup' => ?_⟩
      have hno : e ≠ .died := fun hdied => by
        rw [hspec.2.1 hdied] at hup'
        cases hup'
      exact ⟨(hspec.2.2 hno).1, (hspec.2.2 hno).2.1.trans (List.append_nil _).symm⟩
  · rw [if_neg hup]
    exact ⟨hran.inv, fun hup' => absurd hup' hup⟩

theorem Ran.run : ∀ (rs : List Request) {what : List (UInt64 × Bytes × Bytes)} {h : Host}, Ran what h →
    Ran (what ++ returned rs (runAll launch rs h).1) (runAll launch rs h).2
  | [], _, _, hran => by
    rw [returned, List.zip_nil_left, List.filterMap_nil, List.append_nil]
    exact hran
  | r :: rs, what, h, hran => by
    have hrest := (hran.after r).run rs
    have hreturned : returned (r :: rs) (runAll launch (r :: rs) h).1 =
        (if (launch h r).1.isOk then [r.what] else []) ++ returned rs (runAll launch rs (launch h r).2).1 := by
      simp only [returned, runAll, List.zip_cons_cons, List.filterMap_cons]
      split
      · next hno =>
        split at hno
        · cases hno
        · next hok => rw [if_neg hok, List.nil_append]
      · next w hw =>
        split at hw
        · next hok =>
          cases hw
          rw [if_pos hok, List.singleton_append]
        · cases hw
    rw [hreturned, ← List.append_assoc]
    exact hrest

theorem ran_start (calls : List Call) : Ran [] { calls := calls } :=
  have hI : Inv [] { calls := calls } :=
    ⟨fun _ hc => absurd hc List.not_mem_nil, fun _ hr => absurd hr List.not_mem_nil, fun _ hj => (nomatch hj),
      fun _ hc => absurd hc List.not_mem_nil⟩
  ⟨⟨[], hI⟩, fun _ => ⟨hI, rfl⟩⟩

/-- The service's end is the end of its watchers. -/
theorem Inv.exit (hI : Inv held h) : ∀ c ∈ h.exit.children, c.alive = true → c.suspended = true ∨ c.refused = true := by
  intro c hc halive
  obtain ⟨c', hc', rfl⟩ := List.mem_map.1 hc
  rcases hI.kept c' hc' with hs | hs | ⟨j, hj, hin⟩
  · exact .inl hs
  · exact .inr hs
  · obtain ⟨hmem, hkill⟩ := hI.job j hj
    have hended : c'.job.any (fun j => h.opened.contains (.job j) && h.killOnClose.contains j) = true := by
      simp [hin, hmem, hkill]
    rw [hended, Bool.not_true, Bool.and_false] at halive
    cases halive

/-! ## A launch of which no call fails -/

section
variable (hcalls : h.calls = [])
include hcalls

theorem call_calm : h.call = .done := by
  rw [Host.call, hcalls]
  rfl

theorem not_failed {P : Prop} (err : Bytes) (hno : h.call = .failed err) : P := by
  rw [call_calm hcalls] at hno
  cases hno

theorem not_died {P : Prop} (hno : h.call = .died) : P := by
  rw [call_calm hcalls] at hno
  cases hno

theorem called_calm : h.called.calls = [] := by
  rw [Host.called, hcalls]
  rfl

theorem release_calm (r : Resource) : wp (release r) (fun _ h' => h'.calls = [] ∧ h'.children = h.children ∧
    h'.watcherJob = h.watcherJob) (fun _ _ => False) h :=
  wp_release (fun _ => ⟨called_calm hcalls, rfl, rfl⟩) (not_failed hcalls) (not_died hcalls)

theorem getWatcherJob_calm : wp getWatcherJob (fun j h' => h'.calls = [] ∧ h'.watcherJob = some j)
    (fun _ _ => False) h := by
  rw [getWatcherJob, wp_bind, wp_read]
  dsimp only
  cases hjob : h.watcherJob with
  | some job => exact ⟨hcalls, hjob⟩
  | none =>
    dsimp only
    rw [wp_bind]
    refine wp_logging (wp.mono (Q := fun _ h' => h'.calls = []) (E := fun _ _ => False) ?_
      (fun n h' hn => ⟨hn, rfl⟩) fun _ _ hno => hno.elim)
    rw [createKillOnCloseJob, wp_bind]
    refine wp_create (fun _ => ?_) (not_failed hcalls) (not_died hcalls)
    let t : Host := { h.called with next := h.next + 1, opened := .job h.next :: h.opened }
    have ht : t.calls = [] := called_calm hcalls
    rw [wp_bind]
    change wp (match t.call with | .done => _ | .failed err => _ | .died => _) _ _ t.called
    rw [call_calm ht]
    exact called_calm ht

/-- A watcher that runs, in the service's job. -/
def Host.Runs (h : Host) (what : UInt64 × Bytes × Bytes) : Prop :=
  ∃ c ∈ h.children, c.what = what ∧ c.suspended = false ∧ c.alive = true ∧ ∃ j, h.watcherJob = some j ∧ c.job = some j

theorem spawnIntoJob_calm {tok : UInt64} {exe cmdLine : Bytes} {job : Nat} (hjob : h.watcherJob = some job)
    (hline : 0 ∉ cmdLine) (hexe : 0 ∉ exe) :
    wp (spawnIntoJob tok exe cmdLine job) (fun _ h' => h'.calls = [] ∧ h'.Runs (tok, exe, cmdLine))
      (fun _ _ => False) h := by
  rw [spawnIntoJob]
  simp only [wp_bind, wp_ensure]
  refine ⟨fun _ => ⟨fun _ => ?_, fun hno => by simp [hexe] at hno⟩, fun hno => by simp [hline] at hno⟩
  refine wp_create (fun _ => ?_) (not_failed hcalls) (not_died hcalls)
  let child : Child := { number := h.next, token := tok, exe := exe, cmdLine := cmdLine }
  let t : Host :=
    { h.called with
      next := h.next + 1
      opened := [.process h.next, .thread h.next] ++ h.opened
      children := h.children ++ [child] }
  have ht : t.calls = [] := called_calm hcalls
  change wp (assign job h.next) _ _ t
  refine wp_assign (fun _ => ?_) (fun err => not_failed ht err) (not_died ht)
  let u : Host := updateChild h.next (fun c => { c with job := some job }) t.called
  have hu : u.calls = [] := called_calm ht
  have hassigned : { child with job := some job } ∈ u.children :=
    List.mem_map.2 ⟨child, List.mem_concat_self, if_pos rfl⟩
  change wp (resumeThread h.next) _ _ u
  refine wp_resumeThread (fun _ => ?_) (not_failed hu) (not_died hu)
  exact ⟨called_calm hu, { child with job := some job, suspended := false },
    List.mem_map.2 ⟨_, hassigned, if_pos rfl⟩, rfl, rfl, rfl, job, hjob, rfl⟩

theorem spawnWatcherProcess_calm (r : Request) (hline : 0 ∉ r.line) (hexe : 0 ∉ r.exe) :
    wp (spawnWatcherProcess r) (fun _ h' => h'.Runs r.what) (fun _ _ => False) h := by
  rw [spawnWatcherProcess, wp_bind, wp_mapError]
  refine wp_create (fun _ => ?_) (not_failed hcalls) (not_died hcalls)
  refine wp_deferred (wp.mono (Q := fun _ h' => h'.calls = [] ∧ h'.Runs r.what) (E := fun _ _ => False) ?_ ?_
    fun _ _ hno => hno.elim)
  · rw [wp_bind, wp_mapError]
    let t : Host := { h.called with next := h.next + 1, opened := .env h.next :: h.opened }
    have ht : t.calls = [] := called_calm hcalls
    refine (getWatcherJob_calm ht).mono (fun job h₁ h₁' => ?_) fun _ _ hno => hno
    rw [wp_bind]
    refine (spawnIntoJob_calm h₁'.1 h₁'.2 hline hexe).mono (fun n h₂ h₂' => ?_) fun _ _ hno => hno
    rw [wp_bind]
    refine (release_calm h₂'.1 _).mono (fun _ h₃ h₃' => ?_) fun _ _ hno => hno
    refine (release_calm h₃'.1 _).mono (fun _ h₄ h₄' => ⟨h₄'.1, ?_⟩) fun _ _ hno => hno
    obtain ⟨c, hc, hwhat, hrun, halive, j, hj, hin⟩ := h₂'.2
    exact ⟨c, by rwa [h₄'.2.1, h₃'.2.1], hwhat, hrun, halive, j, by rwa [h₄'.2.2, h₃'.2.2], hin⟩
  · rintro _ h₁ ⟨hcalls₁, c, hc, hwhat, hrun, halive, j, hj, hin⟩
    refine (release_calm hcalls₁ _).mono (fun _ h₂ h₂' => ?_) fun _ _ hno => hno
    exact ⟨c, by rwa [h₂'.2.1], hwhat, hrun, halive, j, by rwa [h₂'.2.2], hin⟩

end

end Launch

open Launch

/-- **The watchers' end**, for every schedule of failures and every moment the process may die in. -/
theorem watchers_end_with_service (calls : List Launch.Call) (rs : List Launch.Request) :
    let run := runAll launch rs { calls := calls }
    (∀ c ∈ run.2.exit.children, c.alive = true → c.suspended = true ∨ c.refused = true) ∧
      (run.2.up = true →
        (∀ r ∈ run.2.opened, r ∈ run.2.stuck ∨ ∃ j, run.2.watcherJob = some j ∧ r = .job j) ∧
        run.2.launched = returned rs run.1 ∧
        (run.2.calls = [] → ∀ r : Launch.Request, 0 ∉ r.line → 0 ∉ r.exe →
          (launch run.2 r).1 = .ok () ∧ (launch run.2 r).2.Runs r.what)) := by
  intro run
  have hran : Ran (returned rs run.1) run.2 := (ran_start calls).run rs
  obtain ⟨held, hI⟩ := hran.inv
  refine ⟨hI.exit, fun hup => ?_⟩
  obtain ⟨hI, hlaunched⟩ := hran.idle hup
  refine ⟨fun r hr => (hI.opened r hr).imp_right fun hopen => hopen.resolve_left List.not_mem_nil, hlaunched,
    fun hcalls r hline hexe => ?_⟩
  obtain ⟨_, h', hrun, hruns⟩ := (spawnWatcherProcess_calm hcalls r hline hexe).returns
  rw [launch, if_pos hup, hrun]
  exact ⟨rfl, hruns⟩

end ScrewLogger
