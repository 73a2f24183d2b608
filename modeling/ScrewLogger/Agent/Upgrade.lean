/-
An upgrade of the service (`install_windows.go`, `UpgradeService`): the service
is stopped, its binary overwritten, the service started.

`copyFile` truncates the binary before it reads what replaces it. So
`spares_iff`: the binary is the new one after a copy without error, and the old
one after an error until then, exactly where the copy is not reached, or goes
through to its end from another file, or leaves what was there by chance.
-/
import ScrewLogger.Agent.Install
import ScrewLogger.Lib.Effect
import Mathlib.Order.Basic

namespace ScrewLogger
open Lib Lib.Eff

inductive ServiceState
  | stopped
  | startPending
  | stopPending
  | running
  | continuePending
  | pausePending
  | paused
  deriving DecidableEq

/-- A query of the service and the clock after it. -/
structure ServiceQuery where
  /-- Nothing, if the query fails. -/
  state : Option ServiceState
  /-- In milliseconds. -/
  time : Int

/-- The calls that may fail. -/
inductive UpgradeStep
  | connect
  | openService
  | control
  | waitStopped
  | config
  | openSrc
  | createDst
  | copy
  | closeDst
  | start
  deriving DecidableEq

/-- What becomes of a call. -/
inductive CallResult
  | done
  /-- `ERROR_SERVICE_NOT_ACTIVE`. -/
  | notActive
  /-- Another error, a copy's after `n` bytes. -/
  | failed (n : Nat)
  deriving DecidableEq

inductive UpgradeError
  | failed (step : UpgradeStep)
  /-- The call has not returned: it waits for the service to stop. -/
  | waiting
  deriving DecidableEq

/-- The disk, the service manager and the clock. -/
structure Pc (ι : Type) where
  /-- The file that a path leads to. Two paths may lead to one. -/
  locate : Bytes → ι
  /-- What a file holds, if there is one. -/
  files : ι → Option Bytes
  /-- The command line of the service. -/
  binaryPathName : Bytes
  now : Int := 0
  queries : List ServiceQuery
  result : UpgradeStep → CallResult := fun _ => .done

/-- The disk with other contents of a file. -/
def Pc.holding {ι : Type} [DecidableEq ι] (pc : Pc ι) (file : ι) (data : Bytes) : Pc ι :=
  { pc with files := fun f => if f = file then some data else pc.files f }

abbrev Upgrade (ι : Type) (α : Type) := Eff (Pc ι) UpgradeError α

/-- Polls the service until it is stopped; until the deadline has passed. -/
def waitStopped (deadline : Int) : List ServiceQuery → Option Bool
  | [] => none
  | q :: qs =>
    if q.state = some .stopped then some true
    else if deadline < q.time then some false
    else waitStopped deadline qs

namespace Upgrade

variable {ι : Type} [DecidableEq ι]

def call (step : UpgradeStep) : Upgrade ι Unit := do
  let result ← read fun pc => pc.result step
  ensure (result == .done) (.failed step)

/-- A service that does not run is stopped, too. -/
def controlStop : Upgrade ι Unit := do
  let result ← read fun pc => pc.result .control
  ensure (result == .done || result == .notActive) (.failed .control)

/-- How long a service may take to stop, in milliseconds. -/
def stopTimeout : Int := 30000

def wait : Upgrade ι Unit := do
  match ← read fun pc => waitStopped (pc.now + stopTimeout) pc.queries with
  | none => stop .waiting
  | some stopped => ensure stopped (.failed .waitStopped)

def put (file : ι) (data : Bytes) : Upgrade ι Unit := modify fun pc => pc.holding file data

/-- `io.Copy` of what a file holds from here on. -/
def ioCopy (out src : ι) : Upgrade ι Unit := do
  let data ← read fun pc => (pc.files src).getD []
  match ← read fun pc => pc.result .copy with
  | .done => put out data
  | .notActive => stop (.failed .copy)
  | .failed n => do
    put out (data.take n)
    stop (.failed .copy)

/-- Copies `src` to `dst`, truncating `dst`. -/
def copyFile (src dst : Bytes) : Upgrade ι Unit := do
  call .openSrc
  let found ← read fun pc => (pc.files (pc.locate src)).isSome
  ensure found (.failed .openSrc)
  let file ← read fun pc => pc.locate src
  call .createDst
  let out ← read fun pc => pc.locate dst
  put out []
  ioCopy out file
  call .closeDst

/-- `UpgradeService(name, newExePath)`. -/
def upgradeService (newExePath : Bytes) : Upgrade ι Unit := do
  call .connect
  call .openService
  controlStop
  wait
  if newExePath ≠ [] then do
    call .config
    let raw ← read fun pc => pc.binaryPathName
    copyFile newExePath (cleanBinaryPath raw)
  call .start

end Upgrade

/-! ## Waiting -/

theorem waitStopped_of_after {deadline : Int} : ∀ {qs : List ServiceQuery}, (∃ q ∈ qs, deadline < q.time) →
    waitStopped deadline qs ≠ none
  | [], h => by simp at h
  | q :: qs, h => by
    rw [waitStopped]
    split
    · exact Option.some_ne_none _
    split
    · exact Option.some_ne_none _
    · next hbefore =>
      obtain ⟨q', hq', hafter⟩ := h
      rcases List.mem_cons.1 hq' with rfl | hq'
      · exact absurd hafter hbefore
      · exact waitStopped_of_after ⟨q', hq', hafter⟩

/-- Between two queries the wait sleeps. -/
def Spaced (qs : List ServiceQuery) : Prop := qs.IsChain fun q q' => q.time + 250 ≤ q'.time

theorem Spaced.last : ∀ {qs : List ServiceQuery} {q : ServiceQuery}, Spaced (q :: qs) →
    ∃ q' ∈ q :: qs, q.time + 250 * qs.length ≤ q'.time
  | [], q, _ => ⟨q, List.mem_cons_self, by simp⟩
  | next :: qs, q, h => by
    obtain ⟨hstep, hrest⟩ := List.isChain_cons_cons.1 h
    obtain ⟨q', hq', hlater⟩ := Spaced.last hrest
    refine ⟨q', List.mem_cons_of_mem _ hq', ?_⟩
    rw [List.length_cons]
    push_cast
    omega

/-- **The wait ends**, with its 122nd query if not before. -/
theorem waitStopped_returns {now : Int} {q : ServiceQuery} {qs : List ServiceQuery} (hnow : now ≤ q.time)
    (hspaced : Spaced (q :: qs)) (hmany : 121 ≤ qs.length) :
    waitStopped (now + Upgrade.stopTimeout) (q :: qs) ≠ none := by
  obtain ⟨q', hq', hlater⟩ := hspaced.last
  refine waitStopped_of_after ⟨q', hq', ?_⟩
  rw [Upgrade.stopTimeout]
  omega

/-! ## What an upgrade does -/

namespace Pc

variable {ι : Type} [DecidableEq ι] {pc : Pc ι} {file f : ι} {data data' : Bytes}

theorem files_holding : (pc.holding file data).files f = if f = file then some data else pc.files f := rfl

theorem holding_holding : (pc.holding file data).holding file data' = pc.holding file data' := by
  have hfiles : ∀ f, ((pc.holding file data).holding file data').files f = (pc.holding file data').files f := by
    intro f
    simp only [files_holding]
    split <;> rfl
  exact congrArg (fun files => { pc with files := files }) (funext hfiles)

/-- The file that the service's binary is. -/
def binary (pc : Pc ι) : ι := pc.locate (cleanBinaryPath pc.binaryPathName)

/-- What the service's binary holds. -/
def installed (pc : Pc ι) : Option Bytes := pc.files pc.binary

/-- What the copy finds in its source. -/
def source (pc : Pc ι) (src : Bytes) : Bytes :=
  if pc.locate src = pc.binary then [] else (pc.files (pc.locate src)).getD []

/-- An upgrade with a new binary gets to the copy, its target truncated. -/
structure Reaches (pc : Pc ι) (newExePath : Bytes) : Prop where
  path : newExePath ≠ []
  connect : pc.result .connect = .done
  openService : pc.result .openService = .done
  control : pc.result .control = .done ∨ pc.result .control = .notActive
  stopped : waitStopped (pc.now + Upgrade.stopTimeout) pc.queries = some true
  config : pc.result .config = .done
  openSrc : pc.result .openSrc = .done
  found : (pc.files (pc.locate newExePath)).isSome = true
  createDst : pc.result .createDst = .done

end Pc

namespace Upgrade

variable {ι : Type} {pc : Pc ι} {newExePath : Bytes} {Q : Unit → Pc ι → Prop} {E : UpgradeError → Pc ι → Prop}

@[simp] theorem wp_call {step : UpgradeStep} : wp (call step) Q E = fun pc =>
    (pc.result step = .done → Q () pc) ∧ (pc.result step ≠ .done → E (.failed step) pc) := by
  funext pc
  simp [call, beq_iff_eq]

@[simp] theorem wp_controlStop : wp controlStop Q E = fun pc =>
    (pc.result .control = .done ∨ pc.result .control = .notActive → Q () pc) ∧
      (¬(pc.result .control = .done ∨ pc.result .control = .notActive) → E (.failed .control) pc) := by
  funext pc
  simp [controlStop, beq_iff_eq]

@[simp] theorem wp_wait : wp wait Q E = fun pc =>
    (waitStopped (pc.now + stopTimeout) pc.queries = some true → Q () pc) ∧
      (waitStopped (pc.now + stopTimeout) pc.queries = some false → E (.failed .waitStopped) pc) ∧
        (waitStopped (pc.now + stopTimeout) pc.queries = none → E .waiting pc) := by
  funext pc
  simp only [wait, wp_bind, wp_read]
  rcases waitStopped (pc.now + stopTimeout) pc.queries with _ | _ | _ <;> simp

theorem call_done {step : UpgradeStep} (h : pc.result step = .done) : call step pc = (.ok (), pc) := by
  show (ensure (pc.result step == .done) (.failed step) : Upgrade ι Unit) pc = _
  rw [h]
  rfl

theorem call_failed {step : UpgradeStep} (h : pc.result step ≠ .done) :
    call step pc = (.error (.failed step), pc) := by
  show (ensure (pc.result step == .done) (.failed step) : Upgrade ι Unit) pc = _
  rw [beq_false_of_ne h]
  rfl

theorem controlStop_done (h : pc.result .control = .done ∨ pc.result .control = .notActive) :
    controlStop pc = (.ok (), pc) := by
  show (ensure (pc.result .control == .done || pc.result .control == .notActive) (.failed .control) : Upgrade ι Unit)
    pc = _
  rcases h with hdone | hdone
  · rw [hdone]
    rfl
  · rw [hdone]
    rfl

theorem wait_stopped (h : waitStopped (pc.now + stopTimeout) pc.queries = some true) : wait pc = (.ok (), pc) := by
  show (match waitStopped (pc.now + stopTimeout) pc.queries with
    | none => stop .waiting
    | some stopped => ensure stopped (.failed .waitStopped) : Upgrade ι Unit) pc = _
  rw [h]
  rfl

variable [DecidableEq ι]

/-- **Short of the copy** nothing is written. -/
theorem upgradeService_unreached (h : ¬ pc.Reaches newExePath) :
    wp (upgradeService newExePath) (fun _ pc' => pc' = pc ∧ newExePath = [])
      (fun e pc' => pc' = pc ∧ (newExePath = [] ∨ e ≠ .failed .start)) pc := by
  have hearly : ∀ {step : UpgradeStep}, step ≠ .start →
      True ∧ (newExePath = [] ∨ UpgradeError.failed step ≠ .failed .start) := fun hstep =>
    ⟨trivial, .inr fun heq => hstep (UpgradeError.failed.inj heq)⟩
  simp only [upgradeService, wp_bind, wp_call, wp_controlStop, wp_wait, wp_ite]
  refine ⟨fun hconnect => ⟨fun hopen => ⟨fun hcontrol => ⟨fun hstopped => ⟨fun hpath => ?_, fun hpath => ?_⟩,
    fun _ => hearly (by decide), fun _ => ⟨trivial, .inr (by decide)⟩⟩, fun _ => hearly (by decide)⟩,
    fun _ => hearly (by decide)⟩, fun _ => hearly (by decide)⟩
  · refine ⟨fun hconfig => ?_, fun _ => hearly (by decide)⟩
    rw [wp_read]
    simp only [copyFile, wp_bind, wp_call, wp_read, wp_ensure]
    refine ⟨fun hsrc => ⟨fun hfound => ⟨fun hdst => ?_, fun _ => hearly (by decide)⟩,
      fun _ => hearly (by decide)⟩, fun _ => hearly (by decide)⟩
    exact absurd ⟨hpath, hconnect, hopen, hcontrol, hstopped, hconfig, hsrc, hfound, hdst⟩ h
  · have hnil := not_not.1 hpath
    exact ⟨fun _ => ⟨trivial, hnil⟩, fun _ => ⟨trivial, .inl hnil⟩⟩

/-- What becomes of a call does not depend on the files. -/
theorem call_holding {step : UpgradeStep} {file : ι} {data : Bytes} : call step (pc.holding file data) =
    (if pc.result step = .done then .ok () else .error (.failed step), pc.holding file data) := by
  split
  · next h => exact call_done h
  · next h => exact call_failed h

theorem ioCopy_eq {out src : ι} : ioCopy out src pc =
    match pc.result .copy with
    | .done => (.ok (), pc.holding out ((pc.files src).getD []))
    | .notActive => (.error (.failed .copy), pc)
    | .failed n => (.error (.failed .copy), pc.holding out (((pc.files src).getD []).take n)) := by
  rw [ioCopy, bind_read, bind_read]
  cases pc.result .copy <;> rfl

/-- `copyFile`, once its target is truncated. -/
theorem copyFile_eq {src dst : Bytes} (hsrc : pc.result .openSrc = .done) (hdst : pc.result .createDst = .done)
    (hfound : (pc.files (pc.locate src)).isSome = true) : copyFile src dst pc =
      let data := if pc.locate src = pc.locate dst then [] else (pc.files (pc.locate src)).getD []
      match pc.result .copy with
      | .done => call .closeDst (pc.holding (pc.locate dst) data)
      | .notActive => (.error (.failed .copy), pc.holding (pc.locate dst) [])
      | .failed n => (.error (.failed .copy), pc.holding (pc.locate dst) (data.take n)) := by
  have hensure : (ensure (pc.files (pc.locate src)).isSome (.failed .openSrc) : Upgrade ι Unit) pc =
      (.ok (), pc) := by
    rw [hfound]
    rfl
  have hdata : ((pc.holding (pc.locate dst) []).files (pc.locate src)).getD [] =
      if pc.locate src = pc.locate dst then [] else (pc.files (pc.locate src)).getD [] := by
    rw [Pc.files_holding]
    split <;> rfl
  have hcopy := @ioCopy_eq _ (pc.holding (pc.locate dst) []) _ (pc.locate dst) (pc.locate src)
  simp only [hdata, Pc.holding_holding] at hcopy
  have hresult : (pc.holding (pc.locate dst) []).result .copy = pc.result .copy := rfl
  rw [copyFile, bind_of_ok (call_done hsrc), bind_read, bind_of_ok hensure, bind_read, bind_of_ok (call_done hdst),
    bind_read, put, bind_modify]
  rw [hresult] at hcopy
  cases hfate : pc.result .copy with
  | done =>
    rw [hfate] at hcopy
    exact bind_of_ok hcopy
  | notActive =>
    rw [hfate] at hcopy
    exact bind_of_error hcopy
  | failed n =>
    rw [hfate] at hcopy
    exact bind_of_error hcopy

/-- **The copy.** -/
theorem upgradeService_reached (h : pc.Reaches newExePath) : upgradeService newExePath pc =
    match pc.result .copy with
    | .done =>
      (if pc.result .closeDst ≠ .done then .error (.failed .closeDst)
        else if pc.result .start ≠ .done then .error (.failed .start) else .ok (),
        pc.holding pc.binary (pc.source newExePath))
    | .notActive => (.error (.failed .copy), pc.holding pc.binary [])
    | .failed n => (.error (.failed .copy), pc.holding pc.binary ((pc.source newExePath).take n)) := by
  rw [upgradeService, bind_of_ok (call_done h.connect), bind_of_ok (call_done h.openService),
    bind_of_ok (controlStop_done h.control), bind_of_ok (wait_stopped h.stopped), if_pos h.path]
  rw [bind_of_ok (call_done h.config), bind_read]
  have hcopied := @copyFile_eq _ pc _ _ (cleanBinaryPath pc.binaryPathName) h.openSrc h.createDst h.found
  cases hfate : pc.result .copy with
  | done =>
    rw [hfate] at hcopied
    by_cases hclose : pc.result .closeDst = .done
    · refine (bind_of_ok (hcopied.trans (call_done hclose))).trans (call_holding.trans ?_)
      by_cases hstart : pc.result .start = .done
      · rw [if_pos hstart, if_neg (not_not.2 hclose), if_neg (not_not.2 hstart)]
        rfl
      · rw [if_neg hstart, if_neg (not_not.2 hclose), if_pos hstart]
        rfl
    · refine (bind_of_error (hcopied.trans (call_failed hclose))).trans ?_
      rw [if_pos hclose]
      rfl
  | notActive =>
    rw [hfate] at hcopied
    exact bind_of_error hcopied
  | failed n =>
    rw [hfate] at hcopied
    exact bind_of_error hcopied

/-! ## Whether the binary survives -/

/-- After a copy without error the binary is the new one; after an error of the
copy, or before it, the old one. -/
structure Spares (pc : Pc ι) (newExePath : Bytes) : Prop where
  copied : newExePath ≠ [] →
    (upgradeService newExePath pc).1 = .ok () ∨ (upgradeService newExePath pc).1 = .error (.failed .start) →
      (upgradeService newExePath pc).2.installed = pc.files (pc.locate newExePath)
  failed : ∀ e, (upgradeService newExePath pc).1 = .error e → e ≠ .failed .start →
    (upgradeService newExePath pc).2.installed = pc.installed

/-- How much of the source is written. -/
def copied (result : CallResult) (data : Bytes) : Bytes :=
  match result with
  | .done => data
  | .notActive => []
  | .failed n => data.take n

/-- The copy is whole and of another file, or an empty one; or what it has
written when it fails is what was there. -/
def Lucky (pc : Pc ι) (newExePath : Bytes) : Prop :=
  if pc.result .copy = .done ∧ pc.result .closeDst = .done then
    pc.locate newExePath ≠ pc.binary ∨ pc.installed = some []
  else pc.installed = some (copied (pc.result .copy) (pc.source newExePath))

theorem installed_holding {data : Bytes} : (pc.holding pc.binary data).installed = some data := by
  show (if pc.binary = pc.binary then some data else _) = _
  rw [if_pos rfl]

/-- After an error of the copy the binary holds what was written. -/
theorem spares_of_error {e : UpgradeError} {data : Bytes} (he : e ≠ .failed .start)
    (hrun : upgradeService newExePath pc = (.error e, pc.holding pc.binary data)) :
    Spares pc newExePath ↔ pc.installed = some data := by
  constructor
  · intro h
    have hfailed := h.failed e (by rw [hrun]) he
    rw [hrun, installed_holding] at hfailed
    exact hfailed.symm
  · intro hsame
    refine ⟨fun _ hresult => ?_, fun _ _ _ => ?_⟩
    · rw [hrun] at hresult
      rcases hresult with hresult | hresult
      · cases hresult
      · exact absurd (Except.error.inj hresult) he
    · rw [hrun, installed_holding, hsame]

/-- After a copy without error it holds what the copy found. -/
theorem spares_of_copied {r : Except UpgradeError Unit} {data : Bytes} (hr : r = .ok () ∨ r = .error (.failed .start))
    (hpath : newExePath ≠ []) (hrun : upgradeService newExePath pc = (r, pc.holding pc.binary data)) :
    Spares pc newExePath ↔ pc.files (pc.locate newExePath) = some data := by
  constructor
  · intro h
    have hcopied := h.copied hpath (by rw [hrun]; exact hr)
    rw [hrun, installed_holding] at hcopied
    exact hcopied.symm
  · intro hsame
    refine ⟨fun _ _ => ?_, fun e hresult he => ?_⟩
    · rw [hrun, installed_holding, hsame]
    · rw [hrun] at hresult
      rcases hr with rfl | rfl
      · cases hresult
      · exact absurd (Except.error.inj hresult).symm he

theorem source_eq_iff (hfound : (pc.files (pc.locate newExePath)).isSome = true) :
    pc.files (pc.locate newExePath) = some (pc.source newExePath) ↔
      pc.locate newExePath ≠ pc.binary ∨ pc.installed = some [] := by
  obtain ⟨data, hdata⟩ := Option.isSome_iff_exists.1 hfound
  by_cases hsame : pc.locate newExePath = pc.binary
  · rw [Pc.source, if_pos hsame, Pc.installed, ← hsame]
    simp
  · rw [Pc.source, if_neg hsame, hdata]
    simp [hsame]

/-- **The binary after an upgrade.** -/
theorem spares_iff (pc : Pc ι) (newExePath : Bytes) :
    Spares pc newExePath ↔ (pc.Reaches newExePath → Lucky pc newExePath) := by
  by_cases hreaches : pc.Reaches newExePath
  · rw [forall_prop_of_true hreaches]
    have hrun := upgradeService_reached hreaches
    have hcopyFails : UpgradeError.failed .copy ≠ .failed .start := by decide
    rw [Lucky]
    cases hcopy : pc.result .copy with
    | done =>
      rw [hcopy] at hrun
      by_cases hclose : pc.result .closeDst = .done
      · rw [if_pos ⟨rfl, hclose⟩]
        refine (spares_of_copied ?_ hreaches.path hrun).trans (source_eq_iff hreaches.found)
        rw [if_neg (not_not.2 hclose)]
        split
        · exact .inr rfl
        · exact .inl rfl
      · rw [if_neg fun h => hclose h.2]
        rw [if_pos hclose] at hrun
        exact spares_of_error (by decide) hrun
    | notActive =>
      rw [hcopy] at hrun
      rw [if_neg fun h => by cases h.1]
      exact spares_of_error hcopyFails hrun
    | failed n =>
      rw [hcopy] at hrun
      rw [if_neg fun h => by cases h.1]
      exact spares_of_error hcopyFails hrun
  · refine iff_of_true ?_ fun h => absurd h hreaches
    obtain ⟨hok, herror⟩ := wp_iff.1 (upgradeService_unreached hreaches)
    constructor
    · intro hpath hresult
      rcases hresult with hresult | hresult
      · exact absurd (hok _ _ (Prod.ext hresult rfl)).2 hpath
      · exact ((herror _ _ (Prod.ext hresult rfl)).2.elim (fun h => absurd h hpath) fun h => absurd rfl h)
    · intro e hresult _
      exact congrArg Pc.installed (herror _ _ (Prod.ext hresult rfl)).1

def monsvcPath : Bytes := str "C:\\monsvc\\monsvc.exe"

/-- A disk with the service's binary on it, and nothing fails. -/
def installedPc : Pc Bytes where
  locate := id
  files f := if f = monsvcPath then some (str "MZ") else none
  binaryPathName := monsvcPath ++ str " -service"
  queries := [⟨some .stopped, 0⟩]

/-- An upgrade from the installed binary empties it. -/
theorem upgrade_from_itself :
    ¬ ∀ (ι : Type) [DecidableEq ι] (pc : Pc ι) (newExePath : Bytes), Spares pc newExePath := by
  intro h
  have hcopied := (h Bytes installedPc monsvcPath).copied (by decide +kernel) (.inl (by decide +kernel))
  have hempty : (upgradeService monsvcPath installedPc).2.installed = some [] := by decide +kernel
  rw [hempty] at hcopied
  exact absurd hcopied (by decide +kernel)

end Upgrade

end ScrewLogger
