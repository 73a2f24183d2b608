/-
The pipe server (`pipe_windows.go`) with all that runs beside it: `Serve`, the
goroutines it starts to wait for a client and to read one, the callers of
`EnsureSDDL`, and the clients.

An action is a step of one of them. What one does holding the mutex is a single
step, and so is each call into the system outside of it.
-/
import ScrewLogger.Agent.ReadClient
import ScrewLogger.Lib.Actions
import Mathlib.Logic.Function.Basic

namespace ScrewLogger
open Lib Lib.Json

/-- An instance of the pipe. A value that the system hands out again after
`CloseHandle` counts as another. -/
abbrev Handle := Nat

/-- SYSTEM and Administrators, and no user. -/
def baseSD : Bytes := str "D:P(A;;GA;;;SY)(A;;GA;;;BA)"

/-- The descriptor that lets a user in. -/
def userSD (userSID : Bytes) : Bytes := baseSD ++ str "(A;;FRFW;;;" ++ userSID ++ str ")"

/-- What the mutex guards. -/
structure PipeServer where
  sddl : Bytes := baseSD
  /-- The instance waiting in `ConnectNamedPipe`. -/
  pending : Option Handle := none
  /-- How often `pending` has been stored. -/
  pendingGen : Nat := 0
  /-- The file of the client, by its instance. -/
  client : Option Handle := none
  connected : Bool := false
  /-- The descriptor changed. -/
  dirty : Bool := false

namespace Pipe

/-- What has been done to instances and files. -/
inductive Event
  /-- By `createPipeInstance`. -/
  | created (h : Handle) (sddl : Bytes)
  /-- By a client. -/
  | dialed (h : Handle)
  | connectNamedPipe (h : Handle)
  | getOverlappedResult (h : Handle)
  | cancelIoEx (h : Handle)
  | disconnectNamedPipe (h : Handle)
  | closeHandle (h : Handle)
  /-- `os.NewFile`. -/
  | adopted (h : Handle)
  /-- The client is replaced by a newer one, or dropped by `EnsureSDDL`. -/
  | evicted (h : Handle)
  /-- `Close` of the file. -/
  | fileClosed (h : Handle)
  /-- `out <- s`. -/
  | published (h : Handle) (s : Sample)
  deriving DecidableEq

/-- What the connect goroutine is answered, and sends on. -/
inductive ConnectErr
  | none
  | ioPending
  | pipeConnected
  | other
  deriving DecidableEq

/-- What `Serve` goes on with after it has closed an instance. -/
inductive After
  | lookUp (sddl : Bytes)
  | top
  /-- `if ctx.Err() != nil` once more before the next turn. -/
  | retry
  | leave

/-- Where `Serve` is. -/
inductive ServePc
  | top
  | copy
  | copied (sddl : Bytes) (dirty : Bool)
  | dropStale (sddl : Bytes)
  | lookUp (sddl : Bytes)
  | create (sddl : Bytes)
  | sleep
  | store (h : Handle)
  | launch (h : Handle)
  | select (h : Handle)
  /-- The context is done. -/
  | cancel (h : Handle)
  | giveUp (h : Handle)
  | pop (h : Handle) (err : ConnectErr)
  | disconnect (h : Handle) (next : After)
  | close (h : Handle) (next : After)
  | retry
  | accept (h : Handle)
  | startReader (h : Handle)
  /-- The deferred function. -/
  | leave
  | returned

def After.pc : After → ServePc
  | lookUp sddl => .lookUp sddl
  | top => .top
  | retry => .retry
  | leave => .leave

/-- Where a connect goroutine is. -/
inductive ConnectPc
  | idle
  | createEvent
  | connect
  | getResult
  /-- In `GetOverlappedResult`. -/
  | waiting
  | sent (err : ConnectErr)

/-- Where a `readClient` is. -/
inductive ReaderPc
  | idle
  | scanning (start : Nat) (held : Bytes)
  /-- A read has failed. -/
  | ended (held : Bytes)
  | leave
  | close
  | returned

/-- Where a caller of `EnsureSDDL` is. -/
inductive EnsurePc
  | idle
  /-- Asleep in `dropPendingLocked`, after `cancels` times `CancelIoEx`. -/
  | asleep (h : Handle) (gen cancels : Nat)

structure State where
  p : PipeServer := {}
  /-- The context is done. -/
  cancelled : Bool := false
  serve : ServePc := .top
  connect : Handle → ConnectPc := fun _ => .idle
  reader : Handle → ReaderPc := fun _ => .idle
  ensure : Nat → EnsurePc := fun _ => .idle
  /-- How many instances there have been. -/
  instances : Nat := 0
  /-- The latest first. -/
  trace : List Event := []

def initial : State := {}

namespace State

def log (s : State) (e : Event) : State := { s with trace := e :: s.trace }

/-- `p.client.Close()`, of a client that gives way. -/
def evict (s : State) : List Event := s.p.client.toList.flatMap fun h => [.fileClosed h, .evicted h]

/-! ## Serve -/

/-- What the deferred function does to the files and instances that are left. -/
def leftovers (s : State) : List Event :=
  (s.p.pending.toList.flatMap fun h => [.closeHandle h, .cancelIoEx h]) ++ s.p.client.toList.map .fileClosed

/-- The next step of `Serve`. Where it may go two ways, `ok` says which. -/
def serveStep (s : State) (ok : Bool) : Option State :=
  match s.serve with
  | .top => some { s with serve := if s.cancelled then .leave else .copy }
  | .copy => some { s with serve := .copied s.p.sddl s.p.dirty, p := { s.p with dirty := false } }
  | .copied sddl dirty =>
    some { s with serve := if dirty && s.p.pending.isSome then .dropStale sddl else .lookUp sddl }
  | .dropStale sddl =>
    match s.p.pending with
    | some h => some { s with serve := .disconnect h (.lookUp sddl), p := { s.p with pending := none } }
    | none => some { s with serve := .lookUp sddl }
  | .lookUp sddl =>
    match s.p.pending with
    | some h => some { s with serve := .launch h }
    | none => some { s with serve := .create sddl }
  | .create sddl =>
    if ok then
      some { s.log (.created s.instances sddl) with serve := .store s.instances, instances := s.instances + 1 }
    else some { s with serve := .sleep }
  | .sleep =>
    if ok then some { s with serve := .top }
    else if s.cancelled then some { s with serve := .leave }
    else none
  | .store h =>
    if s.p.dirty then some { s with serve := .disconnect h .top }
    else
      some { s with serve := .launch h, p := { s.p with pendingGen := s.p.pendingGen + 1, pending := some h } }
  | .launch h => some { s with serve := .select h, connect := Function.update s.connect h .createEvent }
  | .select h =>
    if ok then
      match s.connect h with
      | .sent err => some { s with serve := .pop h err }
      | _ => none
    else if s.cancelled then some { s with serve := .cancel h }
    else none
  | .cancel h => some { s.log (.cancelIoEx h) with serve := .giveUp h }
  | .giveUp h => some { s with serve := .disconnect h .leave, p := { s.p with pending := none } }
  | .pop h err =>
    let next := if err ≠ .none ∧ err ≠ .pipeConnected then .disconnect h .retry else .accept h
    some { s with serve := next, p := { s.p with pending := none } }
  | .disconnect h next => some { s.log (.disconnectNamedPipe h) with serve := .close h next }
  | .close h next => some { s.log (.closeHandle h) with serve := next.pc }
  | .retry => some { s with serve := if s.cancelled then .leave else .top }
  | .accept h =>
    if s.p.dirty then some { s with serve := .top, trace := .fileClosed h :: .adopted h :: s.trace }
    else
      some
        { s with
          serve := .startReader h
          p := { s.p with client := some h, connected := true }
          trace := .adopted h :: (s.evict ++ s.trace) }
  | .startReader h => some { s with serve := .top, reader := Function.update s.reader h (.scanning 0 []) }
  | .leave =>
    some
      { s with
        serve := .returned
        p := { s.p with connected := false, client := none, pending := none }
        trace := s.leftovers ++ s.trace }
  | .returned => none

/-! ## The connect goroutine -/

/-- A client has come: without one the call does not succeed. -/
def Answers (s : State) (h : Handle) (err : ConnectErr) : Prop := err = .other ∨ .dialed h ∈ s.trace

instance (s : State) (h : Handle) (err : ConnectErr) : Decidable (s.Answers h err) :=
  inferInstanceAs (Decidable (_ ∨ _))

/-- The next step of the goroutine for instance `h`, where `err` is how its call
turns out. -/
def connectStep (s : State) (h : Handle) (err : ConnectErr) : Option State :=
  match s.connect h with
  | .idle | .sent _ => none
  | .createEvent =>
    some { s with connect := Function.update s.connect h (if err = .other then .sent err else .connect) }
  | .connect =>
    if err = .ioPending then
      some { s.log (.connectNamedPipe h) with connect := Function.update s.connect h .getResult }
    else if s.Answers h err then
      some { s.log (.connectNamedPipe h) with connect := Function.update s.connect h (.sent err) }
    else none
  | .getResult => some { s.log (.getOverlappedResult h) with connect := Function.update s.connect h .waiting }
  | .waiting =>
    if err ≠ .ioPending ∧ s.Answers h err then some { s with connect := Function.update s.connect h (.sent err) }
    else none

/-! ## EnsureSDDL -/

/-- `EnsureSDDL`, called by `k`, to its end or to the first sleep. -/
def ensureSDDL (s : State) (k : Nat) (userSID : Bytes) : Option State :=
  match s.ensure k with
  | .asleep .. => none
  | .idle =>
    if userSID = [] then some s
    else if userSD userSID = s.p.sddl then some s
    else
      let dropped :=
        { s with
          p := { s.p with sddl := userSD userSID, dirty := true, connected := false, client := none }
          trace := s.evict ++ s.trace }
      match s.p.pending with
      | none => some dropped
      | some h =>
        some
          { dropped.log (.cancelIoEx h) with
            ensure := Function.update s.ensure k (.asleep h s.p.pendingGen 1) }

/-- `dropPendingLocked` after a sleep. -/
def resume (s : State) (k : Nat) : Option State :=
  match s.ensure k with
  | .idle => none
  | .asleep h gen cancels =>
    if s.p.pending = none ∨ s.p.pendingGen ≠ gen then some { s with ensure := Function.update s.ensure k .idle }
    else if cancels < 100 then
      some { s.log (.cancelIoEx h) with ensure := Function.update s.ensure k (.asleep h gen (cancels + 1)) }
    else some { s with ensure := Function.update s.ensure k .idle }

/-! ## The readers -/

/-- A read by the reader of `h`. It fails when the file is closed, and it brings
nothing when the client is gone. -/
def read (s : State) (h : Handle) (chunk : Bytes) : Option State :=
  match s.reader h with
  | .scanning start held =>
    match scanNext clientBuffer start held with
    | .read start room =>
      if .fileClosed h ∈ s.trace ∨ chunk = [] then
        some { s with reader := Function.update s.reader h (.ended held) }
      else if chunk.length ≤ room then
        some { s with reader := Function.update s.reader h (.scanning start (held ++ chunk)) }
      else none
    | _ => none
  | _ => none

/-- What is published of a line that the reader of `h` has. -/
def handle (h : Handle) (room : Bool) (line : Bytes) : List Event :=
  (handleLine room line).sample.toList.map (.published h)

/-- The next step of the reader of `h` but for its reads, where `room` says
whether the channel has room. -/
def readerStep (s : State) (h : Handle) (room : Bool) : Option State :=
  match s.reader h with
  | .idle | .returned => none
  | .scanning start held =>
    match scanNext clientBuffer start held with
    | .token line start rest =>
      some
        { s with
          reader := Function.update s.reader h (.scanning start rest)
          trace := handle h room (dropCR line) ++ s.trace }
    | .full => some { s with reader := Function.update s.reader h .leave }
    | .read .. => none
  | .ended held =>
    some
      { s with
        reader := Function.update s.reader h .leave
        trace := (if held = [] then [] else handle h room (dropCR held)) ++ s.trace }
  | .leave =>
    let p := if s.p.client = some h then { s.p with client := none, connected := false } else s.p
    some { s with p := p, reader := Function.update s.reader h .close }
  | .close => some { s.log (.fileClosed h) with reader := Function.update s.reader h .returned }

/-! ## What a step leaves alone -/

variable {s s' : State} {h : Handle}

theorem connectStep_frame {err : ConnectErr} (hstep : s.connectStep h err = some s') : ∃ c l,
    s' = { s with connect := Function.update s.connect h c, trace := l ++ s.trace } ∧
      ∀ e ∈ l, e = .connectNamedPipe h ∨ e = .getOverlappedResult h := by
  rw [connectStep] at hstep
  split at hstep
  · cases hstep
  · cases hstep
  · cases hstep
    exact ⟨_, [], rfl, by simp⟩
  · split at hstep
    · cases hstep
      exact ⟨_, [.connectNamedPipe h], rfl, by simp⟩
    split at hstep <;> cases hstep
    exact ⟨_, [.connectNamedPipe h], rfl, by simp⟩
  · cases hstep
    exact ⟨_, [.getOverlappedResult h], rfl, by simp⟩
  · split at hstep <;> cases hstep
    exact ⟨_, [], rfl, by simp⟩

theorem resume_frame {k : Nat} (hstep : s.resume k = some s') : ∃ c l,
    s' = { s with ensure := Function.update s.ensure k c, trace := l ++ s.trace } ∧
      ∀ e ∈ l, ∃ h, e = .cancelIoEx h := by
  rw [resume] at hstep
  split at hstep
  · cases hstep
  next h gen cancels _ =>
    split at hstep
    · cases hstep
      exact ⟨_, [], rfl, by simp⟩
    split at hstep
    · cases hstep
      exact ⟨_, [.cancelIoEx h], rfl, by simp⟩
    · cases hstep
      exact ⟨_, [], rfl, by simp⟩

theorem read_frame {chunk : Bytes} (hstep : s.read h chunk = some s') :
    ∃ r, s' = { s with reader := Function.update s.reader h r } := by
  rw [read] at hstep
  split at hstep
  · split at hstep
    · split at hstep
      · cases hstep
        exact ⟨_, rfl⟩
      split at hstep <;> cases hstep
      exact ⟨_, rfl⟩
    · cases hstep
  · cases hstep

theorem mem_handle {room : Bool} {line : Bytes} {e : Event} (hmem : e ∈ handle h room line) :
    ∃ sample, e = .published h sample := by
  obtain ⟨sample, -, rfl⟩ := List.mem_map.1 hmem
  exact ⟨sample, rfl⟩

/-- A reader clears the state of its own client only. -/
theorem readerStep_frame {room : Bool} (hstep : s.readerStep h room = some s') : ∃ p r l,
    s' = { s with p := p, reader := Function.update s.reader h r, trace := l ++ s.trace } ∧
      (p = s.p ∨ s.p.client = some h ∧ p = { s.p with client := none, connected := false }) ∧
      ∀ e ∈ l, e = .fileClosed h ∨ ∃ sample, e = .published h sample := by
  rw [readerStep] at hstep
  split at hstep
  · cases hstep
  · cases hstep
  · split at hstep
    · cases hstep
      exact ⟨s.p, _, _, rfl, .inl rfl, fun e hmem => .inr (mem_handle hmem)⟩
    · cases hstep
      exact ⟨s.p, _, [], rfl, .inl rfl, by simp⟩
    · cases hstep
  · cases hstep
    refine ⟨s.p, _, _, rfl, .inl rfl, fun e hmem => ?_⟩
    split at hmem
    · cases hmem
    · exact .inr (mem_handle hmem)
  · cases hstep
    refine ⟨_, _, [], rfl, ?_, by simp⟩
    split
    · next hclient => exact .inr ⟨hclient, rfl⟩
    · exact .inl rfl
  · cases hstep
    exact ⟨s.p, _, [.fileClosed h], rfl, .inl rfl, by simp⟩

end State

/-! ## All of them -/

inductive Action
  /-- The context is done. -/
  | cancel
  /-- A client connects. -/
  | dial (h : Handle)
  | serve (ok : Bool)
  | connect (h : Handle) (err : ConnectErr)
  | ensureSDDL (k : Nat) (userSID : Bytes)
  | resume (k : Nat)
  | read (h : Handle) (chunk : Bytes)
  | reader (h : Handle) (room : Bool)

/-- An instance is there to connect to from its creation to its end. -/
def act (s : State) : Action → Option State
  | .cancel => some { s with cancelled := true }
  | .dial h =>
    if h < s.instances ∧ .closeHandle h ∉ s.trace ∧ .fileClosed h ∉ s.trace then some (s.log (.dialed h)) else none
  | .serve ok => s.serveStep ok
  | .connect h err => s.connectStep h err
  | .ensureSDDL k userSID => s.ensureSDDL k userSID
  | .resume k => s.resume k
  | .read h chunk => s.read h chunk
  | .reader h room => s.readerStep h room

/-- `Serve` until it waits for the first client. -/
def untilWaiting : List Action := List.replicate 7 (.serve true)

/-- The client of instance `h`, which `Serve` waits for, comes. -/
def clientComes (h : Handle) : List Action :=
  [.connect h .none, .connect h .ioPending, .connect h .none, .dial h, .connect h .none] ++
    List.replicate 4 (.serve true)

end Pipe

end ScrewLogger
