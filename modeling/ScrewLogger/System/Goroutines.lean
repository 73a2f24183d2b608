/-
The agent's two goroutines and the mutex between them (`agent.go`: `RunSamples`,
`Observe`, `shipLoop`, and the deferred close).

A heartbeat is built before the lock is taken, a flush holds it from `Unacked`
to `Ack`, requests are seen again while it does, and the process may be killed
and started again between any two calls. `interleaved_is_atomic`: while no
goroutine is inside, all is as after appends and flushes made one at a time, and
the buffer is closed once, last, when the shipper has returned.
-/
import ScrewLogger.Lib.Actions
import ScrewLogger.System.Reported

namespace ScrewLogger
open Lib Lib.Eff

/-- Where the goroutine of `RunSamples` is. -/
inductive Loop
  | select
  /-- A heartbeat is due for the observation, `mu` not locked yet. -/
  | due (o : Observation) (id : Bytes)
  | append (o : Observation) (id : Bytes)
  | unlock
  /-- `<-done` -/
  | wait
  /-- The deferred function, `mu` not locked yet. -/
  | deferred
  | close
  | unlockClosed
  | returned

/-- Where the goroutine of `shipLoop` is. -/
inductive ShipLoop
  | select
  /-- The timer has fired, `mu` is not locked yet. -/
  | fired
  | unacked
  | post (hbs : List Heartbeat)
  | ack (count : Nat)
  | unlock
  | done

namespace Loop

/-- `mu` is locked by it. -/
def holds : Loop → Bool
  | append .. | unlock | close | unlockClosed => true
  | _ => false

/-- The shipper was waited for. -/
def stopping : Loop → Bool
  | deferred | close | unlockClosed | returned => true
  | _ => false

def closed : Loop → Bool
  | unlockClosed | returned => true
  | _ => false

def isReturned : Loop → Bool
  | returned => true
  | _ => false

/-- It has no heartbeat at hand, and has not got to the close. -/
def idle : Loop → Bool
  | select | wait | deferred => true
  | _ => false

end Loop

/-- `mu` is locked by it. -/
def ShipLoop.holds : ShipLoop → Bool
  | unacked | post _ | ack _ | unlock => true
  | _ => false

structure Goroutines where
  builder : HeartbeatBuilder := newHeartbeatBuilder defaultKeepAlive
  system : System
  /-- The observations `Observe` has returned from. -/
  seen : List Observation := []
  cancelled : Bool := false
  mu : Bool := false
  loop : Loop := .select
  ship : ShipLoop := .select

namespace Goroutines

inductive Action
  /-- The context is cancelled. -/
  | cancel
  /-- A sample is received, and the next UUID. -/
  | sample (o : Observation) (id : Bytes)
  /-- The next step of `RunSamples`. -/
  | loop
  | timer
  /-- The next step of `shipLoop`, and what becomes of a request. -/
  | ship (x : Exchange) (now : Int64)
  /-- The server processes the request again. -/
  | replay (i : Nat)
  /-- The process is killed and started. -/
  | restart (maxBytes : Int)

variable (server : Handler) (shipper : Shipper) (rules : List Agent.Rule)

/-- `Observe`, up to its lock. -/
def sample (o : Observation) (id : Bytes) (g : Goroutines) : Option Goroutines :=
  match g.loop with
  | .select =>
    match g.builder.observe o with
    | (none, b) => some { g with builder := b, seen := g.seen ++ [o] }
    | (some _, b) => some { g with builder := b, loop := .due o id }
  | _ => none

def stepLoop (g : Goroutines) : Option Goroutines :=
  match g.loop with
  | .select => if g.cancelled then some { g with loop := .wait } else none
  | .due o id => if g.mu then none else some { g with mu := true, loop := .append o id }
  | .append o id =>
    some { g with
      system := g.system.append (Deployment.heartbeat rules id o)
      seen := g.seen ++ [o]
      loop := .unlock }
  | .unlock => some { g with mu := false, loop := .select }
  | .wait =>
    match g.ship with
    | .done => some { g with loop := .deferred }
    | _ => none
  | .deferred => if g.mu then none else some { g with mu := true, loop := .close }
  | .close => some { g with system := (System.onAgent Buf.closeBuffer g.system).2, loop := .unlockClosed }
  | .unlockClosed => some { g with mu := false, loop := .returned }
  | .returned => none

def timer (g : Goroutines) : Option Goroutines :=
  match g.ship with
  | .select => some { g with ship := .fired }
  | _ => none

/-- `Flush`, a call at a time. -/
def stepShip (x : Exchange) (now : Int64) (g : Goroutines) : Option Goroutines :=
  match g.ship with
  | .select => if g.cancelled then some { g with ship := .done } else none
  | .fired => if g.mu then none else some { g with mu := true, ship := .unacked }
  | .unacked =>
    match System.onAgent (Buf.unacked batchLimit) g.system with
    | (.ok [], s) => some { g with system := s, ship := .unlock }
    | (.ok hbs, s) => some { g with system := s, ship := .post hbs }
    | (.error _, s) => some { g with system := s, ship := .unlock }
  | .post hbs =>
    match System.roundTrip server x (ingestRequest shipper.token ⟨schemaVersion, now, hbs⟩) g.system with
    | (.ok resp, s) => some { g with system := s, ship := if resp.status = 200 then .ack hbs.length else .unlock }
    | (.error _, s) => some { g with system := s, ship := .unlock }
  | .ack count => some { g with system := (System.onAgent (Buf.ack count) g.system).2, ship := .unlock }
  | .unlock => some { g with mu := false, ship := .select }
  | .done => none

def act (g : Goroutines) : Action → Option Goroutines
  | .cancel => some { g with cancelled := true }
  | .sample o id => g.sample o id
  | .loop => g.stepLoop rules
  | .timer => g.timer
  | .ship x now => g.stepShip server shipper x now
  | .replay i => g.system.wire[i]?.map fun r => { g with system := (g.system.process server r).2 }
  | .restart maxBytes => some { system := g.system.restart maxBytes, seen := g.seen }

/-- There is room for the append that is next. -/
def MayAppend (g : Goroutines) : Loop → Prop
  | .append o id => Deployment.Takes g.system (Deployment.heartbeat rules id o)
  | _ => True

/-- A flush that may ack what it sends has room for the rewrite. -/
def MayPost (g : Goroutines) : ShipLoop → Exchange → Prop
  | .post _, .answered => g.system.Roomy
  | _, _ => True

/-- What is asked of a run: ids are new, the file does not overflow and a rewrite
has room. -/
def Meets (g : Goroutines) : Action → Prop
  | .loop => g.MayAppend rules g.loop
  | .ship x _ => g.MayPost g.ship x
  | _ => True

instance (g : Goroutines) : ∀ l, Decidable (g.MayAppend rules l)
  | .append .. => inferInstanceAs (Decidable (Deployment.Takes _ _))
  | .select | .due .. | .unlock | .wait | .deferred | .close | .unlockClosed | .returned => .isTrue trivial

instance (g : Goroutines) : ∀ l x, Decidable (g.MayPost l x)
  | .post _, .answered => inferInstanceAs (Decidable (System.Roomy _))
  | .post _, .lost | .post _, .responseLost | .post _, .turnedAway .. => .isTrue trivial
  | .select, _ | .fired, _ | .unacked, _ | .ack _, _ | .unlock, _ | .done, _ => .isTrue trivial

instance (g : Goroutines) : ∀ a, Decidable (g.Meets rules a)
  | .loop => inferInstanceAs (Decidable (g.MayAppend rules g.loop))
  | .ship _ _ => inferInstanceAs (Decidable (g.MayPost g.ship _))
  | .cancel | .sample .. | .timer | .replay _ | .restart _ => .isTrue trivial

/-- Before the first sample. -/
def start (maxBytes : Int) (w : World) : Goroutines := { system := .start maxBytes w }

end Goroutines

/-! ## Calls none of which fails -/

namespace Buf

variable {m : Machine} {q : List Heartbeat}

theorem unacked_quiet (limit : Int) (h : Reading q m) (hfaults : m.faults = []) : (unacked limit m).2 = m := by
  have hrun : wp (unacked limit) (fun _ m' => m' = m) (fun _ m' => m' = m) m :=
    wp_unacked (benign_of_nil hfaults) h (fun _ hfs => eq_of_suffix hfs hfaults) fun _ _ hfs _ => eq_of_suffix hfs hfaults
  exact hrun.final

theorem ack_quiet (count : Int) (h : Reading q m) (hfaults : m.faults = []) :
    (ack count m).1 ≠ .error .crash ∧ (ack count m).2.faults = [] := by
  have hrun : wp (ack count) (fun _ m' => m'.faults = []) (fun e m' => e ≠ .crash ∧ m'.faults = []) m := by
    refine wp_ack (benign_of_nil hfaults) h (fun fs hfs => ?_) (fun _ hdied => absurd hfaults hdied.1)
      fun fs n _ hfs _ => ⟨by decide, List.suffix_nil.1 (hfaults ▸ hfs)⟩
    have hfs := List.suffix_nil.1 (hfaults ▸ hfs)
    unfold ackedTo
    split
    · exact hfs
    · split <;> exact hfs
  unfold wp at hrun
  split at hrun
  · next heq =>
    rw [heq]
    exact ⟨by simp, hrun⟩
  · next heq =>
    rw [heq]
    exact ⟨fun h => hrun.1 (Except.error.inj h), hrun.2⟩

theorem closeBuffer_quiet (hopen : m.buf.isOpen = true) (hfaults : m.faults = []) :
    (closeBuffer m).2 = { m with buf := { m.buf with isOpen := false } } := by
  have hrun : wp closeBuffer (fun _ m' => m' = { m with buf := { m.buf with isOpen := false } })
      (fun _ m' => m' = { m with buf := { m.buf with isOpen := false } }) m := by
    simp only [closeBuffer, wp_bind]
    refine wp_ensureOpen hopen ?_
    rw [wp_modify]
    refine wp_sys (benign_of_nil hfaults) (fun fs hfs => ?_) fun fs _ hne => absurd hfaults hne
    exact eq_of_suffix hfs hfaults
  exact hrun.final

end Buf

namespace System

variable {s : System} {server : Handler} {ship : Shipper} {x : Exchange} {now : Int64}

theorem schedule_nil (h : s.agent.faults = []) : s.schedule [] = s := by
  obtain ⟨⟨file, tmp, buf, faults⟩, up, server, wire, observed, promised⟩ := s
  obtain rfl : faults = [] := h
  rfl

theorem restart_quiet {maxBytes : Int} (h : s.agent.faults = []) : s.restart maxBytes =
    { s with agent := { s.agent with buf := { maxBytes := maxBytes } }, up := true } := by
  obtain ⟨⟨file, tmp, buf, faults⟩, up, server, wire, observed, promised⟩ := s
  obtain rfl : faults = [] := h
  rfl

theorem snd_onAgent {α : Type} {b : Buf α} : (onAgent b s).2 = { s with agent := (b s.agent).2 } := by
  simp only [onAgent, mapError, zoom]
  cases b s.agent with
  | mk r m => cases r <;> rfl

theorem ok_of_onAgent {α : Type} {b : Buf α} {a : α} {s' : System} (h : onAgent b s = (.ok a, s')) :
    b s.agent = (.ok a, s'.agent) := by
  simp only [onAgent, mapError, zoom] at h
  cases hb : b s.agent with
  | mk r m =>
    rw [hb] at h
    cases r with
    | ok a' =>
      cases h
      rfl
    | error e => cases h

/-- A request leaves the agent as it is, and no error of it is one of the buffer. -/
theorem roundTrip_frame (r : Request) : (roundTrip server x r s).2.agent = s.agent ∧ (roundTrip server x r s).2.up = s.up ∧
    ∀ e, (roundTrip server x r s).1 = .error e → e = .network := by
  cases x with
  | lost | responseLost => exact ⟨rfl, rfl, fun e h => (Except.error.inj h).symm⟩
  | turnedAway | answered => exact ⟨rfl, rfl, fun e h => nomatch h⟩

variable {hbs : List Heartbeat} {s' : System}

/-- A flush whose request is not answered with a 200. -/
theorem flush_refused {r : Except FlushError Response} (hread : Buf.unacked batchLimit s.agent = (.ok hbs, s.agent))
    (hne : hbs ≠ [])
    (hpost : roundTrip server x (ingestRequest ship.token ⟨schemaVersion, now, hbs⟩) s = (r, s'))
    (hno : ∀ resp, r = .ok resp → resp.status ≠ 200) (hnet : ∀ e, r = .error e → e = .network) (hup : s'.up = true) :
    s.flush server ship x now = s' := by
  have hunacked : onAgent (Buf.unacked batchLimit) s = (.ok hbs, s) := by
    simp only [onAgent, mapError, zoom, hread]
  have hflush : ∃ e, ship.flush onAgent (roundTrip server x) now s = (.error e, s') ∧ e ≠ .buffer .crash := by
    rw [Shipper.flush, bind_of_ok hunacked, if_neg hne]
    cases r with
    | error e =>
      obtain rfl := hnet e rfl
      exact ⟨_, bind_of_error hpost, by decide⟩
    | ok resp =>
      refine ⟨.status resp.status, ?_, by simp⟩
      have hstatus : (resp.status == 200) = false := beq_false_of_ne (hno resp rfl)
      rw [bind_of_ok hpost, hstatus]
      rfl
  obtain ⟨e, hrun, he⟩ := hflush
  simp only [System.flush, hrun, bne_iff_ne.2 he]
  rw [← hup]

/-- A flush whose request is. -/
theorem flush_taken {resp : Response} (hread : Buf.unacked batchLimit s.agent = (.ok hbs, s.agent)) (hne : hbs ≠ [])
    (hpost : roundTrip server x (ingestRequest ship.token ⟨schemaVersion, now, hbs⟩) s = (.ok resp, s'))
    (h200 : resp.status = 200) (hack : (Buf.ack hbs.length s'.agent).1 ≠ .error .crash) (hup : s'.up = true) :
    s.flush server ship x now = (onAgent (Buf.ack hbs.length) s').2 := by
  have hunacked : onAgent (Buf.unacked batchLimit) s = (.ok hbs, s) := by
    simp only [onAgent, mapError, zoom, hread]
  have hstatus : (resp.status == 200) = true := beq_iff_eq.2 h200
  have hflush : ship.flush onAgent (roundTrip server x) now s =
      (onAgent (Buf.ack hbs.length) >>= fun _ => pure hbs.length) s' := by
    rw [Shipper.flush, bind_of_ok hunacked, if_neg hne, bind_of_ok hpost, hstatus]
    rfl
  cases hrun : Buf.ack hbs.length s'.agent with
  | mk r m =>
    rw [hrun] at hack
    cases r with
    | ok _ =>
      have hstep : onAgent (Buf.ack hbs.length) s' = (.ok (), { s' with agent := m }) := by
        simp only [onAgent, mapError, zoom, hrun]
      rw [hstep]
      exact flush_ok (hflush.trans (bind_of_ok hstep))
    | error e =>
      have hstep : onAgent (Buf.ack hbs.length) s' = (.error (.buffer e), { s' with agent := m }) := by
        simp only [onAgent, mapError, zoom, hrun]
      have hne : FlushError.buffer e ≠ .buffer .crash := fun h => hack (congrArg _ (FlushError.buffer.inj h))
      rw [hstep]
      simp only [System.flush, hflush.trans (bind_of_error hstep), bne_iff_ne.2 hne]
      rw [← hup]

end System

/-! ## The invariant -/

namespace Goroutines

/-- The builder, where a heartbeat it has built may not be appended yet. -/
def Built (b b' : HeartbeatBuilder) : Loop → Prop
  | .due o _ | .append o _ => b.due o = true ∧ b' = b.emitted o
  | _ => b' = b

/-- The agent's machine, where its file may have been closed. -/
def closedIf (c : Bool) (m : Machine) : Machine :=
  if c then { m with buf := { m.buf with isOpen := false } } else m

/-- The state of one operation at a time, but for what is under way. -/
structure Shadow (g : Goroutines) (d : Deployment) : Prop where
  seen : d.seen = g.seen
  builder : Built d.builder g.builder g.loop
  system : g.system = { d.system with agent := closedIf g.loop.closed d.system.agent }

/-- That state, were the ack made now. -/
structure Acked (g : Goroutines) (count : Nat) (d : Deployment) : Prop where
  seen : d.seen = g.seen
  builder : Built d.builder g.builder g.loop
  system : d.system = { g.system with agent := (Buf.ack count g.system.agent).2 }

/-- What holds in every state of a run; `Reached` are the states of one
operation at a time. -/
structure Inv (Reached : Deployment → Prop) (g : Goroutines) : Prop where
  up : g.system.up = true
  faults : g.system.agent.faults = []
  mu : g.mu = (g.loop.holds || g.ship.holds)
  exclusive : g.loop.holds = true → g.ship.holds = false
  waited : g.loop.stopping = true → g.ship = .done
  posting : ∀ hbs, g.ship = .post hbs → hbs ≠ [] ∧
    Buf.unacked batchLimit g.system.agent = (.ok hbs, g.system.agent)
  shadow : ∃ d, Reached d ∧ Shadow g d
  acking : ∀ count, g.ship = .ack count → ∃ d, Reached d ∧ Acked g count d

variable {rules : List Agent.Rule} {shipper : Shipper} {host : Host} {auth : AdminAuth}
  {fileServer : Request → Nat × Bytes} {rows₀ : List HeartbeatRow} {g g' : Goroutines}
  {Reached : Deployment → Prop}

theorem holds_of_closed {l : Loop} (h : l.closed = true) : l.stopping = true := by
  cases l <;> simp_all [Loop.closed, Loop.stopping]

/-- A goroutine gets somewhere else, and nothing else changes. -/
theorem Inv.move (h : Inv Reached g) (hsystem : g'.system = g.system) (hseen : g'.seen = g.seen)
    (hclosed : g'.loop.closed = g.loop.closed) (hbuilt : ∀ b, Built b g.builder g.loop → Built b g'.builder g'.loop)
    (hmu : g'.mu = (g'.loop.holds || g'.ship.holds)) (hexclusive : g'.loop.holds = true → g'.ship.holds = false)
    (hwaited : g'.loop.stopping = true → g'.ship = .done) (hpost : ∀ hbs, g'.ship = .post hbs → g.ship = .post hbs)
    (hack : ∀ count, g'.ship = .ack count → g.ship = .ack count) : Inv Reached g' := by
  refine ⟨hsystem ▸ h.up, hsystem ▸ h.faults, hmu, hexclusive, hwaited, fun hbs hp => ?_, ?_, fun count hc => ?_⟩
  · rw [hsystem]
    exact h.posting hbs (hpost hbs hp)
  · obtain ⟨d, hr, hd⟩ := h.shadow
    refine ⟨d, hr, hd.seen.trans hseen.symm, hbuilt _ hd.builder, ?_⟩
    rw [hsystem, hclosed]
    exact hd.system
  · obtain ⟨d, hr, hd⟩ := h.acking count (hack count hc)
    refine ⟨d, hr, hd.seen.trans hseen.symm, hbuilt _ hd.builder, ?_⟩
    rw [hsystem]
    exact hd.system

/-- The lock is free just if nobody holds it. -/
theorem Inv.free (h : Inv Reached g) (hmu : g.mu = false) : g.loop.holds = false ∧ g.ship.holds = false :=
  Bool.or_eq_false_iff.1 (h.mu.symm.trans hmu)

/-- The rules for what is reached. -/
structure Reaches (server : Handler) (shipper : Shipper) (rules : List Agent.Rule) (rows₀ : List HeartbeatRow)
    (Reached : Deployment → Prop) : Prop where
  step : ∀ {d d'}, Reached d → Deployment.Step server shipper rules d d' → Reached d'
  mirrors : ∀ {d}, Reached d → ∃ o, Mirrors rows₀ d.system o

variable (hR : Reaches (newMux host auth fileServer) shipper rules rows₀ Reached)

theorem Inv.timer (h : Inv Reached g) (hact : g.timer = some g') : Inv Reached g' := by
  have hmu := h.mu
  unfold Goroutines.timer at hact
  split at hact <;> cases hact
  next hship =>
  rw [hship] at hmu
  refine h.move rfl rfl rfl (fun _ hd => hd) hmu (fun _ => rfl) (fun hstop => ?_) (fun _ hp => nomatch hp)
    fun _ hc => nomatch hc
  cases hship.symm.trans (h.waited hstop)

/-- The shipper holds the lock. -/
structure Inside (g : Goroutines) : Prop where
  mu : g.mu = true
  loop : g.loop.holds = false
  running : g.loop.stopping = false

theorem Inv.inside (h : Inv Reached g) (hship : g.ship.holds = true) : Inside g := by
  refine ⟨by rw [h.mu, hship, Bool.or_true], ?_, ?_⟩
  · rw [Bool.eq_false_iff]
    exact fun hloop => absurd (h.exclusive hloop) (by rw [hship]; decide)
  · rw [Bool.eq_false_iff]
    intro hstop
    rw [h.waited hstop] at hship
    cases hship

/-- The shipper goes on inside the lock, or is about to unlock it. -/
theorem Inside.goOn {l : ShipLoop} {s : System} (hin : Inside g) (hl : l.holds = true) (hup : s.up = true)
    (hfaults : s.agent.faults = [])
    (hpost : ∀ hbs, l = .post hbs → hbs ≠ [] ∧ Buf.unacked batchLimit s.agent = (.ok hbs, s.agent))
    (hshadow : ∃ d, Reached d ∧ Shadow { g with system := s, ship := l } d)
    (hack : ∀ count, l = .ack count → ∃ d, Reached d ∧ Acked { g with system := s, ship := l } count d) :
    Inv Reached { g with system := s, ship := l } :=
  ⟨hup, hfaults, by rw [hin.mu, hin.loop, hl]; rfl, fun hno => absurd hno (by rw [hin.loop]; decide), fun hno =>
    absurd hno (by rw [hin.running]; decide), hpost, hshadow, hack⟩

section
include hR

theorem Inv.sample {o : Observation} {id : Bytes} (h : Inv Reached g) (hact : g.sample o id = some g') :
    Inv Reached g' := by
  unfold Goroutines.sample at hact
  split at hact
  · next hselect =>
    have hship : ∀ d, Built d g.builder g.loop → g.builder = d := fun d hd => by
      rw [hselect] at hd
      exact hd
    have hmu := h.mu
    rw [hselect] at hmu
    cases hdue : g.builder.due o with
    | true =>
      rw [HeartbeatBuilder.observe_due hdue] at hact
      cases hact
      refine h.move rfl rfl (by rw [hselect]; rfl) (fun d hd => ?_) hmu (fun hno => nomatch hno) (fun hno => nomatch hno)
        (fun _ hp => hp) fun _ hc => hc
      obtain rfl := hship d hd
      exact ⟨hdue, rfl⟩
    | false =>
      rw [HeartbeatBuilder.observe_not_due hdue] at hact
      cases hact
      have hclosed : g.loop.closed = false := by rw [hselect]; rfl
      have observed {d : Deployment} (hr : Reached d) (hseen : d.seen = g.seen) (hbuilt : Built d.builder g.builder g.loop)
          (hup : d.system.up = true) : Reached ⟨d.builder, d.system, g.seen ++ [o]⟩ := by
        have hb := hship _ hbuilt
        have hstep := hR.step hr (.observe o id hup fun hno => by
          rw [← hb, hdue] at hno
          cases hno)
        rw [Deployment.observe_not_due (by rw [← hb]; exact hdue), hseen] at hstep
        exact hstep
      refine ⟨h.up, h.faults, h.mu, h.exclusive, h.waited, h.posting, ?_, fun count hc => ?_⟩
      · obtain ⟨d, hr, hd⟩ := h.shadow
        have hup : d.system.up = true := by
          have := h.up
          rw [hd.system] at this
          exact this
        exact ⟨_, observed hr hd.seen hd.builder hup, rfl, hd.builder, hd.system⟩
      · obtain ⟨d, hr, hd⟩ := h.acking count hc
        have hup : d.system.up = true := by
          rw [hd.system]
          exact h.up
        exact ⟨_, observed hr hd.seen hd.builder hup, rfl, hd.builder, hd.system⟩
  · cases hact

theorem Inv.loop (h : Inv Reached g)
    (hmeets : ∀ o id, g.loop = .append o id → Deployment.Takes g.system (Deployment.heartbeat rules id o))
    (hact : g.stepLoop rules = some g') : Inv Reached g' := by
  have hmu := h.mu
  have hexclusive := h.exclusive
  have hwaited := h.waited
  unfold stepLoop at hact
  split at hact
  · next hloop =>
    split at hact <;> cases hact
    rw [hloop] at hmu
    exact h.move rfl rfl (by rw [hloop]; rfl) (fun d hd => by rw [hloop] at hd; exact hd) hmu (fun hno => nomatch hno)
      (fun hno => nomatch hno) (fun _ hp => hp) fun _ hc => hc
  · next o id hloop =>
    split at hact <;> cases hact
    next hlock =>
    obtain ⟨-, hship⟩ := h.free (Bool.eq_false_iff.2 hlock)
    exact h.move rfl rfl (by rw [hloop]; rfl) (fun d hd => by rw [hloop] at hd; exact hd) rfl (fun _ => hship)
      (fun hno => nomatch hno) (fun _ hp => hp) fun _ hc => hc
  · next o id hloop =>
    cases hact
    have htakes := hmeets o id hloop
    rw [hloop] at hmu hexclusive
    obtain ⟨d, hr, hd⟩ := h.shadow
    have hsystem : d.system = g.system := by rw [hd.system, hloop]; rfl
    obtain ⟨hdue, hbuilder⟩ : d.builder.due o = true ∧ g.builder = d.builder.emitted o := by
      have hbuilt := hd.builder
      rw [hloop] at hbuilt
      exact hbuilt
    obtain ⟨outbox, hm⟩ := hR.mirrors hr
    rw [hsystem] at hm
    obtain ⟨m, hfaults, happend⟩ := Deployment.append_returns (h := Deployment.heartbeat rules id o) hm h.up htakes.fits
    rw [System.schedule_nil h.faults] at happend
    have hstep := hR.step hr (.observe o id (hsystem ▸ h.up) fun _ => hsystem ▸ htakes)
    rw [Deployment.observe_due hdue, hsystem, System.schedule_nil h.faults, hd.seen, happend] at hstep
    rw [happend]
    have hfree : g.ship.holds = false := hexclusive rfl
    have hnot {l : ShipLoop} (hl : l.holds = true) : g.ship ≠ l := fun heq => by
      rw [heq, hl] at hfree
      cases hfree
    exact ⟨h.up, hfaults, hmu, fun _ => hfree, fun hno => (nomatch hno), fun _ hp => absurd hp (hnot rfl),
      ⟨_, hstep, rfl, hbuilder, rfl⟩, fun _ hc => absurd hc (hnot rfl)⟩
  · next hloop =>
    cases hact
    rw [hloop] at hmu hexclusive
    exact h.move rfl rfl (by rw [hloop]; rfl) (fun d hd => by rw [hloop] at hd; exact hd) (hexclusive rfl).symm
      (fun hno => nomatch hno) (fun hno => nomatch hno) (fun _ hp => hp) fun _ hc => hc
  · next hloop =>
    split at hact <;> cases hact
    next hdone =>
    rw [hloop] at hmu
    exact h.move rfl rfl (by rw [hloop]; rfl) (fun d hd => by rw [hloop] at hd; exact hd) hmu (fun hno => nomatch hno)
      (fun _ => hdone) (fun _ hp => hp) fun _ hc => hc
  · next hloop =>
    split at hact <;> cases hact
    rw [hloop] at hwaited
    have hdone := hwaited rfl
    exact h.move rfl rfl (by rw [hloop]; rfl) (fun d hd => by rw [hloop] at hd; exact hd) rfl
      (fun _ => by rw [hdone]; rfl) (fun _ => hdone) (fun _ hp => hp) fun _ hc => hc
  · next hloop =>
    cases hact
    rw [hloop] at hmu hwaited
    have hdone := hwaited rfl
    obtain ⟨d, hr, hd⟩ := h.shadow
    have hsystem : d.system = g.system := by rw [hd.system, hloop]; rfl
    obtain ⟨outbox, hm⟩ := hR.mirrors hr
    rw [hsystem] at hm
    have hclose := Buf.closeBuffer_quiet (hm.holds h.up).isOpen h.faults
    rw [System.snd_onAgent, hclose]
    refine ⟨h.up, h.faults, hmu, fun _ => by rw [hdone]; rfl, fun _ => hdone, fun _ hp => ?_, ⟨d, hr, hd.seen, ?_, ?_⟩,
      fun _ hc => ?_⟩
    · cases hdone.symm.trans hp
    · have hbuilt := hd.builder
      rw [hloop] at hbuilt
      exact hbuilt
    · rw [hsystem]
      rfl
    · cases hdone.symm.trans hc
  · next hloop =>
    cases hact
    rw [hloop] at hmu hwaited
    have hdone := hwaited rfl
    exact h.move rfl rfl (by rw [hloop]; rfl) (fun d hd => by rw [hloop] at hd; exact hd)
      (by rw [hdone]; rfl) (fun hno => nomatch hno) (fun _ => hdone) (fun _ hp => hp)
      fun _ hc => hc
  · cases hact

/-- What is reached has the state, if the shipper is inside. -/
theorem Inv.entered (h : Inv Reached g) (hin : Inside g) :
    ∃ d, Reached d ∧ d.seen = g.seen ∧ Built d.builder g.builder g.loop ∧ d.system = g.system ∧
      ∃ o, Mirrors rows₀ g.system o := by
  obtain ⟨d, hr, hd⟩ := h.shadow
  have hopen : g.loop.closed = false := by
    rw [Bool.eq_false_iff]
    exact fun hc => absurd (holds_of_closed hc) (by rw [hin.running]; decide)
  have hsystem : d.system = g.system := by
    rw [hd.system, hopen]
    rfl
  exact ⟨d, hr, hd.seen, hd.builder, hsystem, hsystem ▸ hR.mirrors hr⟩

theorem Inv.shipUnacked (h : Inv Reached g) (hship : g.ship = .unacked)
    (hact : (match System.onAgent (Buf.unacked batchLimit) g.system with
      | (.ok [], s) => some { g with system := s, ship := .unlock }
      | (.ok hbs, s) => some { g with system := s, ship := .post hbs }
      | (.error _, s) => some { g with system := s, ship := .unlock }) = some g') : Inv Reached g' := by
  have hin := h.inside (by rw [hship]; rfl)
  obtain ⟨d, hr, hseen, hbuilder, hsystem, o, hm⟩ := h.entered hR hin
  have hquiet := Buf.unacked_quiet batchLimit (hm.holds h.up).reading h.faults
  have hsame {r : Except FlushError (List Heartbeat)} {s : System}
      (hrun : System.onAgent (Buf.unacked batchLimit) g.system = (r, s)) : s = g.system := by
    have hsnd := congrArg Prod.snd hrun
    rw [System.snd_onAgent, hquiet] at hsnd
    exact hsnd.symm
  have hshadow (l : ShipLoop) : ∃ d, Reached d ∧ Shadow { g with system := g.system, ship := l } d := by
    obtain ⟨d, hr, hd⟩ := h.shadow
    exact ⟨d, hr, hd.seen, hd.builder, hd.system⟩
  split at hact
  · next s hrun =>
    cases hact
    obtain rfl := hsame hrun
    exact hin.goOn rfl h.up h.faults (fun _ hp => nomatch hp) (hshadow _) fun _ hc => nomatch hc
  · next hbs s hne hrun =>
    cases hact
    obtain rfl := hsame hrun
    refine hin.goOn rfl h.up h.faults (fun hbs' hp => ?_) (hshadow _) fun _ hc => nomatch hc
    cases hp
    exact ⟨hne, System.ok_of_onAgent hrun⟩
  · next e s hrun =>
    cases hact
    obtain rfl := hsame hrun
    exact hin.goOn rfl h.up h.faults (fun _ hp => nomatch hp) (hshadow _) fun _ hc => nomatch hc

theorem Inv.shipPost {x : Exchange} {now : Int64} {hbs : List Heartbeat} (h : Inv Reached g) (hship : g.ship = .post hbs)
    (hroom : x = .answered → g.system.Roomy)
    (hact : (match System.roundTrip (newMux host auth fileServer) x
        (ingestRequest shipper.token ⟨schemaVersion, now, hbs⟩) g.system with
      | (.ok resp, s) => some { g with system := s, ship := if resp.status = 200 then .ack hbs.length else .unlock }
      | (.error _, s) => some { g with system := s, ship := .unlock }) = some g') : Inv Reached g' := by
  have hin := h.inside (by rw [hship]; rfl)
  obtain ⟨d, hr, hseen, hbuilder, hsystem, o, hm⟩ := h.entered hR hin
  obtain ⟨hne, hread⟩ := h.posting hbs hship
  obtain ⟨hagent, hup, hnet⟩ := @System.roundTrip_frame g.system (newMux host auth fileServer) x
    (ingestRequest shipper.token ⟨schemaVersion, now, hbs⟩)
  have hopen : g.loop.closed = false := by
    rw [Bool.eq_false_iff]
    exact fun hc => absurd (holds_of_closed hc) (by rw [hin.running]; decide)
  -- the flush as one operation
  have hflush (y : Exchange) (hy : y = .answered → g.system.Roomy) :
      Reached ⟨d.builder, g.system.flush (newMux host auth fileServer) shipper y now, d.seen⟩ := by
    have hstep := hR.step hr (.flush y now [] System.benign_nil (hsystem ▸ h.up) (hsystem ▸ hy))
    rwa [hsystem, System.schedule_nil h.faults] at hstep
  have hshadow {s : System} (hreached : Reached ⟨d.builder, s, d.seen⟩) (l : ShipLoop) :
      ∃ d, Reached d ∧ Shadow { g with system := s, ship := l } d := by
    refine ⟨_, hreached, hseen, hbuilder, ?_⟩
    rw [hopen]
    rfl
  split at hact
  · next resp s hrun =>
    cases hact
    rw [hrun] at hagent hup
    have hagent : s.agent = g.system.agent := hagent
    have hup : s.up = true := hup.trans h.up
    have hfaults : s.agent.faults = [] := by rw [hagent, h.faults]
    by_cases h200 : resp.status = 200
    · rw [if_pos h200]
      cases x with
      | lost | responseLost => cases hrun
      | turnedAway resp' hno =>
        cases hrun
        exact absurd h200 hno
      | answered =>
        have hlost := hflush .responseLost fun hno => nomatch hno
        have htaken := hflush .answered hroom
        have hquiet := Buf.ack_quiet hbs.length (hm.holds h.up).reading h.faults
        rw [← hagent] at hquiet
        have hpost : System.roundTrip (newMux host auth fileServer) .responseLost
            (ingestRequest shipper.token ⟨schemaVersion, now, hbs⟩) g.system = (.error .network, s) := by
          have hsnd : s = _ := (congrArg Prod.snd hrun).symm
          rw [hsnd]
          rfl
        rw [System.flush_refused hread hne hpost (fun _ hno => nomatch hno) (fun _ he => (Except.error.inj he).symm) hup]
          at hlost
        rw [System.flush_taken hread hne hrun h200 hquiet.1 hup, System.snd_onAgent] at htaken
        refine hin.goOn rfl hup hfaults (fun _ hp => nomatch hp) (hshadow hlost _) fun count hc => ?_
        cases hc
        exact ⟨_, htaken, hseen, hbuilder, rfl⟩
    · rw [if_neg h200]
      have hone := hflush x hroom
      rw [System.flush_refused hread hne hrun (fun resp' heq => by cases heq; exact h200) (fun _ he => nomatch he) hup]
        at hone
      exact hin.goOn rfl hup hfaults (fun _ hp => nomatch hp) (hshadow hone _) fun _ hc => nomatch hc
  · next e s hrun =>
    cases hact
    rw [hrun] at hagent hup hnet
    have hagent : s.agent = g.system.agent := hagent
    have hup : s.up = true := hup.trans h.up
    have hone := hflush x hroom
    rw [System.flush_refused hread hne hrun (fun _ hno => nomatch hno) hnet hup] at hone
    exact hin.goOn rfl hup (by rw [hagent, h.faults]) (fun _ hp => nomatch hp) (hshadow hone _) fun _ hc => nomatch hc

theorem Inv.shipAck {count : Nat} (h : Inv Reached g) (hship : g.ship = .ack count) :
    Inv Reached { g with system := (System.onAgent (Buf.ack count) g.system).2, ship := .unlock } := by
  have hin := h.inside (by rw [hship]; rfl)
  obtain ⟨-, -, -, -, -, o, hm⟩ := h.entered hR hin
  obtain ⟨-, hfaults⟩ := Buf.ack_quiet count (hm.holds h.up).reading h.faults
  have hopen : g.loop.closed = false := by
    rw [Bool.eq_false_iff]
    exact fun hc => absurd (holds_of_closed hc) (by rw [hin.running]; decide)
  obtain ⟨d, hr, hd⟩ := h.acking count hship
  rw [System.snd_onAgent]
  refine hin.goOn rfl h.up hfaults (fun _ hp => nomatch hp) ⟨d, hr, hd.seen, hd.builder, ?_⟩ fun _ hc => nomatch hc
  rw [hopen, hd.system]
  rfl

theorem Inv.ship {x : Exchange} {now : Int64} (h : Inv Reached g)
    (hmeets : ∀ hbs, g.ship = .post hbs → x = .answered → g.system.Roomy)
    (hact : g.stepShip (newMux host auth fileServer) shipper x now = some g') : Inv Reached g' := by
  unfold stepShip at hact
  split at hact
  · next hship =>
    have hmu := h.mu
    split at hact <;> cases hact
    rw [hship] at hmu
    exact h.move rfl rfl rfl (fun _ hd => hd) hmu (fun _ => rfl) (fun _ => rfl) (fun _ hp => nomatch hp)
      fun _ hc => nomatch hc
  · next hship =>
    split at hact <;> cases hact
    next hlock =>
    obtain ⟨hloop, -⟩ := h.free (Bool.eq_false_iff.2 hlock)
    refine h.move rfl rfl rfl (fun _ hd => hd) (by rw [hloop]; rfl) (fun hno => absurd hno (by rw [hloop]; decide))
      (fun hstop => ?_) (fun _ hp => nomatch hp) fun _ hc => nomatch hc
    cases hship.symm.trans (h.waited hstop)
  · next hship =>
    exact h.shipUnacked hR hship hact
  · next hbs hship =>
    exact h.shipPost hR hship (hmeets hbs hship) hact
  · next count hship =>
    cases hact
    exact h.shipAck hR hship
  · next hship =>
    cases hact
    have hin := h.inside (by rw [hship]; rfl)
    exact h.move rfl rfl rfl (fun _ hd => hd) (by rw [hin.loop]; rfl) (fun hno => absurd hno (by rw [hin.loop]; decide))
      (fun hno => absurd hno (by rw [hin.running]; decide)) (fun _ hp => nomatch hp) fun _ hc => nomatch hc
  · cases hact

theorem Inv.replay {r : Request} (h : Inv Reached g) (hr : r ∈ g.system.wire) :
    Inv Reached { g with system := (g.system.process (newMux host auth fileServer) r).2 } := by
  refine ⟨h.up, h.faults, h.mu, h.exclusive, h.waited, h.posting, ?_, fun count hc => ?_⟩
  · obtain ⟨d, hd, hshadow⟩ := h.shadow
    have hmem : r ∈ d.system.wire := by
      rw [hshadow.system] at hr
      exact hr
    refine ⟨_, hR.step hd (.replay r hmem), hshadow.seen, hshadow.builder, ?_⟩
    rw [hshadow.system]
    rfl
  · obtain ⟨d, hd, hacked⟩ := h.acking count hc
    have hmem : r ∈ d.system.wire := by
      rw [hacked.system]
      exact hr
    refine ⟨_, hR.step hd (.replay r hmem), hacked.seen, hacked.builder, ?_⟩
    rw [hacked.system]
    rfl

theorem Inv.restart (maxBytes : Int) (h : Inv Reached g) :
    Inv Reached { system := g.system.restart maxBytes, seen := g.seen } := by
  obtain ⟨d, hd, hshadow⟩ := h.shadow
  have hfaults : d.system.agent.faults = [] := by
    have hf := h.faults
    rw [hshadow.system] at hf
    unfold closedIf at hf
    split at hf <;> exact hf
  have hstep := hR.step hd (.restart maxBytes [] System.benign_nil)
  rw [System.schedule_nil hfaults, System.restart_quiet hfaults] at hstep
  rw [System.restart_quiet h.faults]
  refine ⟨rfl, h.faults, rfl, fun hno => (nomatch hno), fun hno => (nomatch hno), fun _ hp => (nomatch hp),
    ⟨_, hstep, hshadow.seen, rfl, ?_⟩, fun _ hc => nomatch hc⟩
  rw [hshadow.system]
  unfold closedIf
  split <;> rfl

/-- **One step.** -/
theorem Inv.act {a : Action} (h : Inv Reached g) (hmeets : g.Meets rules a)
    (hact : act (newMux host auth fileServer) shipper rules g a = some g') : Inv Reached g' := by
  cases a with
  | cancel =>
    cases hact
    exact h.move rfl rfl rfl (fun _ hb => hb) h.mu h.exclusive h.waited (fun _ hp => hp) fun _ hc => hc
  | sample o id => exact h.sample hR hact
  | loop =>
    refine h.loop hR (fun o id hloop => ?_) hact
    rw [Meets, hloop] at hmeets
    exact hmeets
  | timer => exact h.timer hact
  | ship x now =>
    refine h.ship hR (fun hbs hship hx => ?_) hact
    subst hx
    rw [Meets, hship] at hmeets
    exact hmeets
  | replay i =>
    obtain ⟨r, hr, rfl⟩ := Option.map_eq_some_iff.1 hact
    exact h.replay hR (List.mem_of_getElem? hr)
  | restart maxBytes =>
    cases hact
    exact h.restart hR maxBytes

end

theorem reaches_start (maxBytes : Int) (w : World) :
    Reaches (newMux host auth fileServer) shipper rules w.db.heartbeats.rows
      (Deployment.Reachable (newMux host auth fileServer) shipper rules (.start maxBytes w)) := by
  refine ⟨fun hr hstep => hr.tail hstep, fun hr => ?_⟩
  obtain ⟨o, -, hm⟩ := System.mirrored_reachable (System.mirrors_start maxBytes w) hr.system
  exact ⟨o, hm⟩

theorem inv_start (maxBytes : Int) (w : World) :
    Inv (Deployment.Reachable (newMux host auth fileServer) shipper rules (.start maxBytes w)) (start maxBytes w) :=
  ⟨rfl, rfl, rfl, fun hno => (nomatch hno), fun hno => (nomatch hno), fun _ hp => (nomatch hp),
    ⟨_, .refl, rfl, rfl, rfl⟩, fun _ hc => nomatch hc⟩

end Goroutines

/-- **Operations of two goroutines are operations one at a time.** In every
interleaving, where nobody holds the lock, no heartbeat waits for it and the
buffer is not closed, the state is one that whole appends and whole flushes lead
to; and once `RunSamples` has returned the shipper has, and the state is such a
one but for the file, which is closed. -/
theorem interleaved_is_atomic (host : Host) (auth : AdminAuth) (fileServer : Request → Nat × Bytes) (shipper : Shipper)
    (rules : List Agent.Rule) (maxBytes : Int) (w : World) (actions : List Goroutines.Action) (g : Goroutines)
    (hmeets : EachMeets (Goroutines.act (newMux host auth fileServer) shipper rules) (Goroutines.Meets rules) actions
      (.start maxBytes w))
    (hrun : actAll (Goroutines.act (newMux host auth fileServer) shipper rules) actions (.start maxBytes w) = some g) :
    let Reached := Deployment.Reachable (newMux host auth fileServer) shipper rules (.start maxBytes w)
    (g.loop.idle = true → g.mu = false → Reached ⟨g.builder, g.system, g.seen⟩) ∧
    (g.loop = .returned → g.ship = .done ∧ g.mu = false ∧ ∃ m, m.buf.isOpen = true ∧
      g.system.agent = { m with buf := { m.buf with isOpen := false } } ∧
      Reached ⟨g.builder, { g.system with agent := m }, g.seen⟩) := by
  intro Reached
  have hR := @Goroutines.reaches_start rules shipper host auth fileServer maxBytes w
  have h : Goroutines.Inv Reached g := actAll_inv_of (fun h hm ha => h.act hR hm ha) (Goroutines.inv_start maxBytes w)
    hmeets hrun
  obtain ⟨⟨builder, system, seen⟩, hr, hd⟩ := h.shadow
  obtain ⟨rfl, hbuilder, hsystem⟩ := hd
  refine ⟨fun hloop hmu => ?_, fun hloop => ?_⟩
  · have hidle : g.builder = builder ∧ g.loop.closed = false := by
      cases hl : g.loop <;> simp_all [Loop.idle, Loop.closed, Goroutines.Built]
    obtain ⟨rfl, hopen⟩ := hidle
    rw [hopen] at hsystem
    rw [hsystem]
    exact hr
  · have hdone := h.waited (by rw [hloop]; rfl)
    have hmu := h.mu
    rw [hloop, hdone] at hmu
    rw [hloop] at hbuilder hsystem
    obtain rfl : g.builder = builder := hbuilder
    obtain ⟨o, hm⟩ := hR.mirrors hr
    have hup : system.up = true := by
      have hup := h.up
      rw [hsystem] at hup
      exact hup
    refine ⟨hdone, hmu, system.agent, (hm.holds hup).isOpen, by rw [hsystem]; rfl, ?_⟩
    rw [hsystem]
    exact hr

/-- A flush gets the lock before the first heartbeat does; the agent is stopped
while the second one's request is under way. -/
def contended : List Goroutines.Action :=
  [.sample firstPoll (str "1"), .timer, .ship .lost 0, .ship .lost 0, .ship .lost 0, .loop, .loop,
    .loop, .timer, .ship .lost 0, .ship .lost 0, .cancel, .ship .answered 0, .replay 0, .ship .lost 0, .ship .lost 0,
    .loop, .ship .lost 0, .loop, .loop, .loop, .loop]

theorem interleaved_contended : ∃ g,
    actAll (Goroutines.act System.oneServer ⟨str "t"⟩ []) contended (.start 1000 oneDevice) = some g ∧
    g.ship = .done ∧ g.mu = false := by
  have hmeets : EachMeets (Goroutines.act System.oneServer ⟨str "t"⟩ []) (Goroutines.Meets []) contended
      (.start 1000 oneDevice) := by
    decide +kernel
  have hrun : ((actAll (Goroutines.act System.oneServer ⟨str "t"⟩ []) contended (.start 1000 oneDevice)).any
      fun g => g.loop.isReturned) = true := by
    decide +kernel
  obtain ⟨g, hg, hreturned⟩ := (Option.any_eq_true _ _).1 hrun
  obtain ⟨hdone, hmu, -⟩ := (interleaved_is_atomic insertionHost ⟨[]⟩ (fun _ => (404, [])) ⟨str "t"⟩ [] 1000 oneDevice
    contended g hmeets hg).2 (by cases hl : g.loop <;> simp_all [Loop.isReturned])
  exact ⟨g, hg, hdone, hmu⟩

end ScrewLogger
