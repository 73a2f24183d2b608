/-
The agent's heartbeat builder (`heartbeat.go`): of the observations polled, a
heartbeat is due for the first, for a change of application or of activity, and
once the last is `keepAlive` old.
-/
import ScrewLogger.Lib.Time
import ScrewLogger.Protocol

namespace ScrewLogger
open Lib

/-- One poll's result. -/
structure Observation where
  time : Time
  app : Bytes
  active : Bool

/-- How often an unchanged state is emitted again: 15 seconds. -/
def defaultKeepAlive : Int := 15 * Time.second

structure HeartbeatBuilder where
  keepAlive : Int
  started : Bool := false
  curApp : Bytes := []
  curActive : Bool := false
  lastEmit : Time := .epoch

/-- A builder that has seen nothing yet. -/
def newHeartbeatBuilder (keepAlive : Int) : HeartbeatBuilder := { keepAlive := keepAlive }

namespace HeartbeatBuilder

/-- A heartbeat is due for the observation. -/
def due (b : HeartbeatBuilder) (o : Observation) : Bool :=
  !b.started || o.app != b.curApp || o.active != b.curActive || b.keepAlive ≤ o.time.sub b.lastEmit

/-- The builder once it has emitted a heartbeat for the observation. -/
def emitted (b : HeartbeatBuilder) (o : Observation) : HeartbeatBuilder :=
  { b with started := true, curApp := o.app, curActive := o.active, lastEmit := o.time }

/-- The heartbeat of an observation. Its id and category come later. -/
def heartbeat (o : Observation) : Heartbeat := { ts := o.time.unix, app := o.app, active := o.active }

def observe (b : HeartbeatBuilder) (o : Observation) : Option Heartbeat × HeartbeatBuilder :=
  if b.due o then (some (heartbeat o), b.emitted o) else (none, b)

/-- The heartbeats a builder emits for observations one after another. -/
def emissions (b : HeartbeatBuilder) : List Observation → List Heartbeat
  | [] => []
  | o :: os =>
    match b.observe o with
    | (some h, b') => h :: emissions b' os
    | (none, b') => emissions b' os

theorem emissions_due {b : HeartbeatBuilder} {o : Observation} {os : List Observation} (h : b.due o = true) :
    b.emissions (o :: os) = heartbeat o :: (b.emitted o).emissions os := by
  simp [emissions, observe, h]

theorem emissions_not_due {b : HeartbeatBuilder} {o : Observation} {os : List Observation} (h : b.due o = false) :
    b.emissions (o :: os) = b.emissions os := by
  simp [emissions, observe, h]

/-- An observation no heartbeat is due for shows the state last emitted, less
than the keep-alive ago. -/
theorem not_due {b : HeartbeatBuilder} {o : Observation} (hk : b.keepAlive = defaultKeepAlive) (h : b.due o = false) :
    b.started = true ∧ o.app = b.curApp ∧ o.active = b.curActive ∧
      o.time.nanos < b.lastEmit.nanos + defaultKeepAlive := by
  simp only [due, Bool.or_eq_false_iff, Bool.not_eq_false', bne_eq_false_iff_eq, decide_eq_false_iff_not] at h
  obtain ⟨⟨⟨hs, happ⟩, hactive⟩, hrecent⟩ := h
  rw [hk, Time.le_sub (by decide) (by decide)] at hrecent
  exact ⟨hs, happ, hactive, by omega⟩

/-- The heartbeats are those of some of the observations, in their order. -/
theorem emissions_sublist : ∀ {os : List Observation} {b : HeartbeatBuilder},
    (b.emissions os).Sublist (os.map heartbeat)
  | [], _ => .slnil
  | o :: os, b => by
    rw [List.map_cons]
    cases hdue : b.due o with
    | true =>
      rw [emissions_due hdue]
      exact emissions_sublist.cons_cons _
    | false =>
      rw [emissions_not_due hdue]
      exact emissions_sublist.cons _

end HeartbeatBuilder
end ScrewLogger
