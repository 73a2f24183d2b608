/-
The agent and the server together, one operation at a time.

An operation of the agent may be the last before its process dies, at any call
into the file system; a request may be lost, or its response, or be processed
again at any later time.
-/
import Mathlib.Logic.Relation
import ScrewLogger.Agent.Shipper
import ScrewLogger.Server.Http

namespace ScrewLogger
open Lib Lib.Eff

/-- The agent, the server, and what there is between them. -/
structure System where
  agent : Machine
  /-- The agent's process is there. -/
  up : Bool
  server : World
  /-- Every request that was ever sent. -/
  wire : List Request
  /-- The heartbeats of all appends. -/
  observed : List Heartbeat
  /-- Those whose append returned without an error. -/
  promised : List Heartbeat

/-- What becomes of a flush's request. -/
inductive Exchange
  | lost
  /-- The server processes it, but no response arrives. -/
  | responseLost
  /-- Something on the way answers it. -/
  | turnedAway (resp : Response) (h : resp.status ≠ 200)
  | answered

namespace System

/-- The server processes a request. -/
def process (server : Handler) (r : Request) (s : System) : Response × System :=
  let (resp, w) := server.serve r s.server
  (resp, { s with server := w })

def roundTrip (server : Handler) (x : Exchange) (r : Request) : Eff System FlushError Response := do
  modify fun s => { s with wire := r :: s.wire }
  match x with
  | .lost => stop .network
  | .responseLost => do
    let _ ← take (process server r)
    stop .network
  | .turnedAway resp _ => pure resp
  | .answered => take (process server r)

def onAgent {α : Type} (b : Buf α) : Eff System FlushError α :=
  mapError .buffer (zoom System.agent (fun m s => { s with agent := m }) b)

/-- What the calls of the agent's next operation will find. -/
def schedule (faults : List Fault) (s : System) : System := { s with agent := { s.agent with faults := faults } }

/-! ## Steps -/

def append (h : Heartbeat) (s : System) : System :=
  let s := { s with observed := h :: s.observed }
  match onAgent (Buf.append h) s with
  | (.ok _, s') => { s' with promised := h :: s'.promised }
  | (.error e, s') => { s' with up := e != .buffer .crash }

def flush (server : Handler) (ship : Shipper) (x : Exchange) (now : Int64) (s : System) : System :=
  match ship.flush onAgent (roundTrip server x) now s with
  | (.ok _, s') => s'
  | (.error e, s') => { s' with up := e != .buffer .crash }

theorem append_ok {h : Heartbeat} {s s' : System}
    (hrun : onAgent (Buf.append h) { s with observed := h :: s.observed } = (.ok (), s')) :
    s.append h = { s' with promised := h :: s'.promised } := by
  simp only [System.append, hrun]

theorem flush_ok {server : Handler} {ship : Shipper} {x : Exchange} {now : Int64} {s s' : System} {n : Nat}
    (hrun : ship.flush onAgent (roundTrip server x) now s = (.ok n, s')) : s.flush server ship x now = s' := by
  simp only [System.flush, hrun]

/-- The process is started, again if it was there. -/
def restart (maxBytes : Int) (s : System) : System :=
  match onAgent (Buf.openBuffer maxBytes) s with
  | (.ok _, s') => { s' with up := true }
  | (.error _, s') => { s' with up := false }

/-- One operation of the agent, or of the server alone. Heartbeats are valid
and have ids of their own, none makes the file overflow, and where a flush acks
what it sent, there is `room`. -/
inductive Step (server : Handler) (ship : Shipper) (room : System → Prop) (s : System) : System → Prop
  | append (h : Heartbeat) (faults : List Fault) (hb : Buf.Benign (s.schedule faults).agent) (hup : s.up = true)
      (hvalid : h.Valid) (hfresh : ∀ h' ∈ s.observed, h'.id ≠ h.id) (hnew : ¬ s.server.db.heartbeats.Has h.id)
      (hfits : Buf.overflows s.agent.buf = false) : Step server ship room s ((s.schedule faults).append h)
  | flush (x : Exchange) (now : Int64) (faults : List Fault) (hb : Buf.Benign (s.schedule faults).agent)
    (hup : s.up = true)
      (hroom : x = .answered → room s) : Step server ship room s ((s.schedule faults).flush server ship x now)
  | restart (maxBytes : Int) (faults : List Fault) (hb : Buf.Benign (s.schedule faults).agent) :
      Step server ship room s ((s.schedule faults).restart maxBytes)
  | replay (r : Request) (hr : r ∈ s.wire) : Step server ship room s (s.process server r).2

/-- The agent before its first append. -/
def start (maxBytes : Int) (w : World) : System where
  agent := Buf.opened maxBytes []
  up := true
  server := w
  wire := []
  observed := []
  promised := []

def Reachable (server : Handler) (ship : Shipper) (room : System → Prop) : System → System → Prop :=
  Relation.ReflTransGen (Step server ship room)

/-- What a flush leaves unacked, a rewrite keeps. -/
def Roomy (s : System) : Prop := Buf.Roomy s.agent (Buf.pending s.agent) (.ack batchLimit)

end System

end ScrewLogger
