/-
The query API's reports (`query.go`): dwell time by app or category, the split
into active and idle, and the raw events.

A heartbeat of the window is given the time until the next one of its device,
to the window's end at most and `maxHeartbeatGap` at most. `sum_dwell` says
what a sum of these times is: a number of seconds, each counted for the one
heartbeat it is attributed to.
-/
import ScrewLogger.Server.Store

namespace ScrewLogger
open Lib Lib.Eff

/-- One key's share of the dwell time. -/
structure Bucket where
  key : Bytes
  seconds : Int
  deriving DecidableEq

/-- The dwell time, active and idle. The ratio is active over total, as a fraction. -/
structure ActiveRatio where
  activeSeconds : Int
  idleSeconds : Int
  ratio : Rat
  totalSeconds : Int
  deriving DecidableEq

structure EventRow where
  id : Bytes
  ts : Int
  app : Bytes
  category : Bytes
  active : Bool
  deriving DecidableEq

/-- A heartbeat with its dwell seconds. -/
structure Dwell where
  row : HeartbeatRow
  secs : Int

/-- What dwell time is grouped by. -/
inductive Group
  | category
  | app

def Group.key : Group → HeartbeatRow → Bytes
  | .category => HeartbeatRow.category
  | .app => HeartbeatRow.app

/-- The heartbeats of a device, or of every device when none is named. -/
def ofDevice (deviceID : Bytes) (h : HeartbeatRow) : Bool := deviceID == [] || h.deviceId == deviceID

namespace Database

variable (host : Host)

/-- `rng`: the heartbeats of the window. -/
def rng (deviceID : Bytes) («from» «to» : Int) (db : Database) : List HeartbeatRow :=
  db.heartbeats.rows.filter fun h => «from» ≤ h.ts && h.ts < «to» && ofDevice deviceID h

/-- `paired`: each heartbeat with the next one's time, device by device. -/
def paired (l : List HeartbeatRow) : List (HeartbeatRow × Option Int) :=
  (l.map (·.deviceId)).dedup.flatMap fun d =>
    lead HeartbeatRow.ts ((host.orderBy HeartbeatRow.ts).sort (l.filter (·.deviceId == d)))

/-- The dwell seconds of a heartbeat. -/
def secs («to» : Int) (p : HeartbeatRow × Option Int) : Int :=
  let next := p.2.getD «to»
  let raw := (if next ≤ «to» then next else «to») - p.1.ts
  if raw > maxHeartbeatGap then maxHeartbeatGap else raw

/-- `dwell`. -/
def dwell (deviceID : Bytes) («from» «to» : Int) (db : Database) : List Dwell :=
  (paired host (db.rng deviceID «from» «to»)).map fun p => { row := p.1, secs := secs «to» p }

/-- The seconds of the heartbeats with `P`. -/
def dwellOf (P : HeartbeatRow → Bool) (l : List Dwell) : Int := ((l.filter fun d => P d.row).map Dwell.secs).sum

/-- The buckets by key, the largest first. -/
def buckets (group : Group) (l : List Dwell) : List Bucket :=
  (host.orderBy fun b : Bucket => -b.seconds).sort <|
    (l.map fun d => group.key d.row).dedup.map fun k =>
      { key := k, seconds := dwellOf (fun h => group.key h == k) l }

def activeRatio (l : List Dwell) : ActiveRatio :=
  let active := dwellOf (fun h => h.active) l
  let idle := dwellOf (fun h => !h.active) l
  { activeSeconds := active
    idleSeconds := idle
    totalSeconds := active + idle
    ratio := if active + idle > 0 then active / (active + idle) else 0 }

def events (deviceID : Bytes) («from» «to» : Int) (limit : Nat) (db : Database) : List EventRow :=
  (((host.orderBy HeartbeatRow.ts).sort (db.rng deviceID «from» «to»)).take limit).map fun h =>
    { id := h.id, ts := h.ts, app := h.app, category := h.category, active := h.active }

end Database

namespace Store

variable (host : Host)

def parseGroup (groupBy : Bytes) : Except StoreError Group :=
  if groupBy = str "category" then .ok .category
  else if groupBy = str "app" then .ok .app
  else .error (.unknownGroupBy groupBy)

/-- Dwell seconds per group, the most first. -/
def dwellUsage (deviceID : Bytes) («from» «to» : Int) (groupBy : Bytes) : Store (List Bucket) := do
  let group ← fromExcept (parseGroup groupBy)
  query fun db => db.dwell host deviceID «from» «to» |> Database.buckets host group

/-- Dwell seconds, active and idle. -/
def activeRatio (deviceID : Bytes) («from» «to» : Int) : Store ActiveRatio :=
  query fun db => Database.activeRatio (db.dwell host deviceID «from» «to»)

/-- The heartbeats of the window by time, 1000 unless a limit is given and
10000 at most. -/
def listEvents (deviceID : Bytes) («from» «to» limit : Int) : Store (List EventRow) :=
  let limit := if limit ≤ 0 then 1000 else if limit > 10000 then 10000 else limit
  query fun db => db.events host deviceID «from» «to» limit.toNat

end Store

end ScrewLogger
