/-
The agent's buffer (`buffer.go`): heartbeats as lines of a file, of which a
prefix is acked.

Every call into the file system may fail or be the last before the process
dies, by a schedule the operations run against; a write may then have written
only a part. What is on disk survives the process, the `Buffer` does not.
-/
import ScrewLogger.Lib.Effect
import ScrewLogger.Lib.Lines
import ScrewLogger.Protocol

namespace ScrewLogger
open Lib Lib.Eff

/-- What becomes of a call into the file system. -/
inductive Fault
  | none
  | error
  /-- The process dies before the call. -/
  | crash
  /-- An error, after the first `n` bytes were written. -/
  | short (n : Nat)
  /-- The process dies when the first `n` bytes are written. -/
  | torn (n : Nat)
  deriving DecidableEq

inductive BufferError
  /-- An error of the file system. -/
  | io
  /-- The file is not open. -/
  | closed
  /-- A line of the file is no heartbeat. -/
  | corrupt
  | tooLong
  /-- The process is dead. -/
  | crash
  deriving DecidableEq

structure Buffer where
  maxBytes : Int
  /-- Bytes of the file that are acked. -/
  ackedOff : Nat := 0
  /-- Bytes of the file. -/
  size : Nat := 0
  /-- The file is open. -/
  isOpen : Bool := true

/-- The disk and the process. A file that is not there is as an empty one. -/
structure Machine where
  file : Bytes := []
  tmp : Bytes := []
  buf : Buffer
  faults : List Fault := []

abbrev Buf (α : Type) := Eff Machine BufferError α

namespace Buf

/-! ## System calls -/

def nextFault : Buf Fault := take fun m => (m.faults.headD .none, { m with faults := m.faults.tail })

/-- A call that does `f`. -/
def sys (f : Machine → Machine) : Buf Unit := do
  match ← nextFault with
  | .none => modify f
  | .error | .short _ => stop .io
  | .crash | .torn _ => stop .crash

/-- A call that writes `data` to a file, by `f`. -/
def write (f : Bytes → Machine → Machine) (data : Bytes) : Buf Unit := do
  match ← nextFault with
  | .none => modify (f data)
  | .error => stop .io
  | .crash => stop .crash
  | .short n => do
    modify (f (data.take n))
    stop .io
  | .torn n => do
    modify (f (data.take n))
    stop .crash

def ensureOpen : Buf Unit := do
  let isOpen ← read fun m => m.buf.isOpen
  ensure isOpen .closed

/-- The file from the acked offset on, as reading it goes. -/
def readUnacked : Buf Json.Reader := do
  ensureOpen
  sys id -- the seek
  let rest ← read fun m => m.file.drop m.buf.ackedOff
  match ← nextFault with
  | .none => pure ⟨rest, false⟩
  | .error => pure ⟨[], true⟩
  | .short n => pure ⟨rest.take n, true⟩
  | .crash | .torn _ => stop .crash

/-! ## The buffer -/

/-- The most entries a rewrite of the file keeps. -/
def allEntries : Int := 0x40000000

/-- A heartbeat's line, with its line break. -/
def line (h : Heartbeat) : Bytes := h.marshal ++ [newline]

def openBuffer (maxBytes : Int) : Buf Unit := sys fun m => { m with buf := { maxBytes := maxBytes } }

def scanError : ScanError → BufferError
  | .tooLong => .tooLong
  | .read => .io

/-- The first `limit` entries of a scan. It is the next line that ends it. -/
def readEntries : Nat → List Bytes → Option ScanError → Except BufferError (List Heartbeat)
  | _, [], some e => .error (scanError e)
  | _, [], none => .ok []
  | 0, _ :: _, _ => .ok []
  | limit + 1, token :: tokens, err =>
    match Heartbeat.unmarshal token with
    | none => .error .corrupt
    | some h => (readEntries limit tokens err).map (h :: ·)

/-- The first unacked entries, at most `limit` of them. -/
def unacked (limit : Int) : Buf (List Heartbeat) := do
  if limit ≤ 0 then pure []
  else
    let r ← readUnacked
    let scan := scanLines r
    fromExcept (readEntries limit.toNat scan.tokens scan.err)

/-- The lengths of the first `count` lines of a scan, with their line breaks. -/
def countBytes : Nat → List Bytes → Option ScanError → Except BufferError Nat
  | 0, _, _ => .ok 0
  | _ + 1, [], some e => .error (scanError e)
  | _ + 1, [], none => .ok 0
  | count + 1, token :: tokens, err => (countBytes count tokens err).map (token.length + 1 + ·)

/-- Replaces the file by one of the given entries, through a temporary file. -/
def rewrite (entries : List Heartbeat) : Buf Unit := do
  sys fun m => { m with tmp := [] }
  let n ← entries.foldlM (fun n h => do
    write (fun data m => { m with tmp := m.tmp ++ data }) (line h)
    pure (n + (line h).length)) 0
  sys id -- the sync
  sys id -- the close of the temporary file
  ensureOpen
  modify fun m => { m with buf := { m.buf with isOpen := false } }
  sys id -- the close of the file
  sys fun m => { m with file := m.tmp, tmp := [] }
  sys fun m => { m with buf := { m.buf with isOpen := true, ackedOff := 0, size := n } }

/-- Rewrites the file without the acked entries. -/
def compact : Buf Unit := do
  let entries ← unacked allEntries
  rewrite entries

/-- The acked prefix is half of the file or more, doubled as a 64-bit integer. -/
def halfAcked (b : Buffer) : Bool := (b.size : Int) ≤ (Int64.ofNat (b.ackedOff * 2)).toInt

/-- Marks the first `count` unacked entries as uploaded. -/
def ack (count : Int) : Buf Unit := do
  if count ≤ 0 then pure ()
  else
    let r ← readUnacked
    let scan := scanLines r
    let advanced ← fromExcept (countBytes count.toNat scan.tokens scan.err)
    modify fun m => { m with buf := { m.buf with ackedOff := m.buf.ackedOff + advanced } }
    if ← read fun m => halfAcked m.buf then compact
    else pure ()

/-- The unacked bytes exceed the limit. -/
def overflows (b : Buffer) : Bool := b.maxBytes < (b.size : Int) - b.ackedOff

/-- Drops the older half of the unacked entries when their bytes exceed the limit. -/
def rotateIfFull : Buf Unit := do
  if ← read fun m => overflows m.buf then
    let entries ← unacked allEntries
    rewrite (entries.drop (entries.length / 2))
  else pure ()

/-- Writes a heartbeat as a line at the end of the file. -/
def append (h : Heartbeat) : Buf Unit := do
  rotateIfFull
  ensureOpen
  write (fun data m => { m with file := m.file ++ data }) (line h)
  modify fun m => { m with buf := { m.buf with size := m.buf.size + (line h).length } }
  sys id -- the sync

def closeBuffer : Buf Unit := do
  ensureOpen
  modify fun m => { m with buf := { m.buf with isOpen := false } }
  sys id

end Buf

end ScrewLogger
