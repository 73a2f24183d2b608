/-
The watcher (`watcher_windows.go`, `RunWatcher`): once a second a sample of the
session it runs in, if that is the one at the console, written to the service's pipe.

A write that fails may have written a part of the line, and the watcher then goes
on with another connection. `watcher_read_back`: the service publishes, in order,
what was written on a connection, and of a line cut short either the sample or
nothing; every tick in the console session was written once, on one connection
after the other.
-/
import ScrewLogger.Agent.ReadClient

namespace ScrewLogger
open Lib Lib.Json

/-! ## The sources -/

/-- Milliseconds from the one tick count to the other, which the source divides by
1000 for seconds. -/
def idleFromTickCount (nowTick lastInputTick : UInt32) : UInt32 :=
  if lastInputTick ≤ nowTick then nowTick - lastInputTick else 0xFFFFFFFF - lastInputTick + nowTick + 1

theorem idleFromTickCount_eq (nowTick lastInputTick : UInt32) :
    idleFromTickCount nowTick lastInputTick = nowTick - lastInputTick := by
  rw [idleFromTickCount]
  grind

def unknownApp : Bytes := str "unknown.exe"

/-- What comes after the last slash or backslash. -/
def baseName (path : Bytes) : Bytes :=
  if path = [] then unknownApp else (path.reverse.takeWhile fun c => c ≠ 0x5C && c ≠ 0x2F).reverse

namespace Watcher

/-- What is found at a tick. -/
structure Poll where
  /-- `OwnSession`, unless it fails. -/
  own : Option UInt32
  console : UInt32
  /-- The path of the foreground window's image, if it can be told. -/
  image : Option Bytes
  nowTick : UInt32
  /-- `GetLastInputInfo`, unless it fails. -/
  lastInputTick : Option UInt32
  /-- The bytes written before the write failed, if it did. -/
  torn : Option Nat
  deriving DecidableEq

/-- `ForegroundApp`. -/
def Poll.foregroundApp (p : Poll) : Bytes :=
  match p.image with
  | none => unknownApp
  | some path => baseName path

/-- `IdleSeconds`, in milliseconds. -/
def Poll.idle (p : Poll) : Nat :=
  match p.lastInputTick with
  | none => 0
  | some lastInputTick => (idleFromTickCount p.nowTick lastInputTick).toNat

def Poll.sample (idleThresholdSeconds : Int) (p : Poll) : Sample where
  app := p.foregroundApp
  active := p.idle < 1000 * idleThresholdSeconds

/-- Active is who gave input recently enough, also where the count of ticks has
wrapped around since. -/
theorem Poll.active_iff {p : Poll} {lastInputTick : UInt32} (elapsed : UInt32) (idleThresholdSeconds : Int)
    (hlast : p.lastInputTick = some lastInputTick) (hnow : p.nowTick = lastInputTick + elapsed) :
    (p.sample idleThresholdSeconds).active = true ↔ elapsed.toNat < 1000 * idleThresholdSeconds := by
  have hidle : p.idle = elapsed.toNat := by
    simp only [Poll.idle, hlast, hnow, idleFromTickCount_eq]
    congr 1
    grind
  simp [Poll.sample, hidle]

/-! ## The watcher -/

/-- An attempt to dial, and what is found after one that failed. -/
structure Attempt where
  ok : Bool
  late : Bool
  cancelled : Bool
  deriving DecidableEq

inductive Dialed
  | connected
  | unreachable
  | cancelled
  /-- It has not returned. -/
  | dialing
  deriving DecidableEq

/-- One attempt after the other, until one succeeds or the budget is spent. An
error of it counts as cancelled where the context is done. -/
def dialRetry : List Attempt → Dialed
  | [] => .dialing
  | a :: attempts =>
    if a.ok then .connected
    else if a.cancelled then .cancelled
    else if a.late then .unreachable
    else dialRetry attempts

inductive Event
  | opened (conn : Nat)
  | sent (conn : Nat) (s : Sample)
  /-- A write that failed after so many bytes. -/
  | torn (conn : Nat) (s : Sample) (bytes : Nat)
  | closed (conn : Nat)
  deriving DecidableEq

def Event.conn : Event → Nat
  | opened conn | sent conn _ | torn conn _ _ | closed conn => conn

inductive Phase
  | running
  | dialing
  /-- It has returned nil. -/
  | returned
  | failed
  deriving DecidableEq

/-- One of the two cases of the loop's select. -/
inductive Turn
  /-- The context is done. -/
  | done
  /-- A tick, and the attempts to dial should there be no connection. -/
  | tick (attempts : List Attempt) (p : Poll)
  deriving DecidableEq

end Watcher

open Watcher

structure Watcher where
  conn : Option Nat := none
  /-- The number of the next connection. -/
  next : Nat := 0
  phase : Phase := .running
  trace : List Event := []

namespace Watcher

def log (w : Watcher) (e : Event) : Watcher := { w with trace := w.trace ++ [e] }

def dial (w : Watcher) (attempts : List Attempt) : Watcher :=
  match dialRetry attempts with
  | .connected => { w.log (.opened w.next) with conn := some w.next, next := w.next + 1 }
  | .unreachable => { w with phase := .failed }
  | .cancelled => { w with phase := .returned }
  | .dialing => { w with phase := .dialing }

/-- `conn.Close()`, and no connection left. -/
def close (w : Watcher) (conn : Nat) : Watcher := { w.log (.closed conn) with conn := none }

/-- The sample is taken and written, in the console session. -/
def poll (idleThresholdSeconds : Int) (w : Watcher) (p : Poll) : Watcher :=
  match w.conn with
  | none => w
  | some conn =>
    if p.own ≠ some p.console then w
    else
      match p.torn with
      | none => w.log (.sent conn (p.sample idleThresholdSeconds))
      | some bytes => (w.log (.torn conn (p.sample idleThresholdSeconds) bytes)).close conn

/-- A turn of the loop, if it still turns. -/
def turn (idleThresholdSeconds : Int) (w : Watcher) (t : Turn) : Watcher :=
  if w.phase ≠ .running then w
  else
    match t with
    | .done =>
      match w.conn with
      | some conn => { w.close conn with phase := .returned }
      | none => { w with phase := .returned }
    | .tick attempts p => (if w.conn.isSome then w else w.dial attempts).poll idleThresholdSeconds p

/-- `RunWatcher`, which dials before its loop. -/
def run (idleThresholdSeconds : Int) (attempts : List Attempt) (turns : List Turn) : Watcher :=
  turns.foldl (turn idleThresholdSeconds) (dial {} attempts)

/-! ## What happened on a connection -/

variable {w : Watcher} {e : Event} {idleThresholdSeconds : Int}

def on (w : Watcher) (conn : Nat) : List Event := w.trace.filter (·.conn = conn)

/-- The bytes that went through. -/
def Event.bytes : Event → Bytes
  | .sent _ s => s.encode
  | .torn _ s bytes => s.encode.take bytes
  | _ => []

def bytes (w : Watcher) (conn : Nat) : Bytes := (w.on conn).flatMap Event.bytes

def Event.sample : Event → Option Sample
  | .sent _ s | .torn _ s _ => some s
  | _ => none

/-- The samples taken, in order. -/
def taken (w : Watcher) : List Sample := w.trace.filterMap Event.sample

/-- The sample of a tick in the console session. -/
def Turn.sample (idleThresholdSeconds : Int) : Turn → Option Sample
  | .done => none
  | .tick _ p => if p.own = some p.console then some (p.sample idleThresholdSeconds) else none

/-- How a connection ended, if it has. -/
inductive Ending
  | still
  | closed
  | torn (s : Sample) (bytes : Nat)
  deriving DecidableEq

def Ending.events (conn : Nat) : Ending → List Event
  | still => []
  | closed => [.closed conn]
  | torn s bytes => [.torn conn s bytes, .closed conn]

/-- The sample of the line that was cut short, if no more than its line break is missing. -/
def Ending.samples : Ending → List Sample
  | torn s bytes => if s.marshal.length ≤ bytes then [s] else []
  | _ => []

/-- A connection's life: opened, written to, and perhaps closed. -/
def life (conn : Nat) (samples : List Sample) (ending : Ending) : List Event :=
  .opened conn :: (samples.map (.sent conn) ++ ending.events conn)

/-! ## One connection after the other -/

theorem on_log (e : Event) (conn : Nat) : (w.log e).on conn = w.on conn ++ if e.conn = conn then [e] else [] := by
  by_cases he : e.conn = conn <;> simp [on, log, he]

theorem on_log_other {conn : Nat} (he : e.conn ≠ conn) : (w.log e).on conn = w.on conn := by simp [on_log, he]

/-- What holds between two turns. -/
structure Holds (w : Watcher) : Prop where
  lives : ∀ conn < w.next,
    ∃ samples ending, w.on conn = life conn samples ending ∧ (ending = .still ↔ w.conn = some conn)
  trace : w.trace = (List.range w.next).flatMap w.on
  stopped : w.phase ≠ .running → w.conn = none
  last : ∀ conn, w.conn = some conn → w.next = conn + 1

theorem Holds.conn_lt (h : Holds w) (he : e ∈ w.trace) : e.conn < w.next := by
  rw [h.trace] at he
  simp only [List.mem_flatMap, List.mem_range, on, List.mem_filter, decide_eq_true_eq] at he
  obtain ⟨conn, hlt, -, rfl⟩ := he
  exact hlt

theorem Holds.on_next (h : Holds w) : w.on w.next = [] := by
  rw [on, List.filter_eq_nil_iff]
  intro e he
  have := h.conn_lt he
  simp only [decide_eq_true_eq]
  omega

/-- An event of a later connection. -/
theorem earlier_log {n : Nat} (he : n ≤ e.conn) :
    (List.range n).flatMap (w.log e).on = (List.range n).flatMap w.on := by
  refine List.flatMap_congr fun k hk => on_log_other ?_
  have := List.mem_range.1 hk
  omega

/-- An event of the last connection. -/
theorem trace_log {conn : Nat} (h : w.trace = (List.range (conn + 1)).flatMap w.on) (he : e.conn = conn) :
    (w.log e).trace = (List.range (conn + 1)).flatMap (w.log e).on := by
  rw [List.range_succ, List.flatMap_append, List.flatMap_singleton] at h ⊢
  rw [earlier_log (Nat.le_of_eq he.symm), on_log, if_pos he, ← List.append_assoc, ← h]
  rfl

theorem Holds.opened (h : Holds w) (hconn : w.conn = none) (hrun : w.phase = .running) :
    Holds { w.log (.opened w.next) with conn := some w.next, next := w.next + 1 } := by
  have hnew : (w.log (.opened w.next)).on w.next = [.opened w.next] := by simp [on_log, h.on_next, Event.conn]
  constructor
  case lives =>
    intro conn hlt
    rcases Nat.lt_succ_iff_lt_or_eq.1 hlt with hlt | rfl
    · obtain ⟨samples, ending, hlife, hending⟩ := h.lives conn hlt
      have hne : w.next ≠ conn := by omega
      have hother : (w.log (.opened w.next)).on conn = w.on conn := on_log_other hne
      exact ⟨samples, ending, hother.trans hlife, by simp [hending, hconn, hne]⟩
    · exact ⟨[], .still, hnew, by simp⟩
  case trace =>
    have hearlier : (List.range w.next).flatMap (w.log (.opened w.next)).on = (List.range w.next).flatMap w.on :=
      earlier_log (Nat.le_refl _)
    change (w.log (.opened w.next)).trace = (List.range (w.next + 1)).flatMap (w.log (.opened w.next)).on
    rw [List.range_succ, List.flatMap_append, List.flatMap_singleton, hearlier, hnew, ← h.trace]
    rfl
  case stopped => exact fun hphase => absurd hrun hphase
  case last =>
    intro conn hsome
    cases hsome
    rfl

theorem Holds.phase (h : Holds w) (hconn : w.conn = none) (phase : Phase) : Holds { w with phase := phase } :=
  ⟨h.lives, h.trace, fun _ => hconn, h.last⟩

theorem Holds.dial (h : Holds w) (hconn : w.conn = none) (hrun : w.phase = .running) (attempts : List Attempt) :
    Holds (w.dial attempts) := by
  unfold Watcher.dial
  cases dialRetry attempts with
  | connected => exact h.opened hconn hrun
  | unreachable => exact h.phase hconn _
  | cancelled => exact h.phase hconn _
  | dialing => exact h.phase hconn _

/-- The current connection's life, and what an event adds to it. -/
theorem Holds.current (h : Holds w) {conn : Nat} (hconn : w.conn = some conn) :
    ∃ samples, w.on conn = life conn samples .still := by
  obtain ⟨samples, ending, hlife, hending⟩ := h.lives conn (by have := h.last conn hconn; omega)
  cases hending.2 hconn
  exact ⟨samples, hlife⟩

theorem Holds.others (h : Holds w) {conn k : Nat} (hconn : w.conn = some conn) (hk : k < w.next) (hne : k ≠ conn) :
    ∃ samples ending, w.on k = life k samples ending ∧ ending ≠ .still := by
  obtain ⟨samples, ending, hlife, hending⟩ := h.lives k hk
  refine ⟨samples, ending, hlife, fun hstill => ?_⟩
  exact hne (Option.some.inj ((hending.1 hstill).symm.trans hconn))

theorem Holds.sent (h : Holds w) {conn : Nat} (hconn : w.conn = some conn) (s : Sample) :
    Holds (w.log (.sent conn s)) := by
  have hlast := h.last conn hconn
  constructor
  case lives =>
    intro k hk
    by_cases hne : k = conn
    · subst hne
      obtain ⟨samples, hlife⟩ := h.current hconn
      refine ⟨samples ++ [s], .still, ?_, by simp [log, hconn]⟩
      simp [on_log, hlife, life, Ending.events, Event.conn]
    · obtain ⟨samples, ending, hlife, hending⟩ := h.lives k hk
      have hother : (w.log (.sent conn s)).on k = w.on k := on_log_other (Ne.symm hne)
      exact ⟨samples, ending, hother.trans hlife, hending⟩
  case trace =>
    have htrace := h.trace
    rw [hlast] at htrace
    change _ = (List.range w.next).flatMap _
    rw [hlast]
    exact trace_log htrace rfl
  case stopped => exact h.stopped
  case last => exact h.last

theorem events_conn (conn : Nat) (ending : Ending) : ∀ e ∈ ending.events conn, e.conn = conn := by
  cases ending <;> simp [Ending.events, Event.conn]

/-- The current connection ends. -/
theorem Holds.ended (h : Holds w) {conn : Nat} (hconn : w.conn = some conn) (ending : Ending)
    (hending : ending ≠ .still) {w' : Watcher} (htrace : w'.trace = w.trace ++ ending.events conn)
    (hnone : w'.conn = none) (hnext : w'.next = w.next) : Holds w' := by
  have hlast := h.last conn hconn
  have hself : w'.on conn = w.on conn ++ ending.events conn := by
    rw [on, htrace, List.filter_append, ← on]
    exact congrArg _ (List.filter_eq_self.2 fun e he => by simp [events_conn conn ending e he])
  have hothers : ∀ k ≠ conn, w'.on k = w.on k := by
    intro k hk
    rw [on, htrace, List.filter_append, ← on, List.append_right_eq_self, List.filter_eq_nil_iff]
    exact fun e he => by simp [events_conn conn ending e he, Ne.symm hk]
  constructor
  case lives =>
    intro k hk
    by_cases hne : k = conn
    · subst hne
      obtain ⟨samples, hlife⟩ := h.current hconn
      refine ⟨samples, ending, ?_, by simp [hending, hnone]⟩
      simp [hself, hlife, life, Ending.events]
    · rw [hnext] at hk
      obtain ⟨samples, ending', hlife, hstill⟩ := h.others hconn hk hne
      exact ⟨samples, ending', (hothers k hne).trans hlife, by simp [hstill, hnone]⟩
  case trace =>
    have hearlier : (List.range conn).flatMap w'.on = (List.range conn).flatMap w.on := by
      refine List.flatMap_congr fun k hk => hothers k ?_
      have := List.mem_range.1 hk
      omega
    rw [hnext, htrace, h.trace, hlast, List.range_succ, List.flatMap_append, List.flatMap_append, List.flatMap_singleton,
      List.flatMap_singleton, hearlier, hself, List.append_assoc]
  case stopped => exact fun _ => hnone
  case last => simp [hnone]

theorem Holds.close (h : Holds w) {conn : Nat} (hconn : w.conn = some conn) (phase : Phase) :
    Holds { w.close conn with phase := phase } :=
  h.ended hconn .closed (by decide) rfl rfl rfl

theorem Holds.torn (h : Holds w) {conn : Nat} (hconn : w.conn = some conn) (s : Sample) (bytes : Nat) :
    Holds ((w.log (.torn conn s bytes)).close conn) :=
  h.ended hconn (.torn s bytes) (by simp) (List.append_assoc ..) rfl rfl

theorem Holds.poll (h : Holds w) (p : Poll) : Holds (w.poll idleThresholdSeconds p) := by
  unfold Watcher.poll
  split
  · exact h
  · next conn hconn =>
    split
    · exact h
    · split
      · exact h.sent hconn _
      · exact h.torn hconn _ _

theorem Holds.turn (h : Holds w) (t : Turn) : Holds (w.turn idleThresholdSeconds t) := by
  unfold Watcher.turn
  split
  · exact h
  · next hrun =>
    rw [not_not] at hrun
    cases t with
    | done =>
      dsimp only
      split
      · next hconn => exact h.close hconn _
      · next hconn => exact h.phase hconn _
    | tick attempts p =>
      dsimp only
      split
      · exact h.poll p
      · next hconn => exact (h.dial (by simpa using hconn) hrun attempts).poll p

theorem holds_run (attempts : List Attempt) (turns : List Turn) : Holds (run idleThresholdSeconds attempts turns) := by
  have hstart : Holds (Watcher.dial {} attempts) := by
    refine Holds.dial ⟨?_, rfl, fun _ => rfl, ?_⟩ rfl rfl attempts
    · exact fun conn hlt => absurd hlt (Nat.not_lt_zero conn)
    · exact fun conn hconn => by cases hconn
  rw [run]
  induction turns using List.reverseRecOn with
  | nil => exact hstart
  | append_singleton turns t ih =>
    rw [List.foldl_concat]
    exact ih.turn t

/-! ## One sample a tick -/

/-- The samples of the ticks are taken, all of them as long as the loop turns. -/
structure Takes (w : Watcher) (samples : List Sample) : Prop where
  prefixed : w.taken <+: samples
  running : w.phase = .running → w.taken = samples

theorem Takes.stopped {samples more : List Sample} (h : Takes w samples) {w' : Watcher} (htaken : w'.taken = w.taken)
    (hstop : w'.phase ≠ .running) : Takes w' (samples ++ more) where
  prefixed := htaken ▸ h.prefixed.trans (List.prefix_append _ _)
  running := fun hrun => absurd hrun hstop

theorem Takes.poll {samples : List Sample} (h : Takes w samples) (hrun : w.phase = .running) {conn : Nat}
    (hconn : w.conn = some conn) (attempts : List Attempt) (p : Poll) :
    Takes (w.poll idleThresholdSeconds p) (samples ++ ((Turn.tick attempts p).sample idleThresholdSeconds).toList) := by
  have htaken : (w.poll idleThresholdSeconds p).taken =
      w.taken ++ ((Turn.tick attempts p).sample idleThresholdSeconds).toList := by
    simp only [Watcher.poll, hconn, Turn.sample]
    by_cases hown : p.own = some p.console
    · rw [if_neg (not_not.2 hown), if_pos hown]
      split <;> simp [taken, log, Watcher.close, Event.sample]
    · rw [if_pos hown, if_neg hown, Option.toList_none, List.append_nil]
  rw [h.running hrun] at htaken
  exact ⟨htaken ▸ List.prefix_refl _, fun _ => htaken⟩

theorem Takes.turn {samples : List Sample} (h : Takes w samples) (t : Turn) :
    Takes (w.turn idleThresholdSeconds t) (samples ++ (t.sample idleThresholdSeconds).toList) := by
  unfold Watcher.turn
  split
  · next hstop => exact h.stopped rfl hstop
  · next hrun =>
    rw [not_not] at hrun
    cases t with
    | done =>
      dsimp only
      split
      · exact h.stopped (by simp [taken, log, Watcher.close, Event.sample]) (by simp)
      · exact h.stopped rfl (by simp)
    | tick attempts p =>
      dsimp only
      split
      · next hconn =>
        obtain ⟨conn, hconn⟩ := Option.isSome_iff_exists.1 hconn
        exact h.poll hrun hconn attempts p
      · next hconn =>
        have hnone : w.conn = none := by simpa using hconn
        have hstop : ∀ phase ≠ Phase.running, Takes (Watcher.poll idleThresholdSeconds { w with phase := phase } p)
            (samples ++ ((Turn.tick attempts p).sample idleThresholdSeconds).toList) := by
          intro phase hphase
          have hidle : Watcher.poll idleThresholdSeconds { w with phase := phase } p = { w with phase := phase } := by
            simp [Watcher.poll, hnone]
          rw [hidle]
          exact h.stopped rfl hphase
        unfold Watcher.dial
        cases dialRetry attempts with
        | connected =>
          have hopened : { w.log (.opened w.next) with conn := some w.next, next := w.next + 1 }.taken = w.taken := by
            simp [taken, log, Event.sample]
          exact Takes.poll ⟨hopened ▸ h.prefixed, fun _ => hopened.trans (h.running hrun)⟩ hrun rfl attempts p
        | unreachable => exact hstop _ (by simp)
        | cancelled => exact hstop _ (by simp)
        | dialing => exact hstop _ (by simp)

theorem takes_run (attempts : List Attempt) (turns : List Turn) :
    Takes (run idleThresholdSeconds attempts turns) (turns.filterMap (Turn.sample idleThresholdSeconds)) := by
  rw [run]
  induction turns using List.reverseRecOn with
  | nil =>
    have hnone : (Watcher.dial {} attempts).taken = [] := by
      unfold Watcher.dial
      cases dialRetry attempts <;> rfl
    exact ⟨hnone ▸ List.prefix_refl _, fun _ => hnone⟩
  | append_singleton turns t ih =>
    rw [List.foldl_concat, List.filterMap_append]
    have hone : [t].filterMap (Turn.sample idleThresholdSeconds) = (t.sample idleThresholdSeconds).toList := by
      cases h : t.sample idleThresholdSeconds <;> simp [h]
    rw [hone]
    exact ih.turn t

/-! ## What the service reads -/

theorem length_quoteBody_runes (app : Bytes) : (quoteBody app).length ≤ 6 * (runes app).length := by
  rw [quoteBody]
  induction runes app with
  | nil => exact Nat.le_refl _
  | cons r rs ih =>
    have hr := length_escapeRune_le r
    rw [List.flatMap_cons, List.length_append, List.length_cons]
    omega

/-- A name as long as a path may be, `MAX_PATH`. -/
def Fits (s : Sample) : Prop := (runes s.app).length ≤ 260

instance : DecidablePred Fits := fun s => inferInstanceAs (Decidable ((runes s.app).length ≤ 260))

theorem Fits.length {s : Sample} (h : Fits s) : s.marshal.length < clientBuffer := by
  have happ : (runes s.app).length ≤ 260 := h
  have hbody := length_quoteBody_runes s.app
  have hbool : (writeBool s.active).length ≤ 5 := by cases s.active <;> decide
  have hkeys : (quote (str "app")).length = 5 ∧ (quote (str "active")).length = 8 := by decide +kernel
  have hbuffer : clientBuffer = 4096 := rfl
  simp only [Sample.marshal, writeObject, List.map_cons, List.map_nil, writeMember, joinWith, List.length_append,
    List.length_cons, List.length_nil, length_quote s.app, hkeys]
  omega

theorem accepted_marshal (s : Sample) : accepted s.marshal = if s.app = [] then none else some s.sanitize := by
  by_cases happ : s.app = []
  · have hempty : (toValid s.app) = [] := by rw [happ]; rfl
    have hread : decodeSample s.marshal = .error .noApp := by
      rw [decodeSample, if_neg s.marshal_ne_nil, Sample.unmarshal_marshal]
      exact if_pos hempty
    rw [if_pos happ, accepted, hread]
    rfl
  · rw [if_neg happ, accepted, decode_encode s happ]
    rfl

/-- A part of a line is no sample, be it all of it but a byte. -/
theorem accepted_take {s : Sample} {n : Nat} (hlt : n < s.marshal.length) : accepted (s.marshal.take n) = none := by
  by_cases hnil : s.marshal.take n = []
  · rw [hnil]
    rfl
  · have hrest : s.marshal.drop n ≠ [] := by
      rw [ne_eq, List.drop_eq_nil_iff]
      omega
    have hjson : Json.unmarshal (s.marshal.take n) = none :=
      s.objectText_marshal.unmarshal_torn (List.take_append_drop n _).symm hnil hrest
    rw [accepted, decodeSample, if_neg hnil, Sample.unmarshal, hjson]
    rfl

theorem newline_marshal (s : Sample) : newline ∉ s.marshal := by
  intro hmem
  have hprintable : ∀ c ∈ s.marshal, 0x20 ≤ c := by
    refine printable_writeObject ?_
    simp only [List.forall_mem_cons]
    exact ⟨printable_quote _, printable_writeBool _, by simp⟩
  exact absurd (hprintable _ hmem) (by decide)

/-- What is read of the samples written. -/
def readBack (samples : List Sample) : List Sample := (samples.filter (·.app ≠ [])).map Sample.sanitize

theorem readBack_eq (samples : List Sample) : (samples.map Sample.marshal).filterMap accepted = readBack samples := by
  induction samples with
  | nil => rfl
  | cons s samples ih =>
    rw [List.map_cons, List.filterMap_cons, ih, accepted_marshal, readBack]
    by_cases happ : s.app = []
    · simp [happ, readBack]
    · simp [happ, readBack]

def Ending.bytes : Ending → Bytes
  | torn s bytes => s.encode.take bytes
  | _ => []

theorem bytes_life (conn : Nat) (samples : List Sample) (ending : Ending) :
    (life conn samples ending).flatMap Event.bytes = encodeLines (samples.map Sample.marshal) ++ ending.bytes := by
  have hending : (ending.events conn).flatMap Event.bytes = ending.bytes := by
    cases ending <;> simp [Ending.events, Event.bytes, Ending.bytes]
  have hsent : (samples.map (Event.sent conn)).flatMap Event.bytes = encodeLines (samples.map Sample.marshal) := by
    simp [encodeLines, List.flatMap_map, Event.bytes, Sample.encode]
  rw [life, List.flatMap_cons, List.flatMap_append, hsent, hending]
  rfl

/-- The line that was cut short, if anything of it was written. -/
theorem textLines_ending (ending : Ending) : (textLines ending.bytes).filterMap accepted = readBack ending.samples ∧
    ∀ line ∈ textLines ending.bytes, ∃ s bytes, ending = .torn s bytes ∧ line.length ≤ s.marshal.length := by
  cases ending with
  | still => simp [Ending.bytes, Ending.samples, readBack]
  | closed => simp [Ending.bytes, Ending.samples, readBack]
  | torn s n =>
    have hone : [s.marshal].filterMap accepted = readBack [s] := readBack_eq [s]
    simp only [Ending.bytes, Ending.samples]
    rcases Nat.lt_trichotomy n s.marshal.length with hlt | rfl | hgt
    · have htake : s.encode.take n = s.marshal.take n := List.take_append_of_le_length (Nat.le_of_lt hlt)
      rw [htake, if_neg (Nat.not_le.2 hlt)]
      by_cases hnil : s.marshal.take n = []
      · simp [hnil, readBack]
      · have hline : newline ∉ s.marshal.take n := fun hmem => newline_marshal s (List.mem_of_mem_take hmem)
        rw [textLines_rest hnil hline]
        refine ⟨by simp [accepted_take hlt, readBack], ?_⟩
        simp only [List.mem_singleton, forall_eq]
        exact ⟨s, n, rfl, by simp⟩
    · have htake : s.encode.take s.marshal.length = s.marshal := List.take_left
      rw [htake, if_pos (Nat.le_refl _), textLines_rest s.marshal_ne_nil (newline_marshal s)]
      exact ⟨hone, by simp⟩
    · have htake : s.encode.take n = s.encode := List.take_of_length_le (by simp [Sample.encode]; omega)
      rw [htake, if_pos (Nat.le_of_lt hgt), Sample.encode, textLines_line (newline_marshal s), textLines_nil]
      exact ⟨hone, by simp⟩

end Watcher

/-- The sample of a line that was read, published or not. -/
def Handled.read : Handled → Option Sample
  | published s | dropped s => some s
  | skipped _ => none

theorem handleLine_read (room : Bool) (line : Bytes) : (handleLine room line).read = accepted line := by
  rw [handleLine, accepted]
  cases decodeSample line <;> cases room <;> rfl

/-- A text in whatever pieces. -/
theorem readClient_text (room : Nat → Bool) {chunks : List Bytes} (hread : [] ∉ chunks)
    (hfits : ∀ line ∈ textLines chunks.flatten, line.length < clientBuffer) :
    (readClient room chunks).filterMap Handled.read = (textLines chunks.flatten).filterMap accepted := by
  have hscan : scanChunks clientBuffer 0 [] chunks = fitting clientBuffer (textLines chunks.flatten) := by
    rw [scanChunks_eq (by decide) (by decide) hread, List.nil_append]
  have htake : (textLines chunks.flatten).takeWhile (·.length < clientBuffer) = textLines chunks.flatten :=
    List.takeWhile_eq_self_iff.2 fun line hline => decide_eq_true (hfits line hline)
  have hhandled : ∀ tokens : List Bytes, (tokens.mapIdx fun i line => handleLine (room i) line).map Handled.read =
      tokens.map accepted := by
    intro tokens
    refine List.ext_getElem? fun i => ?_
    rw [List.getElem?_map, List.getElem?_mapIdx, Option.map_map, List.getElem?_map]
    exact congrArg (Option.map · tokens[i]?) (funext fun line => handleLine_read _ line)
  have hread := congrArg (List.filterMap id) (hhandled ((textLines chunks.flatten).map dropCR))
  rw [List.filterMap_map, List.filterMap_map, List.filterMap_map] at hread
  rw [readClient, hscan, fitting, htake]
  refine hread.trans (congrArg (List.filterMap · _) (funext fun line => ?_))
  exact accepted_dropCR line

variable {idleThresholdSeconds : Int}

/-- **What a watcher takes and the service reads**: a sample for every tick in the
console session, on one connection after the other, and every one of a connection
read but perhaps the last, whose write failed. -/
theorem watcher_read_back (attempts : List Attempt) (turns : List Turn)
    (hfits : ∀ t ∈ turns, ∀ s, t.sample idleThresholdSeconds = some s → Fits s) :
    let w := Watcher.run idleThresholdSeconds attempts turns
    (w.taken <+: turns.filterMap (Turn.sample idleThresholdSeconds) ∧
        (w.phase = .running → w.taken = turns.filterMap (Turn.sample idleThresholdSeconds))) ∧
      (w.phase ≠ .running → w.conn = none) ∧ w.trace = (List.range w.next).flatMap w.on ∧
      ∀ conn < w.next, ∃ samples ending, w.on conn = life conn samples ending ∧ (ending = .still ↔ w.conn = some conn) ∧
        ∀ room chunks, [] ∉ chunks → chunks.flatten = w.bytes conn →
          (readClient room chunks).filterMap Handled.read = readBack (samples ++ ending.samples) := by
  intro w
  have hholds : Holds w := holds_run attempts turns
  have htakes : Takes w (turns.filterMap (Turn.sample idleThresholdSeconds)) := takes_run attempts turns
  have hshort : ∀ s ∈ w.taken, s.marshal.length < clientBuffer := by
    intro s hs
    obtain ⟨t, ht, hsample⟩ := List.mem_filterMap.1 (htakes.prefixed.subset hs)
    exact (hfits t ht s hsample).length
  refine ⟨⟨htakes.prefixed, htakes.running⟩, hholds.stopped, hholds.trace, fun conn hconn => ?_⟩
  obtain ⟨samples, ending, hlife, hending⟩ := hholds.lives conn hconn
  refine ⟨samples, ending, hlife, hending, fun room chunks hread hchunks => ?_⟩
  have htaken : ∀ e ∈ life conn samples ending, ∀ s, e.sample = some s → s ∈ w.taken := by
    intro e he s hs
    rw [← hlife] at he
    exact List.mem_filterMap.2 ⟨e, List.mem_of_mem_filter he, hs⟩
  have hlines : ∀ line ∈ samples.map Sample.marshal, newline ∉ line := by
    simp [newline_marshal]
  have htext : textLines chunks.flatten = samples.map Sample.marshal ++ textLines ending.bytes := by
    rw [hchunks, Watcher.bytes, hlife, bytes_life, textLines_encode_append hlines]
  obtain ⟨hlast, hcut⟩ := textLines_ending ending
  rw [readClient_text room hread, htext, List.filterMap_append, readBack_eq, hlast]
  · simp [readBack]
  · intro line hline
    rw [htext, List.mem_append] at hline
    rcases hline with hline | hline
    · obtain ⟨s, hs, rfl⟩ := List.mem_map.1 hline
      exact hshort s (htaken (.sent conn s) (by simp [life, hs]) s rfl)
    · obtain ⟨s, bytes, rfl, hle⟩ := hcut line hline
      have := hshort s (htaken (.torn conn s bytes) (by simp [life, Ending.events]) s rfl)
      omega

/-- A tick in session 1, two seconds after the last input, at which the count of ticks wrapped around. -/
def somePoll (torn : Option Nat) : Poll where
  own := some 1
  console := 1
  image := some (str "C:\\Office\\word.exe")
  nowTick := 1000
  lastInputTick := some 0xFFFFFC18
  torn := torn

/-- A sample, a tick in another session, a write cut short, and a sample on the next connection. -/
def someTurns : List Turn :=
  [.tick [] (somePoll none), .tick [] { somePoll none with console := 2 }, .tick [] (somePoll (some 5)),
    .tick [⟨false, false, false⟩, ⟨true, false, false⟩] (somePoll none), .done]

theorem watcher_read_back_cut_short :
    let w := Watcher.run 60 [⟨true, false, false⟩] someTurns
    w.taken = [someSample, someSample, someSample] ∧ w.conn = none ∧ w.bytes 0 = someSample.encode ++ str "\x7b\"app" ∧
      ∀ conn < 2, ∃ samples ending, w.on conn = life conn samples ending ∧
        (readClient (fun _ => true) [w.bytes conn]).filterMap Handled.read = readBack (samples ++ ending.samples) := by
  intro w
  have hfits : ∀ t ∈ someTurns, ∀ s, t.sample 60 = some s → Fits s := by
    have hall : (someTurns.all fun t => (t.sample 60).all (Fits ·)) = true := by decide +kernel
    intro t ht s hs
    have hone := List.all_eq_true.1 hall t ht
    rw [hs] at hone
    exact of_decide_eq_true hone
  have hbytes : w.bytes 0 = someSample.encode ++ str "\x7b\"app" := by decide +kernel
  have hnext : w.next = 2 := by decide +kernel
  have hne : ∀ conn < 2, w.bytes conn ≠ [] := by decide +kernel
  obtain ⟨-, hstopped, -, hlives⟩ := watcher_read_back [⟨true, false, false⟩] someTurns hfits
  refine ⟨by decide +kernel, hstopped (by decide +kernel), hbytes, fun conn hconn => ?_⟩
  obtain ⟨samples, ending, hlife, -, hread⟩ := hlives conn (by rw [hnext]; exact hconn)
  exact ⟨samples, ending, hlife, hread _ _ (by simpa using (hne conn hconn).symm) (List.flatten_singleton)⟩

end ScrewLogger
