/-
The dashboard's hourly timeline (`web/app.js`) and the server's dwell model.

The page asks for at most `eventsLimit` events and adds up the gaps between
them, hour by hour. `timeline_agrees_iff`: for one device the hours add up to the
active ratio just if what the limit cuts off makes no difference. `timeline_cut`
is a window with one event more than the limit.
-/
import ScrewLogger.Server.Dwell

namespace ScrewLogger
open Lib Lib.Eff

/-- `MAX_GAP`. -/
def maxGap : Int := 30

/-- The limit in the page's request for events. -/
def eventsLimit : Int := 10000

/-- The dwell seconds of an hour. -/
structure HourBucket where
  active : Int := 0
  idle : Int := 0
  deriving DecidableEq

/-- The hours with an event. What the page shows does not depend on their order. -/
abbrev Hours : Type := List (Int × HourBucket)

/-- The start of the hour. -/
def hourKey (ts : Int) : Int := ts / 3600 * 3600

/-- The gap from an event to a time. -/
def gapTo (ts : Int) (ev : EventRow) : Int :=
  let gap := min (ts - ev.ts) maxGap
  if gap < 0 then 0 else gap

def addGap (ev : EventRow) (gap : Int) (hours : Hours) : Hours :=
  let key := hourKey ev.ts
  let b := (hours.lookup key).getD {}
  let b := if ev.active then { b with active := b.active + gap } else { b with idle := b.idle + gap }
  (key, b) :: hours.filter (·.1 != key)

/-- The loop of `bucketByHour`. The page's numbers are exact up to 2⁵³. -/
def bucketByHourFrom («to» : Int) : List EventRow → Hours → Hours
  | [], hours => hours
  | [ev], hours => addGap ev (gapTo «to» ev) hours
  | ev :: next :: events, hours => bucketByHourFrom «to» (next :: events) (addGap ev (gapTo next.ts ev) hours)

/-- Buckets the events by hour into active and idle seconds. -/
def bucketByHour (events : List EventRow) («to» : Int) : Hours := bucketByHourFrom «to» events []

/-- The active seconds of all hours. -/
def activeTotal (hours : Hours) : Int := (hours.map (·.2.active)).sum

/-- The idle ones. -/
def idleTotal (hours : Hours) : Int := (hours.map (·.2.idle)).sum

/-! ## What the hours add up to -/

variable {hours : Hours} {ev : EventRow} {gap lo hi : Int}

/-- No hour is there twice. -/
def OncePerHour (hours : Hours) : Prop := (hours.map (·.1)).Nodup

theorem lookup_cons_of_ne {k : Int} {x : Int × HourBucket} (h : x.1 ≠ k) :
    List.lookup k (x :: hours) = hours.lookup k := by
  rw [List.lookup_cons, beq_false_of_ne (Ne.symm h)]

/-- What an hour had, and what the others have. -/
theorem sum_lookup {f : HourBucket → Int} (hf : f {} = 0) (k : Int) : ∀ {hours : Hours}, OncePerHour hours →
    f ((hours.lookup k).getD {}) + ((hours.filter (·.1 != k)).map (f ·.2)).sum = (hours.map (f ·.2)).sum
  | [], _ => by
    simpa using hf
  | x :: hours, h => by
    obtain ⟨hnew, hrest⟩ := List.nodup_cons.1 h
    by_cases hk : x.1 = k
    · subst hk
      have hothers : hours.filter (fun y => y.1 != x.1) = hours := by
        refine List.filter_eq_self.2 fun y hy => bne_iff_ne.2 fun heq => ?_
        have hmem : y.1 ∈ hours.map (·.1) := List.mem_map_of_mem hy
        rw [heq] at hmem
        exact hnew hmem
      rw [List.lookup_cons, beq_self_eq_true, List.filter_cons_of_neg (by simp), hothers]
      rfl
    · have ih := sum_lookup hf k hrest
      rw [lookup_cons_of_ne hk, List.filter_cons_of_pos (by simpa using hk), List.map_cons, List.map_cons,
        List.sum_cons, List.sum_cons]
      omega

theorem oncePerHour_addGap (h : OncePerHour hours) : OncePerHour (addGap ev gap hours) := by
  refine List.nodup_cons.2 ⟨fun hmem => ?_, h.sublist (List.filter_sublist.map _)⟩
  obtain ⟨x, hx, heq⟩ := List.mem_map.1 hmem
  exact bne_iff_ne.1 (List.mem_filter.1 hx).2 heq

theorem activeTotal_addGap (h : OncePerHour hours) :
    activeTotal (addGap ev gap hours) = activeTotal hours + if ev.active then gap else 0 := by
  have hsum := @sum_lookup HourBucket.active rfl (hourKey ev.ts) hours h
  simp only [activeTotal, addGap, List.map_cons, List.sum_cons]
  cases ev.active
  · simp only [Bool.false_eq_true, if_false]
    omega
  · simp only [if_true]
    omega

theorem idleTotal_addGap (h : OncePerHour hours) :
    idleTotal (addGap ev gap hours) = idleTotal hours + if ev.active then 0 else gap := by
  have hsum := @sum_lookup HourBucket.idle rfl (hourKey ev.ts) hours h
  simp only [idleTotal, addGap, List.map_cons, List.sum_cons]
  cases ev.active
  · simp only [Bool.false_eq_true, if_false]
    omega
  · simp only [if_true]
    omega

/-- In a window's order a gap is the span of the server's model. -/
theorem gapTo_eq_span {events : List EventRow} (h : InOrder EventRow.ts hi (ev :: events)) :
    gapTo ((events.head?.map EventRow.ts).getD hi) ev =
      span EventRow.ts maxHeartbeatGap hi (ev, events.head?.map EventRow.ts) := by
  have hnext := h.le_next
  have hcap : maxHeartbeatGap = 30 := rfl
  rw [h.span_eq, gapTo, maxGap]
  split <;> omega

/-- **The loop**: each round adds an event's span to one hour. -/
theorem bucketByHourFrom_totals : ∀ {events : List EventRow} {hours : Hours}, InOrder EventRow.ts hi events →
    OncePerHour hours →
    activeTotal (bucketByHourFrom hi events hours) =
        activeTotal hours + spanSum EventRow.ts maxHeartbeatGap hi EventRow.active events ∧
      idleTotal (bucketByHourFrom hi events hours) =
        idleTotal hours + spanSum EventRow.ts maxHeartbeatGap hi (fun ev => !ev.active) events
  | [], hours, _, _ => ⟨(Int.add_zero _).symm, (Int.add_zero _).symm⟩
  | [ev], hours, h, honce => by
    have hgap := gapTo_eq_span h
    rw [List.head?_nil, Option.map_none, Option.getD_none] at hgap
    rw [bucketByHourFrom, activeTotal_addGap honce, idleTotal_addGap honce, hgap, spanSum_cons, spanSum_cons,
      List.head?_nil, Option.map_none]
    cases ev.active <;> exact ⟨by simp [spanSum, lead], by simp [spanSum, lead]⟩
  | ev :: next :: events, hours, h, honce => by
    have hgap := gapTo_eq_span h
    rw [List.head?_cons, Option.map_some, Option.getD_some] at hgap
    obtain ⟨hactive, hidle⟩ := bucketByHourFrom_totals h.tail (@oncePerHour_addGap hours ev (gapTo next.ts ev) honce)
    rw [bucketByHourFrom, hactive, hidle, activeTotal_addGap honce, idleTotal_addGap honce, hgap,
      spanSum_cons (a := ev), spanSum_cons (a := ev), List.head?_cons, Option.map_some]
    cases ev.active
    · simp only [Bool.false_eq_true, if_false, Bool.not_false, if_true]
      exact ⟨by omega, by omega⟩
    · simp only [Bool.not_true, Bool.false_eq_true, if_false, if_true]
      exact ⟨by omega, by omega⟩

/-! ## The two models -/

variable (host : Host) {db : Database} {deviceID : Bytes}

/-- The window's heartbeats of a device, by time. -/
def Database.inWindow (host : Host) (db : Database) (deviceID : Bytes) (lo hi : Int) : List HeartbeatRow :=
  (host.orderBy HeartbeatRow.ts).sort (db.rng deviceID lo hi)

theorem inOrder_inWindow : InOrder HeartbeatRow.ts hi (db.inWindow host deviceID lo hi) := by
  refine ⟨(host.orderBy _).sorted _, fun h hh => ?_⟩
  exact (Database.mem_rng.1 ((OrderBy.mem_sort _).1 hh)).2.1.2

/-- One device's dwell seconds are the spans of its heartbeats. -/
theorem dwellOf_eq_spanSum (hd : deviceID ≠ []) (P : HeartbeatRow → Bool) :
    Database.dwellOf P (db.dwell host deviceID lo hi) =
      spanSum HeartbeatRow.ts maxHeartbeatGap hi P (db.inWindow host deviceID lo hi) := by
  have hown : ∀ h ∈ db.rng deviceID lo hi, h.deviceId = deviceID := by
    intro h hh
    have hof := (Database.mem_rng.1 hh).2.2
    simpa [ofDevice, hd] using hof
  have hall : (db.rng deviceID lo hi).filter (·.deviceId == deviceID) = db.rng deviceID lo hi :=
    List.filter_eq_self.2 fun h hh => beq_iff_eq.2 (hown h hh)
  have hdwell : Database.dwellOf P (db.dwell host deviceID lo hi) =
      (((Database.paired host (db.rng deviceID lo hi)).filter (P ·.1)).map
        (span HeartbeatRow.ts maxHeartbeatGap hi)).sum := Database.dwellOf_map
  have hpaired : Database.paired host (db.rng deviceID lo hi) =
    lead HeartbeatRow.ts (db.inWindow host deviceID lo hi) := by
    unfold Database.paired Database.inWindow
    rcases @Database.reported_device db deviceID lo hi hd with hone | ⟨hnone, -⟩
    · have hdevices : ((db.rng deviceID lo hi).map (·.deviceId)).dedup = [deviceID] := hone
      rw [hdevices, List.flatMap_singleton, hall]
    · have hdevices : ((db.rng deviceID lo hi).map (·.deviceId)).dedup = [] := hnone
      have hempty : db.rng deviceID lo hi = [] := by
        refine List.eq_nil_iff_forall_not_mem.2 fun h hh => ?_
        have hmem := List.mem_dedup.2 (List.mem_map_of_mem (f := (·.deviceId)) hh)
        rw [hdevices] at hmem
        cases hmem
      rw [hdevices, hempty, List.perm_nil.1 ((host.orderBy HeartbeatRow.ts).perm [])]
      rfl
  rw [hdwell, hpaired]
  rfl

/-- What follows the limit makes no difference to the event `e` before it: it
ends soon enough or comes in the same second, and whatever of it is given time
is active or idle as `e` is. -/
structure TailHarmless (hi : Int) (e : HeartbeatRow) (rest : List HeartbeatRow) : Prop where
  close : hi - e.ts ≤ maxHeartbeatGap ∨ ∀ r ∈ rest, r.ts = e.ts
  alike : ∀ p ∈ lead HeartbeatRow.ts (e :: rest), p.1.ts < p.2.getD hi → p.1.active = e.active

/-- **Cut off** after `n` events, the sums are the same just if the rest is harmless. -/
theorem cut_iff {l : List HeartbeatRow} (h : InOrder HeartbeatRow.ts hi l) (n : Nat) :
    (spanSum HeartbeatRow.ts maxHeartbeatGap hi HeartbeatRow.active (l.take (n + 1)) =
        spanSum HeartbeatRow.ts maxHeartbeatGap hi HeartbeatRow.active l ∧
      spanSum HeartbeatRow.ts maxHeartbeatGap hi (fun h => !h.active) (l.take (n + 1)) =
        spanSum HeartbeatRow.ts maxHeartbeatGap hi (fun h => !h.active) l) ↔
      ∀ e rest, l.drop n = e :: rest → TailHarmless hi e rest := by
  have hsplit : l = l.take n ++ l.drop n := (List.take_append_drop n l).symm
  cases hrest : l.drop n with
  | nil =>
    have htake : l.take (n + 1) = l := List.take_of_length_le (by
      have := List.drop_eq_nil_iff.1 hrest
      omega)
    rw [htake]
    exact iff_of_true ⟨rfl, rfl⟩ fun e rest heq => by cases heq
  | cons e rest =>
    have htake : l.take (n + 1) = l.take n ++ [e] := by
      rw [List.take_add, hrest, List.take_succ_cons, List.take_zero]
    have hcut : InOrder HeartbeatRow.ts hi (e :: rest) := by
      rw [← hrest]
      exact ⟨h.1.sublist (List.drop_sublist n l), fun a ha => h.2 a (List.mem_of_mem_drop ha)⟩
    have happend (P : HeartbeatRow → Bool) := @spanSum_append _ HeartbeatRow.ts maxHeartbeatGap hi P e rest (l.take n)
    have hactive := happend HeartbeatRow.active
    have hidle := happend fun h => !h.active
    rw [← hrest, ← hsplit, hrest, ← htake] at hactive hidle
    have hiff := @InOrder.cut_iff _ HeartbeatRow.ts maxHeartbeatGap hi HeartbeatRow.active e rest (by decide) hcut
    constructor
    · intro heq e' rest' hcons
      cases hcons
      obtain ⟨hclose, halike⟩ := hiff.1 ⟨by omega, by omega⟩
      exact ⟨hclose, halike⟩
    · intro hharmless
      have hharmless := hharmless e rest rfl
      obtain ⟨hactive', hidle'⟩ := hiff.2 ⟨hharmless.close, hharmless.alike⟩
      exact ⟨by omega, by omega⟩

/-- What the page adds up, and what the server does. -/
theorem totals_eq (hd : deviceID ≠ []) : ∃ events ratio,
    Store.answer (Store.listEvents host deviceID lo hi eventsLimit) db = .ok events ∧
      Store.answer (Store.activeRatio host deviceID lo hi) db = .ok ratio ∧
      activeTotal (bucketByHour events hi) =
        spanSum HeartbeatRow.ts maxHeartbeatGap hi HeartbeatRow.active ((db.inWindow host deviceID lo hi).take 10000) ∧
      idleTotal (bucketByHour events hi) =
        spanSum HeartbeatRow.ts maxHeartbeatGap hi (fun h =>
          !h.active) ((db.inWindow host deviceID lo hi).take 10000) ∧
      ratio.activeSeconds =
        spanSum HeartbeatRow.ts maxHeartbeatGap hi HeartbeatRow.active (db.inWindow host deviceID lo hi) ∧
      ratio.idleSeconds =
        spanSum HeartbeatRow.ts maxHeartbeatGap hi (fun h => !h.active) (db.inWindow host deviceID lo hi) := by
  obtain ⟨hpairwise, hbefore⟩ := @inOrder_inWindow lo hi host db deviceID
  have hevents : InOrder EventRow.ts hi (db.events host deviceID lo hi 10000) := by
    refine ⟨List.pairwise_map.2 (hpairwise.sublist (List.take_sublist _ _)), fun ev hev => ?_⟩
    obtain ⟨h, hh, rfl⟩ := List.mem_map.1 hev
    exact hbefore h (List.mem_of_mem_take hh)
  obtain ⟨hactive, hidle⟩ := @bucketByHourFrom_totals hi _ [] hevents List.nodup_nil
  refine ⟨db.events host deviceID lo hi 10000, Database.activeRatio (db.dwell host deviceID lo hi), rfl, rfl, ?_, ?_,
    dwellOf_eq_spanSum host hd HeartbeatRow.active, dwellOf_eq_spanSum host hd fun h => !h.active⟩
  · exact (hactive.trans (Int.zero_add _)).trans spanSum_map
  · exact (hidle.trans (Int.zero_add _)).trans spanSum_map

/-- **The timeline agrees with the active ratio** just if what the limit cuts
off is harmless. With no more events than the limit nothing is. -/
theorem timeline_agrees_iff (host : Host) (db : Database) (deviceID : Bytes) (lo hi : Int) (hd : deviceID ≠ []) :
    ∃ events ratio, Store.answer (Store.listEvents host deviceID lo hi eventsLimit) db = .ok events ∧
      Store.answer (Store.activeRatio host deviceID lo hi) db = .ok ratio ∧
      ((activeTotal (bucketByHour events hi) = ratio.activeSeconds ∧
        idleTotal (bucketByHour events hi) = ratio.idleSeconds) ↔
        ∀ e rest, (db.inWindow host deviceID lo hi).drop 9999 = e :: rest → TailHarmless hi e rest) := by
  obtain ⟨events, ratio, hevents, hratio, hactive, hidle, hactive', hidle'⟩ := @totals_eq lo hi host db deviceID hd
  refine ⟨events, ratio, hevents, hratio, ?_⟩
  rw [hactive, hidle, hactive', hidle']
  exact cut_iff (inOrder_inWindow host) 9999

/-- A heartbeat every second. -/
def everySecond (n : Nat) : HeartbeatRow where
  id := List.replicate n 0
  deviceId := str "d"
  ts := n
  app := str "Code.exe"
  category := str "dev"
  active := true
  receivedAt := 0
  agentSentAt := 0

/-- The first `n` of them. -/
def seconds (n : Nat) : Database where
  heartbeats :=
    { rows := (List.range n).map everySecond
      nodup := by
        rw [List.map_map]
        refine List.nodup_range.map fun a b h => ?_
        have hlength := congrArg List.length h
        simpa [everySecond] using hlength }

theorem inWindow_seconds (n : Nat) (hhi : n ≤ hi) :
    (seconds n).inWindow insertionHost (str "d") 0 hi = (List.range n).map everySecond := by
  have hall : (seconds n).rng (str "d") 0 hi = (List.range n).map everySecond := by
    refine List.filter_eq_self.2 fun h hh => ?_
    obtain ⟨i, hmem, rfl⟩ := List.mem_map.1 hh
    have hlt := List.mem_range.1 hmem
    have hstart : (0 : Int) ≤ (everySecond i).ts := Int.natCast_nonneg i
    have hend : (everySecond i).ts < hi := by
      have hts : (everySecond i).ts = i := rfl
      omega
    have hdevice : ofDevice (str "d") (everySecond i) = true := by simp [ofDevice, everySecond]
    rw [decide_eq_true hstart, decide_eq_true hend, hdevice]
    rfl
  unfold Database.inWindow
  rw [hall]
  refine OrderBy.byInsertion_of_sorted (List.pairwise_map.2 ?_)
  exact List.pairwise_lt_range.imp fun {a b} hab => by simpa [everySecond] using hab.le

/-- A hundred of them are all counted. -/
theorem timeline_of_hundred : ∃ events ratio,
    Store.answer (Store.listEvents insertionHost (str "d") 0 100 eventsLimit) (seconds 100) = .ok events ∧
      Store.answer (Store.activeRatio insertionHost (str "d") 0 100) (seconds 100) = .ok ratio ∧
      activeTotal (bucketByHour events 100) = ratio.activeSeconds ∧
        idleTotal (bucketByHour events 100) = ratio.idleSeconds := by
  obtain ⟨events, ratio, hevents, hratio, hiff⟩ :=
    timeline_agrees_iff insertionHost (seconds 100) (str "d") 0 100 (by decide)
  refine ⟨events, ratio, hevents, hratio, hiff.2 fun e rest heq => ?_⟩
  rw [inWindow_seconds 100 (by decide), List.drop_of_length_le (by simp)] at heq
  cases heq

/-- Of one more than the limit the last second is not. -/
theorem timeline_cut : ¬ ∃ events ratio,
    Store.answer (Store.listEvents insertionHost (str "d") 0 10031 eventsLimit) (seconds 10001) = .ok events ∧
      Store.answer (Store.activeRatio insertionHost (str "d") 0 10031) (seconds 10001) = .ok ratio ∧
      activeTotal (bucketByHour events 10031) = ratio.activeSeconds ∧
      idleTotal (bucketByHour events 10031) = ratio.idleSeconds := by
  rintro ⟨events, ratio, hevents, hratio, hactive, hidle⟩
  obtain ⟨events', ratio', hevents', hratio', h₁, h₂, h₃, h₄⟩ :=
    @totals_eq 0 10031 insertionHost (seconds 10001) (str "d") (by decide)
  rw [hevents] at hevents'
  rw [hratio] at hratio'
  cases hevents'
  cases hratio'
  have hdrop : ((seconds 10001).inWindow insertionHost (str "d") 0 10031).drop 9999 =
    [everySecond 9999, everySecond 10000] := by
    rw [inWindow_seconds 10001 (by decide), ← List.map_drop, List.range_eq_range', List.drop_range']
    rfl
  have hcut := (cut_iff (@inOrder_inWindow 0 10031 insertionHost (seconds 10001) (str "d")) 9999).1
    ⟨by rw [← h₁, ← h₃, hactive], by rw [← h₂, ← h₄, hidle]⟩
  rcases (hcut _ _ hdrop).close with hclose | hall
  · exact absurd hclose (by decide)
  · exact absurd (hall _ (List.mem_singleton_self _)) (by decide)

end ScrewLogger
