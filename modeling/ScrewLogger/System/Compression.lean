/-
From observations to reports: the agent drops most of its observations and
the server's reports still count them all.

At every second the latest heartbeat shows what the latest observation does and
is not much older (`latest_emissions`): observations come 14 seconds apart at
most, an unchanged state is emitted again once it is 15 seconds old, and the
dwell cap is 30. So each second is attributed to the same state whether the
heartbeats are asked or the observations (`attributed_emissions`).
-/
import ScrewLogger.Agent.Heartbeat
import ScrewLogger.Server.Dwell

namespace ScrewLogger
open Lib Lib.Eff

/-- What is on display from a second on. -/
structure Shown where
  second : Int
  app : Bytes
  active : Bool

def Observation.shown (o : Observation) : Shown := ⟨o.time.nanos / Time.second, o.app, o.active⟩

def Heartbeat.shown (h : Heartbeat) : Shown := ⟨h.ts.toInt, h.app, h.active⟩

def HeartbeatRow.shown (r : HeartbeatRow) : Shown := ⟨r.ts, r.app, r.active⟩

/-- What the builder last emitted. -/
def HeartbeatBuilder.shown (b : HeartbeatBuilder) : Shown := ⟨b.lastEmit.nanos / Time.second, b.curApp, b.curActive⟩

/-- Two polls one after the other: in order and at most 14 seconds apart. -/
def Polled (o o' : Observation) : Prop :=
  o.time.nanos ≤ o'.time.nanos ∧ o'.time.nanos ≤ o.time.nanos + 14 * Time.second

/-- The seconds the observations with `P` last, each to the next one's second
and the last one to `hi`. -/
def observedSeconds (P : Shown → Bool) (hi : Int) : List Observation → Int
  | [] => 0
  | [o] => if P o.shown then hi - o.shown.second else 0
  | o :: o' :: os => (if P o.shown then o'.shown.second - o.shown.second else 0) + observedSeconds P hi (o' :: os)

theorem Polled.seconds {o o' : Observation} (h : Polled o o') :
    o.shown.second ≤ o'.shown.second ∧ o'.shown.second ≤ o.shown.second + 14 := by
  obtain ⟨h₁, h₂⟩ := h
  simp only [Observation.shown, Time.second] at *
  omega

/-- Polls come in order. -/
theorem polled_pairwise {os : List Observation} (h : os.IsChain Polled) :
    os.Pairwise fun o o' => o.shown.second ≤ o'.shown.second := by
  have htrans : IsTrans Observation fun o o' => o.shown.second ≤ o'.shown.second := ⟨fun _ _ _ => Int.le_trans⟩
  exact (h.imp fun _ _ h => h.seconds.1).pairwise

@[simp] theorem shown_heartbeat (o : Observation) : (HeartbeatBuilder.heartbeat o).shown = o.shown := by
  simp [HeartbeatBuilder.heartbeat, Heartbeat.shown, Observation.shown]

theorem emissions_pairwise {os : List Observation} {b : HeartbeatBuilder} (h : os.IsChain Polled) :
    ((b.emissions os).map Heartbeat.shown).Pairwise fun x y => x.second ≤ y.second := by
  refine List.Pairwise.sublist (HeartbeatBuilder.emissions_sublist.map Heartbeat.shown) ?_
  rw [List.map_map, List.pairwise_map]
  simpa using polled_pairwise h

/-- No heartbeat comes before the observations do. -/
theorem latest_emissions_none {os : List Observation} {b : HeartbeatBuilder} {s : Int}
    (h : ∀ o ∈ os, s < o.shown.second) : latest Shown.second ((b.emissions os).map Heartbeat.shown) s = none := by
  rw [latest_eq_none]
  intro x hx
  have hx := (HeartbeatBuilder.emissions_sublist.map Heartbeat.shown).subset hx
  rw [List.map_map, List.mem_map] at hx
  obtain ⟨o, ho, rfl⟩ := hx
  simpa using h o ho

/-- The builder's last heartbeat shows `p`, less than the keep-alive old. -/
structure Shows (b : HeartbeatBuilder) (p : Observation) : Prop where
  keepAlive : b.keepAlive = defaultKeepAlive
  app : b.curApp = p.app
  active : b.curActive = p.active
  le : b.lastEmit.nanos ≤ p.time.nanos
  recent : p.time.nanos < b.lastEmit.nanos + defaultKeepAlive

theorem shows_emitted {b : HeartbeatBuilder} (hk : b.keepAlive = defaultKeepAlive) (o : Observation) :
    Shows (b.emitted o) o := by
  refine ⟨hk, rfl, rfl, Int.le_refl _, ?_⟩
  simp only [HeartbeatBuilder.emitted, defaultKeepAlive, Time.second]
  omega

/-- What is shown at `s` by observations and by heartbeats. -/
def Agree (xs ys : List Shown) (s : Int) : Prop :=
  ∀ x, latest Shown.second xs s = some x → ∃ y, latest Shown.second ys s = some y ∧
    y.app = x.app ∧ y.active = x.active ∧ y.second ≤ x.second ∧ x.second ≤ y.second + 15

/-- A later row that is there already decides. -/
theorem Agree.cons {xs ys : List Shown} {s : Int} (h : Agree xs ys s) (hsome : ∃ x, latest Shown.second xs s = some x)
    (x y : Shown) : Agree (x :: xs) (y :: ys) s := by
  obtain ⟨z, hz⟩ := hsome
  intro x' hx'
  rw [latest_cons, hz, Option.some_or] at hx'
  cases hx'
  obtain ⟨y', hy', hagree⟩ := h z hz
  exact ⟨y', by rw [latest_cons, hy', Option.some_or], hagree⟩

/-- Before the next observation the last heartbeat still stands. -/
theorem agree_before {os : List Observation} {b : HeartbeatBuilder} {p : Observation} {s : Int} (hp : Shows b p)
    (h : ∀ o ∈ os, s < o.shown.second) :
    Agree ((p :: os).map Observation.shown) (b.shown :: (b.emissions os).map Heartbeat.shown) s := by
  intro x hx
  have hnone : latest Shown.second (os.map Observation.shown) s = none := by
    rw [latest_eq_none]
    simpa using h
  rw [List.map_cons, latest_cons, hnone, Option.none_or] at hx
  split at hx
  · next hs =>
    cases hx
    have hle := hp.le
    have hrecent := hp.recent
    simp only [Observation.shown, defaultKeepAlive, Time.second] at hs hrecent
    refine ⟨b.shown, ?_, hp.app, hp.active, ?_, ?_⟩
    · rw [latest_cons, latest_emissions_none h, Option.none_or, if_pos]
      simp only [HeartbeatBuilder.shown, Time.second]
      omega
    · simp only [HeartbeatBuilder.shown, Observation.shown, Time.second]
      omega
    · simp only [HeartbeatBuilder.shown, Observation.shown, Time.second]
      omega
  · cases hx

/-- **The latest heartbeat shows the latest observation**, `p` being the one
before `os`. The induction is on the observations still to come. -/
theorem latest_emissions (s : Int) : ∀ {os : List Observation} {b : HeartbeatBuilder} {p : Observation}, Shows b p →
    (p :: os).IsChain Polled →
    Agree ((p :: os).map Observation.shown) (b.shown :: (b.emissions os).map Heartbeat.shown) s
  | [], b, p, hp, _ => agree_before hp (by simp)
  | o :: os, b, p, hp, hchain => by
    have hpairwise := List.pairwise_cons.1 (polled_pairwise hchain)
    rw [List.isChain_cons_cons] at hchain
    by_cases hs : o.shown.second ≤ s
    · have hsome : ∃ x, latest Shown.second ((o :: os).map Observation.shown) s = some x :=
        exists_latest (List.mem_cons_self) hs
      cases hdue : b.due o with
      | true =>
        have ih := latest_emissions s (shows_emitted hp.keepAlive o) hchain.2
        rw [HeartbeatBuilder.emissions_due hdue, List.map_cons, List.map_cons]
        have hshown : (b.emitted o).shown = (HeartbeatBuilder.heartbeat o).shown := by
          rw [shown_heartbeat]
          rfl
        rw [hshown] at ih
        exact ih.cons hsome _ _
      | false =>
        obtain ⟨-, happ, hactive, hrecent⟩ := HeartbeatBuilder.not_due hp.keepAlive hdue
        have hle := hp.le
        have hpo := hchain.1.1
        have ih := latest_emissions s ⟨hp.keepAlive, happ.symm, hactive.symm, by omega, hrecent⟩ hchain.2
        rw [HeartbeatBuilder.emissions_not_due hdue, List.map_cons]
        obtain ⟨z, hz⟩ := hsome
        intro x hx
        rw [latest_cons, hz, Option.some_or] at hx
        exact ih x (by rw [hz]; exact hx)
    · refine agree_before hp fun o' ho' => ?_
      rcases List.mem_cons.1 ho' with rfl | ho'
      · omega
      · have := (List.pairwise_cons.1 (polled_pairwise hchain.2)).1 o' ho'
        omega

/-- A second before the end is less than 14 seconds after the latest observation. -/
theorem latest_recent {hi s : Int} : ∀ {os : List Observation}, os.IsChain Polled →
    (∀ o ∈ os.getLast?, hi ≤ o.shown.second + 14) → s < hi →
    ∀ {x : Shown}, latest Shown.second (os.map Observation.shown) s = some x → s < x.second + 14
  | [], _, _, _, x, hx => by cases hx
  | [o], _, hlast, hs, x, hx => by
    rw [List.map_cons, latest_cons, List.map_nil, latest_nil, Option.none_or] at hx
    split at hx
    · cases hx
      have := hlast o (by simp)
      omega
    · cases hx
  | o :: o' :: os, hchain, hlast, hs, x, hx => by
    rw [List.isChain_cons_cons] at hchain
    rw [List.getLast?_cons_cons] at hlast
    rw [List.map_cons, latest_cons] at hx
    cases hl : latest Shown.second ((o' :: os).map Observation.shown) s with
    | some y =>
      rw [hl, Option.some_or] at hx
      cases hx
      exact latest_recent hchain.2 hlast hs hl
    | none =>
      rw [hl, Option.none_or] at hx
      have := latest_eq_none.1 hl o'.shown (by simp)
      have := hchain.1.seconds.2
      split at hx
      · cases hx
        omega
      · cases hx

/-- What the observations of a state last is what their spans add up to: no
span reaches the cap. -/
theorem sum_span_observed (P : Shown → Bool) {hi : Int} : ∀ {os : List Observation}, os.IsChain Polled →
    (∀ o ∈ os, o.shown.second < hi) → (∀ o ∈ os.getLast?, hi ≤ o.shown.second + 14) →
    (((lead Shown.second (os.map Observation.shown)).filter (P ·.1)).map (span Shown.second maxHeartbeatGap hi)).sum =
      observedSeconds P hi os
  | [], _, _, _ => rfl
  | [o], _, _, hlast => by
    have := hlast o (by simp)
    have hspan : span Shown.second maxHeartbeatGap hi (o.shown, none) = hi - o.shown.second := by
      simp only [span, Option.getD_none, maxHeartbeatGap]
      omega
    by_cases hP : P o.shown = true <;> simp [lead, observedSeconds, hP, hspan]
  | o :: o' :: os, hchain, hin, hlast => by
    rw [List.isChain_cons_cons] at hchain
    rw [List.getLast?_cons_cons] at hlast
    have ih := sum_span_observed P hchain.2 (fun x hx => hin x (by simp [hx])) hlast
    have := hchain.1.seconds
    have := hin o' (by simp)
    have hspan : span Shown.second maxHeartbeatGap hi (o.shown, some o'.shown.second) =
        o'.shown.second - o.shown.second := by
      simp only [span, Option.getD_some, maxHeartbeatGap]
      omega
    rw [List.map_cons] at ih
    by_cases hP : P o.shown = true <;> simp [lead, observedSeconds, hP, hspan, ih]

/-- A fresh builder's heartbeats and the observations agree at every second. -/
theorem emissions_fresh (o : Observation) (os : List Observation) :
    ((newHeartbeatBuilder defaultKeepAlive).emissions (o :: os)).map Heartbeat.shown =
      ((newHeartbeatBuilder defaultKeepAlive).emitted o).shown ::
        (((newHeartbeatBuilder defaultKeepAlive).emitted o).emissions os).map Heartbeat.shown := by
  rw [HeartbeatBuilder.emissions_due (by rfl), List.map_cons, shown_heartbeat]
  rfl

/-- Each second is attributed to the same state by heartbeats and by observations. -/
theorem attributed_emissions {P : Shown → Bool} (hP : ∀ x y, y.app = x.app → y.active = x.active → P y = P x)
    {o : Observation} {os : List Observation} (hchain : (o :: os).IsChain Polled) {lo hi : Int}
    (hlast : ∀ x ∈ (o :: os).getLast?, hi ≤ x.shown.second + 14) :
    attributed Shown.second maxHeartbeatGap lo hi P
        (((newHeartbeatBuilder defaultKeepAlive).emissions (o :: os)).map Heartbeat.shown) =
      attributed Shown.second maxHeartbeatGap lo hi P ((o :: os).map Observation.shown) := by
  ext s
  rw [mem_attributed, mem_attributed, emissions_fresh]
  refine and_congr_right fun hs => ?_
  have hagree := latest_emissions s (shows_emitted (b := newHeartbeatBuilder defaultKeepAlive) rfl o) hchain
  constructor
  · rintro ⟨y, hy, hPy, -⟩
    have hle : o.shown.second ≤ y.second := by
      have hpair := emissions_pairwise (b := newHeartbeatBuilder defaultKeepAlive) hchain
      rw [emissions_fresh, List.pairwise_cons] at hpair
      rcases List.mem_cons.1 (latest_mem hy).1 with heq | hmem
      · rw [heq]
        exact Int.le_refl _
      · exact hpair.1 y hmem
    have hfirst : o.shown ∈ (o :: os).map Observation.shown := List.mem_cons_self
    obtain ⟨x, hx⟩ := exists_latest hfirst (hle.trans (latest_mem hy).2)
    obtain ⟨y', hy', happ, hactive, -⟩ := hagree x hx
    rw [hy] at hy'
    cases hy'
    have := latest_recent hchain hlast hs.2 hx
    refine ⟨x, hx, (hP x y happ hactive) ▸ hPy, ?_⟩
    simp only [maxHeartbeatGap]
    omega
  · rintro ⟨x, hx, hPx, -⟩
    obtain ⟨y, hy, happ, hactive, -, hold⟩ := hagree x hx
    have := latest_recent hchain hlast hs.2 hx
    refine ⟨y, hy, (hP x y happ hactive).trans hPx, ?_⟩
    simp only [maxHeartbeatGap]
    omega

/-- The heartbeats of a fresh builder are the device's rows, in the order they
were emitted in. -/
def StoredFor (deviceID : Bytes) (obs : List Observation) (db : Database) : Prop :=
  (db.heartbeats.rows.filter fun h => h.deviceId == deviceID).map HeartbeatRow.shown =
    ((newHeartbeatBuilder defaultKeepAlive).emissions obs).map Heartbeat.shown

section

variable {db : Database} {deviceID : Bytes} {o : Observation} {os : List Observation} {lo hi : Int}

/-- A window around the first observation and the last is around all. -/
theorem polled_within (hchain : (o :: os).IsChain Polled) (hlo : lo ≤ o.shown.second)
    (hlast : ∀ x ∈ (o :: os).getLast?, x.shown.second < hi) :
    ∀ x ∈ o :: os, lo ≤ x.shown.second ∧ x.shown.second < hi := by
  have hpair := polled_pairwise hchain
  intro x hx
  constructor
  · rcases List.mem_cons.1 hx with rfl | hx
    · exact hlo
    · exact hlo.trans ((List.pairwise_cons.1 hpair).1 x hx)
  · have hle := hpair.rel_getLast_of_rel_getLast_getLast hx (Int.le_refl _)
    exact hle.trans_lt (hlast _ (List.getLast?_eq_some_getLast (List.cons_ne_nil o os)))

/-- The window has all rows of the device. -/
theorem StoredFor.rng (hstored : StoredFor deviceID (o :: os) db)
    (hin : ∀ x ∈ o :: os, lo ≤ x.shown.second ∧ x.shown.second < hi) :
    (db.rng deviceID lo hi).filter (·.deviceId == deviceID) =
      db.heartbeats.rows.filter fun h => h.deviceId == deviceID := by
  rw [Database.rng, List.filter_filter]
  refine List.filter_congr fun h hh => ?_
  by_cases hid : h.deviceId = deviceID
  · have hmem : h.shown ∈ ((newHeartbeatBuilder defaultKeepAlive).emissions (o :: os)).map Heartbeat.shown :=
      hstored ▸ List.mem_map.2 ⟨h, List.mem_filter.2 ⟨hh, by simpa using hid⟩, rfl⟩
    have hmem := (HeartbeatBuilder.emissions_sublist.map Heartbeat.shown).subset hmem
    rw [List.map_map, List.mem_map] at hmem
    obtain ⟨x, hx, heq⟩ := hmem
    have := hin x hx
    rw [Function.comp_apply, shown_heartbeat] at heq
    have hts : h.ts = x.shown.second := by rw [heq]; rfl
    simp [hid, hts, this, ofDevice]
  · simp [hid]

theorem StoredFor.sorted (hchain : (o :: os).IsChain Polled) (hstored : StoredFor deviceID (o :: os) db) :
    (db.heartbeats.rows.filter fun h => h.deviceId == deviceID).Pairwise fun h h' => h.ts ≤ h'.ts := by
  have hpair := emissions_pairwise (b := newHeartbeatBuilder defaultKeepAlive) hchain
  rw [← hstored, List.pairwise_map] at hpair
  exact hpair

/-- The seconds of the rows are those of the observations. -/
theorem StoredFor.seconds {P : Shown → Bool} (hP : ∀ x y, y.app = x.app → y.active = x.active → P y = P x)
    (hchain : (o :: os).IsChain Polled) (hstored : StoredFor deviceID (o :: os) db)
    (hin : ∀ x ∈ o :: os, lo ≤ x.shown.second ∧ x.shown.second < hi)
    (hlast : ∀ x ∈ (o :: os).getLast?, hi ≤ x.shown.second + 14) :
    db.seconds insertionHost (fun h => P h.shown) deviceID deviceID lo hi =
      attributed Shown.second maxHeartbeatGap lo hi P ((o :: os).map Observation.shown) := by
  have hsort : (insertionHost.orderBy HeartbeatRow.ts).sort (db.heartbeats.rows.filter fun h =>
      h.deviceId == deviceID) = db.heartbeats.rows.filter fun h => h.deviceId == deviceID :=
    OrderBy.byInsertion_of_sorted (hstored.sorted hchain)
  rw [← attributed_emissions hP hchain hlast, ← hstored, attributed_map]
  unfold Database.seconds
  rw [hstored.rng hin, hsort]
  rfl

/-- A report's seconds for the rows that show `P`. -/
theorem dwellOf_observed {P : Shown → Bool} (hP : ∀ x y, y.app = x.app → y.active = x.active → P y = P x)
    (hd : deviceID ≠ []) (hchain : (o :: os).IsChain Polled) (hstored : StoredFor deviceID (o :: os) db)
    (hlo : lo ≤ o.shown.second) (hlast : ∀ x ∈ (o :: os).getLast?, x.shown.second < hi ∧ hi ≤ x.shown.second + 14) :
    Database.dwellOf (fun h => P h.shown) (db.dwell insertionHost deviceID lo hi) =
      observedSeconds P hi (o :: os) := by
  have hin := polled_within hchain hlo fun x hx => (hlast x hx).1
  rw [Database.dwellOf_device insertionHost hd, hstored.seconds hP hchain hin fun x hx => (hlast x hx).2,
    ← sum_span_observed P hchain (fun x hx => (hin x hx).2) fun x hx => (hlast x hx).2, sum_spans (by decide)]
  · rw [List.pairwise_map]
    exact polled_pairwise hchain
  · intro x hx
    obtain ⟨z, hz, rfl⟩ := List.mem_map.1 hx
    exact hin z hz

end

/-- **Compression preserves dwell.** For observations in order and at most 14
seconds apart, their heartbeats stored in the order of emission, the report by
app and the active ratio of a window that starts by the first and ends 14
seconds after the last at most give each app, and active and idle, exactly the
seconds their observations last. -/
theorem compression_preserves_dwell {db : Database} {deviceID : Bytes} (hd : deviceID ≠ []) {obs : List Observation}
    (hne : obs ≠ []) (hpolled : obs.IsChain Polled) (hstored : StoredFor deviceID obs db) {lo hi : Int}
    (hlo : lo ≤ (obs.head hne).time.nanos / Time.second) (hlast : (obs.getLast hne).time.nanos / Time.second < hi)
    (hhi : hi ≤ (obs.getLast hne).time.nanos / Time.second + 14) :
    ∃ usage ratio,
      Store.answer (Store.dwellUsage insertionHost deviceID lo hi (str "app")) db = .ok usage ∧
      Store.answer (Store.activeRatio insertionHost deviceID lo hi) db = .ok ratio ∧
      (∀ app, secondsOf app usage = observedSeconds (fun x => x.app == app) hi obs) ∧
      ratio.activeSeconds = observedSeconds (fun x => x.active) hi obs ∧
      ratio.idleSeconds = observedSeconds (fun x => !x.active) hi obs := by
  refine ⟨_, _, Store.answer_dwellUsage insertionHost db _ _ _ (rfl : Store.parseGroup _ = .ok .app),
    Store.answer_activeRatio .., ?_⟩
  obtain ⟨o, os, rfl⟩ := List.exists_cons_of_ne_nil hne
  have hend : ∀ x ∈ (o :: os).getLast?, x.shown.second < hi ∧ hi ≤ x.shown.second + 14 := by
    intro x hx
    rw [List.getLast?_eq_some_getLast hne, Option.mem_some_iff] at hx
    rw [← hx]
    exact ⟨hlast, hhi⟩
  refine ⟨fun app => ?_, ?_, ?_⟩
  · rw [Database.secondsOf_buckets]
    exact dwellOf_observed (P := fun x => x.app == app) (fun x y h _ => by rw [h]) hd hpolled hstored hlo hend
  · exact dwellOf_observed (P := fun x => x.active) (fun x y _ h => h) hd hpolled hstored hlo hend
  · exact dwellOf_observed (P := fun x => !x.active) (fun x y _ h => by rw [h]) hd hpolled hstored hlo hend

/-- Three polls, of which the second is dropped. -/
theorem compression_preserves_dwell_three_polls :
    let poll (t : Nat) (ht : (t : Int) < 100) (app : Bytes) : Observation :=
      { time := ⟨t * Time.second, by rw [Int.mul_ediv_cancel _ (by decide)]; omega,
          by rw [Int.mul_ediv_cancel _ (by decide)]; omega⟩, app := app, active := true }
    let obs := [poll 0 (by decide) (str "code.exe"), poll 10 (by decide) (str "code.exe"),
      poll 20 (by decide) (str "mail.exe")]
    let row (id : Bytes) (ts : Int) (app : Bytes) : HeartbeatRow :=
      { id := id, deviceId := str "d", ts := ts, app := app, category := [], active := true, receivedAt := 0,
        agentSentAt := 0 }
    let db : Database := { heartbeats := ⟨[row (str "1") 0 (str "code.exe"), row (str "2") 20 (str "mail.exe")],
      by decide⟩ }
    StoredFor (str "d") obs db ∧
      ∃ usage, Store.answer (Store.dwellUsage insertionHost (str "d") 0 30 (str "app")) db = .ok usage ∧
        secondsOf (str "code.exe") usage = 20 ∧ secondsOf (str "mail.exe") usage = 10 := by
  intro poll obs row db
  have hpolled : obs.IsChain Polled := by
    refine .cons_cons ⟨by decide, by decide⟩ (.cons_cons ⟨by decide, by decide⟩ (.singleton _))
  have hstored : StoredFor (str "d") obs db := rfl
  obtain ⟨usage, _, husage, -, happ, -⟩ := compression_preserves_dwell (by decide) (List.cons_ne_nil _ _) hpolled
    hstored (by decide : (0 : Int) ≤ 0) (by decide : (20 : Int) < 30) (by decide)
  exact ⟨hstored, usage, husage, (happ _).trans (by decide), (happ _).trans (by decide)⟩

end ScrewLogger
