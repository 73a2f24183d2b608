/-
Dwell reports and the order heartbeats arrive in.

However a device's heartbeats are ingested, the table ends with the same
readings (`ingestAll_rows`). A report is a matter of the readings alone where
those of one second agree on what is reported (`dwellOf_congr`); where they do
not, the engine's order of ties decides which of them has the time from there
on (`owner_last`), and with it the order of arrival.
-/
import ScrewLogger.Server.StoreFacts
import ScrewLogger.Server.Dwell

namespace ScrewLogger
open Lib Lib.Eff

/-- A row without the times it was sent and stored at. -/
def HeartbeatRow.reading (h : HeartbeatRow) : HeartbeatRow := { h with receivedAt := 0, agentSentAt := 0 }

namespace Database

/-- The same readings are stored. -/
def SameReadings (db db' : Database) : Prop :=
  ∀ r, r ∈ db.heartbeats.rows.map HeartbeatRow.reading ↔ r ∈ db'.heartbeats.rows.map HeartbeatRow.reading

theorem SameReadings.symm {db db' : Database} (h : SameReadings db db') : SameReadings db' db := fun r => (h r).symm

theorem SameReadings.exists {db db' : Database} (hs : SameReadings db db') {h : HeartbeatRow}
    (hh : h ∈ db.heartbeats.rows) : ∃ h' ∈ db'.heartbeats.rows, h'.reading = h.reading :=
  List.mem_map.1 ((hs _).1 (List.mem_map.2 ⟨h, hh, rfl⟩))

theorem reading_eq {h h' : HeartbeatRow} (he : h'.reading = h.reading) : h'.deviceId = h.deviceId ∧ h'.ts = h.ts ∧
    h'.app = h.app ∧ h'.category = h.category ∧ h'.active = h.active := by
  cases h; cases h'
  simp_all [HeartbeatRow.reading]

variable {db db' : Database} {deviceID : Bytes} {P : HeartbeatRow → Bool} {lo hi : Int}

theorem Of.reading {d : Bytes} {h h' : HeartbeatRow} (hof : Of db deviceID d h) (hmem : h' ∈ db'.heartbeats.rows)
    (he : h'.reading = h.reading) : Of db' deviceID d h' := by
  obtain ⟨hdev, -⟩ := reading_eq he
  refine ⟨hmem, ?_, hdev.trans hof.2.2⟩
  have := hof.2.1
  simp only [ofDevice] at this ⊢
  rw [hdev]
  exact this

theorem Uniform.congr (hs : SameReadings db db') (hP : ∀ h h', h'.reading = h.reading → P h' = P h)
    (hu : Uniform P db deviceID lo hi) : Uniform P db' deviceID lo hi := by
  have hback : ∀ r ∈ db'.rng deviceID lo hi, ∃ h ∈ db.rng deviceID lo hi, h.reading = r.reading := by
    intro r hr
    obtain ⟨hmem, hw, hdev⟩ := mem_rng.1 hr
    obtain ⟨h, hh, he⟩ := hs.symm.exists hmem
    obtain ⟨hd, ht, -⟩ := reading_eq he
    refine ⟨h, mem_rng.2 ⟨hh, ht ▸ hw, ?_⟩, he⟩
    simp only [ofDevice] at hdev ⊢
    rw [hd]
    exact hdev
  intro r hr r' hr' hd ht
  obtain ⟨h, hh, he⟩ := hback r hr
  obtain ⟨h', hh', he'⟩ := hback r' hr'
  obtain ⟨hd₁, ht₁, -⟩ := reading_eq he
  obtain ⟨hd₂, ht₂, -⟩ := reading_eq he'
  rw [← hP _ _ he, ← hP _ _ he']
  exact hu h hh h' hh' (hd₁.trans (hd.trans hd₂.symm)) (ht₁.trans (ht.trans ht₂.symm))

/-- The seconds attributed to `P` are a matter of the readings. -/
theorem seconds_subset (host host' : Host) (hs : SameReadings db db')
    (hP : ∀ h h', h'.reading = h.reading → P h' = P h)
    (hu : Uniform P db deviceID lo hi) {d : Bytes} :
    db.seconds host P deviceID d lo hi ⊆ db'.seconds host' P deviceID d lo hi := by
  intro s hmem
  rw [mem_seconds host' (hu.congr hs hP)]
  obtain ⟨hw, h, hof, hPh, hlo, hle, hlt, hmax⟩ := (mem_seconds host hu).1 hmem
  obtain ⟨h', hh', he⟩ := hs.exists hof.1
  obtain ⟨-, ht, -⟩ := reading_eq he
  refine ⟨hw, h', hof.reading hh' he, (hP _ _ he).trans hPh, by omega, by omega, by omega, fun r hr hlo' hle' => ?_⟩
  obtain ⟨r', hr', he'⟩ := hs.symm.exists hr.1
  obtain ⟨-, ht', -⟩ := reading_eq he'
  have := hmax r' (hr.reading hr' he') (by omega) (by omega)
  omega

/-- A report on which ties agree is a matter of the readings. -/
theorem dwellOf_congr (host host' : Host) (hs : SameReadings db db')
    (hP : ∀ h h', h'.reading = h.reading → P h' = P h)
    (hu : Uniform P db deviceID lo hi) :
    dwellOf P (db.dwell host deviceID lo hi) = dwellOf P (db'.dwell host' deviceID lo hi) := by
  have hall : ∀ d ∈ db.reported deviceID lo hi, d ∈ db.allDevices ∪ db'.allDevices := fun d hd =>
    Finset.mem_union_left _ (reported_subset d hd)
  rw [dwellOf_eq_sum host hall, dwellOf_eq_sum host' fun d hd => Finset.mem_union_right _ (reported_subset d hd)]
  refine Finset.sum_congr rfl fun d _ => ?_
  rw [Finset.Subset.antisymm (seconds_subset host host' hs hP hu)
    (seconds_subset host' host hs.symm hP (hu.congr hs hP))]

end Database

/-! ## Ingesting -/

/-- A device's batches stored one after the other, each with the time it was sent at. -/
def ingestAll (deviceID : Bytes) (batches : List (Int × List Heartbeat)) (w : World) : World :=
  batches.foldl (fun w b => (Store.insertHeartbeats deviceID b.1 b.2 w).2) w

/-- **What ingesting leaves behind.** The readings there were, and those of the
heartbeats whose ids are new. -/
theorem ingestAll_rows {deviceID : Bytes} : ∀ {batches : List (Int × List Heartbeat)} {w : World}, Store.Quiet w →
    w.db.devices.Has deviceID →
    (ingestAll deviceID batches w).db.heartbeats.rows.map HeartbeatRow.reading =
      w.db.heartbeats.rows.map HeartbeatRow.reading ++
        (Store.newHeartbeats (w.db.heartbeats.rows.map (·.id)) (batches.flatMap (·.2))).map (Store.toRow deviceID 0 0)
  | [], _, _, _ => by simp [ingestAll, Store.newHeartbeats]
  | (sentAt, hbs) :: batches, w, hq, hd => by
    obtain ⟨now, hq', hi⟩ := Store.insertHeartbeats_ingested sentAt hbs hq hd
    have hd' : (Store.insertHeartbeats deviceID sentAt hbs w).2.db.devices.Has deviceID := by
      obtain ⟨d, hmem, rfl⟩ := Table.has_iff.1 hd
      refine Table.has_iff.2 ⟨_, hi.devices ▸ List.mem_map.2 ⟨d, hmem, rfl⟩, ?_⟩
      split <;> rfl
    rw [List.flatMap_cons, Store.newHeartbeats_append, List.map_append, ← List.append_assoc]
    refine (ingestAll_rows hq' hd').trans ?_
    rw [hi.heartbeats, List.map_append, List.map_append, Store.toRow_ids, List.map_map]
    rfl

/-- Heartbeats of distinct ids are new where their ids are. -/
theorem newHeartbeats_eq_filter : ∀ {hbs : List Heartbeat} {seen : List Bytes}, (hbs.map Heartbeat.id).Nodup →
    Store.newHeartbeats seen hbs = hbs.filter fun h => h.id ∉ seen
  | [], _, _ => rfl
  | h :: hbs, seen, hnd => by
    rw [List.map_cons, List.nodup_cons] at hnd
    rw [Store.newHeartbeats, List.filter_cons]
    by_cases hmem : h.id ∈ seen
    · simp [hmem, newHeartbeats_eq_filter hnd.2]
    · have hrest : hbs.filter (fun h' => h'.id ∉ seen ++ [h.id]) = hbs.filter fun h' => h'.id ∉ seen := by
        refine List.filter_congr fun h' hh' => ?_
        have : h'.id ≠ h.id := fun he => hnd.1 (he ▸ List.mem_map.2 ⟨h', hh', rfl⟩)
        simp [this]
      rw [if_neg hmem, if_pos (by simpa using hmem), newHeartbeats_eq_filter hnd.2, hrest]

/-- Two orders of the same heartbeats leave the same readings behind. -/
theorem sameReadings_of_perm {deviceID : Bytes} {batches batches' : List (Int × List Heartbeat)} {w w' : World}
    (hdb : w.db = w'.db) (hq : Store.Quiet w) (hq' : Store.Quiet w') (hd : w.db.devices.Has deviceID)
    (hperm : (batches.flatMap (·.2)).Perm (batches'.flatMap (·.2)))
    (hids : ((batches.flatMap (·.2)).map Heartbeat.id).Nodup) :
    Database.SameReadings (ingestAll deviceID batches w).db (ingestAll deviceID batches' w').db := by
  intro r
  rw [ingestAll_rows hq hd, ingestAll_rows hq' (hdb ▸ hd), ← hdb, newHeartbeats_eq_filter hids,
    newHeartbeats_eq_filter ((hperm.map _).nodup_iff.1 hids), List.mem_append, List.mem_append]
  refine or_congr_right ?_
  exact ((hperm.filter _).map _).mem_iff

namespace Database

/-- A device's heartbeats of a window, as the engine orders them. -/
def engineOrder (host : Host) (db : Database) (deviceID d : Bytes) (lo hi : Int) : List HeartbeatRow :=
  (host.orderBy HeartbeatRow.ts).sort ((db.rng deviceID lo hi).filter (·.deviceId == d))

/-- The heartbeat that has the second `s`: the last in the engine's order that is not later. -/
def owner (host : Host) (db : Database) (deviceID d : Bytes) (lo hi s : Int) : Option HeartbeatRow :=
  latest HeartbeatRow.ts (engineOrder host db deviceID d lo hi) s

/-- How many seconds a device's heartbeats with `P` have. -/
noncomputable def owned (host : Host) (P : HeartbeatRow → Bool) (db : Database) (deviceID d : Bytes) (lo hi : Int) : Nat :=
  ((Finset.Ico lo hi).filter fun s => (owner host db deviceID d lo hi s).any fun h =>
    P h && decide (s < h.ts + maxHeartbeatGap)).card

/-- Of the heartbeats of one second, the last in the engine's order. -/
theorem owner_last {host : Host} {d : Bytes} {s : Int} {h : HeartbeatRow}
    (howner : owner host db deviceID d lo hi s = some h) : h.ts ≤ s ∧ ∃ before after,
      engineOrder host db deviceID d lo hi = before ++ h :: after ∧ ∀ h' ∈ after, s < h'.ts := by
  refine ⟨(latest_mem howner).2, ?_⟩
  rw [owner] at howner
  generalize engineOrder host db deviceID d lo hi = l at howner
  induction l with
  | nil => cases howner
  | cons r l ih =>
    rw [latest_cons] at howner
    cases hlater : latest HeartbeatRow.ts l s with
    | some h' =>
      rw [hlater, Option.some_or] at howner
      obtain ⟨before, after, heq, hafter⟩ := ih (hlater.trans howner)
      exact ⟨r :: before, after, congrArg (r :: ·) heq, hafter⟩
    | none =>
      rw [hlater, Option.none_or] at howner
      split at howner
      · cases howner
        exact ⟨[], l, rfl, latest_eq_none.1 hlater⟩
      · cases howner

end Database

namespace Store

/-- **Arrival order.** However a device's heartbeats are ordered and split into
batches, a report has the same total; the same seconds for every key that the
window's heartbeats of one device and second agree on having; and the same
active ratio where they agree on being active. Each second a report counts is
that of the heartbeat which the engine orders last among those of the latest
second before it. -/
theorem reports_arrival_order (host host' : Host) {deviceID : Bytes} {batches batches' : List (Int × List Heartbeat)}
    {w w' : World} (hdb : w.db = w'.db) (hq : Quiet w) (hq' : Quiet w') (hd : w.db.devices.Has deviceID)
    (hperm : (batches.flatMap (·.2)).Perm (batches'.flatMap (·.2)))
    (hids : ((batches.flatMap (·.2)).map Heartbeat.id).Nodup) (queried : Bytes) (lo hi : Int) {groupBy : Bytes}
    {group : Group} (hg : parseGroup groupBy = .ok group) :
    ∃ usage usage' ratio ratio',
      answer (dwellUsage host queried lo hi groupBy) (ingestAll deviceID batches w).db = .ok usage ∧
      answer (dwellUsage host' queried lo hi groupBy) (ingestAll deviceID batches' w').db = .ok usage' ∧
      answer (activeRatio host queried lo hi) (ingestAll deviceID batches w).db = .ok ratio ∧
      answer (activeRatio host' queried lo hi) (ingestAll deviceID batches' w').db = .ok ratio' ∧
      totalSeconds usage = totalSeconds usage' ∧ ratio.totalSeconds = ratio'.totalSeconds ∧
      (∀ k, Database.Uniform (fun h => group.key h == k) (ingestAll deviceID batches w).db queried lo hi →
        secondsOf k usage = secondsOf k usage') ∧
      (Database.Uniform (fun h => h.active) (ingestAll deviceID batches w).db queried lo hi → ratio = ratio') ∧
      (∀ k, secondsOf k usage = ∑ d ∈ (ingestAll deviceID batches w).db.allDevices,
        (Database.owned host (fun h => group.key h == k) (ingestAll deviceID batches w).db queried d lo hi : Int)) ∧
      ∀ d s h, Database.owner host (ingestAll deviceID batches w).db queried d lo hi s = some h → h.ts ≤ s ∧
        ∃ before after, Database.engineOrder host (ingestAll deviceID batches w).db queried d lo hi =
          before ++ h :: after ∧ ∀ h' ∈ after, s < h'.ts := by
  have hs := sameReadings_of_perm hdb hq hq' hd hperm hids
  have htrue : Database.dwellOf (fun _ => true) ((ingestAll deviceID batches w).db.dwell host queried lo hi) =
      Database.dwellOf (fun _ => true) ((ingestAll deviceID batches' w').db.dwell host' queried lo hi) :=
    Database.dwellOf_congr host host' hs (fun _ _ _ => rfl) fun _ _ _ _ _ _ => rfl
  refine ⟨_, _, _, _, answer_dwellUsage host _ _ _ _ hg, answer_dwellUsage host' _ _ _ _ hg, answer_activeRatio ..,
    answer_activeRatio .., ?_, ?_, fun k hu => ?_, fun hu => ?_, fun k => ?_, fun _ _ _ => Database.owner_last⟩
  · rw [Database.totalSeconds_buckets, Database.totalSeconds_buckets, htrue]
  · rw [Database.totalSeconds_activeRatio, Database.totalSeconds_activeRatio, htrue]
  · rw [Database.secondsOf_buckets, Database.secondsOf_buckets]
    refine Database.dwellOf_congr host host' hs (fun h h' he => ?_) hu
    obtain ⟨-, -, happ, hcat, -⟩ := Database.reading_eq he
    cases group with
    | category => simp [Group.key, hcat]
    | app => simp [Group.key, happ]
  · have hactive := Database.dwellOf_congr host host' hs (fun h h' he => (Database.reading_eq he).2.2.2.2) hu
    have hidle : Database.dwellOf (fun h => !h.active) ((ingestAll deviceID batches w).db.dwell host queried lo hi) =
        Database.dwellOf (fun h => !h.active) ((ingestAll deviceID batches' w').db.dwell host' queried lo hi) :=
      Database.dwellOf_congr host host' hs (fun h h' he => congrArg _ (Database.reading_eq he).2.2.2.2)
        fun h hh h' hh' hd ht => congrArg _ (hu h hh h' hh' hd ht)
    simp only [Database.activeRatio, hactive, hidle]
  · rw [Database.secondsOf_buckets, Database.dwellOf_eq_sum host Database.reported_subset]
    rfl

/-- A server with one device enrolled. -/
def enrolledDevice : World where
  db := { devices := .single { id := str "d", name := [], tokenHash := [], enrolledAt := 0 } }
  clock := fun _ => .epoch
  entropy := fun _ => 0

def heartbeatOf (id : String) (ts : Int64) (app : String) : Heartbeat where
  id := str id
  ts := ts
  app := str app
  category := str "work"
  active := true

/-- Two heartbeats of one second: the one that arrives last gets the time. -/
theorem ties_go_to_the_last :
    let a := heartbeatOf "1" 100 "code.exe"
    let b := heartbeatOf "2" 100 "mail.exe"
    ([a, b].Perm [b, a] ∧ ([a, b].map Heartbeat.id).Nodup) ∧
    answer (dwellUsage insertionHost (str "d") 0 200 (str "app")) (ingestAll (str "d") [(0, [a, b])] enrolledDevice).db =
      .ok [⟨str "mail.exe", 30⟩, ⟨str "code.exe", 0⟩] ∧
    answer (dwellUsage insertionHost (str "d") 0 200 (str "app")) (ingestAll (str "d") [(0, [b, a])] enrolledDevice).db =
      .ok [⟨str "code.exe", 30⟩, ⟨str "mail.exe", 0⟩] :=
  ⟨⟨List.Perm.swap _ _ _, by decide⟩, by rfl, by rfl⟩

theorem reports_arrival_order_backfill :
    let a := heartbeatOf "1" 100 "code.exe"
    let b := heartbeatOf "2" 105 "mail.exe"
    ∃ usage usage',
      answer (dwellUsage insertionHost (str "d") 0 200 (str "app"))
        (ingestAll (str "d") [(0, [a, b])] enrolledDevice).db = .ok usage ∧
      answer (dwellUsage insertionHost (str "d") 0 200 (str "app"))
        (ingestAll (str "d") [(0, [b]), (0, [a])] enrolledDevice).db = .ok usage' ∧
      secondsOf (str "code.exe") usage = secondsOf (str "code.exe") usage' := by
  intro a b
  have hperm : (([(0, [a, b])] : List (Int × List Heartbeat)).flatMap (·.2)).Perm
      (([(0, [b]), (0, [a])] : List (Int × List Heartbeat)).flatMap (·.2)) := List.Perm.swap b a []
  have hd : enrolledDevice.db.devices.Has (str "d") := by decide
  obtain ⟨usage, usage', _, _, h, h', -, -, -, -, hkeys, -⟩ := reports_arrival_order insertionHost insertionHost
    (rfl : enrolledDevice.db = enrolledDevice.db) rfl rfl hd hperm (by decide) (str "d") 0 200
    (rfl : parseGroup (str "app") = .ok .app)
  refine ⟨usage, usage', h, h', hkeys _ ?_⟩
  unfold Database.Uniform
  decide

end Store
end ScrewLogger
