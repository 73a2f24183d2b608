/-
What the dwell reports add up to.

`dwellOf_dwell`: the seconds a report gives to the heartbeats with a property
are, device by device, the seconds of the window attributed to one of them.
From it the totals: the reports by category and by app and the active ratio all
count the seconds some heartbeat covers, and the fleet's report the sum of the
devices'.
-/
import ScrewLogger.Server.Query

namespace ScrewLogger
open Lib Lib.Eff

namespace Store

/-- What an operation answers on given tables when nothing fails. -/
def answer {α : Type} (op : Store α) (db : Database) : Except StoreError α :=
  (op { db := db, clock := fun _ => .epoch, entropy := fun _ => 0 }).1

/-- What is done with the result of a query. -/
theorem answer_query_bind {α β : Type} {f : Database → α} {g : α → Store β} {db : Database} :
    answer (query f >>= g) db = answer (g (f db)) db := rfl

end Store

/-- The seconds a report gives to a key. -/
def secondsOf (k : Bytes) (bs : List Bucket) : Int := ((bs.filter fun b => b.key == k).map Bucket.seconds).sum

/-- The seconds of a report. -/
def totalSeconds (bs : List Bucket) : Int := (bs.map Bucket.seconds).sum

namespace Database

variable (host : Host) {db : Database} {deviceID : Bytes} {lo hi : Int}

/-- The seconds of the window attributed to device `d`'s heartbeats with `P`. -/
noncomputable def seconds (P : HeartbeatRow → Bool) (db : Database) (deviceID d : Bytes) (lo hi : Int) : Finset Int :=
  attributed HeartbeatRow.ts maxHeartbeatGap lo hi P
    ((host.orderBy HeartbeatRow.ts).sort ((db.rng deviceID lo hi).filter (·.deviceId == d)))

/-- The devices a report is about. -/
def reported (db : Database) (deviceID : Bytes) (lo hi : Int) : List Bytes :=
  ((db.rng deviceID lo hi).map (·.deviceId)).dedup

theorem mem_rng {h : HeartbeatRow} :
    h ∈ db.rng deviceID lo hi ↔ h ∈ db.heartbeats.rows ∧ (lo ≤ h.ts ∧ h.ts < hi) ∧ ofDevice deviceID h = true := by
  simp [rng]

theorem secs_eq_span : secs hi = span HeartbeatRow.ts maxHeartbeatGap hi := by
  funext p
  simp only [secs, span]
  split_ifs <;> omega

theorem dwellOf_map {P : HeartbeatRow → Bool} {l : List (HeartbeatRow × Option Int)} :
    dwellOf P (l.map fun p => { row := p.1, secs := secs hi p }) =
      ((l.filter (P ·.1)).map (span HeartbeatRow.ts maxHeartbeatGap hi)).sum := by
  rw [dwellOf, List.filter_map, List.map_map, ← secs_eq_span]
  rfl

theorem dwellOf_append {P : HeartbeatRow → Bool} {l l' : List Dwell} :
    dwellOf P (l ++ l') = dwellOf P l + dwellOf P l' := by
  simp [dwellOf]

theorem dwellOf_cons {P : HeartbeatRow → Bool} {d : Dwell} {l : List Dwell} :
    dwellOf P (d :: l) = (if P d.row then d.secs else 0) + dwellOf P l := by
  by_cases h : P d.row <;> simp [dwellOf, h]

/-- **Dwell time counts seconds.** -/
theorem dwellOf_dwell (P : HeartbeatRow → Bool) :
    dwellOf P (db.dwell host deviceID lo hi) =
      ((db.reported deviceID lo hi).map fun d => ((db.seconds host P deviceID d lo hi).card : Int)).sum := by
  unfold dwell paired reported
  generalize ((db.rng deviceID lo hi).map (·.deviceId)).dedup = ds
  induction ds with
  | nil => simp [dwellOf]
  | cons d ds ih =>
    rw [List.flatMap_cons, List.map_append, dwellOf_append, ih, dwellOf_map,
      sum_spans (by decide) ((host.orderBy _).sorted _)]
    · rfl
    · intro h hh
      rw [OrderBy.mem_sort, List.mem_filter, mem_rng] at hh
      exact hh.1.2.1

/-! ## Reports and dwell time -/

/-- A report's key gets the seconds of its heartbeats. -/
theorem secondsOf_buckets (group : Group) (k : Bytes) (l : List Dwell) :
    secondsOf k (buckets host group l) = dwellOf (fun h => group.key h == k) l := by
  unfold secondsOf buckets
  rw [(((host.orderBy _).perm _).filter _ |>.map _).sum_eq, List.filter_map]
  by_cases h : k ∈ l.map fun d => group.key d.row
  · have hf : ((l.map fun d => group.key d.row).dedup.filter fun k' => k' == k) = [k] := by
      rw [List.filter_beq, List.count_eq_one_of_mem (List.nodup_dedup _) (List.mem_dedup.2 h)]
      rfl
    simp only [Function.comp_def, hf]
    simp
  · have hf : ((l.map fun d => group.key d.row).dedup.filter fun k' => k' == k) = [] := by
      rw [List.filter_eq_nil_iff]
      intro k' hk' he
      rw [beq_iff_eq] at he
      exact h (he ▸ List.mem_dedup.1 hk')
    have hnone : l.filter (fun d => group.key d.row == k) = [] := by
      rw [List.filter_eq_nil_iff]
      intro d hd he
      exact h (List.mem_map.2 ⟨d, hd, beq_iff_eq.1 he⟩)
    simp only [Function.comp_def, hf, dwellOf, hnone]
    simp

/-- The keys of a report share out its seconds. -/
theorem sum_dwellOf_keys (key : HeartbeatRow → Bytes) {ks : List Bytes} (hks : ks.Nodup) :
    ∀ {l : List Dwell}, (∀ d ∈ l, key d.row ∈ ks) →
      (ks.map fun k => dwellOf (fun h => key h == k) l).sum = dwellOf (fun _ => true) l
  | [], _ => by
    simp [dwellOf]
  | d :: l, h => by
    have ih := sum_dwellOf_keys key hks (l := l) fun d hd => h d (by simp [hd])
    rw [← List.sum_toFinset _ hks] at ih ⊢
    simp only [dwellOf_cons]
    rw [Finset.sum_add_distrib, ih]
    congr 1
    simp [h d (by simp)]

theorem totalSeconds_buckets (group : Group) (l : List Dwell) :
    totalSeconds (buckets host group l) = dwellOf (fun _ => true) l := by
  unfold totalSeconds buckets
  rw [(((host.orderBy _).perm _).map _).sum_eq, List.map_map]
  refine sum_dwellOf_keys group.key (List.nodup_dedup _) fun d hd => ?_
  exact List.mem_dedup.2 (List.mem_map.2 ⟨d, hd, rfl⟩)

theorem dwellOf_not (P : HeartbeatRow → Bool) (l : List Dwell) :
    dwellOf P l + dwellOf (fun h => !P h) l = dwellOf (fun _ => true) l := by
  induction l with
  | nil => rfl
  | cons d l ih =>
    rw [dwellOf_cons, dwellOf_cons, dwellOf_cons]
    cases P d.row <;> simp <;> omega

theorem totalSeconds_activeRatio (l : List Dwell) :
    (Database.activeRatio l).totalSeconds = dwellOf (fun _ => true) l :=
  dwellOf_not (fun h => h.active) l

/-! ## Covered seconds -/

/-- The seconds of the window that a heartbeat of the device and the window covers. -/
noncomputable def coveredSeconds (db : Database) (deviceID : Bytes) (lo hi : Int) : Finset Int :=
  (Finset.Ico lo hi).filter fun s => ∃ h ∈ db.heartbeats.rows,
    h.deviceId = deviceID ∧ (lo ≤ h.ts ∧ h.ts < hi) ∧ h.ts ≤ s ∧ s < h.ts + maxHeartbeatGap

theorem seconds_true {d : Bytes} (h : deviceID = [] ∨ deviceID = d) :
    db.seconds host (fun _ => true) deviceID d lo hi = db.coveredSeconds d lo hi := by
  unfold seconds
  rw [attributed_true ((host.orderBy _).sorted _)]
  ext s
  rw [mem_covered, coveredSeconds, Finset.mem_filter, Finset.mem_Ico]
  refine and_congr_right fun _ => ⟨?_, ?_⟩
  · rintro ⟨r, hr, hs⟩
    rw [OrderBy.mem_sort, List.mem_filter, mem_rng, beq_iff_eq] at hr
    exact ⟨r, hr.1.1, hr.2, hr.1.2.1, hs⟩
  · rintro ⟨r, hr, hd, hw, hs⟩
    refine ⟨r, ?_, hs⟩
    rw [OrderBy.mem_sort, List.mem_filter, mem_rng, beq_iff_eq]
    refine ⟨⟨hr, hw, ?_⟩, hd⟩
    rcases h with rfl | rfl <;> simp [ofDevice, hd]

/-- A device without heartbeats in the window has no seconds there. -/
theorem coveredSeconds_eq_empty {d : Bytes} (h : d ∉ (db.rng [] lo hi).map (·.deviceId)) :
    db.coveredSeconds d lo hi = ∅ := by
  rw [coveredSeconds, Finset.filter_eq_empty_iff]
  rintro s - ⟨r, hr, hd, hw, -⟩
  exact h (List.mem_map.2 ⟨r, mem_rng.2 ⟨hr, hw, by simp [ofDevice]⟩, hd⟩)

/-- A report about one device has at most that device in it. -/
theorem reported_device (hd : deviceID ≠ []) : db.reported deviceID lo hi = [deviceID] ∨
    db.reported deviceID lo hi = [] ∧ ∀ h ∈ db.heartbeats.rows, h.deviceId = deviceID →
      ¬ (lo ≤ h.ts ∧ h.ts < hi) := by
  have hall : ∀ d ∈ db.reported deviceID lo hi, d = deviceID := by
    intro d hmem
    obtain ⟨h, hh, rfl⟩ := List.mem_map.1 (List.mem_dedup.1 hmem)
    have := (mem_rng.1 hh).2.2
    simpa [ofDevice, hd] using this
  have hnd : (db.reported deviceID lo hi).Nodup := List.nodup_dedup _
  by_cases hmem : deviceID ∈ db.reported deviceID lo hi
  · refine .inl (List.perm_singleton.1 ((List.perm_ext_iff_of_nodup hnd (by simp)).2 fun d => ?_))
    rw [List.mem_singleton]
    exact ⟨hall d, fun h => h ▸ hmem⟩
  · refine .inr ⟨List.eq_nil_iff_forall_not_mem.2 fun d h => hmem (hall d h ▸ h), fun h hh he hw => hmem ?_⟩
    exact List.mem_dedup.2 (List.mem_map.2 ⟨h, mem_rng.2 ⟨hh, hw, by simp [ofDevice, he]⟩, he⟩)

theorem seconds_eq_empty {P : HeartbeatRow → Bool} {d : Bytes} (h : d ∉ db.reported deviceID lo hi) :
    db.seconds host P deviceID d lo hi = ∅ := by
  have hnil : (db.rng deviceID lo hi).filter (·.deviceId == d) = [] := by
    rw [List.filter_eq_nil_iff]
    intro r hr he
    exact h (List.mem_dedup.2 (List.mem_map.2 ⟨r, hr, beq_iff_eq.1 he⟩))
  rw [seconds, hnil, List.perm_nil.1 ((host.orderBy _).perm [])]
  ext s
  simp [mem_attributed]

/-- The report about one device. -/
theorem dwellOf_device (hd : deviceID ≠ []) (P : HeartbeatRow → Bool) :
    dwellOf P (db.dwell host deviceID lo hi) = (db.seconds host P deviceID deviceID lo hi).card := by
  rw [dwellOf_dwell]
  rcases @reported_device db deviceID lo hi hd with h | ⟨h, -⟩
  · simp [h]
  · rw [seconds_eq_empty host (by simp [h]), h]
    rfl

/-- The report about the fleet, device by device. -/
theorem dwellOf_fleet {ds : List Bytes} (hds : ds.Nodup) (hall : ∀ h ∈ db.heartbeats.rows, h.deviceId ∈ ds) :
    dwellOf (fun _ => true) (db.dwell host [] lo hi) =
      (ds.map fun d => ((db.coveredSeconds d lo hi).card : Int)).sum := by
  have hsub : (db.reported [] lo hi).toFinset ⊆ ds.toFinset := by
    intro d hd
    rw [List.mem_toFinset, reported, List.mem_dedup, List.mem_map] at hd
    obtain ⟨h, hh, rfl⟩ := hd
    exact List.mem_toFinset.2 (hall h (mem_rng.1 hh).1)
  have hnd : (db.reported [] lo hi).Nodup := List.nodup_dedup _
  rw [dwellOf_dwell, ← List.sum_toFinset _ hnd, ← List.sum_toFinset _ hds]
  refine (Finset.sum_congr rfl fun d _ => ?_).trans (Finset.sum_subset hsub fun d _ hd => ?_)
  · rw [seconds_true host (.inl rfl)]
  · rw [coveredSeconds_eq_empty]
    · rfl
    · intro h
      exact hd (List.mem_toFinset.2 (List.mem_dedup.2 h))

/-! ## Where ties do not matter -/

variable {P : HeartbeatRow → Bool}

/-- Heartbeats of the window and of the same device and second agree on `P`. -/
def Uniform (P : HeartbeatRow → Bool) (db : Database) (deviceID : Bytes) (lo hi : Int) : Prop :=
  ∀ h ∈ db.rng deviceID lo hi, ∀ h' ∈ db.rng deviceID lo hi, h.deviceId = h'.deviceId → h.ts = h'.ts → P h = P h'

/-- The heartbeats a report takes a device's time from. -/
def Of (db : Database) (deviceID d : Bytes) (h : HeartbeatRow) : Prop :=
  h ∈ db.heartbeats.rows ∧ ofDevice deviceID h = true ∧ h.deviceId = d

theorem mem_seconds (hu : Uniform P db deviceID lo hi) {d : Bytes} {s : Int} :
    s ∈ db.seconds host P deviceID d lo hi ↔ (lo ≤ s ∧ s < hi) ∧ ∃ h, Of db deviceID d h ∧ P h = true ∧
      lo ≤ h.ts ∧ h.ts ≤ s ∧ s < h.ts + maxHeartbeatGap ∧
      ∀ h', Of db deviceID d h' → lo ≤ h'.ts → h'.ts ≤ s → h'.ts ≤ h.ts := by
  have hsort : ∀ h, h ∈ (host.orderBy HeartbeatRow.ts).sort ((db.rng deviceID lo hi).filter (·.deviceId == d)) ↔
      Of db deviceID d h ∧ lo ≤ h.ts ∧ h.ts < hi := by
    intro h
    rw [OrderBy.mem_sort, List.mem_filter, mem_rng, beq_iff_eq, Of]
    grind
  rw [seconds, mem_attributed_of_uniform ((host.orderBy _).sorted _)]
  · refine and_congr_right fun hs => ⟨?_, ?_⟩
    · rintro ⟨h, hh, hP, hle, hlt, hmax⟩
      obtain ⟨hof, hlo, -⟩ := (hsort h).1 hh
      refine ⟨h, hof, hP, hlo, hle, hlt, fun h' hof' hlo' hle' => ?_⟩
      exact hmax h' ((hsort h').2 ⟨hof', hlo', by omega⟩) hle'
    · rintro ⟨h, hof, hP, hlo, hle, hlt, hmax⟩
      refine ⟨h, (hsort h).2 ⟨hof, hlo, by omega⟩, hP, hle, hlt, fun h' hh' hle' => ?_⟩
      obtain ⟨hof', hlo', -⟩ := (hsort h').1 hh'
      exact hmax h' hof' hlo' hle'
  · intro h hh h' hh' heq
    obtain ⟨hr, hd⟩ := List.mem_filter.1 ((OrderBy.mem_sort _).1 hh)
    obtain ⟨hr', hd'⟩ := List.mem_filter.1 ((OrderBy.mem_sort _).1 hh')
    exact hu h hr h' hr' ((beq_iff_eq.1 hd).trans (beq_iff_eq.1 hd').symm) heq

/-- A report over any devices that include those reported. -/
theorem dwellOf_eq_sum {ds : Finset Bytes} (h : ∀ d ∈ db.reported deviceID lo hi, d ∈ ds) :
    dwellOf P (db.dwell host deviceID lo hi) = ∑ d ∈ ds, ((db.seconds host P deviceID d lo hi).card : Int) := by
  have hnd : (db.reported deviceID lo hi).Nodup := List.nodup_dedup _
  rw [dwellOf_dwell, ← List.sum_toFinset _ hnd]
  refine Finset.sum_subset (fun d hd => h d (List.mem_toFinset.1 hd)) fun d _ hd => ?_
  rw [seconds_eq_empty host fun hmem => hd (List.mem_toFinset.2 hmem)]
  rfl

/-- Every device with a heartbeat. -/
def allDevices (db : Database) : Finset Bytes := (db.heartbeats.rows.map (·.deviceId)).toFinset

theorem reported_subset : ∀ d ∈ db.reported deviceID lo hi, d ∈ db.allDevices := by
  intro d hd
  obtain ⟨h, hh, rfl⟩ := List.mem_map.1 (List.mem_dedup.1 hd)
  exact List.mem_toFinset.2 (List.mem_map.2 ⟨h, (mem_rng.1 hh).1, rfl⟩)

end Database

namespace Store

variable (host : Host) (db : Database) (deviceID : Bytes) (lo hi : Int)

/-- The report of a group. -/
theorem answer_dwellUsage {groupBy : Bytes} {group : Group} (hg : parseGroup groupBy = .ok group) :
    answer (dwellUsage host deviceID lo hi groupBy) db =
      .ok (Database.buckets host group (db.dwell host deviceID lo hi)) := by
  unfold answer dwellUsage
  rw [hg]
  rfl

theorem answer_activeRatio : answer (activeRatio host deviceID lo hi) db =
    .ok (Database.activeRatio (db.dwell host deviceID lo hi)) := rfl

/-- **Dwell totals measure covered time.** The three reports about a device
total the number of seconds of the window that one of its heartbeats covers,
and the fleet's reports the sum of the devices', whatever order each query
takes heartbeats of the same second in. -/
theorem dwell_totals (host₁ host₂ host₃ : Host) (db : Database) (lo hi : Int) :
    (∀ deviceID : Bytes, deviceID ≠ [] → ∃ byCategory byApp ratio,
      answer (dwellUsage host₁ deviceID lo hi (str "category")) db = .ok byCategory ∧
      answer (dwellUsage host₂ deviceID lo hi (str "app")) db = .ok byApp ∧
      answer (activeRatio host₃ deviceID lo hi) db = .ok ratio ∧
      totalSeconds byCategory = (db.coveredSeconds deviceID lo hi).card ∧
      totalSeconds byApp = (db.coveredSeconds deviceID lo hi).card ∧
      ratio.totalSeconds = (db.coveredSeconds deviceID lo hi).card) ∧
    ∃ byCategory byApp ratio,
      answer (dwellUsage host₁ [] lo hi (str "category")) db = .ok byCategory ∧
      answer (dwellUsage host₂ [] lo hi (str "app")) db = .ok byApp ∧
      answer (activeRatio host₃ [] lo hi) db = .ok ratio ∧
      ∀ ds : List Bytes, ds.Nodup → (∀ h ∈ db.heartbeats.rows, h.deviceId ∈ ds) →
        totalSeconds byCategory = (ds.map fun d => ((db.coveredSeconds d lo hi).card : Int)).sum ∧
        totalSeconds byApp = (ds.map fun d => ((db.coveredSeconds d lo hi).card : Int)).sum ∧
        ratio.totalSeconds = (ds.map fun d => ((db.coveredSeconds d lo hi).card : Int)).sum := by
  have hdevice : ∀ (host : Host) {deviceID : Bytes}, deviceID ≠ [] →
      Database.dwellOf (fun _ => true) (db.dwell host deviceID lo hi) = (db.coveredSeconds deviceID lo hi).card := by
    intro host deviceID hd
    rw [Database.dwellOf_device host hd, Database.seconds_true host (.inr rfl)]
  refine ⟨fun deviceID hd => ⟨_, _, _, rfl, rfl, rfl, ?_, ?_, ?_⟩, _, _, _, rfl, rfl, rfl, fun ds hds hall =>
    ⟨?_, ?_, ?_⟩⟩
  · rw [Database.totalSeconds_buckets, hdevice _ hd]
  · rw [Database.totalSeconds_buckets, hdevice _ hd]
  · rw [Database.totalSeconds_activeRatio, hdevice _ hd]
  · rw [Database.totalSeconds_buckets, Database.dwellOf_fleet _ hds hall]
  · rw [Database.totalSeconds_buckets, Database.dwellOf_fleet _ hds hall]
  · rw [Database.totalSeconds_activeRatio, Database.dwellOf_fleet _ hds hall]

theorem dwell_totals_two_devices :
    let db : Database := { heartbeats := {
      rows := [
        { id := str "a", deviceId := str "d", ts := 0, app := [], category := [], active := true,
          receivedAt := 0, agentSentAt := 0 },
        { id := str "b", deviceId := str "e", ts := 15, app := [], category := [], active := true,
          receivedAt := 0, agentSentAt := 0 }]
      nodup := by decide } }
    (∃ byApp, answer (dwellUsage insertionHost (str "e") 0 20 (str "app")) db = .ok byApp ∧ totalSeconds byApp = 5) ∧
    ∃ byApp, answer (dwellUsage insertionHost [] 0 20 (str "app")) db = .ok byApp ∧ totalSeconds byApp = 25 := by
  intro db
  obtain ⟨hdevice, _, byApp, _, -, hr, -, hfleet⟩ := dwell_totals insertionHost insertionHost insertionHost db 0 20
  obtain ⟨_, byApp', _, -, hr', -, -, h, -⟩ := hdevice (str "e") (by decide)
  refine ⟨⟨byApp', hr', h.trans (by decide)⟩, byApp, hr, ?_⟩
  exact (hfleet [str "d", str "e"] (by decide) (by decide)).2.1.trans (by decide)

end Store
end ScrewLogger
