/-
What applying a category to the history does to the reports (`rules.go`).

A heartbeat's dwell seconds come from its device and time and those of the
next, which the update leaves alone. `recategorize_conserves`: the seconds of the
matching heartbeats of the window go from their categories to the new one, and
nothing else changes.
-/
import ScrewLogger.Server.Dwell
import ScrewLogger.Server.StoreFacts

namespace ScrewLogger
open Lib Lib.Eff

variable {pattern category : Bytes}

@[simp] theorem recategorized_ts (h : HeartbeatRow) : (recategorized pattern category h).ts = h.ts := by
  unfold recategorized
  split <;> rfl

@[simp] theorem recategorized_deviceId (h : HeartbeatRow) :
    (recategorized pattern category h).deviceId = h.deviceId := by
  unfold recategorized
  split <;> rfl

@[simp] theorem recategorized_app (h : HeartbeatRow) : (recategorized pattern category h).app = h.app := by
  unfold recategorized
  split <;> rfl

@[simp] theorem recategorized_active (h : HeartbeatRow) : (recategorized pattern category h).active = h.active := by
  unfold recategorized
  split <;> rfl

/-- A heartbeat with its dwell seconds, its category applied. -/
def Dwell.recategorized (pattern category : Bytes) (d : Dwell) : Dwell :=
  { d with row := ScrewLogger.recategorized pattern category d.row }

/-- The engine takes heartbeats of the same second in the same order after the update. -/
def KeepsTies (host : Host) (pattern category : Bytes) (db : Database) : Prop :=
  ∀ l : List HeartbeatRow, l.Sublist db.heartbeats.rows →
    (host.orderBy HeartbeatRow.ts).sort (l.map (recategorized pattern category)) =
      ((host.orderBy HeartbeatRow.ts).sort l).map (recategorized pattern category)

/-- An engine that goes by insertion does. -/
theorem keepsTies_insertionHost (db : Database) : KeepsTies insertionHost pattern category db := fun l _ =>
  (List.map_insertionSort (fun a b : HeartbeatRow => a.ts ≤ b.ts) (fun a b : HeartbeatRow => a.ts ≤ b.ts)
    (recategorized pattern category) l (fun a _ b _ => by simp)).symm

namespace Database

variable {host : Host} {db db' : Database} {deviceID : Bytes} {lo hi : Int}

theorem eq_of_tables (hdevices : db.devices = db'.devices) (hheartbeats : db.heartbeats = db'.heartbeats)
    (hrules : db.rules = db'.rules) (hkeys : db.apiKeys = db'.apiKeys) : db = db' := by
  cases db
  cases db'
  cases hdevices
  cases hheartbeats
  cases hrules
  cases hkeys
  rfl

theorem rng_recategorized (h : db'.heartbeats.rows = db.heartbeats.rows.map (recategorized pattern category)) :
    db'.rng deviceID lo hi = (db.rng deviceID lo hi).map (recategorized pattern category) := by
  unfold rng
  rw [h, List.filter_map]
  refine congrArg _ (List.filter_congr fun r _ => ?_)
  simp [ofDevice]

/-- **The rows of a report** are those of before, with the category applied. -/
theorem dwell_recategorized (h : db'.heartbeats.rows = db.heartbeats.rows.map (recategorized pattern category))
    (hties : KeepsTies host pattern category db) :
    db'.dwell host deviceID lo hi = (db.dwell host deviceID lo hi).map (Dwell.recategorized pattern category) := by
  have hdevices : (db'.rng deviceID lo hi).map (·.deviceId) = (db.rng deviceID lo hi).map (·.deviceId) := by
    rw [rng_recategorized h, List.map_map]
    exact List.map_congr_left fun r _ => recategorized_deviceId r
  have hpaired : paired host (db'.rng deviceID lo hi) =
      (paired host (db.rng deviceID lo hi)).map fun p => (recategorized pattern category p.1, p.2) := by
    unfold paired
    rw [hdevices, List.map_flatMap]
    refine List.flatMap_congr fun d _ => ?_
    have hdevice : (db'.rng deviceID lo hi).filter (·.deviceId == d) =
        ((db.rng deviceID lo hi).filter (·.deviceId == d)).map (recategorized pattern category) := by
      rw [rng_recategorized h, List.filter_map]
      refine congrArg _ (List.filter_congr fun r _ => ?_)
      simp
    have hsublist : ((db.rng deviceID lo hi).filter (·.deviceId == d)).Sublist db.heartbeats.rows :=
      List.filter_sublist.trans List.filter_sublist
    rw [hdevice, hties _ hsublist, lead_map]
    simp only [recategorized_ts]
  unfold dwell
  rw [hpaired, List.map_map, List.map_map]
  refine List.map_congr_left fun p _ => ?_
  simp [Dwell.recategorized, secs]

variable {l : List Dwell}

theorem dwellOf_recategorized (P : HeartbeatRow → Bool) : dwellOf P (l.map (Dwell.recategorized pattern category)) =
    dwellOf (fun h => P (recategorized pattern category h)) l := by
  rw [dwellOf, List.filter_map, List.map_map]
  rfl

/-- A report by app is the same. -/
theorem buckets_app_recategorized :
    buckets host .app (l.map (Dwell.recategorized pattern category)) = buckets host .app l := by
  unfold buckets
  rw [List.map_map]
  simp only [dwellOf_recategorized, Group.key, recategorized_app]
  refine congrArg _ (congrArg _ (congrArg _ (List.map_congr_left fun d _ => ?_)))
  exact recategorized_app d.row

theorem activeRatio_recategorized :
    activeRatio (l.map (Dwell.recategorized pattern category)) = activeRatio l := by
  unfold activeRatio
  simp only [dwellOf_recategorized, recategorized_active]

/-- The seconds of two kinds of heartbeats that exclude each other. -/
theorem dwellOf_or {P Q R : HeartbeatRow → Bool} (hor : ∀ h, R h = (P h || Q h)) (hnot : ∀ h, (P h && Q h) = false) :
    dwellOf R l = dwellOf P l + dwellOf Q l := by
  induction l with
  | nil => rfl
  | cons d l ih =>
    rw [dwellOf_cons, dwellOf_cons, dwellOf_cons, ih, hor d.row]
    have hd := hnot d.row
    cases hP : P d.row <;> cases hQ : Q d.row <;> simp [hP, hQ] at hd ⊢ <;> omega

/-- The matching heartbeats with `P`. -/
def matching (pattern : Bytes) (P : HeartbeatRow → Bool) (h : HeartbeatRow) : Bool :=
  decide (Matched pattern h) && P h

/-- What the new category gains: the matching heartbeats that were of another. -/
theorem dwellOf_gained : dwellOf (fun h => (recategorized pattern category h).category == category) l =
    dwellOf (fun h => h.category == category) l + dwellOf (matching pattern fun h => h.category != category) l := by
  refine dwellOf_or (fun h => ?_) fun h => ?_
  · unfold recategorized matching
    by_cases hm : Matched pattern h
    · rw [if_pos hm]
      simp [hm, bne]
    · rw [if_neg hm]
      simp [hm]
  · unfold matching
    cases hc : h.category == category <;> simp [bne, hc]

/-- What another loses: the matching heartbeats that were its own. -/
theorem dwellOf_lost {k : Bytes} (hk : k ≠ category) :
    dwellOf (fun h => h.category == k) l = dwellOf (fun h => (recategorized pattern category h).category == k) l +
      dwellOf (matching pattern fun h => h.category == k) l := by
  refine dwellOf_or (fun h => ?_) fun h => ?_
  · unfold recategorized matching
    by_cases hm : Matched pattern h
    · rw [if_pos hm]
      simp [hm, beq_false_of_ne (Ne.symm hk)]
    · rw [if_neg hm]
      simp [hm]
  · unfold recategorized matching
    by_cases hm : Matched pattern h
    · rw [if_pos hm]
      simp [beq_false_of_ne (Ne.symm hk)]
    · simp [hm]

end Database

namespace Store

/-- The second time nothing changes. -/
theorem recategorize_again {w w' : World}
    (hrows : w.db.heartbeats.rows = w'.db.heartbeats.rows.map (recategorized pattern category)) :
    (recategorize pattern category w).2.db = w.db := by
  obtain ⟨n, -, hdevices, hrules, hkeys, hrows'⟩ | ⟨e, -, -, hdb⟩ := (atomic_recategorize pattern category).ends w
  · have hsame : (recategorize pattern category w).2.db.heartbeats = w.db.heartbeats := by
      refine Table.ext ?_
      rw [hrows', hrows, List.map_map]
      exact List.map_congr_left fun h _ => recategorized_twice
    exact Database.eq_of_tables hdevices hsame hrules hkeys
  · exact hdb

/-- **Recategorizing conserves time.** -/
theorem recategorize_conserves (host : Host) (w : World) (pattern category deviceID : Bytes) (lo hi : Int) (n : Nat)
    (hties : KeepsTies host pattern category w.db) (hdone : (recategorize pattern category w).1 = .ok n) :
    let w' := (recategorize pattern category w).2
    let dwell := w.db.dwell host deviceID lo hi
    answer (dwellUsage host deviceID lo hi (str "app")) w'.db =
      answer (dwellUsage host deviceID lo hi (str "app")) w.db ∧
      answer (activeRatio host deviceID lo hi) w'.db = answer (activeRatio host deviceID lo hi) w.db ∧
      (∃ before after, answer (dwellUsage host deviceID lo hi (str "category")) w.db = .ok before ∧
        answer (dwellUsage host deviceID lo hi (str "category")) w'.db = .ok after ∧
        totalSeconds after = totalSeconds before ∧
        secondsOf category after = secondsOf category before +
          Database.dwellOf (Database.matching pattern fun h => h.category != category) dwell ∧
        ∀ k, k ≠ category → secondsOf k after = secondsOf k before -
          Database.dwellOf (Database.matching pattern fun h => h.category == k) dwell) ∧
      (recategorize pattern category w').2.db = w'.db := by
  intro w' dwell
  have hrows : w'.db.heartbeats.rows = w.db.heartbeats.rows.map (recategorized pattern category) := by
    obtain ⟨n', -, -, -, -, hrows⟩ | ⟨e, herr, -, -⟩ := (atomic_recategorize pattern category).ends w
    · exact hrows
    · rw [hdone] at herr
      cases herr
  have hdwell : w'.db.dwell host deviceID lo hi = dwell.map (Dwell.recategorized pattern category) :=
    Database.dwell_recategorized hrows hties
  refine ⟨?_, ?_, ⟨_, _, rfl, rfl, ?_, ?_, fun k hk => ?_⟩, recategorize_again hrows⟩
  · rw [answer_dwellUsage host _ _ _ _ rfl, answer_dwellUsage host _ _ _ _ rfl, hdwell,
      Database.buckets_app_recategorized]
  · rw [answer_activeRatio, answer_activeRatio, hdwell, Database.activeRatio_recategorized]
  · rw [Database.totalSeconds_buckets, Database.totalSeconds_buckets, hdwell, Database.dwellOf_recategorized]
  · rw [Database.secondsOf_buckets, Database.secondsOf_buckets, hdwell, Database.dwellOf_recategorized]
    exact Database.dwellOf_gained
  · rw [Database.secondsOf_buckets, Database.secondsOf_buckets, hdwell, Database.dwellOf_recategorized]
    have hlost := @Database.dwellOf_lost pattern category dwell k hk
    exact eq_sub_of_add_eq hlost.symm

/-- A world with a heartbeat of each of two apps. -/
def twoApps : World where
  db := { heartbeats := {
    rows := [
      { id := str "a", deviceId := str "d", ts := 0, app := str "Code.exe", category := str "misc", active := true,
        receivedAt := 0, agentSentAt := 0 },
      { id := str "b", deviceId := str "d", ts := 10, app := str "mail.exe", category := str "misc", active := false,
        receivedAt := 0, agentSentAt := 0 }]
    nodup := by decide } }
  clock := fun _ => .epoch
  entropy := fun _ => 0

/-- Ten seconds go to the new category. -/
theorem recategorize_code :
    let w' := (recategorize (str "code*") (str "dev") twoApps).2
    ∃ before after, answer (dwellUsage insertionHost [] 0 15 (str "category")) twoApps.db = .ok before ∧
      answer (dwellUsage insertionHost [] 0 15 (str "category")) w'.db = .ok after ∧
      secondsOf (str "dev") after = secondsOf (str "dev") before + 10 ∧
      secondsOf (str "misc") after = secondsOf (str "misc") before - 10 := by
  intro w'
  obtain ⟨-, -, ⟨before, after, hbefore, hafter, -, hgained, hlost⟩, -⟩ :=
    recategorize_conserves insertionHost twoApps (str "code*") (str "dev") [] 0 15 1 (keepsTies_insertionHost _)
      (by decide +kernel)
  refine ⟨before, after, hbefore, hafter, hgained.trans (congrArg _ (by decide +kernel)), ?_⟩
  exact (hlost (str "misc") (by decide)).trans (congrArg _ (by decide +kernel))

end Store

end ScrewLogger
