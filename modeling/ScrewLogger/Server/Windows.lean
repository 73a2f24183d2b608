/-
Dwell reports of adjacent windows.

The window's filter comes before the gaps are computed, so a heartbeat's time
ends where its window does: what of it would reach past the cut is in neither
half's report. `usage_additive_iff` says exactly when nothing is lost so: when
no heartbeat of the key is the last of its device at the cut and less than
`maxHeartbeatGap` old there.
-/
import ScrewLogger.Server.Dwell

namespace ScrewLogger
open Lib Lib.Eff

namespace Database

variable {db : Database} {deviceID : Bytes} {P : HeartbeatRow → Bool}


/-- Some heartbeat with `P` of the report's devices and the window's first
half is, at the cut, the last of its device and less than the cap old. -/
def Straddles (P : HeartbeatRow → Bool) (db : Database) (deviceID : Bytes) (lo mid hi : Int) : Prop :=
  ∃ h ∈ db.heartbeats.rows, ofDevice deviceID h = true ∧ P h = true ∧ (lo ≤ h.ts ∧ h.ts < mid) ∧ mid < hi ∧
    mid < h.ts + maxHeartbeatGap ∧ ∀ h' ∈ db.heartbeats.rows, h'.deviceId = h.deviceId → h'.ts ≤ mid → h'.ts ≤ h.ts

variable {lo mid hi : Int} (host host₁ host₂ : Host)

/-- Seconds of a half are seconds of the whole. -/
theorem seconds_halves (hu : ∀ lo hi, Uniform P db deviceID lo hi) (hlo : lo ≤ mid) (hhi : mid ≤ hi) {d : Bytes} :
    db.seconds host₁ P deviceID d lo mid ∪ db.seconds host₂ P deviceID d mid hi ⊆
      db.seconds host P deviceID d lo hi := by
  intro s hs
  rw [mem_seconds host (hu lo hi)]
  rcases Finset.mem_union.1 hs with hs | hs
  · obtain ⟨hw, h⟩ := (mem_seconds host₁ (hu lo mid)).1 hs
    exact ⟨by omega, h⟩
  · obtain ⟨hw, h, hof, hP, hmid, hle, hlt, hmax⟩ := (mem_seconds host₂ (hu mid hi)).1 hs
    refine ⟨by omega, h, hof, hP, by omega, hle, hlt, fun h' hof' _ hle' => ?_⟩
    by_cases hm : mid ≤ h'.ts
    · exact hmax h' hof' hm hle'
    · omega

theorem seconds_halves_disjoint {d : Bytes} :
    Disjoint (db.seconds host₁ P deviceID d lo mid) (db.seconds host₂ P deviceID d mid hi) := by
  rw [Finset.disjoint_left]
  intro s h₁ h₂
  have := (mem_attributed.1 h₁).1
  have := (mem_attributed.1 h₂).1
  omega

/-- A device's seconds that are lost at the cut are a straddling heartbeat's. -/
theorem seconds_lost (hu : ∀ lo hi, Uniform P db deviceID lo hi) (hlo : lo ≤ mid) {d : Bytes} {s : Int}
    (hs : s ∈ db.seconds host P deviceID d lo hi)
    (hlost : s ∉ db.seconds host₁ P deviceID d lo mid ∪ db.seconds host₂ P deviceID d mid hi) :
    Straddles P db deviceID lo mid hi := by
  rw [Finset.mem_union, not_or, mem_seconds host₁ (hu lo mid), mem_seconds host₂ (hu mid hi)] at hlost
  obtain ⟨hw, h, hof, hP, hlo', hle, hlt, hmax⟩ := (mem_seconds host (hu lo hi)).1 hs
  have hmid : mid ≤ s := by
    by_contra hlt'
    exact hlost.1 ⟨by omega, h, hof, hP, hlo', hle, hlt, hmax⟩
  have hbefore : h.ts < mid := by
    by_contra hge
    refine hlost.2 ⟨by omega, h, hof, hP, by omega, hle, hlt, fun h' hof' hm' => hmax h' hof' (by omega)⟩
  refine ⟨h, hof.1, hof.2.1, hP, ⟨hlo', hbefore⟩, by omega, by omega, fun h' hmem' hd' hle' => ?_⟩
  by_cases hl : lo ≤ h'.ts
  · have hdev : ofDevice deviceID h' = true := by
      have := hof.2.1
      simp only [ofDevice] at this ⊢
      rw [hd']
      exact this
    exact hmax h' ⟨hmem', hdev, hd'.trans hof.2.2⟩ hl (by omega)
  · omega

/-- The cut itself is lost where a heartbeat straddles it. -/
theorem mid_lost (hu : ∀ lo hi, Uniform P db deviceID lo hi) (hst : Straddles P db deviceID lo mid hi) :
    ∃ d ∈ db.allDevices, mid ∈ db.seconds host P deviceID d lo hi ∧
      mid ∉ db.seconds host₁ P deviceID d lo mid ∪ db.seconds host₂ P deviceID d mid hi := by
  obtain ⟨h, hmem, hdev, hP, hw, hhi, hgap, hlast⟩ := hst
  refine ⟨h.deviceId, List.mem_toFinset.2 (List.mem_map.2 ⟨h, hmem, rfl⟩), ?_, ?_⟩
  · rw [mem_seconds host (hu lo hi)]
    refine ⟨by omega, h, ⟨hmem, hdev, rfl⟩, hP, hw.1, by omega, hgap, fun h' hof' _ hle => ?_⟩
    exact hlast h' hof'.1 hof'.2.2 hle
  · rw [Finset.mem_union, mem_seconds host₁ (hu lo mid), mem_seconds host₂ (hu mid hi)]
    rintro (⟨hlt, -⟩ | ⟨-, h', hof', -, hge, hle, -⟩)
    · omega
    · have := hlast h' hof'.1 hof'.2.2 hle
      omega

/-- The report of a window is its halves' together exactly when no heartbeat
straddles the cut. -/
theorem dwellOf_additive_iff (hu : ∀ lo hi, Uniform P db deviceID lo hi) (hlo : lo ≤ mid) (hhi : mid ≤ hi) :
    dwellOf P (db.dwell host deviceID lo hi) =
        dwellOf P (db.dwell host₁ deviceID lo mid) + dwellOf P (db.dwell host₂ deviceID mid hi) ↔
      ¬ Straddles P db deviceID lo mid hi := by
  rw [dwellOf_eq_sum host reported_subset, dwellOf_eq_sum host₁ reported_subset,
    dwellOf_eq_sum host₂ reported_subset, ← Finset.sum_add_distrib, eq_comm]
  have hcard : ∀ d, ((db.seconds host₁ P deviceID d lo mid).card : Int) + (db.seconds host₂ P deviceID d mid hi).card =
      (db.seconds host₁ P deviceID d lo mid ∪ db.seconds host₂ P deviceID d mid hi).card := by
    intro d
    rw [Finset.card_union_of_disjoint (seconds_halves_disjoint host₁ host₂), Nat.cast_add]
  simp only [hcard]
  have hle : ∀ d ∈ db.allDevices, ((db.seconds host₁ P deviceID d lo mid ∪
      db.seconds host₂ P deviceID d mid hi).card : Int) ≤ (db.seconds host P deviceID d lo hi).card := by
    intro d _
    exact Int.ofNat_le.2 (Finset.card_le_card (seconds_halves host host₁ host₂ hu hlo hhi))
  rw [Finset.sum_eq_sum_iff_of_le hle]
  constructor
  · intro heq hst
    obtain ⟨d, hd, hmem, hlost⟩ := mid_lost host host₁ host₂ hu hst
    have := Finset.eq_of_subset_of_card_le (seconds_halves host host₁ host₂ hu hlo hhi) (Int.ofNat_le.1 (heq d hd).ge)
    exact hlost (this ▸ hmem)
  · intro hst d _
    refine congrArg _ (congrArg _ (Finset.Subset.antisymm (seconds_halves host host₁ host₂ hu hlo hhi) fun s hs => ?_))
    by_contra hlost
    exact hst (seconds_lost host host₁ host₂ hu hlo hs hlost)

end Database

namespace Store

/-- No device has two heartbeats of the same second. -/
def NoTies (db : Database) : Prop :=
  ∀ h ∈ db.heartbeats.rows, ∀ h' ∈ db.heartbeats.rows, h.deviceId = h'.deviceId → h.ts = h'.ts → h = h'

instance (db : Database) : Decidable (NoTies db) := by
  unfold NoTies
  infer_instance

/-- **When dwell is additive over adjacent windows.** For tables without ties, a
key's seconds in a window are its seconds in the two parts exactly when no
heartbeat with that key straddles the cut. -/
theorem usage_additive_iff (host₁ host₂ host₃ : Host) (db : Database) (hties : NoTies db) (deviceID : Bytes)
    {lo mid hi : Int} (hlo : lo ≤ mid) (hhi : mid ≤ hi) {groupBy : Bytes} {group : Group}
    (hg : parseGroup groupBy = .ok group) (k : Bytes) :
    ∃ whole left right,
      answer (dwellUsage host₁ deviceID lo hi groupBy) db = .ok whole ∧
      answer (dwellUsage host₂ deviceID lo mid groupBy) db = .ok left ∧
      answer (dwellUsage host₃ deviceID mid hi groupBy) db = .ok right ∧
      (secondsOf k whole = secondsOf k left + secondsOf k right ↔
        ¬ Database.Straddles (fun h => group.key h == k) db deviceID lo mid hi) := by
  refine ⟨_, _, _, answer_dwellUsage host₁ db deviceID lo hi hg, answer_dwellUsage host₂ db deviceID lo mid hg,
    answer_dwellUsage host₃ db deviceID mid hi hg, ?_⟩
  rw [Database.secondsOf_buckets, Database.secondsOf_buckets, Database.secondsOf_buckets]
  refine Database.dwellOf_additive_iff host₁ host₂ host₃ (fun lo hi h hh h' hh' hd ht => ?_) hlo hhi
  rw [hties h (Database.mem_rng.1 hh).1 h' (Database.mem_rng.1 hh').1 hd ht]

/-- A heartbeat at 0 and a window cut at 10: the second part has no heartbeat
of its own, and the seconds from 10 to 30 are in neither part. -/
def straddled : Database where
  heartbeats := .single
    { id := str "h", deviceId := str "d", ts := 0, app := str "code.exe", category := str "dev", active := true,
      receivedAt := 0, agentSentAt := 0 }

theorem usage_loses_straddling : NoTies straddled ∧
    answer (dwellUsage insertionHost (str "d") 0 60 (str "app")) straddled = .ok [⟨str "code.exe", 30⟩] ∧
    answer (dwellUsage insertionHost (str "d") 0 10 (str "app")) straddled = .ok [⟨str "code.exe", 10⟩] ∧
    answer (dwellUsage insertionHost (str "d") 10 60 (str "app")) straddled = .ok [] ∧
    secondsOf (str "code.exe") [⟨str "code.exe", 30⟩] ≠
      secondsOf (str "code.exe") [⟨str "code.exe", 10⟩] + secondsOf (str "code.exe") [] :=
  ⟨by decide, by rfl, by rfl, by rfl, by decide⟩

/-- An active heartbeat of an app. -/
def rowAt (id device : String) (ts : Int) (app : String) : HeartbeatRow :=
  ⟨str id, str device, ts, str app, str "dev", true, 0, 0⟩

/-- Another app follows before the cut, and the app again after it. -/
def takenOver : Database where
  heartbeats :=
    { rows := [rowAt "1" "d" 0 "code.exe", rowAt "2" "d" 20 "mail.exe", rowAt "3" "e" 25 "code.exe",
        rowAt "4" "d" 40 "code.exe"]
      nodup := by decide }

theorem usage_additive_at_gap : ∃ whole left right,
    answer (dwellUsage insertionHost (str "d") 0 60 (str "app")) takenOver = .ok whole ∧
    answer (dwellUsage insertionHost (str "d") 0 30 (str "app")) takenOver = .ok left ∧
    answer (dwellUsage insertionHost (str "d") 30 60 (str "app")) takenOver = .ok right ∧
    secondsOf (str "code.exe") whole = secondsOf (str "code.exe") left + secondsOf (str "code.exe") right := by
  obtain ⟨whole, left, right, h₁, h₂, h₃, hiff⟩ := usage_additive_iff insertionHost insertionHost insertionHost
    takenOver (by decide) (str "d") (by decide : (0 : Int) ≤ 30) (by decide : (30 : Int) ≤ 60)
    (rfl : parseGroup (str "app") = .ok .app) (str "code.exe")
  refine ⟨whole, left, right, h₁, h₂, h₃, hiff.2 ?_⟩
  unfold Database.Straddles
  decide

end Store
end ScrewLogger
