/-
When the heartbeat builder emits (`heartbeat.go`).

`emission_law`: an observation is emitted exactly when it is the first, when it
differs from the one just before, or when the latest emission is a keep-alive
ago. The builder does not keep the observation just before: it compares with the
one it last emitted, which `Tracks` says is of the same state.
-/
import ScrewLogger.Agent.Heartbeat

namespace ScrewLogger
open Lib

/-- The clock does not go back. -/
def Clocked (os : List Observation) : Prop := os.Pairwise fun o p => o.time.nanos ≤ p.time.nanos

namespace HeartbeatBuilder

variable {b : HeartbeatBuilder} {o p e : Observation} {os : List Observation}

/-- The builder after some observations. -/
def after (b : HeartbeatBuilder) (os : List Observation) : HeartbeatBuilder := os.foldl (fun b o => (b.observe o).2) b

/-- A heartbeat is emitted for `o`, once `os` have been observed. -/
def emits (b : HeartbeatBuilder) (os : List Observation) (o : Observation) : Bool := ((b.after os).observe o).1.isSome

/-- The observations that a heartbeat is emitted for. -/
def emittedOf (b : HeartbeatBuilder) : List Observation → List Observation
  | [] => []
  | o :: os => if (b.observe o).1.isSome then o :: emittedOf (b.observe o).2 os else emittedOf (b.observe o).2 os

theorem observe_due (h : b.due o = true) : b.observe o = (some (heartbeat o), b.emitted o) := by
  rw [observe, if_pos h]

theorem observe_not_due (h : b.due o = false) : b.observe o = (none, b) := by
  rw [observe, if_neg (by simp [h])]

theorem after_concat : b.after (os ++ [o]) = ((b.after os).observe o).2 := by
  rw [after, List.foldl_append]
  rfl

theorem emits_eq : b.emits os o = (b.after os).due o := by
  cases hdue : (b.after os).due o with
  | true => rw [emits, observe_due hdue, Option.isSome_some]
  | false => rw [emits, observe_not_due hdue, Option.isSome_none]

theorem emittedOf_concat :
    b.emittedOf (os ++ [o]) = if b.emits os o then b.emittedOf os ++ [o] else b.emittedOf os := by
  induction os generalizing b with
  | nil => rfl
  | cons p os ih =>
    have hemits : b.emits (p :: os) o = (b.observe p).2.emits os o := rfl
    rw [hemits, List.cons_append, emittedOf, emittedOf, ih]
    split
    · split <;> rfl
    · rfl

/-- The heartbeats, and the observations they are of. -/
theorem emissions_eq {b : HeartbeatBuilder} : ∀ {os : List Observation},
    b.emissions os = (b.emittedOf os).map heartbeat
  | [] => rfl
  | o :: os => by
    cases hdue : b.due o with
    | true =>
      rw [emissions_due hdue, emittedOf, observe_due hdue, emissions_eq]
      rfl
    | false =>
      rw [emissions_not_due hdue, emittedOf, observe_not_due hdue, emissions_eq]
      rfl

/-! ## What the builder keeps -/

/-- The builder, when `p` is the latest observation and `e` the latest emitted. -/
structure Tracks (k : Int) (p e : Observation) (b : HeartbeatBuilder) : Prop where
  keepAlive : b.keepAlive = k
  started : b.started = true
  curApp : b.curApp = p.app
  curActive : b.curActive = p.active
  app : e.app = p.app
  active : e.active = p.active
  lastEmit : b.lastEmit = e.time

variable {k : Int}

/-- **When a heartbeat is due.** -/
theorem Tracks.due_iff (h : Tracks k p e b) (hlow : -0x8000000000000000 < k) (hhigh : k < 0x8000000000000000) :
    b.due o = true ↔ o.app ≠ p.app ∨ o.active ≠ p.active ∨ k ≤ o.time.nanos - e.time.nanos := by
  rw [due, h.started, h.curApp, h.curActive, h.keepAlive, h.lastEmit]
  simp only [Bool.not_true, Bool.false_or, Bool.or_eq_true, bne_iff_ne, decide_eq_true_eq, or_assoc,
    Time.le_sub hlow hhigh]

theorem tracks_emitted (hk : b.keepAlive = k) : Tracks k o o (b.emitted o) := ⟨hk, rfl, rfl, rfl, rfl, rfl, rfl⟩

/-- An observation that no heartbeat is due for is of the state before. -/
theorem Tracks.not_due (h : Tracks k p e b) (hdue : b.due o = false) : Tracks k o e b := by
  simp only [due, Bool.or_eq_false_iff, bne_eq_false_iff_eq] at hdue
  obtain ⟨⟨⟨-, happ⟩, hactive⟩, -⟩ := hdue
  refine ⟨h.keepAlive, h.started, happ.symm, hactive.symm, ?_, ?_, h.lastEmit⟩
  · rw [happ, h.curApp, h.app]
  · rw [hactive, h.curActive, h.active]

/-- **One observation.** -/
theorem Tracks.observe (h : Tracks k p e b) (o : Observation) :
    Tracks k o (if b.due o then o else e) (b.observe o).2 := by
  cases hdue : b.due o with
  | true =>
    rw [observe_due hdue]
    exact tracks_emitted h.keepAlive
  | false =>
    rw [observe_not_due hdue]
    exact h.not_due hdue

/-- **Any observations.** By induction on them, from the end. -/
theorem tracks_after (hne : os ≠ []) : ∃ p e, os.getLast? = some p ∧
    ((newHeartbeatBuilder k).emittedOf os).getLast? = some e ∧ Tracks k p e ((newHeartbeatBuilder k).after os) := by
  induction os using List.reverseRecOn with
  | nil => exact absurd rfl hne
  | append_singleton os o ih =>
    refine ⟨o, ?_⟩
    rw [after_concat, emittedOf_concat, emits_eq, List.getLast?_concat]
    by_cases hos : os = []
    · subst hos
      exact ⟨o, rfl, rfl, tracks_emitted rfl⟩
    · obtain ⟨p, e, -, he, htracks⟩ := ih hos
      refine ⟨_, rfl, ?_, htracks.observe o⟩
      split
      · exact List.getLast?_concat
      · exact he

/-! ## The law -/

theorem emittedOf_sublist {b : HeartbeatBuilder} : ∀ {os : List Observation}, (b.emittedOf os).Sublist os
  | [] => .slnil
  | o :: os => by
    rw [emittedOf]
    split
    · exact emittedOf_sublist.cons_cons o
    · exact emittedOf_sublist.cons o

theorem unix_mono {s t : Time} (h : s.nanos ≤ t.nanos) : s.unix ≤ t.unix := by
  rw [Int64.le_iff_toInt_le, Time.toInt_unix, Time.toInt_unix]
  exact Int.ediv_le_ediv (by decide) h

/-- The heartbeats' times do not go back, either. -/
theorem emissions_ts (h : Clocked os) : (b.emissions os).Pairwise (·.ts ≤ ·.ts) := by
  rw [emissions_eq, List.pairwise_map]
  exact (List.Pairwise.sublist emittedOf_sublist h).imp unix_mono

/-- **The emission law.** -/
theorem emission_law {k : Int64} (hk : 0 < k.toInt) {before : List Observation} (hclock : Clocked (before ++ [o])) :
    let b := newHeartbeatBuilder k.toInt
    (b.emits before o = true ↔
      before = [] ∨ (∃ p, before.getLast? = some p ∧ (o.app ≠ p.app ∨ o.active ≠ p.active)) ∨
        ∃ e, (b.emittedOf before).getLast? = some e ∧ k.toInt ≤ o.time.nanos - e.time.nanos) ∧
      (∃ h, (b.emissions (before ++ [o])).getLast? = some h ∧ h.app = o.app ∧ h.active = o.active) ∧
      (b.emissions (before ++ [o])).Pairwise (·.ts ≤ ·.ts) := by
  intro b
  have hhigh := k.toInt_lt
  refine ⟨?_, ?_, emissions_ts hclock⟩
  · by_cases hbefore : before = []
    · subst hbefore
      exact ⟨fun _ => .inl rfl, fun _ => rfl⟩
    · obtain ⟨p, e, hp, he, htracks⟩ := tracks_after (k := k.toInt) hbefore
      rw [emits_eq, htracks.due_iff (by omega) (by omega), hp, he]
      simp [hbefore, or_assoc]
  · obtain ⟨p, e, hp, he, htracks⟩ := @tracks_after (before ++ [o]) k.toInt (by simp)
    rw [List.getLast?_concat, Option.some.injEq] at hp
    subst hp
    rw [emissions_eq, List.getLast?_map, he]
    exact ⟨heartbeat e, rfl, htracks.app, htracks.active⟩

/-- The same app a keep-alive later. -/
theorem emits_keepAlive : (newHeartbeatBuilder (15000000000 : Int64).toInt).emits [⟨.epoch, str "word.exe", true⟩]
    ⟨⟨15000000000, by decide, by decide⟩, str "word.exe", true⟩ = true := by
  refine (emission_law (by decide) ?_).1.2 (.inr (.inr ⟨_, rfl, by decide⟩))
  simp [Clocked, Time.epoch]

end HeartbeatBuilder
end ScrewLogger
