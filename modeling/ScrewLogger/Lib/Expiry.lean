/-
Grants that expire, against the history of who was granted what.

`Live` says of a history that a key is good at a time: it was granted, not
longer ago than it lasts, and not dropped since. A check is `Exact` when from
some time on it accepts just the keys that are; `Exact.step` is the rule for one
more event.
-/
import Mathlib.Data.List.Induction
import Mathlib.Tactic.Common

namespace Lib

/-- What an event grants and drops, and when it happens. -/
structure Lease (ε κ : Type) where
  grants : ε → κ → Prop
  drops : ε → κ → Prop
  time : ε → Int
  /-- How long a grant lasts. -/
  ttl : Int

namespace Lease

variable {ε κ : Type} {L : Lease ε κ} {past : List ε} {e : ε} {k : κ} {now t : Int}

/-- The key was granted, at most the time to live before `t`, and not dropped since. -/
def Live (L : Lease ε κ) (past : List ε) (k : κ) (t : Int) : Prop :=
  ∃ before e after, past = before ++ e :: after ∧ L.grants e k ∧ t ≤ L.time e + L.ttl ∧ ∀ e' ∈ after, ¬ L.drops e' k

theorem not_live_nil : ¬ L.Live [] k t := by
  intro hlive
  obtain ⟨before, e, after, heq, -⟩ := hlive
  cases before <;> cases heq

theorem live_concat : L.Live (past ++ [e]) k t ↔
    (L.grants e k ∧ t ≤ L.time e + L.ttl) ∨ (L.Live past k t ∧ ¬ L.drops e k) := by
  constructor
  · intro hlive
    obtain ⟨before, e₀, after, heq, hgrants, hle, hkept⟩ := hlive
    rcases List.eq_nil_or_concat after with rfl | ⟨after', e', hafter⟩
    · obtain ⟨-, hlast⟩ := List.append_inj' heq rfl
      cases hlast
      exact .inl ⟨hgrants, hle⟩
    · rw [List.concat_eq_append] at hafter
      rw [hafter, ← List.cons_append, ← List.append_assoc] at heq
      obtain ⟨rfl, hlast⟩ := List.append_inj' heq rfl
      cases hlast
      rw [hafter, List.forall_mem_append] at hkept
      exact .inr ⟨⟨before, e₀, after', rfl, hgrants, hle, hkept.1⟩, hkept.2 e (List.mem_singleton_self e)⟩
  · intro hlive
    rcases hlive with ⟨hgrants, hle⟩ | ⟨⟨before, e₀, after, rfl, hgrants, hle, hkept⟩, hnot⟩
    · exact ⟨past, e, [], rfl, hgrants, hle, fun _ h => absurd h List.not_mem_nil⟩
    · refine ⟨before, e₀, after ++ [e], by simp, hgrants, hle, List.forall_mem_append.2 ⟨hkept, fun e' he' => ?_⟩⟩
      rwa [List.mem_singleton.1 he']

/-- From `now` on a check accepts a key just when the history says so. -/
structure Exact (L : Lease ε κ) (past : List ε) (now : Int) (valid : κ → Int → Prop) : Prop where
  earlier : ∀ e ∈ past, L.time e ≤ now
  valid_iff : ∀ k t, now ≤ t → (valid k t ↔ L.Live past k t)

variable {valid valid' : κ → Int → Prop}

/-- Nothing that is good now lasts longer than a grant from now. -/
theorem Exact.le (h : L.Exact past now valid) (hnow : now ≤ t) (hvalid : valid k t) : t ≤ now + L.ttl := by
  obtain ⟨before, e, after, rfl, -, hle, -⟩ := (h.valid_iff k t hnow).1 hvalid
  have hpast := h.earlier e (List.mem_append_right _ List.mem_cons_self)
  omega

theorem Exact.later {last : Int} (h : L.Exact past now valid) (hnow : now ≤ last) : L.Exact past last valid where
  earlier e he := by
    have hearlier := h.earlier e he
    omega
  valid_iff k t ht := h.valid_iff k t (by omega)

/-- **One more event.** -/
theorem Exact.step (h : L.Exact past now valid) (hnow : now ≤ L.time e)
    (hstep : ∀ k t, L.time e ≤ t →
      (valid' k t ↔ (L.grants e k ∧ t ≤ L.time e + L.ttl) ∨ (valid k t ∧ ¬ L.drops e k))) :
    L.Exact (past ++ [e]) (L.time e) valid' where
  earlier := by
    refine List.forall_mem_append.2 ⟨fun e' he' => ?_, fun e' he' => ?_⟩
    · have hpast := h.earlier e' he'
      omega
    · cases List.mem_singleton.1 he'
      exact Int.le_refl _
  valid_iff k t ht := by
    rw [hstep k t ht, live_concat, h.valid_iff k t (by omega)]

theorem exact_nil (hnone : ∀ k t, ¬ valid k t) : L.Exact [] now valid where
  earlier _ he := absurd he List.not_mem_nil
  valid_iff k t _ := iff_of_false (hnone k t) not_live_nil

end Lease

end Lib
