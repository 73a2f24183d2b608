/-
Machines that take actions, each in the states that allow it.

`actAll_inv` is the rule for what holds after every run, and `actAll_inv_of` the
one for the runs whose actions all meet a condition, each in the state it is
taken in.
-/
import Mathlib.Init

namespace Lib

variable {σ α : Type}

/-- The state that actions taken one after the other lead to. -/
def actAll (act : σ → α → Option σ) : List α → σ → Option σ
  | [], s => some s
  | a :: as, s => (act s a).bind (actAll act as)

/-- Each action meets `P` in the state it is taken in. -/
def EachMeets (act : σ → α → Option σ) (P : σ → α → Prop) : List α → σ → Prop
  | [], _ => True
  | a :: as, s => P s a ∧ (act s a).elim True (EachMeets act P as)

instance decidableEachMeets {act : σ → α → Option σ} {P : σ → α → Prop} [∀ s a, Decidable (P s a)] :
    ∀ (as : List α) (s : σ), Decidable (EachMeets act P as s)
  | [], _ => .isTrue trivial
  | a :: as, s =>
    have : Decidable ((act s a).elim True (EachMeets act P as)) :=
      match act s a with
      | none => .isTrue trivial
      | some s' => decidableEachMeets as s'
    inferInstanceAs (Decidable (P s a ∧ (act s a).elim True (EachMeets act P as)))

variable {act : σ → α → Option σ} {P : σ → α → Prop} {I : σ → Prop}

/-- **Runs whose actions meet a condition.** -/
theorem actAll_inv_of (hact : ∀ {s a s'}, I s → P s a → act s a = some s' → I s') :
    ∀ {as : List α} {s s' : σ}, I s → EachMeets act P as s → actAll act as s = some s' → I s'
  | [], _, _, hI, _, hrun => by
    cases hrun
    exact hI
  | a :: as, s, s', hI, hmeets, hrun => by
    obtain ⟨t, ht, hrun⟩ := Option.bind_eq_some_iff.1 hrun
    obtain ⟨hP, hmeets⟩ := hmeets
    rw [ht] at hmeets
    exact actAll_inv_of hact (hact hI hP ht) hmeets hrun

/-- **Every run.** -/
theorem actAll_inv (hact : ∀ {s a s'}, I s → act s a = some s' → I s') :
    ∀ {as : List α} {s s' : σ}, I s → actAll act as s = some s' → I s'
  | [], _, _, hI, hrun => by
    cases hrun
    exact hI
  | a :: as, s, s', hI, hrun => by
    obtain ⟨t, ht, hrun⟩ := Option.bind_eq_some_iff.1 hrun
    exact actAll_inv hact (hact hI ht) hrun

end Lib
