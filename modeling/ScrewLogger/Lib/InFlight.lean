/-
Requests in flight on a shared state, each somewhere in its code, whose atomic
steps are interleaved in any order.

`run_inv` is the rule for what holds in every interleaving: an invariant of the
shared state and an assertion of each request about where it is, each kept by
the request's own steps and by the others'. `inSteps` makes the code of a
request out of a program with one point where others may come in between.
-/
import Mathlib.Logic.Function.Basic
import ScrewLogger.Lib.Effect

namespace Lib

/-- Where each request is, and what they share. -/
structure InFlight (ι φ σ : Type) where
  phase : ι → φ
  shared : σ

namespace InFlight

variable {ι φ σ : Type} [DecidableEq ι]

/-- The next step of request `i`. -/
def advance (code : ι → φ → σ → φ × σ) (i : ι) (c : InFlight ι φ σ) : InFlight ι φ σ where
  phase := Function.update c.phase i (code i (c.phase i) c.shared).1
  shared := (code i (c.phase i) c.shared).2

/-- Steps of the requests of `schedule`, one after the other. -/
def run (code : ι → φ → σ → φ × σ) (schedule : List ι) (c : InFlight ι φ σ) : InFlight ι φ σ :=
  schedule.foldl (fun c i => c.advance code i) c

variable {code : ι → φ → σ → φ × σ} {c : InFlight ι φ σ} {i j : ι} {schedule : List ι}

@[simp] theorem run_nil : c.run code [] = c := rfl

@[simp] theorem run_cons : c.run code (i :: schedule) = (c.advance code i).run code schedule := rfl

theorem run_append {schedule' : List ι} : c.run code (schedule ++ schedule') =
    (c.run code schedule).run code schedule' :=
  List.foldl_append

@[simp] theorem advance_shared : (c.advance code i).shared = (code i (c.phase i) c.shared).2 := rfl

@[simp] theorem advance_phase_self : (c.advance code i).phase i = (code i (c.phase i) c.shared).1 :=
  Function.update_self ..

theorem advance_phase_ne (h : j ≠ i) : (c.advance code i).phase j = c.phase j := Function.update_of_ne h ..

/-- The shared state meets `I`, and each request is where `T` says it may be. -/
structure Holds (I : σ → Prop) (T : ι → φ → σ → Prop) (c : InFlight ι φ σ) : Prop where
  shared : I c.shared
  phase : ∀ i, T i (c.phase i) c.shared

variable {I : σ → Prop} {T : ι → φ → σ → Prop}

/-- **One step.** A request keeps the invariant and its own assertion, and does
not interfere with another's. -/
theorem advance_inv (hstep : ∀ i p s, I s → T i p s → I (code i p s).2 ∧ T i (code i p s).1 (code i p s).2)
    (hstable : ∀ i p s j q, I s → T i p s → T j q s → T j q (code i p s).2) (h : Holds I T c) :
    Holds I T (c.advance code i) := by
  obtain ⟨hI, hT⟩ := hstep i (c.phase i) c.shared h.shared (h.phase i)
  refine ⟨hI, fun j => ?_⟩
  by_cases hj : j = i
  · subst hj
    rw [advance_phase_self]
    exact hT
  · rw [advance_phase_ne hj]
    exact hstable i _ _ j _ h.shared (h.phase i) (h.phase j)

/-- **Every interleaving.** -/
theorem run_inv (hstep : ∀ i p s, I s → T i p s → I (code i p s).2 ∧ T i (code i p s).1 (code i p s).2)
    (hstable : ∀ i p s j q, I s → T i p s → T j q s → T j q (code i p s).2) (h : Holds I T c) :
    Holds I T (c.run code schedule) := by
  induction schedule generalizing c with
  | nil => exact h
  | cons i schedule ih => exact ih (advance_inv hstep hstable h)

end InFlight

/-! ## Programs of two steps -/

namespace Eff

variable {σ ε α β : Type}

/-- Where a run of `first >>= rest` is. -/
inductive Phase (α : Type)
  | start
  /-- `first` has returned a value, and `rest` is to come. -/
  | between (a : α)
  | done
  deriving DecidableEq

theorem Phase.start_ne_between {a : α} : (.start : Phase α) ≠ .between a := nofun

theorem Phase.done_ne_between {a : α} : (.done : Phase α) ≠ .between a := nofun

/-- The steps of `first >>= rest`. -/
def inSteps (first : Eff σ ε α) (rest : α → Eff σ ε β) : Phase α → σ → Phase α × σ
  | .start, s =>
    match first s with
    | (.ok a, s') => (.between a, s')
    | (.error _, s') => (.done, s')
  | .between a, s => (.done, (rest a s).2)
  | .done, s => (.done, s)

variable {first : Eff σ ε α} {rest : α → Eff σ ε β} {s : σ}

/-- A run that nothing comes in between of. -/
theorem inSteps_alone : (inSteps first rest (inSteps first rest .start s).1 (inSteps first rest .start s).2).2 =
    ((first >>= rest) s).2 := by
  simp only [inSteps, bind]
  cases first s with
  | mk r s' => cases r <;> rfl

/-- What `wp` says of the first step. -/
theorem inSteps_start {I : σ → Prop} {T : Phase α → Prop} (hdone : T .done)
    (h : wp first (fun a s' => I s' ∧ T (.between a)) (fun _ => I) s) :
    I (inSteps first rest .start s).2 ∧ T (inSteps first rest .start s).1 := by
  unfold wp at h
  cases hrun : first s with
  | mk r s' =>
    rw [hrun] at h
    cases r with
    | ok a =>
      have hstep : inSteps first rest .start s = (.between a, s') := by simp only [inSteps, hrun]
      rw [hstep]
      exact h
    | error e =>
      have hstep : inSteps first rest .start s = (.done, s') := by simp only [inSteps, hrun]
      rw [hstep]
      exact ⟨h, hdone⟩

end Eff

end Lib
