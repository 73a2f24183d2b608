/-
Machines that answer calls, and when one of them simulates another.

`runAll_simulates`: related states that answer each call alike and stay related
answer every sequence of calls alike. `Along` is a condition on a run's calls,
each in the states it is made in, and `Throughout` one for a single machine.
-/
import Mathlib.Init

namespace Lib

variable {σ τ ι ο : Type}

/-- The answers to calls made one after the other, and the state they leave. -/
def runAll (step : σ → ι → ο × σ) : List ι → σ → List ο × σ
  | [], s => ([], s)
  | c :: cs, s =>
    let (a, s') := step s c
    let (as, s'') := runAll step cs s'
    (a :: as, s'')

theorem runAll_one {step : σ → ι → ο × σ} {c : ι} {s : σ} : runAll step [c] s = ([(step s c).1], (step s c).2) := rfl

theorem runAll_two {step : σ → ι → ο × σ} {c c' : ι} {s : σ} : runAll step [c, c'] s =
    ([(step s c).1, (step (step s c).2 c').1], (step (step s c).2 c').2) := rfl

theorem runAll_append {step : σ → ι → ο × σ} {cs cs' : List ι} {s : σ} :
    runAll step (cs ++ cs') s =
      ((runAll step cs s).1 ++ (runAll step cs' (runAll step cs s).2).1,
        (runAll step cs' (runAll step cs s).2).2) := by
  induction cs generalizing s with
  | nil => rfl
  | cons c cs ih => simp [runAll, ih]

/-- Each call meets `P` in the states the two machines are in when it is made. -/
def Along (step : σ → ι → ο × σ) (step' : τ → ι → ο × τ) (P : σ → τ → ι → Prop) : List ι → σ → τ → Prop
  | [], _, _ => True
  | c :: cs, s, t => P s t c ∧ Along step step' P cs (step s c).2 (step' t c).2

/-- What the calls meet by themselves they meet along the run. -/
theorem Along.and {step : σ → ι → ο × σ} {step' : τ → ι → ο × τ} {P : σ → τ → ι → Prop} {C : ι → Prop} :
    ∀ {cs : List ι} {s : σ} {t : τ}, (∀ c ∈ cs, C c) → Along step step' P cs s t →
      Along step step' (fun s t c => C c ∧ P s t c) cs s t
  | [], _, _, _, _ => trivial
  | c :: _, _, _, hC, hP =>
    ⟨⟨hC c List.mem_cons_self, hP.1⟩, Along.and (fun c' hc' => hC c' (List.mem_cons_of_mem c hc')) hP.2⟩

/-- **Simulation, run by run.** -/
theorem runAll_simulates {step : σ → ι → ο × σ} {step' : τ → ι → ο × τ} {R : σ → τ → Prop} {P : σ → τ → ι → Prop}
    (hstep : ∀ s t c, R s t → P s t c → (step s c).1 = (step' t c).1 ∧ R (step s c).2 (step' t c).2) :
    ∀ {cs : List ι} {s : σ} {t : τ}, R s t → Along step step' P cs s t →
      (runAll step cs s).1 = (runAll step' cs t).1 ∧ R (runAll step cs s).2 (runAll step' cs t).2
  | [], _, _, hR, _ => ⟨rfl, hR⟩
  | c :: cs, s, t, hR, ⟨hP, hrest⟩ => by
    obtain ⟨hanswer, hR'⟩ := hstep s t c hR hP
    obtain ⟨hanswers, hR''⟩ := runAll_simulates hstep hR' hrest
    refine ⟨?_, hR''⟩
    simp only [runAll, hanswer, hanswers]

/-- Each call meets `P` in the state it is made in. -/
def Throughout (step : σ → ι → ο × σ) (P : σ → ι → Prop) : List ι → σ → Prop
  | [], _ => True
  | c :: cs, s => P s c ∧ Throughout step P cs (step s c).2

/-- Two conditions on runs are one where an invariant, which the second of them
keeps, makes them one on each call. -/
theorem throughout_iff {step : σ → ι → ο × σ} {I : σ → Prop} {P Q : σ → ι → Prop} {C : ι → Prop}
    (hcall : ∀ s c, C c → I s → (P s c ↔ Q s c)) (hstep : ∀ s c, C c → I s → Q s c → I (step s c).2) :
    ∀ {cs : List ι} {s : σ}, (∀ c ∈ cs, C c) → I s → (Throughout step P cs s ↔ Throughout step Q cs s)
  | [], _, _, _ => Iff.rfl
  | c :: cs, s, hC, hI => by
    obtain ⟨hc, hcs⟩ := List.forall_mem_cons.1 hC
    rw [Throughout, Throughout, hcall s c hc hI]
    exact and_congr_right fun hQ => throughout_iff hcall hstep hcs (hstep s c hc hI hQ)

end Lib
