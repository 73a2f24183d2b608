/-
Programs one of whose calls fails.

A program makes its calls one after the other. `Makes`: with a fault injected at
its call number `k`, it stops there if it makes so many, in a state of which
`Left` holds, and else returns as it would, the fault that much nearer. The
rules follow the program's text: a sequence makes the calls of its parts, a loop
those of its rounds.
-/
import ScrewLogger.Lib.Effect

namespace Lib.Eff

variable {σ ε ε' α β κ φ : Type}

/-- The program makes the calls, returns `a` and leaves `s'`; where one of them
meets a fault that counts for it, it stops, and `Left` holds. -/
structure Makes (inject : Nat → φ → σ → σ) (counts : φ → κ → Prop) (Left : κ → φ → σ → Prop) (m : Eff σ ε α) (s : σ)
    (calls : List κ) (a : α) (s' : σ) : Prop where
  returns : ∀ k f, calls.length ≤ k → m (inject k f s) = (.ok a, inject (k - calls.length) f s')
  stops : ∀ k f c, calls[k]? = some c → counts f c → ∃ e s'', m (inject k f s) = (.error e, s'') ∧ Left c f s''

namespace Makes

variable {inject : Nat → φ → σ → σ} {counts : φ → κ → Prop} {Left : κ → φ → σ → Prop} {m : Eff σ ε α} {s s' s'' : σ}
  {calls calls' : List κ} {a : α} {b : β}

/-- A program that makes no call. -/
theorem silent (h : ∀ k f, m (inject k f s) = (.ok a, inject k f s')) : Makes inject counts Left m s [] a s' where
  returns k f _ := h k f
  stops k f c hc := by simp at hc

theorem pure : Makes inject counts Left (Pure.pure a : Eff σ ε α) s [] a s := silent fun _ _ => rfl

/-- **A sequence** makes the calls of both parts. -/
theorem bind {g : α → Eff σ ε β} (h : Makes inject counts Left m s calls a s')
    (h' : Makes inject counts Left (g a) s' calls' b s'') :
    Makes inject counts Left (m >>= g) s (calls ++ calls') b s'' where
  returns k f hk := by
    rw [List.length_append] at hk
    rw [bind_of_ok (h.returns k f (by omega)), List.length_append, Nat.sub_add_eq]
    exact h'.returns _ f (by omega)
  stops k f c hc hcounts := by
    by_cases hk : k < calls.length
    · rw [List.getElem?_append_left hk] at hc
      obtain ⟨e, t, hrun, hleft⟩ := h.stops k f c hc hcounts
      exact ⟨e, t, bind_of_error hrun, hleft⟩
    · rw [List.getElem?_append_right (by omega)] at hc
      rw [bind_of_ok (h.returns k f (by omega))]
      exact h'.stops _ f c hc hcounts

/-- A sequence whose first part meets the fault. -/
theorem stops_bind {g : α → Eff σ ε β} {k : Nat} {f : φ} {c : κ} (h : Makes inject counts Left m s calls a s')
    (hc : calls[k]? = some c) (hcounts : counts f c) :
    ∃ e t, (m >>= g) (inject k f s) = (.error e, t) ∧ Left c f t := by
  obtain ⟨e, t, hrun, hleft⟩ := h.stops k f c hc hcounts
  exact ⟨e, t, bind_of_error hrun, hleft⟩

/-- A sequence whose second part does not need the first's value. -/
theorem andThen {m' : Eff σ ε β} (h : Makes inject counts Left m s calls a s')
    (h' : Makes inject counts Left m' s' calls' b s'') :
    Makes inject counts Left (m >>= fun _ => m') s (calls ++ calls') b s'' := h.bind h'

theorem mapError {g : ε → ε'} (h : Makes inject counts Left m s calls a s') :
    Makes inject counts Left (Eff.mapError g m) s calls a s' where
  returns k f hk := by rw [Eff.mapError, h.returns k f hk]
  stops k f c hc hcounts := by
    obtain ⟨e, t, hrun, hleft⟩ := h.stops k f c hc hcounts
    exact ⟨g e, t, by rw [Eff.mapError, hrun], hleft⟩

theorem fromExcept {r : Except ε α} (hr : r = .ok a) : Makes inject counts Left (Eff.fromExcept r) s [] a s := by
  subst hr
  exact pure

theorem ensure {c : Bool} {e : ε} (hc : c = true) : Makes inject counts Left (Eff.ensure c e) s [] () s := by
  subst hc
  exact pure

theorem read {g : σ → α} (hg : ∀ k f, g (inject k f s) = g s) :
    Makes inject counts Left (Eff.read g : Eff σ ε α) s [] (g s) s :=
  silent fun k f => by rw [Eff.read, hg]

theorem modify {g : σ → σ} (hg : ∀ k f, g (inject k f s) = inject k f (g s)) :
    Makes inject counts Left (Eff.modify g : Eff σ ε Unit) s [] () (g s) :=
  silent fun k f => by rw [Eff.modify, hg]

/-- **A loop** each of whose rounds makes one call. `I` holds between two rounds. -/
theorem foldlM {f : β → α → Eff σ ε β} {g : β → α → β} {t : σ → α → σ} {call : α → κ} (I : σ → Prop)
    (hstep : ∀ b s a, I s → I (t s a) ∧ Makes inject counts Left (f b a) s [call a] (g b a) (t s a)) :
    ∀ {l : List α} {b : β} {s : σ}, I s →
      Makes inject counts Left (l.foldlM f b) s (l.map call) (l.foldl g b) (l.foldl t s)
  | [], _, _, _ => pure
  | a :: l, b, s, hI => by
    obtain ⟨hI', hround⟩ := hstep b s a hI
    rw [List.foldlM_cons]
    exact hround.bind (foldlM I hstep hI')

end Makes

end Lib.Eff
