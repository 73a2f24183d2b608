/-
Programs on a state that may stop early, and their weakest preconditions.

A run ends in a value or in what it stopped with, and either way in a state:
what was done before an error stays done, unless `restoring` undoes it. `wp`
names both ends, so that one assertion says what holds after a run that
returned and after one that failed halfway. The equations of `wp` are simp
lemmas; `wp_foldlM` is the rule for loops, its invariant about the elements
already gone through.
-/
import Mathlib.Init

namespace Lib

/-- A program on the state `σ` that ends in an `α` or stops with an `ε`. -/
def Eff (σ ε α : Type) : Type := σ → Except ε α × σ

namespace Eff

variable {σ ε ε' α β : Type}

instance : Monad (Eff σ ε) where
  pure a := fun s => (.ok a, s)
  bind m f := fun s =>
    match m s with
    | (.ok a, s') => f a s'
    | (.error e, s') => (.error e, s')

instance : LawfulMonad (Eff σ ε) := LawfulMonad.mk' _
  (by
    intro α m
    funext s
    show (match m s with | (.ok a, s') => (.ok a, s') | (.error e, s') => (.error e, s')) = m s
    cases m s with
    | mk r s' => cases r <;> rfl)
  (by
    intro α β a f
    rfl)
  (by
    intro α β γ m f g
    funext s
    simp only [bind]
    cases m s with
    | mk r s' => cases r <;> rfl)

theorem bind_of_ok {m : Eff σ ε α} {f : α → Eff σ ε β} {a : α} {s s' : σ} (h : m s = (.ok a, s')) :
    (m >>= f) s = f a s' := by
  simp only [bind, h]

theorem bind_of_error {m : Eff σ ε α} {f : α → Eff σ ε β} {e : ε} {s s' : σ} (h : m s = (.error e, s')) :
    (m >>= f) s = (.error e, s') := by
  simp only [bind, h]

theorem snd_map {m : Eff σ ε α} {f : α → β} {s : σ} : ((f <$> m) s).2 = (m s).2 := by
  cases hrun : m s with
  | mk r s' =>
    cases r with
    | ok a => exact congrArg Prod.snd (bind_of_ok hrun)
    | error e => exact congrArg Prod.snd (bind_of_error hrun)

def stop (e : ε) : Eff σ ε α := fun s => (.error e, s)

/-- Stops with `e` unless `c` holds. -/
def ensure (c : Bool) (e : ε) : Eff σ ε Unit := if c then pure () else stop e

def read (f : σ → α) : Eff σ ε α := fun s => (.ok (f s), s)

def modify (f : σ → σ) : Eff σ ε Unit := fun s => (.ok (), f s)

theorem bind_read {f : σ → α} {g : α → Eff σ ε β} {s : σ} : (read f >>= g) s = g (f s) s := rfl

theorem bind_modify {f : σ → σ} {g : Unit → Eff σ ε β} {s : σ} : (modify f >>= g) s = g () (f s) := rfl

/-- Takes a value out of the state. -/
def take (f : σ → α × σ) : Eff σ ε α := fun s => (.ok (f s).1, (f s).2)

def fromExcept : Except ε α → Eff σ ε α
  | .ok a => pure a
  | .error e => stop e

def fromOption (o : Option α) (e : ε) : Eff σ ε α := fromExcept (o.elim (.error e) .ok)

def mapError (f : ε → ε') (m : Eff σ ε α) : Eff σ ε' α := fun s =>
  match m s with
  | (.ok a, s') => (.ok a, s')
  | (.error e, s') => (.error (f e), s')

/-- Runs `m` on a part of the state. -/
def zoom {τ : Type} (get : σ → τ) (set : τ → σ → σ) (m : Eff τ ε α) : Eff σ ε α := fun s =>
  ((m (get s)).1, set (m (get s)).2 s)

/-- Runs `m` and, should it stop, leaves the state `undo before after`. -/
def restoring (undo : σ → σ → σ) (m : Eff σ ε α) : Eff σ ε α := fun s =>
  match m s with
  | (.ok a, s') => (.ok a, s')
  | (.error e, s') => (.error e, undo s s')

/-! ## Weakest preconditions -/

/-- `m`, run from `s`, ends in `Q` if it returns and in `E` if it stops. -/
def wp (m : Eff σ ε α) (Q : α → σ → Prop) (E : ε → σ → Prop) (s : σ) : Prop :=
  match m s with
  | (.ok a, s') => Q a s'
  | (.error e, s') => E e s'

variable {m : Eff σ ε α} {Q Q' : α → σ → Prop} {E E' : ε → σ → Prop} {s : σ}

@[simp] theorem wp_pure {a : α} : wp (pure a : Eff σ ε α) Q E = Q a := rfl

@[simp] theorem wp_bind {f : α → Eff σ ε β} {R : β → σ → Prop} :
    wp (m >>= f) R E = wp m (fun a => wp (f a) R E) E := by
  funext s
  simp only [wp, bind]
  cases m s with
  | mk r s' => cases r <;> rfl

@[simp] theorem wp_map {f : α → β} {R : β → σ → Prop} : wp (f <$> m) R E = wp m (fun a => R (f a)) E := by
  change wp (m >>= fun a => pure (f a)) R E = _
  exact wp_bind

@[simp] theorem wp_stop {e : ε} : wp (stop e : Eff σ ε α) Q E = E e := rfl

@[simp] theorem wp_ensure {c : Bool} {e : ε} {Q : Unit → σ → Prop} :
    wp (ensure c e) Q E = fun s => (c = true → Q () s) ∧ (c = false → E e s) := by
  funext s
  cases c <;> simp [ensure]

@[simp] theorem wp_read {f : σ → α} : wp (read f) Q E = fun s => Q (f s) s := rfl

@[simp] theorem wp_modify {f : σ → σ} {Q : Unit → σ → Prop} : wp (modify f) Q E = fun s => Q () (f s) := rfl

@[simp] theorem wp_take {f : σ → α × σ} : wp (take f) Q E = fun s => Q (f s).1 (f s).2 := rfl

@[simp] theorem wp_fromExcept {r : Except ε α} :
    wp (fromExcept r) Q E = fun s => (∀ a, r = .ok a → Q a s) ∧ (∀ e, r = .error e → E e s) := by
  funext s
  cases r <;> simp [fromExcept]

@[simp] theorem wp_fromOption {o : Option α} {e : ε} :
    wp (fromOption o e) Q E = fun s => (∀ a, o = some a → Q a s) ∧ (o = none → E e s) := by
  cases o <;> simp [fromOption]

@[simp] theorem wp_mapError {f : ε' → ε} {m : Eff σ ε' α} :
    wp (mapError f m) Q E = wp m Q fun e => E (f e) := by
  funext s
  simp only [wp, mapError]
  cases m s with
  | mk r s' => cases r <;> rfl

@[simp] theorem wp_zoom {τ : Type} {get : σ → τ} {set : τ → σ → σ} {m : Eff τ ε α} :
    wp (zoom get set m) Q E = fun s => wp m (fun a t => Q a (set t s)) (fun e t => E e (set t s)) (get s) := by
  funext s
  simp only [wp, zoom]
  cases m (get s) with
  | mk r t => cases r <;> rfl

@[simp] theorem wp_restoring {undo : σ → σ → σ} :
    wp (restoring undo m) Q E = fun s => wp m Q (fun e s' => E e (undo s s')) s := by
  funext s
  simp only [wp, restoring]
  cases m s with
  | mk r s' => cases r <;> rfl

@[simp] theorem wp_ite {c : Prop} [Decidable c] {m' : Eff σ ε α} :
    wp (if c then m else m') Q E = fun s => (c → wp m Q E s) ∧ (¬ c → wp m' Q E s) := by
  funext s
  by_cases h : c <;> simp [h]

/-- A weaker assertion holds after, too. -/
theorem wp.mono (h : wp m Q E s) (hQ : ∀ a s', Q a s' → Q' a s') (hE : ∀ e s', E e s' → E' e s') :
    wp m Q' E' s := by
  unfold wp at h ⊢
  split at h
  · exact hQ _ _ h
  · exact hE _ _ h

theorem wp.and (h : wp m Q E s) (h' : wp m Q' E' s) :
    wp m (fun a s' => Q a s' ∧ Q' a s') (fun e s' => E e s' ∧ E' e s') s := by
  unfold wp at h h' ⊢
  split at h
  · rename_i heq
    rw [heq] at h'
    exact ⟨h, h'⟩
  · rename_i heq
    rw [heq] at h'
    exact ⟨h, h'⟩

/-- What `wp` says of the run itself. -/
theorem wp_iff : wp m Q E s ↔
    (∀ a s', m s = (.ok a, s') → Q a s') ∧ (∀ e s', m s = (.error e, s') → E e s') := by
  unfold wp
  cases h : m s with
  | mk r s' => cases r <;> simp

/-- What holds at both ends holds at the end. -/
theorem wp.final {P : σ → Prop} (h : wp m (fun _ => P) (fun _ => P) s) : P (m s).2 := by
  unfold wp at h
  split at h
  · next heq => rwa [heq]
  · next heq => rwa [heq]

/-- A run that cannot stop returns. -/
theorem wp.returns (h : wp m Q (fun _ _ => False) s) : ∃ a s', m s = (.ok a, s') ∧ Q a s' := by
  unfold wp at h
  split at h
  · next a s' heq => exact ⟨a, s', heq, h⟩
  · exact h.elim

/-- **The loop rule.** `I done acc` holds between two rounds, `done` being the
elements gone through. -/
theorem wp_foldlM {f : β → α → Eff σ ε β} {E : ε → σ → Prop} (I : List α → β → σ → Prop) {l : List α} {b : β}
    {s : σ} (h0 : I [] b s) (hstep : ∀ done a rest b s, l = done ++ a :: rest → I done b s →
      wp (f b a) (I (done ++ [a])) E s) : wp (l.foldlM f b) (I l) E s := by
  suffices h : ∀ rest done b s, l = done ++ rest → I done b s → wp (rest.foldlM f b) (I l) E s from
    h l [] b s rfl h0
  intro rest
  induction rest with
  | nil =>
    intro done b s hl hI
    rw [List.append_nil] at hl
    subst hl
    simpa using hI
  | cons a rest ih =>
    intro done b s hl hI
    rw [List.foldlM_cons, wp_bind]
    exact (hstep done a rest b s hl hI).mono (fun b s => ih _ b s (by simp [hl])) fun _ _ h => h

end Eff

end Lib
