/-
Ledgers: the rows that a history of events adds, changes and removes.

`mem_rows`: a row is there just if an event added one that the events since
have made into it. `madeBy_eq_some` says what becomes of a row whose key no event
since has removed; `last` is the value that a history last set a column to.
-/
import ScrewLogger.Lib.Register

namespace Lib

/-- What events do to the rows `ρ`. -/
structure Ledger (ε ρ : Type) where
  /-- The row that is added. -/
  adds : ε → Option ρ
  /-- What becomes of a row, none where it is removed. -/
  makes : ε → ρ → Option ρ

namespace Ledger

variable {ε ρ κ α : Type} {L : Ledger ε ρ} {history : List ε} {e : ε} {l : List ρ} {r r' : ρ}

/-- The rows after an event. -/
def step (L : Ledger ε ρ) (l : List ρ) (e : ε) : List ρ := l.filterMap (L.makes e) ++ (L.adds e).toList

/-- The rows after a history, from none. -/
def rows (L : Ledger ε ρ) (history : List ε) : List ρ := history.foldl L.step []

/-- What becomes of a row in the course of a history. -/
def madeBy (L : Ledger ε ρ) (history : List ε) (r : ρ) : Option ρ := history.foldlM (fun r e => L.makes e r) r

theorem rows_concat : L.rows (history ++ [e]) = L.step (L.rows history) e := by
  rw [rows, List.foldl_append]
  rfl

@[simp] theorem madeBy_nil : L.madeBy [] r = some r := rfl

theorem madeBy_cons : L.madeBy (e :: history) r = (L.makes e r).bind (L.madeBy history) := rfl

theorem madeBy_concat : L.madeBy (history ++ [e]) r = (L.madeBy history r).bind (L.makes e) := by
  rw [madeBy, List.foldlM_append]
  refine congrArg _ (funext fun r => ?_)
  rw [List.foldlM_cons]
  cases L.makes e r <;> rfl

/-! ## An event that only adds, only changes or only removes -/

theorem step_add (hmakes : ∀ r, L.makes e r = some r) : L.step l e = l ++ (L.adds e).toList := by
  rw [step, show L.makes e = some from funext hmakes, List.filterMap_some]

theorem step_change {f : ρ → ρ} (hadds : L.adds e = none) (hmakes : ∀ r, L.makes e r = some (f r)) :
    L.step l e = l.map f := by
  rw [step, hadds, Option.toList_none, List.append_nil, show L.makes e = some ∘ f from funext hmakes, List.filterMap_eq_map]

theorem step_remove {p : ρ → Bool} (hadds : L.adds e = none) (hmakes : ∀ r, L.makes e r = if p r then some r else none) :
    L.step l e = l.filter p := by
  rw [step, hadds, Option.toList_none, List.append_nil, ← List.filterMap_eq_filter]
  exact congrArg (List.filterMap · l) (funext hmakes)

/-- An event that is about other rows. -/
theorem step_other (hadds : L.adds e = none) (hmakes : ∀ r, L.makes e r = some r) : L.step l e = l := by
  rw [step_add hmakes, hadds, Option.toList_none, List.append_nil]

/-! ## The rows of a history -/

theorem mem_step : r ∈ L.step l e ↔ (∃ r' ∈ l, L.makes e r' = some r) ∨ L.adds e = some r := by
  rw [step, List.mem_append, List.mem_filterMap, Option.mem_toList]

/-- **The rows of a history.** -/
theorem mem_rows : r ∈ L.rows history ↔ ∃ before e after r₀, history = before ++ e :: after ∧
    L.adds e = some r₀ ∧ L.madeBy after r₀ = some r := by
  induction history using List.reverseRecOn generalizing r with
  | nil => simp [rows]
  | append_singleton history e' ih =>
    rw [rows_concat, mem_step]
    constructor
    · intro h
      obtain ⟨r', hr', hmakes⟩ | hadds := h
      · obtain ⟨before, e, after, r₀, rfl, hadds, hmade⟩ := ih.1 hr'
        refine ⟨before, e, after ++ [e'], r₀, by simp, hadds, ?_⟩
        rw [madeBy_concat, hmade]
        exact hmakes
      · exact ⟨history, e', [], r, rfl, hadds, rfl⟩
    · intro ⟨before, e, after, r₀, hsplit, hadds, hmade⟩
      obtain ⟨rfl, rfl, rfl⟩ | ⟨after', rfl, rfl⟩ := Register.concat_split.1 hsplit
      · obtain rfl := Option.some.inj hmade
        exact .inr hadds
      · rw [madeBy_concat, Option.bind_eq_some_iff] at hmade
        obtain ⟨r', hmade, hmakes⟩ := hmade
        exact .inl ⟨r', ih.2 ⟨before, e, after', r₀, rfl, hadds, hmade⟩, hmakes⟩

/-! ## Keys and columns -/

/-- The value that the events of a history last set. -/
def last (sets : ε → Option α) (history : List ε) : Option α := (history.filterMap sets).getLast?

theorem last_cons {sets : ε → Option α} : last sets (e :: history) = (last sets history).or (sets e) := by
  cases hsets : sets e with
  | none => simp [last, List.filterMap_cons_none hsets]
  | some a =>
    rw [last, List.filterMap_cons_some hsets, last]
    cases history.filterMap sets with
    | nil => rfl
    | cons b l =>
      rw [List.getLast?_cons_cons]
      exact (Option.or_of_isSome (by simp)).symm

/-- Rows keep their key, and are removed by it. -/
structure Keyed (L : Ledger ε ρ) (key : ρ → κ) (removes : ε → κ → Bool) : Prop where
  keeps : ∀ {e r r'}, L.makes e r = some r' → key r' = key r
  removed : ∀ {e r}, L.makes e r = none ↔ removes e (key r) = true

variable {key : ρ → κ} {removes : ε → κ → Bool}

theorem Keyed.madeBy_key (h : L.Keyed key removes) (hmade : L.madeBy history r = some r') : key r' = key r := by
  induction history generalizing r with
  | nil => rw [Option.some.inj hmade]
  | cons e history ih =>
    rw [madeBy_cons, Option.bind_eq_some_iff] at hmade
    obtain ⟨r₁, hmakes, hmade⟩ := hmade
    exact (ih hmade).trans (h.keeps hmakes)

/-- A row stays until its key is removed. -/
theorem Keyed.madeBy_isSome (h : L.Keyed key removes) :
    (∃ r', L.madeBy history r = some r') ↔ ∀ e ∈ history, removes e (key r) = false := by
  induction history generalizing r with
  | nil => simp
  | cons e history ih =>
    rw [madeBy_cons, List.forall_mem_cons]
    cases hmakes : L.makes e r with
    | none =>
      have hremoved := h.removed.1 hmakes
      simp [hremoved]
    | some r₁ =>
      have hkept : removes e (key r) = false := by
        rw [← Bool.not_eq_true, ← h.removed, hmakes]
        exact Option.some_ne_none _
      simp only [Option.bind_some, ih, h.keeps hmakes, hkept, true_and]

/-- **What becomes of a row**, where `since` says so of the first event of any. -/
theorem Keyed.madeBy_eq_some (h : L.Keyed key removes) (since : ρ → List ε → ρ) (hnil : ∀ r, since r [] = r)
    (hcons : ∀ {e r r'} history, L.makes e r = some r' → since r (e :: history) = since r' history) :
    L.madeBy history r = some r' ↔ (∀ e ∈ history, removes e (key r) = false) ∧ r' = since r history := by
  have hmade : ∀ {history r r'}, L.madeBy history r = some r' → r' = since r history := fun {history} => by
    induction history with
    | nil => exact fun {r r'} hmade => by rw [← Option.some.inj hmade, hnil]
    | cons e history ih =>
      intro r r' hmade
      rw [madeBy_cons, Option.bind_eq_some_iff] at hmade
      obtain ⟨r₁, hmakes, hmade⟩ := hmade
      rw [ih hmade, hcons history hmakes]
  rw [← h.madeBy_isSome]
  constructor
  · exact fun h => ⟨⟨_, h⟩, hmade h⟩
  · intro ⟨⟨r₁, h⟩, heq⟩
    rw [heq, ← hmade h, h]

/-- Where events only add and remove, a row is there just if it was added and
not removed since. -/
theorem mem_rows_kept (hmakes : ∀ {e r r'}, L.makes e r = some r' → r' = r) : r ∈ L.rows history ↔
    ∃ before e after, history = before ++ e :: after ∧ L.adds e = some r ∧ ∀ e' ∈ after, L.makes e' r ≠ none := by
  have hkeyed : L.Keyed id fun e r => (L.makes e r).isNone := ⟨hmakes, Option.isNone_iff_eq_none.symm⟩
  have hkept : ∀ after, (∃ r', L.madeBy after r = some r') ↔ ∀ e ∈ after, L.makes e r ≠ none := fun after => by
    rw [hkeyed.madeBy_isSome]
    exact forall₂_congr fun e _ => by rw [← Bool.not_eq_true, Option.isNone_iff_eq_none, id]
  rw [mem_rows]
  constructor
  · intro ⟨before, e, after, r₀, hsplit, hadds, hmade⟩
    obtain rfl : r = r₀ := hkeyed.madeBy_key hmade
    exact ⟨before, e, after, hsplit, hadds, (hkept after).1 ⟨_, hmade⟩⟩
  · intro ⟨before, e, after, hsplit, hadds, hkept'⟩
    obtain ⟨r', hmade⟩ := (hkept after).2 hkept'
    obtain rfl : r' = r := hkeyed.madeBy_key hmade
    exact ⟨before, e, after, r', hsplit, hadds, hmade⟩

end Ledger

end Lib
