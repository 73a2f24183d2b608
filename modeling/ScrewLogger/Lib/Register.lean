/-
Registers: what the events of a history issue, revoke and remove.

`mem_entries`: an entry is there just if it was issued and not removed since,
and is revoked just if it was revoked since.
-/
import Mathlib.Data.List.Induction

namespace Lib

/-- What an event does to a register of the keys `κ`. -/
structure Register (ε κ : Type) where
  issues : ε → Option κ
  revokes : ε → κ → Bool
  removes : ε → κ → Bool

namespace Register

variable {ε κ : Type} {R : Register ε κ} {history : List ε} {e : ε} {k : κ} {revoked : Bool}

/-- The register after an event: an entry is a key and whether it is revoked. -/
def step (R : Register ε κ) (entries : List (κ × Bool)) (e : ε) : List (κ × Bool) :=
  ((entries.filter fun x => !R.removes e x.1).map fun x => (x.1, x.2 || R.revokes e x.1)) ++
    (R.issues e).toList.map (·, false)

def entries (R : Register ε κ) (history : List ε) : List (κ × Bool) := history.foldl R.step []

theorem entries_concat : R.entries (history ++ [e]) = R.step (R.entries history) e := by
  rw [entries, List.foldl_append]
  rfl

/-- What an event leaves and adds. -/
theorem mem_step {l : List (κ × Bool)} : (k, revoked) ∈ R.step l e ↔
    (∃ b, (k, b) ∈ l ∧ R.removes e k = false ∧ revoked = (b || R.revokes e k)) ∨
      (R.issues e = some k ∧ revoked = false) := by
  rw [step, List.mem_append]
  refine or_congr ?_ ?_
  · rw [List.mem_map]
    constructor
    · intro ⟨x, hx, heq⟩
      obtain ⟨rfl, rfl⟩ := Prod.mk.inj heq
      rw [List.mem_filter] at hx
      exact ⟨x.2, hx.1, by simpa using hx.2, rfl⟩
    · intro ⟨b, hb, hremoves, heq⟩
      exact ⟨(k, b), List.mem_filter.2 ⟨hb, by simpa using hremoves⟩, by rw [heq]⟩
  · simp [eq_comm]

/-- An event about other keys than the register's. -/
theorem step_other {l : List (κ × Bool)} (hissues : R.issues e = none) (hrevokes : ∀ k, R.revokes e k = false)
    (hremoves : ∀ k, R.removes e k = false) : R.step l e = l := by
  simp [step, hissues, hrevokes, hremoves]

theorem step_issue {l : List (κ × Bool)} (hissues : R.issues e = some k) (hrevokes : ∀ k, R.revokes e k = false)
    (hremoves : ∀ k, R.removes e k = false) : R.step l e = l ++ [(k, false)] := by
  simp [step, hissues, hrevokes, hremoves]

theorem step_revoke {l : List (κ × Bool)} (hissues : R.issues e = none) (hremoves : ∀ k, R.removes e k = false) :
    R.step l e = l.map fun x => (x.1, x.2 || R.revokes e x.1) := by
  rw [step, hissues, List.filter_eq_self.2 fun x _ => by rw [hremoves]; rfl]
  exact List.append_nil _

theorem step_remove {l : List (κ × Bool)} (hissues : R.issues e = none) (hrevokes : ∀ k, R.revokes e k = false) :
    R.step l e = l.filter fun x => !R.removes e x.1 := by
  simp [step, hissues, hrevokes]

/-- An event of a history is its last, or came before it. -/
theorem concat_split {before after : List ε} {e e' : ε} : history ++ [e'] = before ++ e :: after ↔
    (before = history ∧ e = e' ∧ after = []) ∨ ∃ after', after = after' ++ [e'] ∧
      history = before ++ e :: after' := by
  constructor
  · intro h
    obtain rfl | ⟨after', x, rfl⟩ := List.eq_nil_or_concat after
    · obtain ⟨rfl, heq⟩ := List.append_inj' h rfl
      exact .inl ⟨rfl, (List.singleton_inj.1 heq).symm, rfl⟩
    · rw [List.concat_eq_append, ← List.cons_append, ← List.append_assoc] at h
      obtain ⟨rfl, heq⟩ := List.append_inj' h rfl
      exact .inr ⟨after', by rw [List.concat_eq_append, List.singleton_inj.1 heq], rfl⟩
  · intro h
    obtain ⟨rfl, rfl, rfl⟩ | ⟨after', rfl, rfl⟩ := h
    · rfl
    · simp

/-- **The entries of a history.** -/
theorem mem_entries : (k, revoked) ∈ R.entries history ↔ ∃ before e after, history = before ++ e :: after ∧
    R.issues e = some k ∧ (∀ e' ∈ after, R.removes e' k = false) ∧ revoked = after.any (R.revokes · k) := by
  induction history using List.reverseRecOn generalizing revoked with
  | nil => simp [entries]
  | append_singleton history e' ih =>
    rw [entries_concat, mem_step]
    constructor
    · intro h
      obtain ⟨b, hb, hremoves, rfl⟩ | ⟨hissues, rfl⟩ := h
      · obtain ⟨before, e, after, rfl, hissues, hkept, rfl⟩ := ih.1 hb
        refine ⟨before, e, after ++ [e'], by simp, hissues, fun x hx => ?_, by simp⟩
        obtain hx | hx := List.mem_append.1 hx
        · exact hkept x hx
        · exact List.mem_singleton.1 hx ▸ hremoves
      · exact ⟨history, e', [], rfl, hissues, nofun, rfl⟩
    · intro ⟨before, e, after, hsplit, hissues, hkept, hrevoked⟩
      obtain ⟨rfl, rfl, rfl⟩ | ⟨after', rfl, rfl⟩ := concat_split.1 hsplit
      · exact .inr ⟨hissues, hrevoked⟩
      · refine .inl ⟨after'.any (R.revokes · k), ih.2 ⟨before, e, after', rfl, hissues, fun x hx => ?_, rfl⟩, ?_, ?_⟩
        · exact hkept x (List.mem_append_left _ hx)
        · exact hkept e' (by simp)
        · rw [hrevoked, List.any_append]
          simp

/-- Of two places in a history that issue one key, where the keys issued are
distinct, there is but one. -/
theorem split_unique {f : ε → Option κ} : ∀ {history before before' after after' : List ε} {e e' : ε},
    (history.filterMap f).Nodup → history = before ++ e :: after → history = before' ++ e' :: after' → f e = some k →
      f e' = some k → before = before' ∧ e = e' ∧ after = after'
  | _, [], [], after, after', e, e', _, h, h', _, _ => by
    rw [h] at h'
    obtain ⟨rfl, rfl⟩ := List.cons.inj h'
    exact ⟨rfl, rfl, rfl⟩
  | _, [], x :: before', after, after', e, e', hnd, h, h', hk, hk' => by
    rw [h] at h' hnd
    obtain ⟨rfl, rfl⟩ := List.cons.inj h'
    simp [hk, hk'] at hnd
  | _, x :: before, [], after, after', e, e', hnd, h, h', hk, hk' => by
    rw [h] at h' hnd
    obtain ⟨rfl, rfl⟩ := List.cons.inj h'
    simp [hk, hk'] at hnd
  | _, x :: before, x' :: before', after, after', e, e', hnd, h, h', hk, hk' => by
    rw [h] at h' hnd
    obtain ⟨rfl, heq⟩ := List.cons.inj h'
    have hnd' : ((before ++ e :: after).filterMap f).Nodup := by
      refine hnd.sublist (List.Sublist.filterMap f ?_)
      rw [List.cons_append]
      exact List.sublist_cons_self ..
    obtain ⟨rfl, rfl, rfl⟩ := split_unique hnd' rfl heq hk hk'
    exact ⟨rfl, rfl, rfl⟩

end Register

end Lib
