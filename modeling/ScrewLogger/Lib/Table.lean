/-
Database tables: rows in the order they were inserted, no two with the same
primary key. Each operation says how many rows it affected, as a statement's
result does.
-/
import Mathlib.Data.List.Nodup

namespace Lib

variable {ρ κ : Type}

/-- A table with a primary key. -/
structure Table (ρ : Type) {κ : Type} (key : ρ → κ) where
  rows : List ρ
  nodup : (rows.map key).Nodup

namespace Table

variable {key : ρ → κ}

@[ext] theorem ext {t t' : Table ρ key} (h : t.rows = t'.rows) : t = t' := by
  cases t; cases t'; cases h; rfl

/-- The table without rows. -/
def empty : Table ρ key := ⟨[], List.nodup_nil⟩

/-- The table of one row. -/
def single (r : ρ) : Table ρ key := ⟨[r], List.nodup_singleton _⟩

/-- A row has the key. -/
def Has (t : Table ρ key) (k : κ) : Prop := k ∈ t.rows.map key

/-- The table with a row of a new key at its end. -/
def push (t : Table ρ key) (r : ρ) (h : ¬ t.Has (key r)) : Table ρ key where
  rows := t.rows ++ [r]
  nodup := by
    rw [List.map_append, List.nodup_append]
    refine ⟨t.nodup, by simp, fun a ha b hb hab => h ?_⟩
    rw [List.map_singleton, List.mem_singleton] at hb
    exact hb ▸ hab ▸ ha

/-- `UPDATE … SET … WHERE p`, of columns other than the key. -/
def update (t : Table ρ key) (p : ρ → Bool) (f : ρ → ρ) (hf : ∀ r, key (f r) = key r) : Table ρ key × Nat where
  fst :=
    { rows := t.rows.map fun r => if p r then f r else r
      nodup := by
        have : (t.rows.map fun r => if p r then f r else r).map key = t.rows.map key := by
          rw [List.map_map]
          refine List.map_congr_left fun r _ => ?_
          by_cases h : p r <;> simp [h, hf]
        rw [this]
        exact t.nodup }
  snd := t.rows.countP p

/-- `DELETE … WHERE p`. -/
def delete (t : Table ρ key) (p : ρ → Bool) : Table ρ key × Nat where
  fst := { rows := t.rows.filter (! p ·), nodup := t.nodup.sublist (List.filter_sublist.map _) }
  snd := t.rows.countP p

@[simp] theorem push_rows {t : Table ρ key} {r : ρ} {h} : (t.push r h).rows = t.rows ++ [r] := rfl

@[simp] theorem update_rows {t : Table ρ key} {p f hf} :
    (t.update p f hf).1.rows = t.rows.map fun r => if p r then f r else r := rfl

@[simp] theorem delete_rows {t : Table ρ key} {p} : (t.delete p).1.rows = t.rows.filter (! p ·) := rfl

/-- A key belongs to one row. -/
theorem eq_of_key {t : Table ρ key} {r r' : ρ} (h : r ∈ t.rows) (h' : r' ∈ t.rows) (hk : key r = key r') : r = r' :=
  List.inj_on_of_nodup_map t.nodup h h' hk

theorem mem_update {t : Table ρ key} {p f hf} {r : ρ} :
    r ∈ (t.update p f hf).1.rows ↔ ∃ r' ∈ t.rows, r = if p r' then f r' else r' := by
  rw [update_rows, List.mem_map]
  exact ⟨fun ⟨r', h, he⟩ => ⟨r', h, he.symm⟩, fun ⟨r', h, he⟩ => ⟨r', h, he.symm⟩⟩

theorem has_iff {t : Table ρ key} {k : κ} : t.Has k ↔ ∃ r ∈ t.rows, key r = k := by simp [Has]

/-! ## Inserting -/

variable [DecidableEq κ]

instance (t : Table ρ key) (k : κ) : Decidable (t.Has k) := inferInstanceAs (Decidable (k ∈ t.rows.map key))

/-- `INSERT`, a constraint error when the key is there. -/
def insert (t : Table ρ key) (r : ρ) : Option (Table ρ key) :=
  if h : t.Has (key r) then none else some (t.push r h)

/-- `INSERT … ON CONFLICT DO UPDATE`: the row with `r`'s key becomes `f` of
itself, or `r` is inserted. -/
def upsert (t : Table ρ key) (r : ρ) (f : ρ → ρ) (hf : ∀ r, key (f r) = key r) : Table ρ key :=
  if h : t.Has (key r) then (t.update (fun r' => key r' = key r) f hf).1 else t.push r h

theorem insert_eq_some {t t' : Table ρ key} {r : ρ} :
    t.insert r = some t' ↔ ¬ t.Has (key r) ∧ t'.rows = t.rows ++ [r] := by
  unfold insert
  split
  · next h => simp [h]
  · next h => simp [h, Table.ext_iff, eq_comm]

theorem mem_upsert {t : Table ρ key} {r r' : ρ} {f : ρ → ρ} {hf : ∀ r, key (f r) = key r}
    (hset : ∀ old, key old = key r → f old = r) :
    r' ∈ (t.upsert r f hf).rows ↔ r' = r ∨ r' ∈ t.rows ∧ key r' ≠ key r := by
  unfold upsert
  split
  · next h =>
    rw [mem_update]
    constructor
    · intro ⟨old, hold, heq⟩
      by_cases hk : key old = key r
      · rw [if_pos (decide_eq_true hk), hset old hk] at heq
        exact .inl heq
      · rw [if_neg (by simpa using hk)] at heq
        exact .inr (heq ▸ ⟨hold, hk⟩)
    · intro h'
      obtain rfl | ⟨hmem, hk⟩ := h'
      · obtain ⟨old, hold, hk⟩ := has_iff.1 h
        exact ⟨old, hold, by rw [if_pos (decide_eq_true hk), hset old hk]⟩
      · exact ⟨r', hmem, by rw [if_neg (by simpa using hk)]⟩
  · next h =>
    rw [push_rows, List.mem_append, List.mem_singleton, or_comm]
    refine or_congr_right ⟨fun hmem => ⟨hmem, fun hk => h (has_iff.2 ⟨r', hmem, hk⟩)⟩, And.left⟩

/-- A row that is there already is not inserted again. -/
theorem upsert_of_mem {t : Table ρ key} {r : ρ} {f : ρ → ρ} {hf : ∀ r, key (f r) = key r}
    (hset : ∀ old, key old = key r → f old = r) (hmem : r ∈ t.rows) : t.upsert r f hf = t := by
  have hhas : t.Has (key r) := has_iff.2 ⟨r, hmem, rfl⟩
  refine Table.ext ?_
  rw [upsert, dif_pos hhas, update_rows]
  refine (List.map_congr_left fun old hold => ?_).trans (List.map_id _)
  by_cases hk : key old = key r
  · rw [if_pos (decide_eq_true hk), hset old hk]
    exact eq_of_key hmem hold hk.symm
  · rw [if_neg (by simpa using hk), id]

end Table

end Lib
