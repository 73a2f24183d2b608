/-
An outbox: items written to a log, and sent in pieces to a store that takes each
of them once.

A piece is sent again until it is acked, and once sent it may arrive at any
later time, any number of times. `Outbox` carries what holds of its places in the
log: nothing is acked that is not stored, and no piece begins past what is. By
`filter_piece` the new items of such a piece go on where what is stored ends, so
that is a prefix of the log (`take_arrived`).
-/
import Mathlib.Data.List.Infix
import Mathlib.Data.List.Nodup
import Mathlib.Logic.Relation

namespace Lib

variable {α κ : Type}

/-- The items from place `a` up to `b`. -/
def piece (l : List α) (a b : Nat) : List α := (l.take b).drop a

theorem take_append_piece {l : List α} {a b : Nat} (h : a ≤ b) : l.take a ++ piece l a b = l.take b := by
  have hsplit := List.take_append_drop a (l.take b)
  rwa [List.take_take, Nat.min_eq_left h] at hsplit

/-- Items up to `b`, of which those before `a` were taken. -/
theorem take_max_eq {l : List α} (a b : Nat) : l.take (max a b) = l.take a ++ piece l a b := by
  rcases Nat.le_total a b with h | h
  · rw [Nat.max_eq_right h, take_append_piece h]
  · have hnone : piece l a b = [] := by
      rw [piece, List.drop_eq_nil_iff, List.length_take]
      omega
    rw [Nat.max_eq_left h, hnone, List.append_nil]

@[simp] theorem piece_self (l : List α) (a : Nat) : piece l a a = [] := by
  rw [piece, List.drop_eq_nil_iff, List.length_take]
  omega

theorem piece_append_take {l : List α} {a b : Nat} (n : Nat) (h : a ≤ b) :
    piece l a b ++ (l.drop b).take n = piece l a (b + n) := by
  rw [piece, piece, List.take_add, List.drop_append, List.length_take]
  by_cases hb : b ≤ l.length
  · rw [Nat.min_eq_left hb, Nat.sub_eq_zero_of_le h, List.drop_zero]
  · rw [List.drop_eq_nil_of_le (by omega : l.length ≤ b), List.take_nil, List.drop_nil]

theorem piece_eq_take {l : List α} (a n : Nat) : piece l a (min (a + n) l.length) = (l.drop a).take n := by
  rw [piece, ← List.take_eq_take_min, List.drop_take, Nat.add_sub_cancel_left]

theorem piece_sublist {l : List α} {a b : Nat} : (piece l a b).Sublist l :=
  (List.drop_sublist a _).trans (List.take_sublist b l)

/-- A longer log has the same pieces. -/
theorem piece_append {l l' : List α} {a b : Nat} (h : b ≤ l.length) : piece (l ++ l') a b = piece l a b := by
  rw [piece, piece, List.take_append_of_le_length h]

/-- **The new items of a piece.** -/
theorem filter_piece [DecidableEq κ] {key : α → κ} {l : List α} {a b k : Nat} (hnodup : (l.map key).Nodup)
    (hak : a ≤ k) : (piece l a b).filter (fun x => key x ∉ (l.take k).map key) = piece l k b := by
  have hsplit : piece l a b = (l.take (min k b)).drop a ++ piece l k b := by
    rcases Nat.le_total k b with hkb | hbk
    · rw [Nat.min_eq_left hkb, piece, ← take_append_piece hkb, List.drop_append, List.length_take]
      by_cases hlen : k ≤ l.length
      · rw [Nat.min_eq_left hlen, Nat.sub_eq_zero_of_le hak, List.drop_zero]
      · have hnone : piece l k b = [] := by
          rw [piece, List.drop_eq_nil_iff, List.length_take]
          omega
        rw [hnone, List.drop_nil]
    · have hnone : piece l k b = [] := by
        rw [piece, List.drop_eq_nil_iff, List.length_take]
        omega
      rw [Nat.min_eq_right hbk, hnone, List.append_nil, piece]
  have hold : ((l.take (min k b)).drop a).filter (fun x => key x ∉ (l.take k).map key) = [] := by
    rw [List.filter_eq_nil_iff]
    intro x hx
    have hmem : x ∈ l.take k := List.take_subset_take_left l (Nat.min_le_left k b) (List.mem_of_mem_drop hx)
    simpa using List.mem_map_of_mem (f := key) hmem
  have hnew : (piece l k b).filter (fun x => key x ∉ (l.take k).map key) = piece l k b := by
    rw [List.filter_eq_self]
    intro x hx
    rw [decide_eq_true_eq]
    have hsub : piece l k b <+: l.drop k := by
      rw [piece, List.drop_take]
      exact List.take_prefix _ _
    rw [← List.take_append_drop k l, List.map_append, List.nodup_append] at hnodup
    exact fun hseen => hnodup.2.2 _ hseen _ (List.mem_map_of_mem (hsub.subset hx)) rfl
  rw [hsplit, List.filter_append, hold, hnew, List.nil_append]

/-- The log, and places in it. -/
structure Outbox (α : Type) where
  log : List α := []
  /-- The log is kept from here on. -/
  kept : Nat := 0
  acked : Nat := 0
  /-- What the store has of the log. -/
  stored : Nat := 0
  /-- The pieces that were sent. -/
  sent : List (Nat × Nat) := []
  kept_le : kept ≤ acked := by decide
  acked_le : acked ≤ stored := by decide
  stored_le : stored ≤ log.length := by decide
  sent_le : ∀ p ∈ sent, p.1 ≤ stored ∧ p.2 ≤ log.length := by decide

namespace Outbox

/-- Nothing was written yet. -/
def empty : Outbox α where
  acked_le := Nat.le_refl 0
  kept_le := Nat.le_refl 0
  stored_le := Nat.zero_le _
  sent_le := fun _ h => absurd h List.not_mem_nil

/-- What is not acked. -/
def unacked (o : Outbox α) : List α := o.log.drop o.acked

def write (o : Outbox α) (x : α) : Outbox α :=
  { o with
    log := o.log ++ [x]
    stored_le := by
      have h := o.stored_le
      rw [List.length_append]
      omega
    sent_le := fun p hp => by
      have h := o.sent_le p hp
      rw [List.length_append]
      omega }

/-- Sends the first `n` items that are not acked. -/
def send (o : Outbox α) (n : Nat) : Outbox α :=
  { o with
    sent := (o.acked, min (o.acked + n) o.log.length) :: o.sent
    sent_le := List.forall_mem_cons.2 ⟨⟨o.acked_le, Nat.min_le_right _ _⟩, o.sent_le⟩ }

/-- A piece arrives. -/
def arrive (o : Outbox α) (p : Nat × Nat) (hp : p ∈ o.sent) : Outbox α :=
  { o with
    stored := max o.stored p.2
    acked_le := Nat.le_trans o.acked_le (Nat.le_max_left _ _)
    stored_le := Nat.max_le.2 ⟨o.stored_le, (o.sent_le p hp).2⟩
    sent_le := fun q hq => ⟨Nat.le_trans (o.sent_le q hq).1 (Nat.le_max_left _ _), (o.sent_le q hq).2⟩ }

/-- Sends, and what is sent arrives. -/
def deliver (o : Outbox α) (n : Nat) : Outbox α :=
  (o.send n).arrive (o.acked, min (o.acked + n) o.log.length) List.mem_cons_self

/-- Acks `n` items more. -/
def ack (o : Outbox α) (n : Nat) (hn : o.acked + n ≤ o.stored) : Outbox α :=
  { o with
    acked := o.acked + n
    kept_le := Nat.le_trans o.kept_le (Nat.le_add_right _ _)
    acked_le := hn }

/-- What is acked is no longer kept. -/
def compact (o : Outbox α) : Outbox α := { o with kept := o.acked, kept_le := Nat.le_refl _ }

/-- What was acked is forgotten. -/
def restart (o : Outbox α) : Outbox α :=
  { o with
    acked := o.kept
    kept_le := Nat.le_refl _
    acked_le := Nat.le_trans o.kept_le o.acked_le }

inductive Step (o : Outbox α) : Outbox α → Prop
  | write (x : α) : Step o (o.write x)
  | send (n : Nat) : Step o (o.send n)
  | arrive (p : Nat × Nat) (hp : p ∈ o.sent) : Step o (o.arrive p hp)
  | ack (n : Nat) (hn : o.acked + n ≤ o.stored) : Step o (o.ack n hn)
  | compact : Step o o.compact
  | restart : Step o o.restart

/-- Any steps. -/
def Steps : Outbox α → Outbox α → Prop := Relation.ReflTransGen Step

variable {o o' : Outbox α}

/-- The log is only added to, and the store loses nothing. -/
structure Grows (o o' : Outbox α) : Prop where
  log : o.log <+: o'.log
  stored : o.stored ≤ o'.stored

theorem Grows.refl (o : Outbox α) : Grows o o := ⟨List.prefix_rfl, Nat.le_refl _⟩

theorem Grows.trans {o'' : Outbox α} (h : Grows o o') (h' : Grows o' o'') : Grows o o'' :=
  ⟨h.log.trans h'.log, h.stored.trans h'.stored⟩

theorem Step.grows (h : Step o o') : Grows o o' := by
  cases h with
  | write x => exact ⟨List.prefix_append _ _, Nat.le_refl _⟩
  | arrive p hp => exact ⟨List.prefix_rfl, Nat.le_max_left _ _⟩
  | send | ack | compact | restart => exact ⟨List.prefix_rfl, Nat.le_refl _⟩

theorem Steps.deliver (o : Outbox α) (n : Nat) : Steps o (o.deliver n) :=
  (Relation.ReflTransGen.single (.send n)).tail (.arrive _ List.mem_cons_self)

theorem Steps.grows (h : Steps o o') : Grows o o' := by
  induction h with
  | refl => exact .refl _
  | tail _ hstep ih => exact ih.trans hstep.grows

/-- **What the store has**, once a piece has arrived: what it had, and the piece's new items. -/
theorem take_arrived [DecidableEq κ] {key : α → κ} (hnodup : (o.log.map key).Nodup) {p : Nat × Nat} (hp : p ∈ o.sent) :
    (o.arrive p hp).log.take (o.arrive p hp).stored =
      o.log.take o.stored ++
        (piece o.log p.1 p.2).filter fun x => key x ∉ (o.log.take o.stored).map key := by
  rw [filter_piece hnodup (o.sent_le p hp).1]
  exact take_max_eq o.stored p.2

end Outbox

end Lib
