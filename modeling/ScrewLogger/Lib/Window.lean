/-
What SQL's `ORDER BY` and `LEAD` make of rows with an integer key, and the
time such rows cover.

Each row of an ordered list is held to account for the time from its key to
the next row's, `cap` at most, inside a window `[lo, hi)`. `sum_spans` says
what a sum of those times counts: the instants of the window whose latest row
satisfies the predicate summed over and is less than `cap` old. The engine's
choice among rows with equal keys only shows in which of them is the latest.
-/
import Mathlib

namespace Lib

variable {α : Type*}

/-- An engine's `ORDER BY key`: the rows in ascending order, those with equal
keys in an order of the engine's own. -/
structure OrderBy (α : Type*) (key : α → Int) where
  sort : List α → List α
  perm : ∀ l, (sort l).Perm l
  sorted : ∀ l, (sort l).Pairwise fun a b => key a ≤ key b

namespace OrderBy

/-- The engine that leaves rows with equal keys as they were inserted. -/
def byInsertion (key : α → Int) : OrderBy α key where
  sort := List.insertionSort fun a b => key a ≤ key b
  perm := List.perm_insertionSort _
  sorted := by
    have : Std.Total fun a b => key a ≤ key b := ⟨fun a b => Int.le_total _ _⟩
    have : IsTrans α fun a b => key a ≤ key b := ⟨fun _ _ _ => Int.le_trans⟩
    exact List.pairwise_insertionSort _

variable {key : α → Int} (o : OrderBy α key)

@[simp] theorem mem_sort {a : α} {l : List α} : a ∈ o.sort l ↔ a ∈ l := (o.perm l).mem_iff

theorem byInsertion_of_sorted {l : List α} (h : l.Pairwise fun a b => key a ≤ key b) :
    (byInsertion key).sort l = l := List.Pairwise.insertionSort_eq h

end OrderBy

variable (key : α → Int)

/-- `LEAD(key) OVER (ORDER BY key)`: each row of an ordered list with the next
row's key. -/
def lead : List α → List (α × Option Int)
  | [] => []
  | [a] => [(a, none)]
  | a :: b :: l => (a, some (key b)) :: lead (b :: l)

/-- The last row at or before `t`. -/
def latest (l : List α) (t : Int) : Option α := (l.filter fun a => key a ≤ t).getLast?

/-- The time from a row to the next, or to the end of the window, `cap` at most. -/
def span (cap hi : Int) (p : α × Option Int) : Int :=
  let next := p.2.getD hi
  let raw := (if next ≤ hi then next else hi) - key p.1
  if raw ≤ cap then raw else cap

/-- The instants of `[lo, hi)` whose latest row satisfies `P` and is less
than `cap` old. -/
noncomputable def attributed (cap lo hi : Int) (P : α → Bool) (l : List α) : Finset Int :=
  (Finset.Ico lo hi).filter fun t => (latest key l t).any fun a => P a && decide (t < key a + cap)

/-- The instants of `[lo, hi)` that some row covers. -/
noncomputable def covered (cap lo hi : Int) (l : List α) : Finset Int :=
  (Finset.Ico lo hi).filter fun t => ∃ a ∈ l, key a ≤ t ∧ t < key a + cap

/-! ## The latest row -/

variable {key} {l : List α} {a b : α} {t : Int}

@[simp] theorem latest_nil : latest key [] t = none := rfl

theorem latest_cons : latest key (a :: l) t = (latest key l t).or (if key a ≤ t then some a else none) := by
  unfold latest
  by_cases h : key a ≤ t
  · simp only [List.filter_cons, h, decide_true, if_true, List.getLast?_cons]
    cases (l.filter fun a => key a ≤ t).getLast? <;> rfl
  · simp [h]

theorem latest_append {l' : List α} : latest key (l ++ l') t = (latest key l' t).or (latest key l t) := by
  rw [latest, List.filter_append, List.getLast?_append]
  rfl

theorem latest_concat : latest key (l ++ [a]) t = if key a ≤ t then some a else latest key l t := by
  rw [latest_append, latest_cons, latest_nil, Option.none_or]
  split <;> rfl

theorem latest_mem (h : latest key l t = some a) : a ∈ l ∧ key a ≤ t := by
  have hmem := List.mem_of_getLast? h
  simpa using hmem

theorem latest_eq_none : latest key l t = none ↔ ∀ a ∈ l, t < key a := by
  simp [latest]

/-- Of an ordered list, no row at or before `t` is later than the latest. -/
theorem le_latest (hs : l.Pairwise fun a b => key a ≤ key b) (h : latest key l t = some a) (hb : b ∈ l)
    (ht : key b ≤ t) : key b ≤ key a := by
  induction l with
  | nil => cases hb
  | cons c l ih =>
    rw [List.pairwise_cons] at hs
    rw [latest_cons] at h
    cases hl : latest key l t with
    | some d =>
      rw [hl, Option.some_or] at h
      cases h
      rcases List.mem_cons.1 hb with rfl | hb
      · exact hs.1 _ (latest_mem hl).1
      · exact ih hs.2 hl hb
    | none =>
      rcases List.mem_cons.1 hb with rfl | hb
      · rw [hl, if_pos ht] at h
        cases h
        exact Int.le_refl _
      · have := latest_eq_none.1 hl b hb
        omega

/-- With a row at or before `t` there is a latest one. -/
theorem exists_latest (hb : b ∈ l) (ht : key b ≤ t) : ∃ a, latest key l t = some a := by
  cases h : latest key l t with
  | some a => exact ⟨a, rfl⟩
  | none =>
    have := latest_eq_none.1 h b hb
    omega

theorem latest_map {β : Type*} {f : α → β} {key : β → Int} :
    latest key (l.map f) t = (latest (fun a => key (f a)) l t).map f := by
  rw [latest, List.filter_map, List.getLast?_map]
  rfl

/-- The next rows' keys are not the rows' own concern. -/
theorem lead_map {β : Type*} {f : α → β} {key : β → Int} : ∀ {l : List α},
    lead key (l.map f) = (lead (fun a => key (f a)) l).map fun p => (f p.1, p.2)
  | [] => rfl
  | [_] => rfl
  | a :: b :: l => by
    have ih : lead key ((b :: l).map f) = (lead (fun a => key (f a)) (b :: l)).map fun p => (f p.1, p.2) := lead_map
    rw [List.map_cons] at ih
    rw [List.map_cons, List.map_cons, lead, lead, ih, List.map_cons]

/-! ## Sums of spans -/

theorem mem_attributed {cap lo hi : Int} {P : α → Bool} : t ∈ attributed key cap lo hi P l ↔
    (lo ≤ t ∧ t < hi) ∧ ∃ a, latest key l t = some a ∧ P a = true ∧ t < key a + cap := by
  simp [attributed, Option.any_eq_true]

theorem mem_covered {cap lo hi : Int} : t ∈ covered key cap lo hi l ↔
    (lo ≤ t ∧ t < hi) ∧ ∃ a ∈ l, key a ≤ t ∧ t < key a + cap := by
  simp [covered]

theorem attributed_map {β : Type*} {f : α → β} {key : β → Int} {cap lo hi : Int} {P : β → Bool} :
    attributed key cap lo hi P (l.map f) = attributed (fun a => key (f a)) cap lo hi (fun a => P (f a)) l := by
  unfold attributed
  simp only [latest_map, Option.any_map]

/-- A row before all others adds the time up to the first of them, at `n`. -/
theorem attributed_cons {cap lo hi : Int} {P : α → Bool} {n : Option Int} (hcap : 0 ≤ cap)
    (hlo : lo ≤ key a) (hhi : key a < hi)
    (hnext : ∀ t, (latest key l t).isSome ↔ ∃ m, n = some m ∧ m ≤ t) (hle : ∀ m, n = some m → key a ≤ m) :
    (attributed key cap lo hi P (a :: l)).card =
      (if P a then span key cap hi (a, n) else 0) + (attributed key cap lo hi P l).card := by
  have hspan : 0 ≤ span key cap hi (a, n) := by
    cases n with
    | none => simp only [span, Option.getD_none]; omega
    | some m =>
      have := hle m rfl
      simp only [span, Option.getD_some]; omega
  have hunion : attributed key cap lo hi P (a :: l) =
      (if P a then Finset.Ico (key a) (key a + span key cap hi (a, n)) else ∅) ∪
        attributed key cap lo hi P l := by
    ext t
    rw [Finset.mem_union, mem_attributed, mem_attributed, latest_cons]
    cases hl : latest key l t with
    | some b =>
      obtain ⟨m, rfl, hm⟩ := (hnext t).1 (by simp [hl])
      -- the first of the others has begun, and so the row's time is over
      have : t ∉ (if P a then Finset.Ico (key a) (key a + span key cap hi (a, some m)) else ∅) := by
        split
        · simp only [span, Option.getD_some, Finset.mem_Ico]; omega
        · simp
      simp [this]
    | none =>
      have hn : ∀ m, n = some m → t < m := by
        intro m hm
        have := mt (hnext t).2 (by simp [hl])
        simp only [not_exists, not_and] at this
        exact not_le.1 (this m hm)
      by_cases hP : P a = true
      · cases n with
        | none =>
          by_cases hat : key a ≤ t
          · simp [hP, hat, span]; omega
          · simp [hP, hat]
        | some m =>
          have := hn m rfl
          by_cases hat : key a ≤ t
          · simp [hP, hat, span]; omega
          · simp [hP, hat]
      · by_cases hat : key a ≤ t <;> simp [hP, hat]
  have hdisjoint : Disjoint (if P a then Finset.Ico (key a) (key a + span key cap hi (a, n)) else ∅)
      (attributed key cap lo hi P l) := by
    rw [Finset.disjoint_left]
    intro t ht hl
    obtain ⟨-, b, hb, -⟩ := mem_attributed.1 hl
    obtain ⟨m, rfl, hm⟩ := (hnext t).1 (by simp [hb])
    split at ht
    · simp only [span, Option.getD_some, Finset.mem_Ico] at ht; omega
    · simp at ht
  rw [hunion, Finset.card_union_of_disjoint hdisjoint]
  split
  · rw [Nat.cast_add, Int.card_Ico]; omega
  · simp

/-- **What a sum of spans counts.** For rows in order inside the window, the
spans of those with `P` add up to the number of instants attributed to one. -/
theorem sum_spans {cap lo hi : Int} {P : α → Bool} (hcap : 0 ≤ cap) : ∀ {l : List α},
    (l.Pairwise fun a b => key a ≤ key b) → (∀ a ∈ l, lo ≤ key a ∧ key a < hi) →
    (((lead key l).filter (P ·.1)).map (span key cap hi)).sum = (attributed key cap lo hi P l).card
  | [], _, _ => by
    have : attributed key cap lo hi P [] = ∅ := by
      ext t
      simp [mem_attributed]
    simp [lead, this]
  | [a], _, hw => by
    obtain ⟨h1, h2⟩ := hw a (by simp)
    have hnil : (((lead key []).filter (P ·.1)).map (span key cap hi)).sum = (attributed key cap lo hi P []).card :=
      sum_spans hcap .nil (by simp)
    rw [attributed_cons (n := none) hcap h1 h2 (by simp) (by simp), ← hnil]
    by_cases hP : P a = true <;> simp [lead, hP]
  | a :: b :: l, hs, hw => by
    obtain ⟨h1, h2⟩ := hw a (by simp)
    have hs' := List.pairwise_cons.1 hs
    have hrest : (((lead key (b :: l)).filter (P ·.1)).map (span key cap hi)).sum =
        (attributed key cap lo hi P (b :: l)).card := sum_spans hcap hs'.2 fun c hc => hw c (by simp [hc])
    have hnext : ∀ t, (latest key (b :: l) t).isSome ↔ ∃ m, some (key b) = some m ∧ m ≤ t := by
      intro t
      constructor
      · intro h
        obtain ⟨c, hc⟩ := Option.isSome_iff_exists.1 h
        obtain ⟨hmem, hct⟩ := latest_mem hc
        refine ⟨_, rfl, ?_⟩
        rcases List.mem_cons.1 hmem with rfl | hmem
        · exact hct
        · exact Int.le_trans ((List.pairwise_cons.1 hs'.2).1 c hmem) hct
      · rintro ⟨m, hm, ht⟩
        cases hm
        obtain ⟨c, hc⟩ := exists_latest (List.mem_cons_self (a := b) (l := l)) ht
        simp [hc]
    rw [attributed_cons hcap h1 h2 hnext (by intro m hm; cases hm; exact hs'.1 b (by simp)), ← hrest]
    by_cases hP : P a = true <;> simp [lead, hP]

/-! ## Which instants -/

/-- Every covered instant is attributed to some row, the last one to cover it. -/
theorem attributed_true {cap lo hi : Int} (hs : l.Pairwise fun a b => key a ≤ key b) :
    attributed key cap lo hi (fun _ => true) l = covered key cap lo hi l := by
  ext t
  rw [mem_attributed, mem_covered]
  refine and_congr_right fun _ => ⟨?_, ?_⟩
  · rintro ⟨a, ha, -, hlt⟩
    exact ⟨a, (latest_mem ha).1, (latest_mem ha).2, hlt⟩
  · rintro ⟨b, hb, hbt, hlt⟩
    obtain ⟨a, ha⟩ := exists_latest hb hbt
    have := le_latest hs ha hb hbt
    exact ⟨a, ha, rfl, by omega⟩

/-- Where rows with equal keys agree on `P`, the rows decide what is attributed
to `P` and their order does not. -/
theorem mem_attributed_of_uniform {cap lo hi : Int} {P : α → Bool} (hs : l.Pairwise fun a b => key a ≤ key b)
    (hu : ∀ a ∈ l, ∀ b ∈ l, key a = key b → P a = P b) : t ∈ attributed key cap lo hi P l ↔
      (lo ≤ t ∧ t < hi) ∧
        ∃ a ∈ l, P a = true ∧ key a ≤ t ∧ t < key a + cap ∧ ∀ b ∈ l, key b ≤ t → key b ≤ key a := by
  rw [mem_attributed]
  refine and_congr_right fun _ => ⟨?_, ?_⟩
  · rintro ⟨a, ha, hP, hlt⟩
    exact ⟨a, (latest_mem ha).1, hP, (latest_mem ha).2, hlt, fun b hb => le_latest hs ha hb⟩
  · rintro ⟨a, ha, hP, hat, hlt, hmax⟩
    obtain ⟨b, hb⟩ := exists_latest ha hat
    obtain ⟨hmem, hbt⟩ := latest_mem hb
    have heq : key a = key b := Int.le_antisymm (le_latest hs hb ha hat) (hmax b hmem hbt)
    exact ⟨b, hb, (hu a ha b hmem heq) ▸ hP, by omega⟩

/-! ## Cutting the rows off -/

/-- What the spans of the rows with `P` add up to. -/
def spanSum (key : α → Int) (cap hi : Int) (P : α → Bool) (l : List α) : Int :=
  (((lead key l).filter (P ·.1)).map (span key cap hi)).sum

section
variable {cap hi : Int} {P : α → Bool} {e : α} {rest : List α}

theorem lead_cons : lead key (a :: l) = (a, l.head?.map key) :: lead key l := by
  cases l <;> rfl

theorem spanSum_cons : spanSum key cap hi P (a :: l) =
    (if P a then span key cap hi (a, l.head?.map key) else 0) + spanSum key cap hi P l := by
  unfold spanSum
  rw [lead_cons]
  by_cases h : P a = true <;> simp [h]

/-- Of rows cut off after `e`, only the spans from `e` on are other than before. -/
theorem spanSum_append (l : List α) : spanSum key cap hi P (l ++ e :: rest) + spanSum key cap hi P [e] =
    spanSum key cap hi P (l ++ [e]) + spanSum key cap hi P (e :: rest) := by
  induction l with
  | nil =>
    rw [List.nil_append, List.nil_append]
    omega
  | cons a l ih =>
    have hhead : (l ++ e :: rest).head? = (l ++ [e]).head? := by cases l <;> rfl
    rw [List.cons_append, List.cons_append, spanSum_cons (l := l ++ e :: rest), spanSum_cons (l := l ++ [e]), hhead]
    omega

theorem spanSum_map {β : Type*} {f : α → β} {key : β → Int} {P : β → Bool} : spanSum key cap hi P (l.map f) =
    spanSum (fun a => key (f a)) cap hi (fun a => P (f a)) l := by
  unfold spanSum
  rw [lead_map, List.filter_map, List.map_map]
  rfl

theorem spanSum_not (P : α → Bool) (l : List α) : spanSum key cap hi P l + spanSum key cap hi (fun a => !P a) l =
    spanSum key cap hi (fun _ => true) l := by
  induction l with
  | nil => rfl
  | cons a l ih =>
    rw [spanSum_cons, spanSum_cons, spanSum_cons]
    cases P a <;> simp <;> omega

/-- Rows in order, that begin before the end of the window. -/
def InOrder (key : α → Int) (hi : Int) (l : List α) : Prop := (l.Pairwise fun a b => key a ≤ key b) ∧
    ∀ a ∈ l, key a < hi

theorem InOrder.tail (h : InOrder key hi (a :: l)) : InOrder key hi l :=
  ⟨(List.pairwise_cons.1 h.1).2, fun b hb => h.2 b (List.mem_cons_of_mem a hb)⟩

/-- A row ends no earlier than it begins. -/
theorem InOrder.le_next (h : InOrder key hi (a :: l)) :
    key a ≤ (l.head?.map key).getD hi ∧ (l.head?.map key).getD hi ≤ hi := by
  have ha := h.2 a List.mem_cons_self
  cases l with
  | nil => exact ⟨by simpa using (by omega : key a ≤ hi), Int.le_refl hi⟩
  | cons b l =>
    have hb := h.2 b (List.mem_cons_of_mem a List.mem_cons_self)
    exact ⟨(List.pairwise_cons.1 h.1).1 b List.mem_cons_self, by simpa using (by omega : key b ≤ hi)⟩

theorem InOrder.span_eq (h : InOrder key hi (a :: l)) :
    span key cap hi (a, l.head?.map key) = min ((l.head?.map key).getD hi - key a) cap := by
  have hnext := h.le_next
  simp only [span]
  split_ifs <;> omega

/-- Only rows that no time belongs to add up to none. -/
theorem InOrder.spanSum_eq_zero_iff (hcap : 0 < cap) : ∀ {l : List α}, InOrder key hi l →
    0 ≤ spanSum key cap hi P l ∧
      (spanSum key cap hi P l = 0 ↔ ∀ p ∈ lead key l, key p.1 < p.2.getD hi → P p.1 = false)
  | [], _ => ⟨Int.le_refl 0, iff_of_true rfl fun _ hp => absurd hp List.not_mem_nil⟩
  | a :: l, h => by
    obtain ⟨hnonneg, hzero⟩ := h.tail.spanSum_eq_zero_iff hcap
    obtain ⟨hle, -⟩ := h.le_next
    rw [spanSum_cons, lead_cons, List.forall_mem_cons, h.span_eq, ← hzero]
    by_cases hP : P a = true
    · rw [if_pos hP]
      refine ⟨by omega, fun hsum => ⟨fun hlt => ?_, by omega⟩, fun hnone => ?_⟩
      · dsimp only at hlt
        omega
      · by_cases hlt : key a < (l.head?.map key).getD hi
        · rw [hnone.1 hlt] at hP
          cases hP
        · omega
    · rw [if_neg hP]
      refine ⟨by omega, fun hsum => ⟨fun _ => Bool.eq_false_iff.2 hP, by omega⟩, fun hnone => by omega⟩

theorem InOrder.spanSum_singleton (h : InOrder key hi [e]) :
    spanSum key cap hi P [e] = if P e then min (hi - key e) cap else 0 := by
  rw [spanSum_cons, h.span_eq]
  exact Int.add_zero _

/-- The time of all the rows is that of the first alone, were it the last: they
end soon enough, or begin with it. -/
theorem InOrder.spanSum_true_iff (hcap : 0 < cap) : ∀ {rest : List α} {e : α}, InOrder key hi (e :: rest) →
    min (hi - key e) cap ≤ spanSum key cap hi (fun _ => true) (e :: rest) ∧
      (spanSum key cap hi (fun _ => true) (e :: rest) = min (hi - key e) cap ↔
        hi - key e ≤ cap ∨ ∀ r ∈ rest, key r = key e)
  | [], e, h => by
    rw [h.spanSum_singleton, if_pos rfl]
    exact ⟨Int.le_refl _, iff_of_true rfl (.inr fun _ hr => absurd hr List.not_mem_nil)⟩
  | b :: rest, e, h => by
    obtain ⟨hle, heq⟩ := h.tail.spanSum_true_iff hcap
    have hlater : key e ≤ key b := (List.pairwise_cons.1 h.1).1 b List.mem_cons_self
    have hend : key b < hi := h.2 b (List.mem_cons_of_mem e List.mem_cons_self)
    rw [spanSum_cons, h.span_eq, if_pos rfl, List.head?_cons, Option.map_some, Option.getD_some]
    by_cases hsame : key b = key e
    · have hall : (∀ r ∈ b :: rest, key r = key e) ↔ ∀ r ∈ rest, key r = key b := by
        rw [List.forall_mem_cons, hsame]
        exact and_iff_right rfl
      rw [hall, ← hsame, ← heq]
      refine ⟨by omega, ?_⟩
      constructor
      · intro hsum
        omega
      · intro hsum
        omega
    · refine ⟨by omega, fun hsum => .inl (by omega), fun hclose => ?_⟩
      have hclose : hi - key e ≤ cap := by
        rcases hclose with hclose | hall
        · exact hclose
        · exact absurd (hall b List.mem_cons_self) hsame
      have hrest := heq.2 (.inl (by omega))
      omega

/-- Cut off after `e`, the rows with `P` and those without are given the time
they have: what follows `e` ends soon enough or begins with it, and whatever has
some of the time is as `e` is. -/
theorem InOrder.cut_iff (hcap : 0 < cap) (h : InOrder key hi (e :: rest)) :
    (spanSum key cap hi P [e] = spanSum key cap hi P (e :: rest) ∧
      spanSum key cap hi (fun a => !P a) [e] = spanSum key cap hi (fun a => !P a) (e :: rest)) ↔
    (hi - key e ≤ cap ∨ ∀ r ∈ rest, key r = key e) ∧
      ∀ p ∈ lead key (e :: rest), key p.1 < p.2.getD hi → P p.1 = P e := by
  have hone : InOrder key hi [e] := ⟨List.pairwise_singleton _ _, fun a ha =>
    h.2 a (List.mem_singleton.1 ha ▸ List.mem_cons_self)⟩
  obtain ⟨hle, htotal⟩ := h.spanSum_true_iff hcap
  have hsplit := @spanSum_not _ key cap hi P (e :: rest)
  rw [hone.spanSum_singleton, hone.spanSum_singleton, ← htotal]
  cases hP : P e with
  | true =>
    obtain ⟨-, hzero⟩ := @InOrder.spanSum_eq_zero_iff _ key cap hi (fun a => !P a) hcap _ h
    simp only [Bool.not_eq_false'] at hzero
    rw [← hzero, if_pos rfl, Bool.not_true, if_neg Bool.false_ne_true]
    constructor
    · intro heq
      exact ⟨by omega, by omega⟩
    · intro heq
      exact ⟨by omega, by omega⟩
  | false =>
    obtain ⟨-, hzero⟩ := @InOrder.spanSum_eq_zero_iff _ key cap hi P hcap _ h
    rw [← hzero, if_neg Bool.false_ne_true, Bool.not_false, if_pos rfl]
    constructor
    · intro heq
      exact ⟨by omega, by omega⟩
    · intro heq
      exact ⟨by omega, by omega⟩

end

end Lib
