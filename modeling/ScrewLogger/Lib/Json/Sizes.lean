/-
How long a string read from a JSON text is when it is written again.

Writing escapes: a byte may become six. `flat_unmarshal`: a string of a text, or
of an object that the text is, is written in six times the text's length at most.
-/
import ScrewLogger.Lib.Json.Write

namespace Lib.Json

/-! ## Writing -/

theorem length_escapeRune_le (r : Rune) : (escapeRune r).length ≤ 6 := by
  cases r with
  | ascii b h =>
    rw [escapeRune, escapeAscii]
    split_ifs <;> simp
  | three a b c h =>
    rw [escapeRune]
    split <;> simp
  | two a b h => simp [escapeRune, Rune.bytes]
  | four a b c d h => simp [escapeRune, Rune.bytes]
  | bad b h => simp [escapeRune]

theorem quoteBody_eq {s t : Bytes} {r : Rune} (h : runes s = r :: runes t) :
    quoteBody s = escapeRune r ++ quoteBody t := by
  rw [quoteBody, h, List.flatMap_cons]
  rfl

/-- No rune begins at a continuation byte. -/
theorem length_quoteBody_cont {b : UInt8} (h : isCont b = true) (t : Bytes) :
    (quoteBody (b :: t)).length = 6 + (quoteBody t).length := by
  have hbad : (readRune b t).isBad = true := by
    unfold readRune
    split
    · grind [isCont]
    · split
      · rfl
      · split
        · grind [isCont, isTwo]
        · split
          · rfl
          · split
            · grind [isCont, isThree]
            · split
              · rfl
              · split
                · grind [isCont, isFour]
                · rfl
  have hruns := runes_cons b t
  cases hread : readRune b t with
  | bad b' h' =>
    rw [hread] at hruns
    rw [quoteBody_eq hruns, List.length_append]
    rfl
  | ascii | two | three | four =>
    rw [hread] at hbad
    cases hbad

/-- **A byte more** is six bytes more at most. -/
theorem length_quoteBody_cons (a : UInt8) (t : Bytes) : (quoteBody (a :: t)).length ≤ 6 + (quoteBody t).length := by
  have hruns := runes_cons a t
  have hprefix := readRune_prefix a t
  cases hread : readRune a t with
  | ascii b h | bad b h =>
    rw [hread] at hruns
    have hone := length_escapeRune_le (readRune a t)
    rw [hread] at hone
    rw [quoteBody_eq hruns, List.length_append]
    simp only [Rune.bytes, List.length_singleton, Nat.sub_self, List.drop_zero]
    omega
  | two b c h =>
    have hc : isCont c = true := by grind [isTwo]
    rw [hread] at hruns hprefix
    simp only [Rune.bytes, List.cons_append, List.nil_append, List.cons.injEq] at hprefix
    obtain ⟨-, ht⟩ := hprefix
    rw [quoteBody_eq hruns, List.length_append, ← ht, length_quoteBody_cont hc]
    simp [escapeRune, Rune.bytes]
    omega
  | three b c d h =>
    have hcont : isCont c = true ∧ isCont d = true := by grind [isThree]
    have hone := length_escapeRune_le (readRune a t)
    rw [hread] at hruns hprefix hone
    simp only [Rune.bytes, List.cons_append, List.nil_append, List.cons.injEq] at hprefix
    obtain ⟨-, ht⟩ := hprefix
    rw [quoteBody_eq hruns, List.length_append, ← ht, length_quoteBody_cont hcont.1, length_quoteBody_cont hcont.2]
    simp only [Rune.bytes, List.length_cons, List.length_nil, Nat.reduceAdd, Nat.reduceSub, List.drop_succ_cons,
      List.drop_zero]
    omega
  | four b c d e h =>
    have hcont : isCont c = true ∧ isCont d = true ∧ isCont e = true := by grind [isFour]
    have hone := length_escapeRune_le (readRune a t)
    rw [hread] at hruns hprefix hone
    simp only [Rune.bytes, List.cons_append, List.nil_append, List.cons.injEq] at hprefix
    obtain ⟨-, ht⟩ := hprefix
    rw [quoteBody_eq hruns, List.length_append, ← ht, length_quoteBody_cont hcont.1, length_quoteBody_cont hcont.2.1,
      length_quoteBody_cont hcont.2.2]
    simp only [Rune.bytes, List.length_cons, List.length_nil, Nat.reduceAdd, Nat.reduceSub, List.drop_succ_cons,
      List.drop_zero]
    omega

theorem length_quoteBody_append (l t : Bytes) : (quoteBody (l ++ t)).length ≤ 6 * l.length + (quoteBody t).length := by
  induction l with
  | nil => simp
  | cons a l ih =>
    have hcons := length_quoteBody_cons a (l ++ t)
    rw [List.cons_append, List.length_cons]
    omega

/-! ## Reading -/

theorem length_runes_le (s : Bytes) : (runes s).length ≤ s.length := by
  induction s using runes_induction with
  | nil => exact Nat.le_refl _
  | cons r t hr ih =>
    have hpos := List.length_pos_iff.2 r.bytes_ne_nil
    rw [hr, List.length_cons, List.length_append]
    omega

theorem length_encodeRune_le (n : Nat) : (encodeRune n).length ≤ 4 := by
  unfold encodeRune
  split_ifs <;> simp

/-- An escape stands for no more bytes than it has runes after the backslash. -/
theorem readEscape_le (rs : List Rune) : (readEscape rs).1.length ≤ (readEscape rs).2 ∧
    (readEscape rs).2 ≤ rs.length := by
  unfold readEscape
  split
  · rename_i e t ht
    have hlen : t.length + 1 = rs.length := by rw [← List.length_map (f := lead), ht, List.length_cons]
    split
    · split
      · rename_i a b c d t'
        simp only [List.length_cons] at hlen
        have hrune : runeError.length = 3 := rfl
        dsimp only
        split
        · split
          · rename_i lo hlow
            have hmore : 6 ≤ (rs.drop 5).length := by
              rw [← List.length_map (f := lead)]
              unfold lowSurrogate at hlow
              split at hlow
              · rename_i heq
                rw [heq]
                simp
              · cases hlow
            rw [List.length_drop] at hmore
            have hfour := length_encodeRune_le (0x10000 + (hex4 a b c d - 0xD800) * 1024 + lo)
            split
            · exact ⟨by dsimp only; omega, by dsimp only; omega⟩
            · exact ⟨by dsimp only; omega, by dsimp only; omega⟩
          · exact ⟨by dsimp only; omega, by dsimp only; omega⟩
        · have hfour := length_encodeRune_le (hex4 a b c d)
          exact ⟨by dsimp only; omega, by dsimp only; omega⟩
      · exact ⟨Nat.le_refl _, Nat.zero_le _⟩
    · exact ⟨Nat.le_refl _, by dsimp only; omega⟩
  · exact ⟨Nat.le_refl _, Nat.zero_le _⟩

theorem length_quoteBody_unescape : ∀ {rs : List Rune} {skip : Nat}, skip ≤ rs.length →
    (quoteBody (unescape skip rs)).length + 6 * skip ≤ 6 * rs.length
  | [], skip, h => by
    obtain rfl := Nat.le_zero.1 h
    exact Nat.le_refl _
  | r :: rs, 0, _ => by
    rw [unescape, List.length_cons]
    by_cases hlead : lead r = 0x5C
    · rw [if_pos hlead]
      obtain ⟨hbytes, hrunes⟩ := readEscape_le rs
      have happend := length_quoteBody_append (readEscape rs).1 (unescape (readEscape rs).2 rs)
      have hrest := length_quoteBody_unescape hrunes
      omega
    · rw [if_neg hlead]
      obtain ⟨r', -, -, hruns⟩ := runes_coerce_append r (unescape 0 rs)
      have hone := length_escapeRune_le r'
      have hrest := @length_quoteBody_unescape rs 0 (Nat.zero_le _)
      rw [quoteBody_eq hruns, List.length_append]
      omega
  | _ :: rs, skip + 1, h => by
    rw [List.length_cons] at h
    have hrest := @length_quoteBody_unescape rs skip (by omega)
    rw [unescape, List.length_cons]
    omega

theorem length_quoteBody_unquote (raw : Bytes) : (quoteBody (unquote raw)).length ≤ 6 * raw.length := by
  have hunescape := @length_quoteBody_unescape (runes raw) 0 (Nat.zero_le _)
  have hrunes := length_runes_le raw
  rw [unquote]
  omega

/-! ## The strings of a text -/

/-- `P` holds of the value if it is a string, and of the members that are. -/
def Flat (P : Bytes → Prop) : Json → Prop
  | .str s => P s
  | .obj members => ∀ k s, (k, Json.str s) ∈ members → P s
  | _ => True

def Frame.Flat (P : Bytes → Prop) : Frame → Prop
  | .arr _ => True
  | .obj members | .key members _ => ∀ k s, (k, Json.str s) ∈ members → P s

/-- Nothing but flat values has been read, and no literal is longer than `n`. -/
structure Flattens (P : Bytes → Prop) (n : Nat) (s : Scanner) : Prop where
  stack : ∀ f ∈ s.stack, f.Flat P
  top : ∀ v, s.step = .endTop v → Flat P v
  literal : ∀ rest v, s.step = .literal rest v → Flat P v
  raw : s.raw.length ≤ n

variable {P : Bytes → Prop} {n : Nat} {s s' : Scanner} {c : UInt8}

theorem Flattens.mono {m : Nat} (h : Flattens P n s) (hnm : n ≤ m) : Flattens P m s :=
  ⟨h.stack, h.top, h.literal, h.raw.trans hnm⟩

theorem flattens_complete {v : Json} {st : List Frame} (hv : Flat P v) (hst : ∀ f ∈ st, f.Flat P) :
    Flattens P n (complete v st) := by
  cases st with
  | nil => exact ⟨by simp, fun w hw => by cases hw; exact hv, by simp, Nat.zero_le n⟩
  | cons f st =>
    obtain ⟨hf, htail⟩ := List.forall_mem_cons.1 hst
    cases f with
    | arr items => exact ⟨List.forall_mem_cons.2 ⟨trivial, htail⟩, by simp, by simp, Nat.zero_le n⟩
    | key ms k =>
      refine ⟨List.forall_mem_cons.2 ⟨fun k' s hs => ?_, htail⟩, by simp, by simp, Nat.zero_le n⟩
      obtain hs | hs := List.mem_append.1 hs
      · exact hf k' s hs
      · cases List.mem_singleton.1 hs
        exact hv
    | obj ms =>
      cases v with
      | str k => exact ⟨List.forall_mem_cons.2 ⟨hf, htail⟩, by simp, by simp, Nat.zero_le n⟩
      | null | bool | num | arr | obj =>
        exact ⟨List.forall_mem_cons.2 ⟨hf, htail⟩, by simp [complete], by simp [complete], Nat.zero_le n⟩

theorem flattens_stepBeginValue (h : Flattens P n s) (hs : stepBeginValue s c = some s') : Flattens P (n + 1) s' := by
  cases begun hs with
  | same hs =>
    rw [hs]
    exact h.mono (Nat.le_succ n)
  | object hs =>
    rw [hs]
    have hempty : Frame.Flat P (.obj []) := fun _ _ hmem => absurd hmem List.not_mem_nil
    exact ⟨List.forall_mem_cons.2 ⟨hempty, h.stack⟩, by simp, by simp, Nat.zero_le _⟩
  | array hs =>
    rw [hs]
    exact ⟨List.forall_mem_cons.2 ⟨trivial, h.stack⟩, by simp, by simp, Nat.zero_le _⟩
  | string hs =>
    rw [hs]
    exact ⟨h.stack, by simp, by simp, Nat.zero_le _⟩
  | number next hnext hs =>
    rw [hs]
    rcases hnext with rfl | rfl | rfl <;> exact ⟨h.stack, by simp, by simp, Nat.le_add_left _ _⟩
  | word rest v hword hs =>
    rw [hs]
    refine ⟨h.stack, by simp, fun rest' v' heq => ?_, Nat.zero_le _⟩
    cases heq
    rcases hword with hword | hword | hword <;> cases hword <;> trivial

theorem flattens_stepBeginString (h : Flattens P n s) (hs : stepBeginString s c = some s') :
    Flattens P (n + 1) s' := by
  unfold stepBeginString at hs
  split at hs
  · cases hs; exact h.mono (Nat.le_succ n)
  split at hs
  · cases hs; exact ⟨h.stack, by simp, by simp, by simp⟩
  · cases hs

theorem flattens_stepEndValue (h : Flattens P n s) (hs : stepEndValue s c = some s') : Flattens P (n + 1) s' := by
  unfold stepEndValue at hs
  split at hs
  · cases hs; exact h.mono (Nat.le_succ n)
  have hstack := h.stack
  split at hs
  · cases hs
  · next hst =>
    rw [hst] at hstack
    split at hs <;> cases hs
    exact ⟨hstack, by simp, by simp, by simp⟩
  · next hst =>
    rw [hst] at hstack
    obtain ⟨hf, hst⟩ := List.forall_mem_cons.1 hstack
    split at hs
    · cases hs; exact ⟨hstack, by simp, by simp, by simp⟩
    split at hs <;> cases hs
    exact flattens_complete hf hst
  · next hst =>
    rw [hst] at hstack
    obtain ⟨-, hst⟩ := List.forall_mem_cons.1 hstack
    split at hs
    · cases hs; exact ⟨hstack, by simp, by simp, by simp⟩
    split at hs <;> cases hs
    exact flattens_complete trivial hst

/-- **One byte.** `P` is of what a literal of the text stands for. -/
theorem flattens_feed {N : Nat} (hP : ∀ raw : Bytes, raw.length ≤ N → P (unquote raw)) (hn : n ≤ N)
    (h : Flattens P n s) (hs : feed s c = some s') : Flattens P (n + 1) s' := by
  cases fed hs with
  | same hs =>
    rw [hs]
    exact h.mono (Nat.le_succ n)
  | beginValue hs => exact flattens_stepBeginValue h hs
  | beginString hs => exact flattens_stepBeginString h hs
  | endValue hs => exact flattens_stepEndValue h hs
  | string hs =>
    rw [hs]
    exact flattens_complete (hP _ (h.raw.trans hn)) h.stack
  | number hs => exact flattens_stepEndValue (flattens_complete (v := .num s.raw) trivial h.stack) hs
  | more next htop hword hs =>
    rw [hs]
    refine ⟨h.stack, fun v heq => absurd heq (htop v), fun rest v heq => absurd heq (hword rest v), ?_⟩
    have hraw := h.raw
    simp only [List.length_append, List.length_singleton]
    omega
  | word v hstep hs =>
    rw [hs]
    exact flattens_complete (h.literal _ _ hstep) h.stack
  | inWord rest v hstep hs =>
    rw [hs]
    refine ⟨h.stack, by simp, fun rest' v' heq => ?_, by simp⟩
    cases heq
    exact h.literal _ _ hstep

/-- **A text.** -/
theorem flattens_feeds {N : Nat} (hP : ∀ raw : Bytes, raw.length ≤ N → P (unquote raw)) : ∀ {text : Bytes} {n : Nat}
    {s s' : Scanner}, n + text.length ≤ N → Flattens P n s → feeds s text = some s' → Flattens P (n + text.length) s'
  | [], _, _, _, _, h, hs => by
    cases hs
    exact h
  | c :: text, n, s, s', hn, h, hs => by
    rw [List.length_cons] at hn ⊢
    rw [feeds_cons] at hs
    obtain ⟨m, hm, hs⟩ := Option.bind_eq_some_iff.1 hs
    have hrest := flattens_feeds hP (by omega) (flattens_feed hP (by omega) h hm) hs
    rwa [Nat.add_right_comm] at hrest

/-- **What a text stands for.** -/
theorem flat_unmarshal {text : Bytes} {v : Json} (h : unmarshal text = some v) :
    Flat (fun s => (quoteBody s).length ≤ 6 * text.length) v := by
  have hP : ∀ raw : Bytes, raw.length ≤ text.length → (quoteBody (unquote raw)).length ≤ 6 * text.length := by
    intro raw hraw
    have hunquote := length_quoteBody_unquote raw
    omega
  have hinit : Flattens (fun s => (quoteBody s).length ≤ 6 * text.length) 0 init :=
    ⟨fun _ hf => absurd hf List.not_mem_nil, fun _ hv => by (cases hv), fun _ _ hv => by (cases hv), Nat.le_refl 0⟩
  rw [unmarshal] at h
  obtain ⟨s, hs, heof⟩ := Option.bind_eq_some_iff.1 h
  have hread := flattens_feeds hP (by omega) hinit hs
  rw [eof] at heof
  obtain ⟨s', hs', heof⟩ := Option.bind_eq_some_iff.1 heof
  have hend := flattens_feed hP (by omega) hread hs'
  split at heof
  · next htop =>
    cases heof
    exact hend.top _ htop
  · cases heof

end Lib.Json
