/-
Trimming a string at its ends, and the last place another string stands in it.

`trimSpace_eq_self_iff`: white space is trimmed rune by rune, so what counts is
the first rune and the last. `runes_append` says that a string which goes on with
a byte of a rune of its own is read as its two parts.
-/
import ScrewLogger.Lib.Utf8
import Mathlib.Data.List.DropRight
import Mathlib.Data.List.Flatten

namespace Lib

variable {s t sub : Bytes} {a c : UInt8}

/-! ## Runes of an append -/

/-- A rune that is not well formed is not made so by a byte that continues none. -/
theorem readRune_append (ha : isCont a = false) : readRune c (s ++ a :: t) = readRune c s := by
  have htwo : ∀ x, isTwo x a = false := fun x => by simp [isTwo, ha]
  have hthree : ∀ x y, isThree x y a = false ∧ isThree x a y = false := fun x y => by simp [isThree, ha]
  have hfour : ∀ x y z, isFour x y z a = false ∧ isFour x y a z = false ∧ isFour x a y z = false := fun x y z => by
    simp [isFour, ha]
  rcases s with _ | ⟨b, _ | ⟨d, _ | ⟨e, s⟩⟩⟩
  · rcases t with _ | ⟨b, _ | ⟨d, t⟩⟩ <;> simp [readRune, htwo, hthree, hfour]
  · rcases t with _ | ⟨d, t⟩ <;> simp [readRune, hthree, hfour]
  · simp [readRune, hfour]
  · simp [readRune]

theorem runes_append (s : Bytes) (ha : isCont a = false) : runes (s ++ a :: t) = runes s ++ runes (a :: t) := by
  induction hn : s.length using Nat.strong_induction_on generalizing s with
  | _ n ih =>
    cases s with
    | nil => rfl
    | cons c s =>
      have hread := readRune_prefix c s
      have hbytes := congrArg List.length hread
      rw [List.length_append, List.length_drop, List.length_cons] at hbytes
      rw [List.cons_append, runes_cons, readRune_append ha, List.drop_append_of_le_length (by omega), runes_cons,
        List.cons_append]
      refine congrArg _ (ih _ ?_ _ rfl)
      rw [List.length_drop, ← hn, List.length_cons]
      omega

/-! ## White space -/

/-- Dropping a part of the runes drops bytes. -/
theorem eq_of_flatMap_bytes {l l' : List Rune} (hsub : l'.Sublist l)
    (h : (l.flatMap Rune.bytes).length ≤ (l'.flatMap Rune.bytes).length) : l' = l := by
  induction hsub with
  | slnil => rfl
  | cons r hsub ih =>
    have hle := (hsub.flatMap Rune.bytes).length_le
    have hpos := List.length_pos_iff.2 r.bytes_ne_nil
    rw [List.flatMap_cons, List.length_append] at h
    omega
  | cons_cons r hsub ih =>
    rw [List.flatMap_cons, List.flatMap_cons, List.length_append, List.length_append] at h
    rw [ih (by omega)]

theorem trimSpace_eq (s : Bytes) :
    trimSpace s = (((runes s).dropWhile Rune.isSpace).rdropWhile Rune.isSpace).flatMap Rune.bytes := rfl

/-- **White space at the ends.** -/
theorem trimSpace_eq_self_iff : trimSpace s = s ↔
    (∀ r, (runes s).head? = some r → r.isSpace = false) ∧ (∀ r, (runes s).getLast? = some r → r.isSpace = false) := by
  have hhead : (runes s).dropWhile Rune.isSpace = runes s ↔ ∀ r, (runes s).head? = some r → r.isSpace = false := by
    cases runes s with
    | nil => simp
    | cons r rs => simp [List.dropWhile_eq_self_iff]
  have hlast : (runes s).rdropWhile Rune.isSpace = runes s ↔
      ∀ r, (runes s).getLast? = some r → r.isSpace = false := by
    rw [List.rdropWhile_eq_self_iff]
    refine ⟨fun h r hr => ?_, fun h hne => ?_⟩
    · obtain ⟨l, hl⟩ := List.getLast?_eq_some_iff.1 hr
      simpa [hl] using h (by simp [hl])
    · simpa using h _ (List.getLast?_eq_some_getLast hne)
  rw [trimSpace_eq]
  constructor
  · intro h
    have hdrop : (((runes s).dropWhile Rune.isSpace).rdropWhile Rune.isSpace).Sublist
        ((runes s).dropWhile Rune.isSpace) := (List.rdropWhile_prefix _ _).sublist
    have hsub := List.dropWhile_sublist (l := runes s) Rune.isSpace
    have hlength : ((runes s).flatMap Rune.bytes).length ≤
        ((((runes s).dropWhile Rune.isSpace).rdropWhile Rune.isSpace).flatMap Rune.bytes).length := by
      rw [flatMap_bytes_runes, h]
    have hwhole := eq_of_flatMap_bytes (hdrop.trans hsub) hlength
    have hleft : (runes s).dropWhile Rune.isSpace = runes s :=
      hsub.antisymm (by rw [hwhole] at hdrop; exact hdrop)
    rw [hleft] at hwhole
    exact ⟨hhead.1 hleft, hlast.1 hwhole⟩
  · rintro ⟨hh, hl⟩
    rw [hhead.2 hh, hlast.2 hl, flatMap_bytes_runes]

/-- A string with text at both of its ends. -/
theorem trimSpace_append (ha : isCont a = false) (hs : s ≠ [])
    (hleft : ∀ r, (runes s).head? = some r → r.isSpace = false)
    (hright : ∀ r, (runes (a :: t)).getLast? = some r → r.isSpace = false) :
    trimSpace (s ++ a :: t) = s ++ a :: t := by
  have hne : ∀ {a : UInt8} {t : Bytes}, runes (a :: t) ≠ [] := fun {a t} h => by
    rw [runes_cons] at h
    cases h
  obtain ⟨b, s, rfl⟩ := List.exists_cons_of_ne_nil hs
  rw [trimSpace_eq_self_iff, runes_append _ ha]
  refine ⟨fun r hr => hleft r ?_, fun r hr => hright r ?_⟩
  · rwa [List.head?_append_of_ne_nil _ hne] at hr
  · rwa [List.getLast?_append_of_ne_nil _ hne] at hr

/-! ## One byte -/

/-- `strings.TrimRight` with one ASCII character. -/
def trimRightByte (c : UInt8) (s : Bytes) : Bytes := s.rdropWhile (· == c)

/-- `strings.Trim` with one ASCII character. -/
def trimByte (c : UInt8) (s : Bytes) : Bytes := trimRightByte c (s.dropWhile (· == c))

theorem trimRightByte_eq_self (h : c ∉ s) : trimRightByte c s = s := by
  refine List.rdropWhile_eq_self_iff.2 fun hne => ?_
  rw [beq_iff_eq]
  exact fun heq => h (heq ▸ List.getLast_mem hne)

theorem trimByte_eq_self (h : c ∉ s) : trimByte c s = s := by
  have hleft : s.dropWhile (· == c) = s := by
    cases s with
    | nil => rfl
    | cons b s =>
      refine List.dropWhile_cons_of_neg ?_
      rw [beq_iff_eq]
      exact fun heq => h (heq ▸ List.mem_cons_self)
  rw [trimByte, hleft, trimRightByte_eq_self h]

/-- The byte around a string that is without it. -/
theorem trimByte_around (h : c ∉ s) : trimByte c (c :: s ++ [c]) = s := by
  have hleft : (c :: s ++ [c]).dropWhile (· == c) = if s = [] then [] else s ++ [c] := by
    rw [List.cons_append, List.dropWhile_cons_of_pos (p := (· == c)) (beq_self_eq_true c)]
    cases s with
    | nil => simp
    | cons b s =>
      refine List.dropWhile_cons_of_neg ?_
      rw [beq_iff_eq]
      exact fun heq => h (heq ▸ List.mem_cons_self)
  rw [trimByte, hleft]
  split
  · next hs => rw [hs]; rfl
  · rw [trimRightByte, List.rdropWhile_concat_pos (· == c) _ _ (beq_self_eq_true c)]
    exact trimRightByte_eq_self h

/-! ## The last occurrence -/

/-- `strings.LastIndex`. -/
def lastIndex : Bytes → Bytes → Option Nat
  | [], sub => if sub = [] then some 0 else none
  | c :: s, sub =>
    match lastIndex s sub with
    | some i => some (i + 1)
    | none => if sub.isPrefixOf (c :: s) then some 0 else none

theorem lastIndex_le {i : Nat} : ∀ {s : Bytes}, lastIndex s sub = some i → i + sub.length ≤ s.length
  | [], h => by
    rw [lastIndex] at h
    split at h
    · next hsub =>
      cases h
      simp [hsub]
    · cases h
  | c :: s, h => by
    rw [lastIndex] at h
    split at h
    · next j hj =>
      cases h
      have hle := lastIndex_le hj
      rw [List.length_cons]
      omega
    · split at h
      · next hprefix =>
        cases h
        simpa using (List.isPrefixOf_iff_prefix.1 hprefix).length_le
      · cases h

/-- A string at the end of another stands there last. -/
theorem lastIndex_append (hsub : sub ≠ []) : ∀ {s : Bytes}, lastIndex (s ++ sub) sub = some s.length
  | [] => by
    obtain ⟨c, t, rfl⟩ := List.exists_cons_of_ne_nil hsub
    rw [List.nil_append, lastIndex]
    split
    · next i hi =>
      have hle := lastIndex_le hi
      rw [List.length_cons] at hle
      omega
    · rw [if_pos (List.isPrefixOf_iff_prefix.2 List.prefix_rfl)]
      rfl
  | c :: s => by
    rw [List.cons_append, lastIndex, lastIndex_append hsub]
    rfl

end Lib
