/-
Lower case as SQLite's `lower()` and the agent have it: for the letters of ASCII.

`runes_lower`: a well-formed string is lowered rune by rune. `lowerByte_eq_iff`:
a byte that is no letter of ASCII comes from itself only.
-/
import ScrewLogger.Lib.CodePoints

namespace Lib

def lowerByte (b : UInt8) : UInt8 := if 0x41 ≤ b && b ≤ 0x5A then b + 0x20 else b

/-- `lower()`. -/
def lower (s : Bytes) : Bytes := s.map lowerByte

/-! ## Bytes -/

theorem toNat_lowerByte (b : UInt8) :
    (lowerByte b).toNat = if 65 ≤ b.toNat ∧ b.toNat ≤ 90 then b.toNat + 32 else b.toNat := by
  have hiff : (0x41 ≤ b && b ≤ 0x5A) = true ↔ 65 ≤ b.toNat ∧ b.toNat ≤ 90 := by
    simp only [Bool.and_eq_true, decide_eq_true_eq, UInt8.le_iff_toNat_le]
    rfl
  unfold lowerByte
  by_cases h : 65 ≤ b.toNat ∧ b.toNat ≤ 90
  · have h20 : (0x20 : UInt8).toNat = 32 := rfl
    rw [if_pos (hiff.2 h), if_pos h, UInt8.toNat_add, h20]
    omega
  · rw [if_neg fun hb => h (hiff.1 hb), if_neg h]

theorem lowerByte_lt {b : UInt8} (h : b < 0x80) : lowerByte b < 0x80 := by
  have h80 : (0x80 : UInt8).toNat = 128 := rfl
  rw [UInt8.lt_iff_toNat_lt, h80] at h ⊢
  rw [toNat_lowerByte]
  split <;> omega

/-- A byte of a longer rune has no lower case. -/
theorem lowerByte_of_high {b : UInt8} (h : 128 ≤ b.toNat) : lowerByte b = b := by
  refine UInt8.toNat_inj.1 ?_
  rw [toNat_lowerByte, if_neg (by omega)]

/-- A letter of ASCII. -/
def isLetter (c : UInt8) : Bool := (0x41 ≤ c && c ≤ 0x5A) || (0x61 ≤ c && c ≤ 0x7A)

theorem lowerByte_eq_iff {b c : UInt8} (hc : isLetter c = false) : lowerByte b = c ↔ b = c := by
  have hc : ¬ (65 ≤ c.toNat ∧ c.toNat ≤ 90) ∧ ¬ (97 ≤ c.toNat ∧ c.toNat ≤ 122) := by
    simp only [isLetter, Bool.or_eq_false_iff, Bool.and_eq_false_iff, decide_eq_false_iff_not,
      UInt8.le_iff_toNat_le] at hc
    have h41 : (0x41 : UInt8).toNat = 65 := rfl
    have h5A : (0x5A : UInt8).toNat = 90 := rfl
    have h61 : (0x61 : UInt8).toNat = 97 := rfl
    have h7A : (0x7A : UInt8).toNat = 122 := rfl
    omega
  rw [← UInt8.toNat_inj, ← UInt8.toNat_inj, toNat_lowerByte]
  split <;> omega

@[simp] theorem length_lower (s : Bytes) : (lower s).length = s.length := List.length_map _

theorem mem_lower_iff {s : Bytes} {c : UInt8} (hc : isLetter c = false) : c ∈ lower s ↔ c ∈ s := by
  rw [lower, List.mem_map]
  constructor
  · rintro ⟨b, hb, heq⟩
    exact (lowerByte_eq_iff hc).1 heq ▸ hb
  · exact fun h => ⟨c, h, (lowerByte_eq_iff hc).2 rfl⟩

theorem ascii_lower {s : Bytes} (h : ∀ b ∈ s, b < 0x80) : ∀ b ∈ lower s, b < 0x80 := by
  intro b hb
  obtain ⟨b, hmem, rfl⟩ := List.mem_map.1 hb
  exact lowerByte_lt (h b hmem)

/-! ## Runes -/

/-- A rune in lower case, if it is a letter of ASCII. -/
def lowerRune : Rune → Rune
  | .ascii b h => .ascii (lowerByte b) (lowerByte_lt h)
  | r => r

theorem bytes_lowerRune {r : Rune} (h : r.isBad = false) : (lowerRune r).bytes = lower r.bytes := by
  cases r with
  | ascii b hb => rfl
  | two a b hab =>
    obtain ⟨ha, -, hb, -⟩ := two_bounds hab
    simp only [lowerRune, Rune.bytes, lower, List.map_cons, List.map_nil, lowerByte_of_high (b := a) (by omega),
      lowerByte_of_high hb]
  | three a b c habc =>
    obtain ⟨ha, -, hb, hc, -⟩ := three_bounds habc
    simp only [lowerRune, Rune.bytes, lower, List.map_cons, List.map_nil, lowerByte_of_high (b := a) (by omega),
      lowerByte_of_high hb.1, lowerByte_of_high hc.1]
  | four a b c d habcd =>
    obtain ⟨ha, -, hb, hc, hd, -⟩ := four_bounds habcd
    simp only [lowerRune, Rune.bytes, lower, List.map_cons, List.map_nil, lowerByte_of_high (b := a) (by omega),
      lowerByte_of_high hb.1, lowerByte_of_high hc.1, lowerByte_of_high hd.1]
  | bad b hb => cases h

theorem lowerRune_good {r : Rune} (h : r.isBad = false) : (lowerRune r).isBad = false := by
  cases r <;> first | rfl | cases h

theorem runes_lower {s : Bytes} (h : validUtf8 s = true) : runes (lower s) = (runes s).map lowerRune := by
  have hgood := good_of_valid h
  have htext : lower s = ((runes s).map lowerRune).flatMap Rune.bytes := by
    conv_lhs => rw [← flatMap_bytes_runes s]
    generalize runes s = rs at hgood
    induction rs with
    | nil => rfl
    | cons r rs ih =>
      obtain ⟨hr, hrest⟩ := List.forall_mem_cons.1 hgood
      rw [List.flatMap_cons, List.map_cons, List.flatMap_cons, bytes_lowerRune hr, ← ih hrest, lower, List.map_append]
      rfl
  rw [htext]
  refine runes_flatMap_bytes fun r hr => ?_
  obtain ⟨r', hr', rfl⟩ := List.mem_map.1 hr
  exact lowerRune_good (hgood r' hr')

theorem validUtf8_lower {s : Bytes} (h : validUtf8 s = true) : validUtf8 (lower s) = true := by
  rw [validUtf8, runes_lower h, List.all_map, List.all_eq_true]
  intro r hr
  rw [Function.comp_apply, lowerRune_good (good_of_valid h r hr)]
  rfl

theorem readable_lower {s : Bytes} (h : Readable s) : Readable (lower s) := by
  obtain ⟨hvalid, hnul, hchars⟩ := h
  refine ⟨validUtf8_lower hvalid, fun hmem => hnul ((mem_lower_iff (by decide)).1 hmem), fun r hr => ?_⟩
  rw [runes_lower hvalid] at hr
  obtain ⟨r', hr', rfl⟩ := List.mem_map.1 hr
  cases r' with
  | ascii b hb =>
    have hlt : (lowerByte b).toNat < 128 := UInt8.lt_iff_toNat_lt.1 (lowerByte_lt hb)
    show (lowerByte b).toNat ≠ _ ∧ (lowerByte b).toNat ≠ _
    omega
  | two | three | four | bad => exact hchars _ hr'

end Lib
