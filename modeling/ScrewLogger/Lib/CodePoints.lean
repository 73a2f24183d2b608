/-
The code points of a string, as Go and as SQLite read them.

`code_inj`: runes that are no bad bytes are told by their codes.
`utf8ReadFrom_bytes`: SQLite reads a well-formed string rune by rune, too, and
takes the two noncharacters U+FFFE and U+FFFF for U+FFFD.
-/
import Mathlib.Data.List.TakeWhile
import ScrewLogger.Lib.Utf8

namespace Lib

/-- The code point of a rune; of a bad byte, U+FFFD. -/
def Rune.code : Rune → Nat
  | .ascii a _ => a.toNat
  | .two a b _ => a.toNat % 32 * 64 + b.toNat % 64
  | .three a b c _ => (a.toNat % 16 * 64 + b.toNat % 64) * 64 + c.toNat % 64
  | .four a b c d _ => ((a.toNat % 8 * 64 + b.toNat % 64) * 64 + c.toNat % 64) * 64 + d.toNat % 64
  | .bad _ _ => 0xFFFD

/-- The rune is this ASCII character. -/
def Rune.is (b : UInt8) : Rune → Bool
  | .ascii a _ => a == b
  | _ => false

/-! ## As SQLite reads them -/

/-- What a lead byte has of its character (`sqlite3Utf8Trans1`). -/
def utf8Trans1 (b : UInt8) : Nat :=
  if b < 0xE0 then b.toNat % 32
  else if b < 0xF0 then b.toNat % 16
  else if b < 0xF8 then b.toNat % 8
  else if b < 0xFC then b.toNat % 4
  else if b < 0xFE then b.toNat % 2
  else 0

/-- A character with a lead byte: U+FFFD for one that needs none, a surrogate, U+FFFE and U+FFFF. -/
def utf8Char (c : Nat) : Nat := if c < 0x80 ∨ c / 0x800 = 0x1B ∨ c / 2 = 0x7FFF then 0xFFFD else c

/-- The characters of a string (`sqlite3Utf8Read`), after what is read of one
whose lead byte is past. -/
def utf8ReadFrom : Option Nat → Bytes → List Nat
  | none, [] => []
  | some c, [] => [utf8Char c]
  | none, b :: s => if b < 0xC0 then b.toNat :: utf8ReadFrom none s else utf8ReadFrom (some (utf8Trans1 b)) s
  | some c, b :: s =>
    if isCont b then utf8ReadFrom (some ((c * 64 + b.toNat % 64) % 0x100000000)) s
    else utf8Char c :: if b < 0xC0 then b.toNat :: utf8ReadFrom none s else utf8ReadFrom (some (utf8Trans1 b)) s

/-- The characters of a string up to the first NUL. -/
def codePoints (s : Bytes) : List Nat := utf8ReadFrom none (s.takeWhile (· != 0))

/-- The character SQLite reads a rune as. -/
def Rune.readCode (r : Rune) : Nat := if r.code / 2 = 0x7FFF then 0xFFFD else r.code

/-! ## The codes of runes -/

theorem cont_bounds {b : UInt8} (h : isCont b = true) : 128 ≤ b.toNat ∧ b.toNat ≤ 191 := by
  simp only [isCont, Bool.and_eq_true, decide_eq_true_eq, UInt8.le_iff_toNat_le] at h
  exact h

theorem two_bounds {a b : UInt8} (h : isTwo a b = true) :
    194 ≤ a.toNat ∧ a.toNat ≤ 223 ∧ 128 ≤ b.toNat ∧ b.toNat ≤ 191 := by
  simp only [isTwo, Bool.and_eq_true, decide_eq_true_eq, UInt8.le_iff_toNat_le] at h
  exact ⟨h.1.1, h.1.2, cont_bounds h.2⟩

theorem three_bounds {a b c : UInt8} (h : isThree a b c = true) : 224 ≤ a.toNat ∧ a.toNat ≤ 239 ∧
    (128 ≤ b.toNat ∧ b.toNat ≤ 191) ∧ (128 ≤ c.toNat ∧ c.toNat ≤ 191) ∧ (a.toNat = 224 → 160 ≤ b.toNat) ∧
    (a.toNat = 237 → b.toNat ≤ 159) := by
  simp only [isThree, Bool.and_eq_true, Bool.or_eq_true, bne_iff_ne, ne_eq, decide_eq_true_eq,
    UInt8.le_iff_toNat_le] at h
  obtain ⟨⟨⟨⟨⟨hlo, hhi⟩, hb⟩, hc⟩, hfirst⟩, hsurrogate⟩ := h
  refine ⟨hlo, hhi, cont_bounds hb, cont_bounds hc, fun ha => ?_, fun ha => ?_⟩
  · exact hfirst.resolve_left fun hne => hne (UInt8.toNat_inj.1 ha)
  · exact hsurrogate.resolve_left fun hne => hne (UInt8.toNat_inj.1 ha)

theorem four_bounds {a b c d : UInt8} (h : isFour a b c d = true) : 240 ≤ a.toNat ∧ a.toNat ≤ 244 ∧
    (128 ≤ b.toNat ∧ b.toNat ≤ 191) ∧ (128 ≤ c.toNat ∧ c.toNat ≤ 191) ∧ (128 ≤ d.toNat ∧ d.toNat ≤ 191) ∧
    (a.toNat = 240 → 144 ≤ b.toNat) := by
  simp only [isFour, Bool.and_eq_true, Bool.or_eq_true, bne_iff_ne, ne_eq, decide_eq_true_eq,
    UInt8.le_iff_toNat_le] at h
  obtain ⟨⟨⟨⟨⟨⟨hlo, hhi⟩, hb⟩, hc⟩, hd⟩, hfirst⟩, -⟩ := h
  refine ⟨hlo, hhi, cont_bounds hb, cont_bounds hc, cont_bounds hd, fun ha => ?_⟩
  exact hfirst.resolve_left fun hne => hne (UInt8.toNat_inj.1 ha)

/-- The codes of runes of one to four bytes are apart. -/
theorem code_bounds : ∀ r : Rune, r.isBad = false →
    match r with
    | .ascii _ _ => r.code < 0x80
    | .two _ _ _ => 0x80 ≤ r.code ∧ r.code < 0x800
    | .three _ _ _ _ => 0x800 ≤ r.code ∧ r.code < 0x10000
    | .four _ _ _ _ _ => 0x10000 ≤ r.code
    | .bad _ _ => False
  | .ascii b h, _ => by
    rw [UInt8.lt_iff_toNat_lt] at h
    exact h
  | .two a b h, _ => by
    have := two_bounds h
    simp only [Rune.code]
    omega
  | .three a b c h, _ => by
    have := three_bounds h
    simp only [Rune.code]
    omega
  | .four a b c d h, _ => by
    have := four_bounds h
    simp only [Rune.code]
    omega
  | .bad _ _, h => Bool.noConfusion h

/-- A character of ASCII. -/
def ascii (b : UInt8) (h : b < 0x80 := by decide) : Rune := .ascii b h

theorem code_ascii {b : UInt8} {h : b < 0x80} : (ascii b h).code = b.toNat := rfl

/-- Runes that are no bad bytes are told by their codes. -/
theorem code_inj {r r' : Rune} (hr : r.isBad = false) (hr' : r'.isBad = false) (h : r.code = r'.code) : r = r' := by
  have hb := code_bounds r hr
  have hb' := code_bounds r' hr'
  cases r with
  | ascii a ha =>
    cases r' with
    | ascii b hb =>
      have : a = b := UInt8.toNat_inj.1 h
      subst this
      rfl
    | two | three | four => simp only [] at hb hb'; omega
    | bad => cases hr'
  | two a b hab =>
    cases r' with
    | two a' b' hab' =>
      have h₁ := two_bounds hab
      have h₂ := two_bounds hab'
      simp only [Rune.code] at h
      have ha : a = a' := UInt8.toNat_inj.1 (by omega)
      have hb : b = b' := UInt8.toNat_inj.1 (by omega)
      subst ha hb
      rfl
    | ascii | three | four => simp only [] at hb hb'; omega
    | bad => cases hr'
  | three a b c habc =>
    cases r' with
    | three a' b' c' habc' =>
      have h₁ := three_bounds habc
      have h₂ := three_bounds habc'
      simp only [Rune.code] at h
      have ha : a = a' := UInt8.toNat_inj.1 (by omega)
      have hb : b = b' := UInt8.toNat_inj.1 (by omega)
      have hc : c = c' := UInt8.toNat_inj.1 (by omega)
      subst ha hb hc
      rfl
    | ascii | two | four => simp only [] at hb hb'; omega
    | bad => cases hr'
  | four a b c d habcd =>
    cases r' with
    | four a' b' c' d' habcd' =>
      have h₁ := four_bounds habcd
      have h₂ := four_bounds habcd'
      simp only [Rune.code] at h
      have ha : a = a' := UInt8.toNat_inj.1 (by omega)
      have hb : b = b' := UInt8.toNat_inj.1 (by omega)
      have hc : c = c' := UInt8.toNat_inj.1 (by omega)
      have hd : d = d' := UInt8.toNat_inj.1 (by omega)
      subst ha hb hc hd
      rfl
    | ascii | two | three => simp only [] at hb hb'; omega
    | bad => cases hr'
  | bad => cases hr

/-- A character of ASCII is told by its code. -/
theorem is_iff_code {r : Rune} {b : UInt8} (hr : r.isBad = false) (hb : b < 0x80) :
    r.is b = true ↔ r.code = b.toNat := by
  constructor
  · intro h
    cases r with
    | ascii a ha => rw [← beq_iff_eq.1 h]; rfl
    | two | three | four | bad => cases h
  · intro h
    rw [@code_inj r (ascii b hb) hr rfl h]
    exact beq_self_eq_true b

/-- A rune that is not a character of ASCII has another code. -/
theorem code_ne {r : Rune} {b : UInt8} (hr : r.isBad = false) (hb : b < 0x80) (h : r.is b = false) :
    r.code ≠ b.toNat := by
  intro heq
  rw [(is_iff_code hr hb).2 heq] at h
  cases h

theorem eq_ascii {r : Rune} {b : UInt8} {h : b < 0x80} (hr : r.is b = true) : r = ascii b h := by
  cases r with
  | ascii a ha =>
    have hab : a = b := beq_iff_eq.1 hr
    subst hab
    rfl
  | two | three | four | bad => cases hr

/-- A byte of ASCII is a rune of its own. -/
theorem mem_bytes_iff {r : Rune} {b : UInt8} (hb : b < 0x80) : b ∈ r.bytes ↔ r.is b = true := by
  have hb : b.toNat < 128 := UInt8.lt_iff_toNat_lt.1 hb
  have hne : ∀ {c : UInt8}, 128 ≤ c.toNat → b ≠ c := fun hc heq => by
    subst heq
    omega
  cases r with
  | bad a h =>
    have : 128 ≤ a.toNat := UInt8.le_iff_toNat_le.1 h
    simp [Rune.bytes, Rune.is, hne (c := a) this]
  | ascii a h =>
    rw [Rune.bytes, List.mem_singleton, Rune.is, beq_iff_eq]
    exact eq_comm
  | two a c h =>
    have := two_bounds h
    simp [Rune.bytes, Rune.is, hne (c := a) (by omega), hne (c := c) (by omega)]
  | three a c d h =>
    have := three_bounds h
    simp [Rune.bytes, Rune.is, hne (c := a) (by omega), hne (c := c) (by omega), hne (c := d) (by omega)]
  | four a c d e h =>
    have := four_bounds h
    simp [Rune.bytes, Rune.is, hne (c := a) (by omega), hne (c := c) (by omega), hne (c := d) (by omega),
      hne (c := e) (by omega)]

theorem mem_bytes_of_mem_runes {s : Bytes} {r : Rune} {b : UInt8} (hr : r ∈ runes s) (hb : b ∈ r.bytes) : b ∈ s := by
  rw [← flatMap_bytes_runes s]
  exact List.mem_flatMap.2 ⟨r, hr, hb⟩

/-- A string without a character of ASCII, byte by byte and rune by rune. -/
theorem not_mem_iff_runes {s : Bytes} {b : UInt8} (hb : b < 0x80) : b ∉ s ↔ ∀ r ∈ runes s, r.is b = false := by
  constructor
  · intro hs r hr
    rw [Bool.eq_false_iff]
    exact fun his => hs (mem_bytes_of_mem_runes hr ((mem_bytes_iff hb).2 his))
  · intro hruns hmem
    rw [← flatMap_bytes_runes s] at hmem
    obtain ⟨r, hr, hbyte⟩ := List.mem_flatMap.1 hmem
    exact Bool.eq_false_iff.1 (hruns r hr) ((mem_bytes_iff hb).1 hbyte)

theorem code_of_ascii {s : Bytes} (h : ∀ b ∈ s, b < 0x80) : ∀ r ∈ runes s, r.code < 0x80 := by
  intro r hr
  have hbyte : ∀ b ∈ r.bytes, b.toNat < 128 := fun b hb => UInt8.lt_iff_toNat_lt.1 (h b (mem_bytes_of_mem_runes hr hb))
  cases r with
  | ascii a ha => exact hbyte a List.mem_cons_self
  | two a b hab =>
    have := two_bounds hab
    have := hbyte a List.mem_cons_self
    omega
  | three a b c habc =>
    have := three_bounds habc
    have := hbyte a List.mem_cons_self
    omega
  | four a b c d habcd =>
    have := four_bounds habcd
    have := hbyte a List.mem_cons_self
    omega
  | bad b hb =>
    have : 128 ≤ b.toNat := UInt8.le_iff_toNat_le.1 hb
    have := hbyte b List.mem_cons_self
    omega

/-! ## The characters of a well-formed string -/

/-- No byte that continues a character comes first. -/
def Starts (t : Bytes) : Prop := ∀ b ∈ t.head?, isCont b = false

theorem starts_bytes {r : Rune} (hr : r.isBad = false) (t : Bytes) : Starts (r.bytes ++ t) := by
  intro b hb
  rw [Bool.eq_false_iff]
  intro hcont
  have hcont := cont_bounds hcont
  cases r with
  | bad => cases hr
  | ascii a h =>
    cases hb
    rw [UInt8.lt_iff_toNat_lt] at h
    have : (0x80 : UInt8).toNat = 128 := rfl
    omega
  | two a b' h =>
    cases hb
    have := two_bounds h
    omega
  | three a b' c h =>
    cases hb
    have := three_bounds h
    omega
  | four a b' c d h =>
    cases hb
    have := four_bounds h
    omega

theorem starts_flatMap {rs : List Rune} (h : ∀ r ∈ rs, r.isBad = false) : Starts (rs.flatMap Rune.bytes) := by
  cases rs with
  | nil =>
    intro b hb
    cases hb
  | cons r rs =>
    rw [List.flatMap_cons]
    exact starts_bytes (h r List.mem_cons_self) _

/-- A character ends where the next one starts. -/
theorem utf8ReadFrom_starts {c : Nat} {t : Bytes} (ht : Starts t) :
    utf8ReadFrom (some c) t = utf8Char c :: utf8ReadFrom none t := by
  cases t with
  | nil => rfl
  | cons b t =>
    have hb : ¬ isCont b = true := Bool.eq_false_iff.1 (ht b rfl)
    exact if_neg hb

theorem utf8ReadFrom_lead {b : UInt8} {s : Bytes} (h : 192 ≤ b.toNat) :
    utf8ReadFrom none (b :: s) = utf8ReadFrom (some (utf8Trans1 b)) s := by
  rw [utf8ReadFrom, if_neg]
  rw [UInt8.lt_iff_toNat_lt]
  exact Nat.not_lt.2 h

theorem utf8ReadFrom_cont {b : UInt8} {s : Bytes} {c : Nat} (h : isCont b = true) (hc : c < 0x400000) :
    utf8ReadFrom (some c) (b :: s) = utf8ReadFrom (some (c * 64 + b.toNat % 64)) s := by
  rw [utf8ReadFrom, if_pos h, Nat.mod_eq_of_lt (by omega)]

/-- A rune is one character. -/
theorem utf8ReadFrom_bytes {r : Rune} (hr : r.isBad = false) {t : Bytes} (ht : Starts t) :
    utf8ReadFrom none (r.bytes ++ t) = r.readCode :: utf8ReadFrom none t := by
  have htrans : ∀ {b : UInt8}, utf8Trans1 b = if b.toNat < 224 then b.toNat % 32 else if b.toNat < 240 then
      b.toNat % 16 else if b.toNat < 248 then b.toNat % 8 else if b.toNat < 252 then b.toNat % 4 else
      if b.toNat < 254 then b.toNat % 2 else 0 := by
    intro b
    simp only [utf8Trans1, UInt8.lt_iff_toNat_lt]
    rfl
  cases r with
  | bad => cases hr
  | ascii a h =>
    have ha : a.toNat < 128 := UInt8.lt_iff_toNat_lt.1 h
    have hlead : a < 0xC0 := UInt8.lt_iff_toNat_lt.2 (Nat.lt_of_lt_of_le ha (by decide))
    show utf8ReadFrom none (a :: t) = _
    rw [utf8ReadFrom, if_pos hlead, Rune.readCode, Rune.code, if_neg (by omega)]
  | two a b h =>
    obtain ⟨hlo, hhi, -⟩ := two_bounds h
    have hb : isCont b = true := (Bool.and_eq_true_iff.1 h).2
    have hcode := code_bounds (.two a b h) rfl
    show utf8ReadFrom none (a :: b :: t) = _
    rw [utf8ReadFrom_lead (by omega), htrans, if_pos (by omega), utf8ReadFrom_cont hb (by omega),
      utf8ReadFrom_starts ht, Rune.readCode, if_neg (by simp only [] at hcode; omega)]
    refine congrArg (· :: _) (if_neg ?_)
    simp only [Rune.code] at hcode
    omega
  | three a b c h =>
    obtain ⟨hlo, hhi, hb, hc, hfirst, hsurrogate⟩ := three_bounds h
    simp only [isThree, Bool.and_eq_true] at h
    obtain ⟨⟨⟨⟨⟨-, -⟩, hb'⟩, hc'⟩, -⟩, -⟩ := h
    show utf8ReadFrom none (a :: b :: c :: t) = _
    rw [utf8ReadFrom_lead (by omega), htrans, if_neg (by omega), if_pos (by omega), utf8ReadFrom_cont hb' (by omega),
      utf8ReadFrom_cont hc' (by omega), utf8ReadFrom_starts ht, Rune.readCode, Rune.code]
    refine congrArg (· :: _) (if_congr ?_ rfl rfl)
    omega
  | four a b c d h =>
    obtain ⟨hlo, hhi, hb, hc, hd, hfirst⟩ := four_bounds h
    simp only [isFour, Bool.and_eq_true] at h
    obtain ⟨⟨⟨⟨⟨⟨-, -⟩, hb'⟩, hc'⟩, hd'⟩, -⟩, -⟩ := h
    show utf8ReadFrom none (a :: b :: c :: d :: t) = _
    rw [utf8ReadFrom_lead (by omega), htrans, if_neg (by omega), if_neg (by omega), if_pos (by omega),
      utf8ReadFrom_cont hb' (by omega), utf8ReadFrom_cont hc' (by omega), utf8ReadFrom_cont hd' (by omega),
      utf8ReadFrom_starts ht, Rune.readCode, Rune.code]
    refine congrArg (· :: _) (if_congr ?_ rfl rfl)
    omega

theorem utf8ReadFrom_flatMap {rs : List Rune} (h : ∀ r ∈ rs, r.isBad = false) :
    utf8ReadFrom none (rs.flatMap Rune.bytes) = rs.map Rune.readCode := by
  induction rs with
  | nil => rfl
  | cons r rs ih =>
    obtain ⟨hr, hrest⟩ := List.forall_mem_cons.1 h
    rw [List.flatMap_cons, utf8ReadFrom_bytes hr (starts_flatMap hrest), ih hrest]
    rfl

theorem good_of_valid {s : Bytes} (h : validUtf8 s = true) : ∀ r ∈ runes s, r.isBad = false := by
  intro r hr
  have := List.all_eq_true.1 h r hr
  simpa using this

/-- **A well-formed string without a NUL** is read rune by rune. -/
theorem codePoints_eq {s : Bytes} (hvalid : validUtf8 s = true) (hnul : 0 ∉ s) :
    codePoints s = (runes s).map Rune.readCode := by
  have hall : s.takeWhile (· != 0) = s :=
    List.takeWhile_eq_self_iff.2 fun b hb => bne_iff_ne.2 fun heq => hnul (heq ▸ hb)
  rw [codePoints, hall, ← utf8ReadFrom_flatMap (good_of_valid hvalid), flatMap_bytes_runes]

theorem readCode_of_ne {r : Rune} (h : r.code ≠ 0xFFFE ∧ r.code ≠ 0xFFFF) : r.readCode = r.code :=
  if_neg (by omega)

/-- A well-formed string that SQLite reads as it is: no NUL, and neither U+FFFE nor U+FFFF. -/
def Readable (s : Bytes) : Prop :=
  validUtf8 s = true ∧ 0 ∉ s ∧ ∀ r ∈ runes s, r.code ≠ 0xFFFE ∧ r.code ≠ 0xFFFF

instance (s : Bytes) : Decidable (Readable s) := inferInstanceAs (Decidable (_ ∧ _ ∧ _))

theorem Readable.codePoints {s : Bytes} (h : Readable s) : codePoints s = (runes s).map Rune.code := by
  rw [codePoints_eq h.1 h.2.1]
  exact List.map_congr_left fun r hr => readCode_of_ne (h.2.2 r hr)

end Lib
