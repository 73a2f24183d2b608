/-
JSON texts as `json.Marshal` writes them, read back by the scanner.

`Closed` says a text brings the scanner from the start of a value to its end,
whatever follows; a number needs the byte after it (`Delimited`). The writers
of strings, integers, arrays and objects each have their rule.
-/
import ScrewLogger.Lib.Json.Scanner

namespace Lib.Json

/-- `sep` between the texts. -/
def joinWith (sep : UInt8) : List Bytes → Bytes
  | [] => []
  | [t] => t
  | t :: ts => t ++ sep :: joinWith sep ts

def writeArray (items : List Bytes) : Bytes := 0x5B :: joinWith 0x2C items ++ [0x5D]

def writeMember (k v : Bytes) : Bytes := quote k ++ 0x3A :: v

def writeObject (members : List (Bytes × Bytes)) : Bytes :=
  0x7B :: joinWith 0x2C (members.map fun m => writeMember m.1 m.2) ++ [0x7D]

def writeBool (b : Bool) : Bytes := if b then Lib.str "true" else Lib.str "false"

/-! ## Feeding -/

@[simp] theorem feeds_nil (s : Scanner) : feeds s [] = some s := rfl

theorem feeds_cons (s : Scanner) (c : UInt8) (t : Bytes) : feeds s (c :: t) = (feed s c).bind (feeds · t) := by
  simp [feeds, List.foldlM_cons]

theorem feeds_append (s : Scanner) (t u : Bytes) : feeds s (t ++ u) = (feeds s t).bind (feeds · u) := by
  simp [feeds, List.foldlM_append]

/-- The first byte of a value: no space, no end of an array. -/
def Begins (text : Bytes) : Prop := ∃ b t, text = b :: t ∧ isSpace b = false ∧ b ≠ 0x5D

/-- `text` takes the scanner through the value `v`, whatever follows. -/
structure Closed (n : Nat) (text : Bytes) (v : Json) : Prop where
  begins : Begins text
  reads : ∀ st raw rest, st.length + n ≤ maxDepth →
    feeds ⟨.beginValue, st, raw⟩ (text ++ rest) = feeds (complete v st) rest

/-- A byte that ends a number. -/
def isDelim (c : UInt8) : Bool := c == 0x2C || c == 0x7D || c == 0x5D

/-- The same where a delimiter follows. -/
structure Delimited (n : Nat) (text : Bytes) (v : Json) : Prop where
  begins : Begins text
  reads : ∀ st raw c rest, st.length + n ≤ maxDepth → isDelim c = true →
    feeds ⟨.beginValue, st, raw⟩ (text ++ c :: rest) = feeds (complete v st) (c :: rest)

theorem Closed.delimited {n text v} (h : Closed n text v) : Delimited n text v :=
  ⟨h.begins, fun st raw c rest hn _ => h.reads st raw (c :: rest) hn⟩

theorem Delimited.mono {n m text v} (h : Delimited n text v) (hnm : n ≤ m) : Delimited m text v :=
  ⟨h.begins, fun st raw c rest hn => h.reads st raw c rest (by omega)⟩

/-! ## Strings -/

theorem feeds_more {step next : Step} {st raw} {c : UInt8} (t : Bytes)
    (h : feed ⟨step, st, raw⟩ c = some ⟨next, st, raw ++ [c]⟩) :
    feeds ⟨step, st, raw⟩ (c :: t) = feeds ⟨next, st, raw ++ [c]⟩ t := by
  rw [feeds_cons, h]; rfl

/-- A byte that stands for itself inside a string. -/
theorem feed_inString_plain {st raw} {c : UInt8} (h₁ : c ≠ 0x22) (h₂ : c ≠ 0x5C) (h₃ : ¬ c < 0x20) :
    feed ⟨.inString, st, raw⟩ c = some ⟨.inString, st, raw ++ [c]⟩ := by
  simp [feed, more, h₁, h₂, h₃]

theorem feeds_inString_plain {st} : ∀ {l : Bytes} {raw} (t : Bytes),
    (∀ c ∈ l, c ≠ 0x22 ∧ c ≠ 0x5C ∧ ¬ c < 0x20) →
    feeds ⟨.inString, st, raw⟩ (l ++ t) = feeds ⟨.inString, st, raw ++ l⟩ t
  | [], raw, t, _ => by simp
  | c :: l, raw, t, h => by
    obtain ⟨h₁, h₂, h₃⟩ := h c (by simp)
    rw [List.cons_append, feeds_more _ (feed_inString_plain h₁ h₂ h₃),
      feeds_inString_plain t fun d hd => h d (by simp [hd])]
    simp

/-- A one-letter escape keeps the scanner inside the string. -/
theorem feeds_inString_letter {st raw} {e : UInt8} (t : Bytes)
    (he : e ∈ [0x62, 0x66, 0x6E, 0x72, 0x74, 0x5C, 0x2F, 0x22]) (hu : e ≠ 0x75) :
    feeds ⟨.inString, st, raw⟩ (0x5C :: e :: t) = feeds ⟨.inString, st, raw ++ [0x5C, e]⟩ t := by
  have h₁ : feed ⟨.inString, st, raw⟩ 0x5C = some ⟨.inStringEsc, st, raw ++ [0x5C]⟩ := by simp [feed, more]
  have h₂ : feed ⟨.inStringEsc, st, raw ++ [0x5C]⟩ e = some ⟨.inString, st, raw ++ [0x5C] ++ [e]⟩ := by
    simp only [feed, hu, if_false, he, if_true, more]
  rw [feeds_more _ h₁, feeds_more _ h₂]
  simp

/-- And so does a `\uXXXX`. -/
theorem feeds_inString_u {st raw} {a b c d : UInt8} (t : Bytes) (ha : isHex a = true) (hb : isHex b = true)
    (hc : isHex c = true) (hd : isHex d = true) :
    feeds ⟨.inString, st, raw⟩ (0x5C :: 0x75 :: a :: b :: c :: d :: t) =
      feeds ⟨.inString, st, raw ++ [0x5C, 0x75, a, b, c, d]⟩ t := by
  simp [feeds_cons, feed, more, ha, hb, hc, hd]

theorem hexDigit_isHex {n : UInt8} (h : n < 16) : isHex (hexDigit n) = true := by
  grind [isHex, hexDigit]

theorem high_nibble_lt (b : UInt8) : b >>> 4 < 16 := by
  simp only [UInt8.lt_iff_toNat_lt, UInt8.toNat_shiftRight, UInt8.reduceToNat, Nat.shiftRight_eq_div_pow,
    Nat.reduceMod, Nat.reducePow]
  have := b.toNat_lt
  omega

theorem low_nibble_lt (b : UInt8) : b &&& 0x0F < 16 := by
  simp only [UInt8.lt_iff_toNat_lt, UInt8.toNat_and, UInt8.reduceToNat]
  exact Nat.lt_succ_of_le Nat.and_le_right

theorem feeds_inString_rune {st raw} (r : Rune) (t : Bytes) :
    feeds ⟨.inString, st, raw⟩ (escapeRune r ++ t) = feeds ⟨.inString, st, raw ++ escapeRune r⟩ t := by
  cases r with
  | two a b h => exact feeds_inString_plain t (by simp only [escapeRune, Rune.bytes]; grind [isTwo, isCont])
  | four a b c d h =>
    exact feeds_inString_plain t (by simp only [escapeRune, Rune.bytes]; grind [isFour, isCont])
  | bad b h => exact feeds_inString_u t (by decide) (by decide) (by decide) (by decide)
  | three a b c h =>
    simp only [escapeRune]
    split
    · exact feeds_inString_u t (by decide) (by decide) (by decide) (hexDigit_isHex (low_nibble_lt c))
    · exact feeds_inString_plain t (by grind [isThree, isCont])
  | ascii b h =>
    simp only [escapeRune, escapeAscii]
    split_ifs with h₁ h₂ h₃ h₄ h₅ h₆ h₇
    · exact feeds_inString_plain t (by grind [htmlSafe])
    · rcases h₂ with rfl | rfl <;> exact feeds_inString_letter t (by decide) (by decide)
    iterate 5 exact feeds_inString_letter t (by decide) (by decide)
    · exact feeds_inString_u t (by decide) (by decide) (hexDigit_isHex (high_nibble_lt b))
        (hexDigit_isHex (low_nibble_lt b))

theorem feeds_inString_quoteBody {st raw} (s t : Bytes) :
    feeds ⟨.inString, st, raw⟩ (quoteBody s ++ t) = feeds ⟨.inString, st, raw ++ quoteBody s⟩ t := by
  simp only [quoteBody]
  induction runes s generalizing raw with
  | nil => simp
  | cons r rs ih => simp only [List.flatMap_cons, List.append_assoc, feeds_inString_rune, ih]

/-- From the opening quote to the end of the string. -/
theorem feeds_inString_quote {st} (s t : Bytes) :
    feeds ⟨.inString, st, []⟩ (quoteBody s ++ 0x22 :: t) = feeds (complete (.str (toValid s)) st) t := by
  rw [feeds_inString_quoteBody, feeds_cons]
  simp [feed, unquote_quoteBody]

theorem closed_quote (s : Bytes) : Closed 0 (quote s) (.str (toValid s)) := by
  refine ⟨⟨_, _, rfl, rfl, by decide⟩, fun st raw rest _ => ?_⟩
  have h : feed ⟨.beginValue, st, raw⟩ 0x22 = some ⟨.inString, st, []⟩ := by
    simp [feed, stepBeginValue, isSpace]
  simp only [quote, List.cons_append, List.append_assoc, List.nil_append, feeds_cons, h, Option.bind_some]
  exact feeds_inString_quote s rest

/-! ## Numbers, booleans -/

theorem feeds_int_digits {st} : ∀ {l : Bytes} {raw} (t : Bytes), (∀ c ∈ l, isDigit c = true) →
    feeds ⟨.int, st, raw⟩ (l ++ t) = feeds ⟨.int, st, raw ++ l⟩ t
  | [], raw, t, _ => by simp
  | c :: l, raw, t, h => by
    have hc : feed ⟨.int, st, raw⟩ c = some ⟨.int, st, raw ++ [c]⟩ := by simp [feed, more, h c (by simp)]
    rw [List.cons_append, feeds_more _ hc, feeds_int_digits t fun d hd => h d (by simp [hd])]
    simp

/-- Where a number stands at a delimiter, it is complete. -/
theorem feed_delim {step : Step} (hstep : step = .int ∨ step = .zero) {st raw} {c : UInt8}
    (hc : isDelim c = true) : feed ⟨step, st, raw⟩ c = stepEndValue (complete (.num raw) st) c := by
  have hc' : isDigit c = false ∧ c ≠ 0x2E ∧ c ≠ 0x65 ∧ c ≠ 0x45 := by grind [isDelim, isDigit]
  rcases hstep with rfl | rfl <;> simp [feed, endNumber, hc']

theorem complete_step_endValue (v : Json) (st : List Frame) (c : UInt8) :
    feed (complete v st) c = stepEndValue (complete v st) c := by
  unfold complete
  split <;> first | rfl | (split <;> rfl)

/-- The digits of a number, from where its first one may stand. -/
theorem feeds_formatNat {start : Step} {st} (raw : Bytes) (n : Nat) {c : UInt8} (rest : Bytes) (hc : isDelim c = true)
    (hzero : feed ⟨start, st, raw⟩ 0x30 = some ⟨.zero, st, raw ++ [0x30]⟩)
    (hdigit : ∀ b, isDigit b = true → b ≠ 0x30 → feed ⟨start, st, raw⟩ b = some ⟨.int, st, raw ++ [b]⟩) :
    feeds ⟨start, st, raw⟩ (formatNat n ++ c :: rest) =
      feeds (complete (.num (raw ++ formatNat n)) st) (c :: rest) := by
  have hend : ∀ {step : Step} {raw}, (step = .int ∨ step = .zero) →
      feeds ⟨step, st, raw⟩ (c :: rest) = feeds (complete (.num raw) st) (c :: rest) := fun hs => by
    rw [feeds_cons, feeds_cons, feed_delim hs hc, complete_step_endValue]
  rcases formatNat_head n with h | ⟨b, t, h, hb⟩
  · rw [h, List.singleton_append, feeds_cons, hzero, Option.bind_some, hend (.inr rfl)]
  · have hdig : ∀ x ∈ b :: t, isDigit x = true := fun x hx => formatNat_isDigit (h ▸ hx)
    rw [h, List.cons_append, feeds_cons, hdigit b (hdig b (by simp)) hb, Option.bind_some,
      feeds_int_digits _ fun x hx => hdig x (by simp [hx]), hend (.inl rfl)]
    simp

theorem begins_of_digit {n : Nat} {b : UInt8} {t : Bytes} (h : formatNat n = b :: t) :
    isDigit b = true ∧ isSpace b = false ∧ b ≠ 0x5D := by
  have hdig : isDigit b = true := formatNat_isDigit (n := n) (by rw [h]; simp)
  exact ⟨hdig, by grind [isSpace, isDigit], by rintro rfl; simp [isDigit] at hdig⟩

theorem delimited_formatInt (i : Int) : Delimited 0 (formatInt i) (.num (formatInt i)) := by
  obtain ⟨b, t, hbt⟩ := List.exists_cons_of_ne_nil (formatNat_ne_nil i.natAbs)
  obtain ⟨hdig, hsp, hend⟩ := begins_of_digit hbt
  unfold formatInt
  split
  · refine ⟨⟨_, _, rfl, rfl, by decide⟩, fun st raw c rest _ hc => ?_⟩
    have h : feed ⟨.beginValue, st, raw⟩ 0x2D = some ⟨.neg, st, [0x2D]⟩ := by
      simp [feed, stepBeginValue, isSpace]
    rw [List.cons_append, feeds_cons, h, Option.bind_some]
    refine feeds_formatNat _ _ _ hc (by simp [feed, more]) fun b hb hne => ?_
    simp [feed, more, hb, hne]
  · refine ⟨⟨b, t, hbt, hsp, hend⟩, fun st raw c rest _ hc => ?_⟩
    -- The literal begins afresh, whatever the last one was.
    have hraw : feeds ⟨.beginValue, st, raw⟩ (formatNat i.natAbs ++ c :: rest) =
        feeds ⟨.beginValue, st, []⟩ (formatNat i.natAbs ++ c :: rest) := by
      have hb : feed ⟨.beginValue, st, raw⟩ b = feed ⟨.beginValue, st, []⟩ b := by
        simp [feed, stepBeginValue, push, hsp]
      rw [hbt, List.cons_append, feeds_cons, feeds_cons, hb]
    rw [hraw]
    refine feeds_formatNat [] _ _ hc (by simp [feed, stepBeginValue, isSpace]) fun b hb hne => ?_
    have hb' : isSpace b = false ∧ b ≠ 0x7B ∧ b ≠ 0x5B ∧ b ≠ 0x22 ∧ b ≠ 0x2D ∧ b ≠ 0x74 ∧ b ≠ 0x66 ∧ b ≠ 0x6E := by
      grind [isSpace, isDigit]
    simp [feed, stepBeginValue, hb, hne, hb']

theorem closed_writeBool (b : Bool) : Closed 0 (writeBool b) (.bool b) := by
  cases b with
  | true =>
    refine ⟨⟨0x74, [0x72, 0x75, 0x65], rfl, rfl, by decide⟩, fun st raw rest _ => ?_⟩
    change feeds ⟨.beginValue, st, raw⟩ (0x74 :: 0x72 :: 0x75 :: 0x65 :: rest) = _
    simp [feeds_cons, feed, stepBeginValue, isSpace, show Lib.str "rue" = [0x72, 0x75, 0x65] by decide]
  | false =>
    refine ⟨⟨0x66, [0x61, 0x6C, 0x73, 0x65], rfl, rfl, by decide⟩, fun st raw rest _ => ?_⟩
    change feeds ⟨.beginValue, st, raw⟩ (0x66 :: 0x61 :: 0x6C :: 0x73 :: 0x65 :: rest) = _
    simp [feeds_cons, feed, stepBeginValue, isSpace, show Lib.str "alse" = [0x61, 0x6C, 0x73, 0x65] by decide]

/-! ## Arrays, objects -/

/-- The items of an array after its bracket, up to and with the closing one. -/
theorem feeds_items {n : Nat} {st} (hn : st.length + 1 + n ≤ maxDepth) (rest : Bytes) :
    ∀ (items : List (Bytes × Json)) (done : List Json), items ≠ [] → (∀ m ∈ items, Delimited n m.1 m.2) →
      feeds ⟨.beginValue, .arr done :: st, []⟩ (joinWith 0x2C (items.map (·.1)) ++ 0x5D :: rest) =
        feeds (complete (.arr (done ++ items.map (·.2))) st) rest
  | [], _, h, _ => absurd rfl h
  | [m], done, _, h => by
    have hm := (h m (by simp)).reads (.arr done :: st) [] 0x5D rest (by simpa using hn) rfl
    simp [joinWith, hm, feeds_cons, feed, stepEndValue, isSpace]
  | m :: m' :: items, done, _, h => by
    have hm := (h m (by simp)).reads (.arr done :: st) [] 0x2C
      (joinWith 0x2C ((m' :: items).map (·.1)) ++ 0x5D :: rest) (by simpa using hn) rfl
    have ih := feeds_items hn rest (m' :: items) (done ++ [m.2]) (by simp) fun x hx => h x (by simp [hx])
    simp only [List.map_cons, joinWith, List.append_assoc, List.cons_append] at hm ih ⊢
    rw [hm, complete_arr, feeds_cons]
    simpa [feed, stepEndValue, isSpace] using ih

/-- Where a value must follow, an end of array is no longer expected. -/
theorem feeds_beginValueOrEmpty {text : Bytes} (h : Begins text) (st rest) :
    feeds ⟨.beginValueOrEmpty, st, []⟩ (text ++ rest) = feeds ⟨.beginValue, st, []⟩ (text ++ rest) := by
  obtain ⟨b, t, rfl, hsp, hb⟩ := h
  simp [feeds_cons, feed, stepBeginValue, push, hsp, hb]

theorem begins_joinWith {items : List Bytes} {sep : UInt8} (hne : items ≠ []) (h : ∀ t ∈ items, Begins t) :
    Begins (joinWith sep items) := by
  match items, hne with
  | [t], _ => exact h t (by simp)
  | t :: t' :: ts, _ =>
    obtain ⟨b, u, hb, hsp⟩ := h t (by simp)
    exact ⟨b, u ++ sep :: joinWith sep (t' :: ts), by simp [joinWith, hb], hsp⟩

theorem closed_writeArray {n : Nat} {items : List (Bytes × Json)} (hne : items ≠ [])
    (h : ∀ m ∈ items, Delimited n m.1 m.2) :
    Closed (n + 1) (writeArray (items.map (·.1))) (.arr (items.map (·.2))) := by
  refine ⟨⟨_, _, rfl, rfl, by decide⟩, fun st raw rest hn => ?_⟩
  have hpush : feed ⟨.beginValue, st, raw⟩ 0x5B = some ⟨.beginValueOrEmpty, .arr [] :: st, []⟩ := by
    simp [feed, stepBeginValue, push, isSpace, show st.length + 1 ≤ maxDepth by omega]
  have hbegin : Begins (joinWith 0x2C (items.map (·.1))) := by
    refine begins_joinWith (by simpa using hne) fun t ht => ?_
    obtain ⟨m, hm, rfl⟩ := List.mem_map.1 ht
    exact (h m hm).begins
  simp only [writeArray, List.cons_append, List.append_assoc, List.nil_append]
  rw [feeds_cons, hpush, Option.bind_some, feeds_beginValueOrEmpty hbegin,
    feeds_items (by omega) rest items [] hne h, List.nil_append]

/-- A key and its value's text and value. -/
structure Member where
  key : Bytes
  text : Bytes
  value : Json

/-- A member of an object, from its key's opening quote to the byte after its value. -/
theorem feeds_member {n : Nat} {st ms rest} (hn : st.length + 1 + n ≤ maxDepth) {m : Member}
    (h : Delimited n m.text m.value) {c : UInt8} (hc : isDelim c = true) :
    feeds ⟨.beginString, .obj ms :: st, []⟩ (writeMember m.key m.text ++ c :: rest) =
      feeds ⟨.endValue, .obj (ms ++ [(toValid m.key, m.value)]) :: st, []⟩ (c :: rest) := by
  have hopen : feed ⟨.beginString, .obj ms :: st, []⟩ 0x22 = some ⟨.inString, .obj ms :: st, []⟩ := by
    simp [feed, stepBeginString, isSpace]
  have hcolon : feed ⟨.endValue, .key ms (toValid m.key) :: st, []⟩ 0x3A =
      some ⟨.beginValue, .key ms (toValid m.key) :: st, []⟩ := by simp [feed, stepEndValue, isSpace]
  have hv := h.reads (.key ms (toValid m.key) :: st) [] c rest (by simpa using hn) hc
  simp only [writeMember, quote, List.cons_append, List.append_assoc, List.nil_append]
  rw [feeds_cons, hopen, Option.bind_some, feeds_inString_quote, complete_obj, feeds_cons, hcolon,
    Option.bind_some, hv, complete_key]

/-- The members of an object, up to and with the closing brace. -/
theorem feeds_members {n : Nat} {st} (hn : st.length + 1 + n ≤ maxDepth) (rest : Bytes) :
    ∀ (members : List Member) (done : List (Bytes × Json)), members ≠ [] →
      (∀ m ∈ members, Delimited n m.text m.value) →
      feeds ⟨.beginString, .obj done :: st, []⟩
          (joinWith 0x2C (members.map fun m => writeMember m.key m.text) ++ 0x7D :: rest) =
        feeds (complete (.obj (done ++ members.map fun m => (toValid m.key, m.value))) st) rest
  | [], _, h, _ => absurd rfl h
  | [m], done, _, h => by
    simp only [List.map_cons, List.map_nil, joinWith, feeds_member hn (h m (by simp)) (c := 0x7D) rfl, feeds_cons]
    simp [feed, stepEndValue, isSpace]
  | m :: m' :: members, done, _, h => by
    have ih := feeds_members hn rest (m' :: members) (done ++ [(toValid m.key, m.value)]) (by simp)
      fun x hx => h x (by simp [hx])
    simp only [List.map_cons, joinWith, List.append_assoc, List.cons_append] at ih ⊢
    rw [feeds_member hn (h m (by simp)) (c := 0x2C) rfl, feeds_cons]
    simpa [feed, stepEndValue, isSpace] using ih

/-- An object with at least one member. -/
theorem closed_writeObject {n : Nat} {members : List Member} (hne : members ≠ [])
    (h : ∀ m ∈ members, Delimited n m.text m.value) :
    Closed (n + 1) (writeObject (members.map fun m => (m.key, m.text)))
      (.obj (members.map fun m => (toValid m.key, m.value))) := by
  refine ⟨⟨_, _, rfl, rfl, by decide⟩, fun st raw rest hn => ?_⟩
  have hpush : feed ⟨.beginValue, st, raw⟩ 0x7B = some ⟨.beginStringOrEmpty, .obj [] :: st, []⟩ := by
    simp [feed, stepBeginValue, push, isSpace, show st.length + 1 ≤ maxDepth by omega]
  -- The first key opens the same whether or not the object could have been empty.
  have hkey : ∀ t, feeds ⟨.beginStringOrEmpty, .obj [] :: st, []⟩ (0x22 :: t) =
      feeds ⟨.beginString, .obj [] :: st, []⟩ (0x22 :: t) := fun t => by
    simp [feeds_cons, feed, stepBeginString, isSpace]
  have hhead : ∃ t, joinWith 0x2C (members.map fun m => writeMember m.key m.text) ++ 0x7D :: rest = 0x22 :: t := by
    rcases members with _ | ⟨m, _ | ⟨m', ms⟩⟩
    · exact absurd rfl hne
    · exact ⟨_, rfl⟩
    · exact ⟨_, rfl⟩
  obtain ⟨t, ht⟩ := hhead
  have hmem := feeds_members (by omega : st.length + 1 + n ≤ maxDepth) rest members [] hne h
  simp only [writeObject, List.map_map, Function.comp_def, List.cons_append, List.append_assoc, List.nil_append]
  rw [feeds_cons, hpush, Option.bind_some, ht, hkey, ← ht, hmem, List.nil_append]

/-! ## What is written is printable -/

theorem printable_hexDigit {n : UInt8} (h : n < 16) : 0x20 ≤ hexDigit n := by
  unfold hexDigit
  split <;> grind

theorem printable_of_all {t : Bytes} (h : (t.all fun c => 0x20 ≤ c) = true) : ∀ c ∈ t, 0x20 ≤ c := fun c hc =>
  of_decide_eq_true (List.all_eq_true.1 h c hc)

theorem printable_escapeRune (r : Rune) : ∀ c ∈ escapeRune r, 0x20 ≤ c := by
  cases r with
  | ascii b h =>
    simp only [escapeRune, escapeAscii]
    split_ifs with h₁ h₂
    · intro c hc
      rw [List.mem_singleton.1 hc]
      grind [htmlSafe]
    · rcases h₂ with rfl | rfl <;> exact printable_of_all (by decide)
    iterate 5 exact printable_of_all (by decide)
    · simp [printable_hexDigit (high_nibble_lt b), printable_hexDigit (low_nibble_lt b)]
  | two a b h =>
    simp only [escapeRune, Rune.bytes, List.forall_mem_cons]
    grind [isTwo, isCont]
  | three a b c h =>
    simp only [escapeRune]
    split_ifs
    · simp [printable_hexDigit (low_nibble_lt c)]
    · simp only [List.forall_mem_cons]
      grind [isThree, isCont]
  | four a b c d h =>
    simp only [escapeRune, Rune.bytes, List.forall_mem_cons]
    grind [isFour, isCont]
  | bad b h => simp [escapeRune]

theorem printable_quote (s : Bytes) : ∀ c ∈ quote s, 0x20 ≤ c := by
  intro c hc
  simp only [quote, quoteBody, List.cons_append, List.mem_cons, List.mem_append, List.mem_flatMap,
    List.not_mem_nil, or_false] at hc
  rcases hc with rfl | ⟨r, -, hr⟩ | rfl
  · decide
  · exact printable_escapeRune r c hr
  · decide

theorem printable_formatInt (i : Int) : ∀ c ∈ formatInt i, 0x20 ≤ c := by
  have hnat : ∀ {n : Nat}, ∀ c ∈ formatNat n, 0x20 ≤ c := fun {n} c hc => by
    grind [isDigit, formatNat_isDigit (n := n) hc]
  intro c hc
  unfold formatInt at hc
  split at hc
  · rcases List.mem_cons.1 hc with rfl | hc
    · decide
    · exact hnat c hc
  · exact hnat c hc

theorem printable_writeBool (b : Bool) : ∀ c ∈ writeBool b, 0x20 ≤ c := by
  cases b <;> exact printable_of_all (by decide)

theorem printable_joinWith {sep : UInt8} (hsep : 0x20 ≤ sep) : ∀ {items : List Bytes},
    (∀ t ∈ items, ∀ c ∈ t, 0x20 ≤ c) → ∀ c ∈ joinWith sep items, 0x20 ≤ c
  | [], _ => by simp [joinWith]
  | [t], h => h t (by simp)
  | t :: t' :: ts, h => by
    intro c hc
    simp only [joinWith, List.mem_append, List.mem_cons] at hc
    rcases hc with hc | rfl | hc
    · exact h t (by simp) c hc
    · exact hsep
    · exact printable_joinWith hsep (fun u hu => h u (by simp [hu])) c hc

theorem printable_writeObject {members : List (Bytes × Bytes)} (h : ∀ m ∈ members, ∀ c ∈ m.2, 0x20 ≤ c) :
    ∀ c ∈ writeObject members, 0x20 ≤ c := by
  have hmember : ∀ t ∈ members.map fun m => writeMember m.1 m.2, ∀ c ∈ t, 0x20 ≤ c := by
    intro t ht c hc
    obtain ⟨m, hm, rfl⟩ := List.mem_map.1 ht
    simp only [writeMember, List.mem_append, List.mem_cons] at hc
    rcases hc with hc | rfl | hc
    · exact printable_quote _ c hc
    · decide
    · exact h m hm c hc
  intro c hc
  simp only [writeObject, List.cons_append, List.mem_cons, List.mem_append, List.not_mem_nil, or_false] at hc
  rcases hc with rfl | hc | rfl
  · decide
  · exact printable_joinWith (by decide) hmember c hc
  · decide

/-! ## Lengths -/

theorem length_joinWith (sep : UInt8) : ∀ {t : Bytes} {ts : List Bytes},
    (joinWith sep (t :: ts)).length = ((t :: ts).map List.length).sum + ts.length
  | t, [] => by simp [joinWith]
  | t, u :: ts => by
    have ih := @length_joinWith sep u ts
    simp only [joinWith, List.length_append, List.length_cons, ih, List.map_cons, List.sum_cons]
    omega

theorem length_writeArray {ts : List Bytes} (hne : ts ≠ []) :
    (writeArray ts).length = (ts.map List.length).sum + ts.length + 1 := by
  cases ts with
  | nil => exact absurd rfl hne
  | cons t ts =>
    simp only [writeArray, List.length_cons, List.length_append, length_joinWith, List.length_nil]
    omega

theorem length_quote (s : Bytes) : (quote s).length = (quoteBody s).length + 2 := by simp [quote]

/-! ## Whole texts -/

theorem eof_endTop (v : Json) : eof ⟨.endTop v, [], []⟩ = some v := by simp [eof, feed, stepEndValue, isSpace]

/-- **A closed text** unmarshals to its value. -/
theorem Closed.unmarshal {n text v} (h : Closed n text v) (hn : n ≤ maxDepth) : unmarshal text = some v := by
  have hread := h.reads [] [] [] (by simpa using hn)
  rw [List.append_nil, feeds_nil, complete_nil] at hread
  rw [Json.unmarshal, init, hread, Option.bind_some, eof_endTop]

end Lib.Json
