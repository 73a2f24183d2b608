/-
What JavaScript's `JSON.stringify` writes, Go's decoder reads.

It writes an object's members as `encoding/json` does, but for the strings: of
the characters that HTML treats specially it escapes none. `closed_stringify`: a
string is read back with its bad bytes replaced, as after Go's own writer.
`decodeFirst_stringify`: so is an object of strings and booleans.
-/
import ScrewLogger.Lib.Json.Decode
import ScrewLogger.Lib.Json.Torn

namespace Lib.Json

/-- A character inside a string (`QuoteJSONString`). -/
def stringifyRune : Rune → Bytes
  | .ascii b _ => if b = 0x3C ∨ b = 0x3E ∨ b = 0x26 then [b] else escapeAscii b
  | r => r.coerce

def stringifyBody (s : Bytes) : Bytes := (runes s).flatMap stringifyRune

/-- `JSON.stringify` of a string. -/
def stringify (s : Bytes) : Bytes := 0x22 :: stringifyBody s ++ [0x22]

theorem feeds_inString_stringifyRune {st raw} (r : Rune) (t : Bytes) :
    feeds ⟨.inString, st, raw⟩ (stringifyRune r ++ t) = feeds ⟨.inString, st, raw ++ stringifyRune r⟩ t := by
  cases r with
  | ascii b h =>
    simp only [stringifyRune]
    split
    · next hhtml => exact feeds_inString_plain t (by grind)
    · exact feeds_inString_rune (.ascii b h) t
  | two a b h =>
    exact feeds_inString_plain t (by simp only [stringifyRune, Rune.coerce, Rune.bytes]; grind [isTwo, isCont])
  | three a b c h =>
    exact feeds_inString_plain t (by simp only [stringifyRune, Rune.coerce, Rune.bytes]; grind [isThree, isCont])
  | four a b c d h =>
    exact feeds_inString_plain t (by simp only [stringifyRune, Rune.coerce, Rune.bytes]; grind [isFour, isCont])
  | bad b h => exact feeds_inString_plain t (by simp [stringifyRune, Rune.coerce, runeError])

theorem unescape_stringifyRune (r : Rune) (t : Bytes) :
    unescape 0 (runes (stringifyRune r ++ t)) = r.coerce ++ unescape 0 (runes t) := by
  cases r with
  | ascii b h =>
    simp only [stringifyRune]
    split
    · next hhtml => exact unescape_bytes (r := .ascii b h) rfl (by simp only [lead]; rintro rfl; simp at hhtml) t
    · exact unescape_escapeAscii h t
  | two a b h =>
    exact unescape_bytes (r := .two a b h) rfl (by simp only [lead]; rintro rfl; simp [isTwo] at h) t
  | three a b c h =>
    exact unescape_bytes (r := .three a b c h) rfl (by simp only [lead]; rintro rfl; simp [isThree] at h) t
  | four a b c d h =>
    exact unescape_bytes (r := .four a b c d h) rfl (by simp only [lead]; rintro rfl; simp [isFour] at h) t
  | bad b h => exact unescape_bytes (r := .three 0xEF 0xBF 0xBD (by decide)) rfl (by decide) t

theorem unquote_stringifyBody (s : Bytes) : unquote (stringifyBody s) = toValid s := by
  simp only [unquote, stringifyBody, toValid]
  induction runes s with
  | nil => rfl
  | cons r rs ih => rw [List.flatMap_cons, unescape_stringifyRune, ih, List.flatMap_cons]

theorem feeds_inString_stringifyBody {st raw} (s t : Bytes) :
    feeds ⟨.inString, st, raw⟩ (stringifyBody s ++ t) = feeds ⟨.inString, st, raw ++ stringifyBody s⟩ t := by
  simp only [stringifyBody]
  induction runes s generalizing raw with
  | nil => simp
  | cons r rs ih => simp only [List.flatMap_cons, List.append_assoc, feeds_inString_stringifyRune, ih]

/-- **A string** is read back. -/
theorem closed_stringify (s : Bytes) : Closed 0 (stringify s) (.str (toValid s)) := by
  refine ⟨⟨_, _, rfl, rfl, by decide⟩, fun st raw rest _ => ?_⟩
  have hopen : feed ⟨.beginValue, st, raw⟩ 0x22 = some ⟨.inString, st, []⟩ := by simp [feed, stepBeginValue, isSpace]
  simp only [stringify, List.cons_append, List.append_assoc, List.nil_append, feeds_cons, hopen, Option.bind_some]
  rw [feeds_inString_stringifyBody, feeds_cons]
  simp [feed, unquote_stringifyBody]

/-! ## Objects -/

/-- A string or a boolean. -/
inductive Scalar
  | str (s : Bytes)
  | bool (b : Bool)

def Scalar.text : Scalar → Bytes
  | .str s => stringify s
  | .bool b => writeBool b

/-- What is read of it. -/
def Scalar.value : Scalar → Json
  | .str s => .str (toValid s)
  | .bool b => .bool b

theorem Scalar.closed : ∀ x : Scalar, Closed 0 x.text x.value
  | .str s => closed_stringify s
  | .bool b => closed_writeBool b

/-- A key that both writers write as it is. -/
theorem stringify_plain {key : Bytes} (h : Plain key) : stringify key = quote key := by
  have hbody : stringifyBody key = key := by
    induction key with
    | nil => rfl
    | cons c key ih =>
      obtain ⟨⟨hascii, hsafe⟩, hkey⟩ := List.forall_mem_cons.1 h
      have ih := ih hkey
      have hhtml : ¬ (c = 0x3C ∨ c = 0x3E ∨ c = 0x26) := by
        rintro (rfl | rfl | rfl) <;> cases hsafe
      rw [stringifyBody] at ih ⊢
      rw [runes_ascii hascii, List.flatMap_cons, ih, stringifyRune, if_neg hhtml, escapeAscii, if_pos hsafe,
        List.singleton_append]
  rw [stringify, hbody, quote, h.quoteBody]

/-- `JSON.stringify` of an object. -/
def stringifyObject (members : List (Bytes × Scalar)) : Bytes :=
  0x7B :: joinWith 0x2C (members.map fun m => stringify m.1 ++ 0x3A :: m.2.text) ++ [0x7D]

/-- **An object** is read back. -/
theorem decodeFirst_stringify {members : List (Bytes × Scalar)} (hne : members ≠ [])
    (hkeys : ∀ m ∈ members, Plain m.1) (broken : Bool) :
    decodeFirst ⟨stringifyObject members, broken⟩ = some (.obj (members.map fun m => (m.1, m.2.value))) := by
  have hobject := @objectText_writeObject 0 (members.map fun m => ⟨m.1, m.2.text, m.2.value⟩)
    (by simpa using hne) (by decide) fun m hm => by
      obtain ⟨m, -, rfl⟩ := List.mem_map.1 hm
      exact m.2.closed.delimited
  have htext : writeObject ((members.map fun m => (⟨m.1, m.2.text, m.2.value⟩ : Member)).map fun m => (m.key, m.text)) =
      stringifyObject members := by
    have hmembers : members.map (fun m => writeMember m.1 m.2.text) =
        members.map fun m => stringify m.1 ++ 0x3A :: m.2.text :=
      List.map_congr_left fun m hm => by rw [writeMember, stringify_plain (hkeys m hm)]
    rw [writeObject, stringifyObject, ← hmembers, List.map_map, List.map_map]
    rfl
  have hvalue : (members.map fun m => (⟨m.1, m.2.text, m.2.value⟩ : Member)).map (fun m => (toValid m.key, m.value)) =
      members.map fun m => (m.1, m.2.value) := by
    rw [List.map_map]
    exact List.map_congr_left fun m hm => by
      rw [Function.comp_apply, toValid_eq_self (hkeys m hm).valid]
  rw [htext, hvalue] at hobject
  have h := hobject.decodeFirst [] broken
  rwa [List.append_nil] at h

end Lib.Json
