/-
URLs: what `encodeURIComponent` writes, Go reads back, in a path and in a query.

`pathUnescape_encode` and `queryUnescape_encode`: every text comes back.
`parseQuery_written`: so do the pairs of a query string.
-/
import ScrewLogger.Lib.ServeMux

namespace Lib

/-! ## Components -/

/-- A byte that `encodeURIComponent` leaves as it is. -/
def isUnreserved (c : UInt8) : Bool :=
  0x41 ≤ c && c ≤ 0x5A || 0x61 ≤ c && c ≤ 0x7A || 0x30 ≤ c && c ≤ 0x39 || (str "-_.!~*'()").contains c

/-- A hexadecimal digit, in capitals. -/
def upperHex (n : UInt8) : UInt8 := if n < 10 then 0x30 + n else 0x37 + n

def encodeByte (c : UInt8) : Bytes :=
  if isUnreserved c then [c] else [0x25, upperHex (c >>> 4), upperHex (c &&& 0x0F)]

/-- `encodeURIComponent`, of the text's UTF-8. -/
def encodeURIComponent (s : Bytes) : Bytes := s.flatMap encodeByte

/-- `url.QueryUnescape`, none where it is malformed. -/
def queryUnescape (s : Bytes) : Option Bytes := pathUnescape.decode (s.map fun c => if c = 0x2B then 0x20 else c)

variable {c : UInt8} {s t : Bytes}

theorem decode_cons (hc : c ≠ 0x25) : pathUnescape.decode (c :: s) = (pathUnescape.decode s).map (c :: ·) := by
  rcases s with _ | ⟨d, _ | ⟨e, s⟩⟩
  · simp [pathUnescape.decode, hc]
  · by_cases hd : d = 0x25 <;> simp [pathUnescape.decode, hc, hd]
  · simp [pathUnescape.decode, hc]

theorem upperHex_nibbles : ∀ n < 256, let c := UInt8.ofNat n
    Json.isHex (upperHex (c >>> 4)) = true ∧ Json.isHex (upperHex (c &&& 0x0F)) = true ∧
      UInt8.ofNat (Json.hexVal (upperHex (c >>> 4)) * 16 + Json.hexVal (upperHex (c &&& 0x0F))) = c := by
  decide +kernel

theorem decode_encodeByte (c : UInt8) :
    pathUnescape.decode (encodeByte c ++ t) = (pathUnescape.decode t).map (c :: ·) := by
  unfold encodeByte
  split
  · next h => exact decode_cons (by rintro rfl; exact absurd h (by decide))
  · obtain ⟨hhigh, hlow, hval⟩ := upperHex_nibbles c.toNat c.toNat_lt
    rw [UInt8.ofNat_toNat] at hhigh hlow hval
    simp [pathUnescape.decode, hhigh, hlow, hval]

theorem decode_encode : pathUnescape.decode (encodeURIComponent s ++ t) = (pathUnescape.decode t).map (s ++ ·) := by
  induction s with
  | nil => simp [encodeURIComponent]
  | cons c s ih =>
    have hcons : encodeURIComponent (c :: s) ++ t = encodeByte c ++ (encodeURIComponent s ++ t) := by
      simp [encodeURIComponent]
    rw [hcons, decode_encodeByte, ih, Option.map_map]
    rfl

theorem decode_encode_nil : pathUnescape.decode (encodeURIComponent s) = some s := by
  have h := decode_encode (s := s) (t := [])
  simpa [pathUnescape.decode] using h

/-- A byte that `encodeURIComponent` never writes. -/
theorem not_mem_encode (hc : isUnreserved c = false) (hpercent : c ≠ 0x25) (hhex : Json.isHex c = false) :
    c ∉ encodeURIComponent s := by
  intro h
  obtain ⟨d, -, hd⟩ := List.mem_flatMap.1 h
  unfold encodeByte at hd
  split at hd
  · next hunreserved =>
    rw [List.mem_singleton.1 hd, hunreserved] at hc
    cases hc
  · obtain ⟨hhigh, hlow, -⟩ := upperHex_nibbles d.toNat d.toNat_lt
    rw [UInt8.ofNat_toNat] at hhigh hlow
    simp only [List.mem_cons, List.not_mem_nil, or_false] at hd
    obtain rfl | rfl | rfl := hd
    · exact hpercent rfl
    · rw [hhigh] at hhex
      cases hhex
    · rw [hlow] at hhex
      cases hhex

/-- **A segment of a path** is read back. -/
theorem pathUnescape_encode (s : Bytes) : pathUnescape (encodeURIComponent s) = s := by
  rw [pathUnescape, decode_encode_nil]
  rfl

/-- **A value of a query** is read back. -/
theorem queryUnescape_encode (s : Bytes) : queryUnescape (encodeURIComponent s) = some s := by
  rw [queryUnescape, List.map_congr_left (g := id) fun c hc => ?_, List.map_id, decode_encode_nil]
  refine if_neg ?_
  rintro rfl
  exact absurd hc (not_mem_encode (by decide) (by decide) (by decide))

/-! ## Queries -/

/-- A pair of a query: `key=value`. One with a semicolon is refused, and so is
one that is malformed. -/
def readPair (pair : Bytes) : Option (Bytes × Bytes) :=
  if pair = [] ∨ 0x3B ∈ pair then none
  else do
    let key ← queryUnescape (pair.takeWhile (· != 0x3D))
    let value ← queryUnescape ((pair.dropWhile (· != 0x3D)).drop 1)
    pure (key, value)

/-- `url.ParseQuery`, its errors dropped, as `URL.Query` drops them. -/
def parseQuery (query : Bytes) : List (Bytes × Bytes) := (query.splitOn 0x26).filterMap readPair

/-- A pair as it is written. -/
def writePair (pair : Bytes × Bytes) : Bytes := pair.1 ++ 0x3D :: pair.2

/-- The byte separates nothing in a query. -/
def isInert (c : UInt8) : Bool := c != 0x26 && c != 0x3B && c != 0x3D

theorem readPair_write {key value key' value' : Bytes} (hkey : ∀ c ∈ key, isInert c = true)
    (hvalue : ∀ c ∈ value, isInert c = true) (hreadKey : queryUnescape key = some key')
    (hreadValue : queryUnescape value = some value') : readPair (writePair (key, value)) = some (key', value') := by
  have hkey' : ∀ c ∈ key, (c != 0x3D) = true := fun c hc => by
    have := hkey c hc
    simp only [isInert, Bool.and_eq_true] at this
    exact this.2
  have htake : (key ++ 0x3D :: value).takeWhile (· != 0x3D) = key := by
    rw [List.takeWhile_append_of_pos hkey']
    simp
  have hdrop : (key ++ 0x3D :: value).dropWhile (· != 0x3D) = 0x3D :: value := by
    rw [List.dropWhile_append_of_pos hkey']
    simp
  have hno : ¬ (key ++ 0x3D :: value = [] ∨ 0x3B ∈ key ++ 0x3D :: value) := by
    simp only [List.append_eq_nil_iff, reduceCtorEq, and_false, false_or, List.mem_append, List.mem_cons, not_or]
    exact ⟨fun h => absurd (hkey _ h) (by decide), by decide, fun h => absurd (hvalue _ h) (by decide)⟩
  rw [readPair, writePair, if_neg hno, htake, hdrop]
  simp [hreadKey, hreadValue]

/-- **A query string** is read back pair by pair. -/
theorem parseQuery_written {pairs : List (Bytes × Bytes)} (hne : pairs ≠ [])
    (hinert : ∀ p ∈ pairs, ∀ c ∈ p.1 ++ p.2, isInert c = true) {read : Bytes × Bytes → Bytes × Bytes}
    (hread : ∀ p ∈ pairs, queryUnescape p.1 = some (read p).1 ∧ queryUnescape p.2 = some (read p).2) :
    parseQuery ([0x26].intercalate (pairs.map writePair)) = pairs.map read := by
  have hamp : ∀ l ∈ pairs.map writePair, 0x26 ∉ l := by
    intro l hl hmem
    obtain ⟨p, hp, rfl⟩ := List.mem_map.1 hl
    simp only [writePair, List.mem_append, List.mem_cons] at hmem
    obtain hmem | hmem | hmem := hmem
    · exact absurd (hinert p hp _ (List.mem_append_left _ hmem)) (by decide)
    · exact absurd hmem (by decide)
    · exact absurd (hinert p hp _ (List.mem_append_right _ hmem)) (by decide)
  rw [parseQuery, List.splitOn_intercalate 0x26 hamp (by simpa using hne)]
  clear hamp hne
  induction pairs with
  | nil => rfl
  | cons p pairs ih =>
    obtain ⟨hkey, hvalue⟩ := hread p (by simp)
    have hp := hinert p (by simp)
    rw [List.map_cons, List.filterMap_cons_some (readPair_write (fun c hc => hp c (List.mem_append_left _ hc))
      (fun c hc => hp c (List.mem_append_right _ hc)) hkey hvalue), List.map_cons,
      ih (fun q hq => hinert q (by simp [hq])) fun q hq => hread q (by simp [hq])]

/-- Text that `encodeURIComponent` leaves as it is. -/
theorem encode_unreserved (hs : ∀ c ∈ s, isUnreserved c = true) : encodeURIComponent s = s := by
  induction s with
  | nil => rfl
  | cons c s ih =>
    have hcons : encodeURIComponent (c :: s) = encodeByte c ++ encodeURIComponent s := by simp [encodeURIComponent]
    rw [hcons, encodeByte, if_pos (hs c (by simp)), ih fun d hd => hs d (by simp [hd]), List.singleton_append]

/-- A pair of a key and an encoded value. -/
def encodePair (pair : Bytes × Bytes) : Bytes := writePair (pair.1, encodeURIComponent pair.2)

/-- **A query of encoded values** is read back. -/
theorem parseQuery_encoded {pairs : List (Bytes × Bytes)} (hne : pairs ≠ [])
    (hkeys : ∀ p ∈ pairs, ∀ c ∈ p.1, isUnreserved c = true) :
    parseQuery ([0x26].intercalate (pairs.map encodePair)) = pairs := by
  have hinert : ∀ t : Bytes, ∀ c ∈ encodeURIComponent t, isInert c = true := fun t c hc => by
    simp only [isInert, Bool.and_eq_true, bne_iff_ne]
    refine ⟨⟨?_, ?_⟩, ?_⟩ <;> rintro rfl <;> exact not_mem_encode (by decide) (by decide) (by decide) hc
  have hplain : ∀ p ∈ pairs, encodeURIComponent p.1 = p.1 := fun p hp => encode_unreserved (hkeys p hp)
  have hmap : pairs.map encodePair = (pairs.map fun p => (p.1, encodeURIComponent p.2)).map writePair := by
    rw [List.map_map]
    rfl
  rw [hmap, @parseQuery_written _ (by simpa using hne) ?_ (fun p => (p.1, pathUnescape p.2)) ?_, List.map_map]
  · exact (List.map_congr_left fun p _ => by simp [pathUnescape_encode]).trans (List.map_id pairs)
  · simp only [List.forall_mem_map]
    intro p hp c hc
    rw [← hplain p hp, List.mem_append] at hc
    exact hc.elim (hinert _ c) (hinert _ c)
  · simp only [List.forall_mem_map]
    intro p hp
    have hkey := queryUnescape_encode p.1
    rw [hplain p hp] at hkey
    exact ⟨hkey, by rw [queryUnescape_encode, pathUnescape_encode]⟩

end Lib
