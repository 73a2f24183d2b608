/-
The JSON scanner of `encoding/json`: a state machine fed one byte at a time
(`scanner.go`), which here also builds the value it reads.

`unmarshal` feeds a whole text and asks for its value at the end.
`decodeFirst` is `json.Decoder.Decode` on a reader: it stops at the end of the
first value and never looks at what follows.
-/
import ScrewLogger.Lib.Json.Text

namespace Lib

/-- A JSON value. A number is its literal; an object keeps its members in the
order they stand in. -/
inductive Json
  | null
  | bool (b : Bool)
  | num (lit : Bytes)
  | str (s : Bytes)
  | arr (items : List Json)
  | obj (members : List (Bytes × Json))

namespace Json

/-- The scanner's step: what the next byte is read as. -/
inductive Step
  | beginValue
  | beginValueOrEmpty
  | beginString
  | beginStringOrEmpty
  | endValue
  | endTop (v : Json)
  | inString
  | inStringEsc
  /-- After `\u`, with `left` hex digits to come. -/
  | inStringEscU (left : Nat)
  | neg
  | zero
  | int
  | dot
  | dot0
  | exp
  | expSign
  | exp0
  /-- Inside `true`, `false` or `null`, with `rest` to come. -/
  | literal (rest : Bytes) (v : Json)

/-- A container being read (`parseState`), with what it holds so far. -/
inductive Frame
  | arr (items : List Json)
  /-- An object before a key, or after a member. -/
  | obj (members : List (Bytes × Json))
  /-- An object after the key `k`. -/
  | key (members : List (Bytes × Json)) (k : Bytes)

/-- The scanner: its step, the containers it is in (innermost first), and the
bytes of the literal being read. -/
structure Scanner where
  step : Step
  stack : List Frame
  raw : Bytes

def init : Scanner := ⟨.beginValue, [], []⟩

/-- `maxNestingDepth`. -/
def maxDepth : Nat := 10000

def isSpace (c : UInt8) : Bool := c == 0x20 || c == 0x09 || c == 0x0D || c == 0x0A

/-- A value is complete: it goes into the innermost container, where a string
before a `:` is the key. -/
def complete (v : Json) : List Frame → Scanner
  | [] => ⟨.endTop v, [], []⟩
  | .arr items :: st => ⟨.endValue, .arr (items ++ [v]) :: st, []⟩
  | .key ms k :: st => ⟨.endValue, .obj (ms ++ [(k, v)]) :: st, []⟩
  | .obj ms :: st =>
    match v with
    | .str k => ⟨.endValue, .key ms k :: st, []⟩
    | _ => ⟨.endValue, .obj ms :: st, []⟩

@[simp] theorem complete_nil (v : Json) : complete v [] = ⟨.endTop v, [], []⟩ := rfl
@[simp] theorem complete_arr (v : Json) (items st) :
    complete v (.arr items :: st) = ⟨.endValue, .arr (items ++ [v]) :: st, []⟩ := rfl
@[simp] theorem complete_key (v : Json) (ms k st) :
    complete v (.key ms k :: st) = ⟨.endValue, .obj (ms ++ [(k, v)]) :: st, []⟩ := rfl
@[simp] theorem complete_obj (k : Bytes) (ms st) :
    complete (.str k) (.obj ms :: st) = ⟨.endValue, .key ms k :: st, []⟩ := rfl

/-- `pushParseState`. -/
def push (f : Frame) (next : Step) (s : Scanner) : Option Scanner :=
  if s.stack.length + 1 ≤ maxDepth then some ⟨next, f :: s.stack, []⟩ else none

def stepBeginValue (s : Scanner) (c : UInt8) : Option Scanner :=
  if isSpace c then some s
  else if c = 0x7B then push (.obj []) .beginStringOrEmpty s
  else if c = 0x5B then push (.arr []) .beginValueOrEmpty s
  else if c = 0x22 then some ⟨.inString, s.stack, []⟩
  else if c = 0x2D then some ⟨.neg, s.stack, [c]⟩
  else if c = 0x30 then some ⟨.zero, s.stack, [c]⟩
  else if c = 0x74 then some ⟨.literal (Lib.str "rue") (.bool true), s.stack, []⟩
  else if c = 0x66 then some ⟨.literal (Lib.str "alse") (.bool false), s.stack, []⟩
  else if c = 0x6E then some ⟨.literal (Lib.str "ull") .null, s.stack, []⟩
  else if isDigit c then some ⟨.int, s.stack, [c]⟩
  else none

def stepBeginString (s : Scanner) (c : UInt8) : Option Scanner :=
  if isSpace c then some s
  else if c = 0x22 then some ⟨.inString, s.stack, []⟩
  else none

/-- The byte after a value: at the top only space, in a container its `,`, its
`:` or its end. -/
def stepEndValue (s : Scanner) (c : UInt8) : Option Scanner :=
  if isSpace c then some s
  else match s.stack with
    | [] => none
    | .key ms k :: st => if c = 0x3A then some ⟨.beginValue, .key ms k :: st, []⟩ else none
    | .obj ms :: st =>
      if c = 0x2C then some ⟨.beginString, .obj ms :: st, []⟩
      else if c = 0x7D then some (complete (.obj ms) st)
      else none
    | .arr items :: st =>
      if c = 0x2C then some ⟨.beginValue, .arr items :: st, []⟩
      else if c = 0x5D then some (complete (.arr items) st)
      else none

/-- A number ends at the first byte that does not continue it. -/
def endNumber (s : Scanner) (c : UInt8) : Option Scanner := stepEndValue (complete (.num s.raw) s.stack) c

def more (next : Step) (s : Scanner) (c : UInt8) : Option Scanner := some ⟨next, s.stack, s.raw ++ [c]⟩

/-- One byte; `none` is a syntax error. -/
def feed (s : Scanner) (c : UInt8) : Option Scanner :=
  match s.step with
  | .beginValue => stepBeginValue s c
  | .beginValueOrEmpty =>
    if isSpace c then some s else if c = 0x5D then stepEndValue s c else stepBeginValue s c
  | .beginString => stepBeginString s c
  | .beginStringOrEmpty =>
    if isSpace c then some s else if c = 0x7D then stepEndValue s c else stepBeginString s c
  | .endValue | .endTop _ => stepEndValue s c
  | .inString =>
    if c = 0x22 then some (complete (.str (unquote s.raw)) s.stack)
    else if c = 0x5C then more .inStringEsc s c
    else if c < 0x20 then none
    else more .inString s c
  | .inStringEsc =>
    if c = 0x75 then more (.inStringEscU 4) s c
    else if c ∈ [0x62, 0x66, 0x6E, 0x72, 0x74, 0x5C, 0x2F, 0x22] then more .inString s c
    else none
  | .inStringEscU left =>
    if isHex c then more (if left ≤ 1 then .inString else .inStringEscU (left - 1)) s c else none
  | .neg => if c = 0x30 then more .zero s c else if isDigit c then more .int s c else none
  | .int =>
    if isDigit c then more .int s c
    else if c = 0x2E then more .dot s c
    else if c = 0x65 ∨ c = 0x45 then more .exp s c
    else endNumber s c
  | .zero =>
    if c = 0x2E then more .dot s c
    else if c = 0x65 ∨ c = 0x45 then more .exp s c
    else endNumber s c
  | .dot => if isDigit c then more .dot0 s c else none
  | .dot0 =>
    if isDigit c then more .dot0 s c
    else if c = 0x65 ∨ c = 0x45 then more .exp s c
    else endNumber s c
  | .exp =>
    if c = 0x2B ∨ c = 0x2D then more .expSign s c else if isDigit c then more .exp0 s c else none
  | .expSign => if isDigit c then more .exp0 s c else none
  | .exp0 => if isDigit c then more .exp0 s c else endNumber s c
  | .literal rest v =>
    match rest with
    | [] => none
    | [d] => if c = d then some (complete v s.stack) else none
    | d :: rest => if c = d then some ⟨.literal rest v, s.stack, []⟩ else none

theorem push_eq {f : Frame} {next : Step} {s s' : Scanner} (h : push f next s = some s') :
    s' = ⟨next, f :: s.stack, []⟩ := by
  unfold push at h
  split at h
  · exact (Option.some.inj h).symm
  · cases h

/-- What the first byte of a value does, if it is no error. -/
inductive Begun (s : Scanner) (c : UInt8) (s' : Scanner) : Prop
  | same (h : s' = s)
  | object (h : s' = ⟨.beginStringOrEmpty, .obj [] :: s.stack, []⟩)
  | array (h : s' = ⟨.beginValueOrEmpty, .arr [] :: s.stack, []⟩)
  | string (h : s' = ⟨.inString, s.stack, []⟩)
  | number (next : Step) (hnext : next = .neg ∨ next = .zero ∨ next = .int) (h : s' = ⟨next, s.stack, [c]⟩)
  | word (rest : Bytes) (v : Json) (hword : (rest, v) = (Lib.str "rue", .bool true) ∨
      (rest, v) = (Lib.str "alse", .bool false) ∨ (rest, v) = (Lib.str "ull", .null))
    (h : s' = ⟨.literal rest v, s.stack, []⟩)

theorem begun {s s' : Scanner} {c : UInt8} (h : stepBeginValue s c = some s') : Begun s c s' := by
  unfold stepBeginValue at h
  by_cases hspace : isSpace c = true
  · rw [if_pos hspace] at h
    exact .same (Option.some.inj h).symm
  rw [if_neg hspace] at h
  by_cases hbrace : c = 0x7B
  · rw [if_pos hbrace] at h
    exact .object (push_eq h)
  rw [if_neg hbrace] at h
  by_cases hbracket : c = 0x5B
  · rw [if_pos hbracket] at h
    exact .array (push_eq h)
  rw [if_neg hbracket] at h
  by_cases hquote : c = 0x22
  · rw [if_pos hquote] at h
    exact .string (Option.some.inj h).symm
  rw [if_neg hquote] at h
  by_cases hminus : c = 0x2D
  · rw [if_pos hminus] at h
    exact .number .neg (.inl rfl) (Option.some.inj h).symm
  rw [if_neg hminus] at h
  by_cases hzero : c = 0x30
  · rw [if_pos hzero] at h
    exact .number .zero (.inr (.inl rfl)) (Option.some.inj h).symm
  rw [if_neg hzero] at h
  by_cases ht : c = 0x74
  · rw [if_pos ht] at h
    exact .word _ _ (.inl rfl) (Option.some.inj h).symm
  rw [if_neg ht] at h
  by_cases hf : c = 0x66
  · rw [if_pos hf] at h
    exact .word _ _ (.inr (.inl rfl)) (Option.some.inj h).symm
  rw [if_neg hf] at h
  by_cases hn : c = 0x6E
  · rw [if_pos hn] at h
    exact .word _ _ (.inr (.inr rfl)) (Option.some.inj h).symm
  rw [if_neg hn] at h
  by_cases hdigit : isDigit c = true
  · rw [if_pos hdigit] at h
    exact .number .int (.inr (.inr rfl)) (Option.some.inj h).symm
  · rw [if_neg hdigit] at h
    cases h

/-- What a byte does to the scanner, if it is no error. -/
inductive Fed (s : Scanner) (c : UInt8) (s' : Scanner) : Prop
  | same (h : s' = s)
  | beginValue (h : stepBeginValue s c = some s')
  | beginString (h : stepBeginString s c = some s')
  | endValue (h : stepEndValue s c = some s')
  | string (h : s' = complete (.str (unquote s.raw)) s.stack)
  | number (h : endNumber s c = some s')
  | more (next : Step) (htop : ∀ v, next ≠ .endTop v) (hword : ∀ rest v, next ≠ .literal rest v)
    (h : s' = ⟨next, s.stack, s.raw ++ [c]⟩)
  | word (v : Json) (hstep : s.step = .literal [c] v) (h : s' = complete v s.stack)
  | inWord (rest : Bytes) (v : Json) (hstep : s.step = .literal (c :: rest) v)
    (h : s' = ⟨.literal rest v, s.stack, []⟩)

theorem fed_more {next : Step} {s s' : Scanner} {c : UInt8} (h : more next s c = some s')
    (htop : ∀ v, next ≠ .endTop v) (hword : ∀ rest v, next ≠ .literal rest v) : Fed s c s' :=
  .more next htop hword (Option.some.inj h).symm

theorem fed {s s' : Scanner} {c : UInt8} (h : feed s c = some s') : Fed s c s' := by
  obtain ⟨step, st, raw⟩ := s
  cases step with
  | beginValue => exact .beginValue h
  | beginString => exact .beginString h
  | endValue | endTop => exact .endValue h
  | beginValueOrEmpty =>
    simp only [feed] at h
    split at h
    · exact .same (Option.some.inj h).symm
    split at h
    · exact .endValue h
    · exact .beginValue h
  | beginStringOrEmpty =>
    simp only [feed] at h
    split at h
    · exact .same (Option.some.inj h).symm
    split at h
    · exact .endValue h
    · exact .beginString h
  | inString =>
    simp only [feed] at h
    split at h
    · exact .string (Option.some.inj h).symm
    split at h
    · exact fed_more h (by simp) (by simp)
    split at h
    · cases h
    · exact fed_more h (by simp) (by simp)
  | inStringEscU left =>
    simp only [feed] at h
    split at h
    · refine fed_more h ?_ ?_ <;> split <;> simp
    · cases h
  | literal rest v =>
    simp only [feed] at h
    split at h
    · cases h
    · split at h <;> cases h
      next hc => exact .word v (by rw [hc]) rfl
    · split at h <;> cases h
      next hc => exact .inWord _ v (by rw [hc]) rfl
  | inStringEsc | neg | zero | int | dot | dot0 | exp | expSign | exp0 =>
    simp only [feed] at h
    repeat' split at h
    all_goals first
      | exact fed_more h (by simp) (by simp)
      | exact .number h
      | cases h

def feeds (s : Scanner) (text : Bytes) : Option Scanner := text.foldlM feed s

/-- The end of the text, read as one more space (`scanner.eof`). -/
def eof (s : Scanner) : Option Json :=
  (feed s 0x20).bind fun s =>
    match s.step with
    | .endTop v => some v
    | _ => none

/-- `json.Unmarshal`, up to the value the text stands for. -/
def unmarshal (text : Bytes) : Option Json := (feeds init text).bind eof

/-! ## Streaming -/

/-- A reader: the bytes it has, and whether it ends in an error rather than EOF. -/
structure Reader where
  data : Bytes
  broken : Bool := false

/-- `http.MaxBytesReader`: past `limit` bytes, an error. -/
def Reader.limit (limit : Nat) (r : Reader) : Reader :=
  if r.data.length ≤ limit then r else ⟨r.data.take limit, true⟩

/-- The first value of a text, read no further than its end. An object or an
array ends at its bracket; any other value at the byte after it, or at EOF. -/
def readValue (s : Scanner) (broken : Bool) : Bytes → Option Json
  | [] => if broken then none else eof s
  | c :: text =>
    match s.step with
    | .endTop v => some v
    | _ =>
      match feed s c with
      | none => none
      | some s' =>
        match s'.step with
        | .endTop v => if c = 0x7D ∨ c = 0x5D then some v else readValue s' broken text
        | _ => readValue s' broken text

/-- `json.NewDecoder(r).Decode`, up to the value. -/
def decodeFirst (r : Reader) : Option Json := readValue init r.broken r.data

/-- A value read before an error is read from more of the text, too. -/
theorem readValue_append {v : Json} {broken : Bool} {rest text : Bytes} {s : Scanner}
    (h : readValue s true text = some v) : readValue s broken (text ++ rest) = some v := by
  induction text generalizing s with
  | nil => simp [readValue] at h
  | cons c text ih =>
    simp only [List.cons_append, readValue] at h ⊢
    split at h
    · exact h
    · split at h
      · cases h
      · next s' hfeed =>
        split at h
        · by_cases hc : c = 0x7D ∨ c = 0x5D
          · rw [if_pos hc] at h ⊢
            exact h
          · rw [if_neg hc] at h ⊢
            exact ih h
        · exact ih h

/-- What is decoded within a limit is decoded without it. -/
theorem decodeFirst_limit {n : Nat} {r : Reader} {v : Json} (h : decodeFirst (r.limit n) = some v) :
    decodeFirst r = some v := by
  unfold Reader.limit at h
  split at h
  · exact h
  · have h := @readValue_append _ r.broken (r.data.drop n) _ _ h
    rwa [List.take_append_drop] at h

end Json

end Lib
