/-
A JSON text cut short, and reading one value from a stream.

Once inside a container the scanner comes back to the top only with a closing
bracket (`feed_inside`). So a text that ends in one is at its end there for the
first time: `decodeFirst_closed` stops exactly there, and no proper prefix is
a value, whether the input ends after it (`unmarshal_torn`) or another object
is written straight on (`unmarshal_torn_append`). `unmarshal_space`: a space at
the end changes nothing.
-/
import ScrewLogger.Lib.Json.Write

namespace Lib.Json

/-- The scanner is inside a container. A keyword it may be in the middle of has
only letters to come. -/
structure Inside (s : Scanner) : Prop where
  stack : s.stack ≠ []
  step : ∀ v, s.step ≠ .endTop v
  literal : ∀ rest v, s.step = .literal rest v → 0x7B ∉ rest ∧ 0x20 ∉ rest

/-- The text's value is complete. -/
def AtTop (s : Scanner) : Prop := ∃ v, s = ⟨.endTop v, [], []⟩

/-- A completed value leaves the scanner in the container it is in, if any. -/
theorem complete_inside {v : Json} {st : List Frame} (h : st ≠ []) : Inside (complete v st) := by
  match st, h with
  | .arr _ :: _, _ => exact ⟨by simp, by simp, by simp⟩
  | .key _ _ :: _, _ => exact ⟨by simp, by simp, by simp⟩
  | .obj _ :: _, _ => cases v <;> exact ⟨by simp [complete], by simp [complete], by simp [complete]⟩

theorem complete_inside_or_atTop (v : Json) (st : List Frame) : Inside (complete v st) ∨ AtTop (complete v st) := by
  match st with
  | [] => exact .inr ⟨v, rfl⟩
  | f :: st => exact .inl (complete_inside (by simp))

/-- A closing bracket. -/
def isClose (c : UInt8) : Prop := c = 0x7D ∨ c = 0x5D

theorem stepBeginValue_inside {s s' : Scanner} {c : UInt8} (hs : Inside s) (h : stepBeginValue s c = some s') :
    Inside s' := by
  cases begun h with
  | same h =>
    rw [h]
    exact hs
  | object h | array h =>
    rw [h]
    exact ⟨by simp, by simp, by simp⟩
  | string h =>
    rw [h]
    exact ⟨hs.stack, by simp, by simp⟩
  | number next hnext h =>
    rw [h]
    rcases hnext with rfl | rfl | rfl <;> exact ⟨hs.stack, by simp, by simp⟩
  | word rest v hword h =>
    rw [h]
    refine ⟨hs.stack, by simp, fun rest' v' heq => ?_⟩
    cases heq
    rcases hword with hword | hword | hword <;> cases hword <;> decide

theorem stepBeginString_inside {s s' : Scanner} {c : UInt8} (hs : Inside s)
    (h : stepBeginString s c = some s') : Inside s' := by
  unfold stepBeginString at h
  split at h
  · cases h; exact hs
  split at h
  · cases h; exact ⟨hs.stack, by simp, by simp⟩
  · cases h

theorem stepEndValue_inside {s s' : Scanner} {c : UInt8} (hs : Inside s) (h : stepEndValue s c = some s') :
    Inside s' ∨ (AtTop s' ∧ isClose c) := by
  unfold stepEndValue at h
  split at h
  · cases h; exact .inl hs
  split at h
  · cases h
  · split at h <;> cases h
    exact .inl ⟨by simp, by simp, by simp⟩
  · split at h
    · cases h; exact .inl ⟨by simp, by simp, by simp⟩
    split at h <;> cases h
    next hc => exact (complete_inside_or_atTop _ _).imp id fun ht => ⟨ht, .inl hc⟩
  · split at h
    · cases h; exact .inl ⟨by simp, by simp, by simp⟩
    split at h <;> cases h
    next hc => exact (complete_inside_or_atTop _ _).imp id fun ht => ⟨ht, .inr hc⟩

/-- **One byte inside a container** stays inside, or is the bracket that closes
the outermost one. -/
theorem feed_inside {s s' : Scanner} {c : UInt8} (hs : Inside s) (h : feed s c = some s') :
    Inside s' ∨ (AtTop s' ∧ isClose c) := by
  cases fed h with
  | same h =>
    rw [h]
    exact .inl hs
  | beginValue h => exact .inl (stepBeginValue_inside hs h)
  | beginString h => exact .inl (stepBeginString_inside hs h)
  | endValue h => exact stepEndValue_inside hs h
  | string h =>
    rw [h]
    exact .inl (complete_inside hs.stack)
  | number h => exact stepEndValue_inside (complete_inside hs.stack) h
  | more next htop hword h =>
    rw [h]
    exact .inl ⟨hs.stack, htop, fun rest v heq => absurd heq (hword rest v)⟩
  | word v hstep h =>
    rw [h]
    exact .inl (complete_inside hs.stack)
  | inWord rest v hstep h =>
    obtain ⟨hbrace, hspace⟩ := hs.literal _ _ hstep
    rw [List.mem_cons, not_or] at hbrace hspace
    rw [h]
    refine .inl ⟨hs.stack, by simp, fun rest' v' heq => ?_⟩
    cases heq
    exact ⟨hbrace.2, hspace.2⟩

/-- At the top nothing but space follows. -/
theorem feeds_atTop {s s' : Scanner} (hs : AtTop s) : ∀ {t : Bytes}, feeds s t = some s' →
    ∀ c ∈ t, isSpace c = true
  | [], _ => by simp
  | c :: t, h => by
    obtain ⟨v, rfl⟩ := hs
    rw [feeds_cons] at h
    cases hsp : isSpace c with
    | false => simp [feed, stepEndValue, hsp] at h
    | true =>
      have hc : feed ⟨.endTop v, [], []⟩ c = some ⟨.endTop v, [], []⟩ := by simp [feed, stepEndValue, hsp]
      rw [hc, Option.bind_some] at h
      intro d hd
      rcases List.mem_cons.1 hd with rfl | hd
      · exact hsp
      · exact feeds_atTop ⟨v, rfl⟩ h d hd

/-- A text read to its end inside a container, short of a last byte that is no
space, is still inside. -/
theorem feeds_inside {s s' : Scanner} (hs : Inside s) {q : Bytes} (hq : ∃ c ∈ q, isSpace c = false) :
    ∀ {p : Bytes}, feeds s (p ++ q) = some s' → ∃ m, feeds s p = some m ∧ Inside m
  | [], _ => ⟨s, rfl, hs⟩
  | c :: p, h => by
    rw [List.cons_append, feeds_cons] at h
    cases hc : feed s c with
    | none => simp [hc] at h
    | some m =>
      rw [hc, Option.bind_some] at h
      rcases feed_inside hs hc with hin | ⟨htop, -⟩
      · obtain ⟨m', hm', hin'⟩ := feeds_inside hin hq h
        exact ⟨m', by rw [feeds_cons, hc]; exact hm', hin'⟩
      · obtain ⟨d, hd, hsp⟩ := hq
        have := feeds_atTop htop h d (by simp [hd])
        simp [this] at hsp

/-- Inside a container the text is not at its end. -/
theorem eof_inside {s : Scanner} (hs : Inside s) : eof s = none := by
  unfold eof
  cases h : feed s 0x20 with
  | none => rfl
  | some s' =>
    rcases feed_inside hs h with hin | ⟨-, hc⟩
    · rw [Option.bind_some]
      split
      · next v hv => exact absurd hv (hin.step v)
      · rfl
    · simp [isClose] at hc

/-- An object as written: a closed text from `{` to `}`, `n` levels deep. -/
structure ObjectText (n : Nat) (text : Bytes) (v : Json) : Prop where
  closed : Closed n text v
  depth : n ≤ maxDepth
  shape : ∃ mid, text = 0x7B :: 0x22 :: mid ++ [0x7D]

theorem objectText_writeObject {n : Nat} {members : List Member} (hne : members ≠ []) (hn : n + 1 ≤ maxDepth)
    (h : ∀ m ∈ members, Delimited n m.text m.value) :
    ObjectText (n + 1) (writeObject (members.map fun m => (m.key, m.text)))
      (.obj (members.map fun m => (toValid m.key, m.value))) := by
  refine ⟨closed_writeObject hne h, hn, ?_⟩
  rcases members with _ | ⟨m, _ | ⟨m', ms⟩⟩
  · exact absurd rfl hne
  · exact ⟨_, rfl⟩
  · exact ⟨_, rfl⟩

/-- Every proper prefix of an object leaves the scanner inside it. -/
theorem ObjectText.prefix_inside {n text v p q} (h : ObjectText n text v) (ht : text = p ++ q) (hp : p ≠ [])
    (hq : q ≠ []) : ∃ m, feeds init p = some m ∧ Inside m := by
  obtain ⟨mid, hshape⟩ := h.shape
  have hread := h.closed.reads [] [] [] (by simpa using h.depth)
  rw [List.append_nil, ht, feeds_nil] at hread
  obtain ⟨c, p', rfl⟩ := List.exists_cons_of_ne_nil hp
  have hc : c = 0x7B := by
    have := ht.symm.trans hshape
    simpa using congrArg (·.head?) this
  subst hc
  have hopen : feed init 0x7B = some ⟨.beginStringOrEmpty, [.obj []], []⟩ := by
    simp [init, feed, stepBeginValue, push, isSpace, maxDepth]
  have hlast : ∃ c ∈ q, isSpace c = false := by
    refine ⟨0x7D, ?_, rfl⟩
    have hl := congrArg List.getLast? (ht.symm.trans hshape)
    rw [List.getLast?_append_of_ne_nil _ hq, List.getLast?_append_of_ne_nil _ (by simp)] at hl
    exact List.mem_of_getLast? hl
  change feeds init _ = _ at hread
  rw [List.cons_append, feeds_cons, hopen, Option.bind_some] at hread
  obtain ⟨m, hm, hin⟩ := feeds_inside ⟨by simp, by simp, by simp⟩ hlast hread
  exact ⟨m, by rw [feeds_cons, hopen]; exact hm, hin⟩

/-- **An object cut short** is no JSON text. -/
theorem ObjectText.unmarshal_torn {n text v p q} (h : ObjectText n text v) (ht : text = p ++ q) (hp : p ≠ [])
    (hq : q ≠ []) : unmarshal p = none := by
  obtain ⟨m, hm, hin⟩ := h.prefix_inside ht hp hq
  rw [unmarshal, hm, Option.bind_some, eof_inside hin]

/-- A byte that cannot follow a key or a value inside a container. -/
def isStray (c : UInt8) : Bool := !isSpace c && c != 0x3A && c != 0x2C && c != 0x7D && c != 0x5D

theorem stepEndValue_stray {s : Scanner} {c : UInt8} (hc : isStray c = true) : stepEndValue s c = none := by
  simp only [isStray, Bool.and_eq_true, Bool.not_eq_true', bne_iff_ne] at hc
  obtain ⟨⟨⟨⟨h₁, h₂⟩, h₃⟩, h₄⟩, h₅⟩ := hc
  unfold stepEndValue
  simp only [h₁, h₂, h₃, h₄, h₅, Bool.false_eq_true, if_false]
  split <;> rfl

theorem complete_stray {v : Json} {st : List Frame} {c : UInt8} (hc : isStray c = true) :
    feed (complete v st) c = none := by
  rw [complete_step_endValue, stepEndValue_stray hc]

/-- Where an opening brace is read at all, it opens an object or stands in a string. -/
theorem feed_brace {s s' : Scanner} (hs : Inside s) (h : feed s 0x7B = some s') :
    (∃ raw, feed ⟨.beginValue, s.stack, raw⟩ 0x7B = some s') ∨ ∃ raw, s' = ⟨.inString, s.stack, raw⟩ := by
  have hstray : isStray 0x7B = true := by decide
  obtain ⟨step, st, raw⟩ := s
  cases step with
  | beginValue => exact .inl ⟨raw, h⟩
  | beginValueOrEmpty =>
    refine .inl ⟨raw, ?_⟩
    simpa [feed, stepBeginValue, push, isSpace] using h
  | inString => exact .inr ⟨raw ++ [0x7B], by simpa [feed, more, eq_comm] using h⟩
  | endTop v => exact absurd rfl (hs.step v)
  | literal rest v =>
    obtain ⟨hb, -⟩ := hs.literal _ _ rfl
    simp only [feed] at h
    split at h
    · cases h
    · next d => rw [if_neg (by simpa using hb)] at h; cases h
    · next d rest => rw [if_neg (fun he => hb (by simp [he]))] at h; cases h
  | endValue => simp [feed, stepEndValue_stray hstray] at h
  | zero | int | dot0 | exp0 =>
    simp [feed, endNumber, stepEndValue_stray hstray, isDigit] at h
  | beginString | beginStringOrEmpty | inStringEsc | inStringEscU | neg | dot | exp | expSign =>
    simp [feed, stepBeginString, isSpace, isHex, isDigit] at h

/-- An object whose first key starts with a letter, written inside a container,
does not complete the text. -/
theorem feeds_object_inside {s : Scanner} (hs : Inside s) {text v} (h : ObjectText 1 text v) {k : UInt8} {t : Bytes}
    (ht : text = 0x7B :: 0x22 :: k :: t) (hk : isStray k = true) : (feeds s text).bind eof = none := by
  cases hb : feed s 0x7B with
  | none => rw [ht, feeds_cons, hb]; rfl
  | some s' =>
    rcases feed_brace hs hb with ⟨raw, hv⟩ | ⟨raw, rfl⟩
    · -- It is a value of the container, which stays open.
      have hsame : feeds s text = feeds ⟨.beginValue, s.stack, raw⟩ text := by rw [ht, feeds_cons, feeds_cons, hb, hv]
      rw [hsame]
      by_cases hd : s.stack.length + 1 ≤ maxDepth
      · have hread := h.closed.reads s.stack raw [] hd
        rw [List.append_nil, feeds_nil] at hread
        rw [hread, Option.bind_some, eof_inside (complete_inside hs.stack)]
      · have : feed ⟨.beginValue, s.stack, raw⟩ 0x7B = none := by
          simp [feed, stepBeginValue, push, isSpace, hd]
        rw [ht, feeds_cons, this]; rfl
    · -- It is inside a string, which its first quote ends.
      have hq : feed ⟨.inString, s.stack, raw⟩ 0x22 = some (complete (.str (unquote raw)) s.stack) := by simp [feed]
      rw [ht, feeds_cons, hb, Option.bind_some, feeds_cons, hq, Option.bind_some, feeds_cons, complete_stray hk]
      rfl

/-- **An object cut short, another written straight on**, is no JSON text. -/
theorem ObjectText.unmarshal_torn_append {n text v p q} (h : ObjectText n text v) (htext : text = p ++ q)
    (hp : p ≠ []) (hq : q ≠ []) {text' v'} (h' : ObjectText 1 text' v') {k : UInt8} {t : Bytes}
    (ht : text' = 0x7B :: 0x22 :: k :: t) (hk : isStray k = true) : unmarshal (p ++ text') = none := by
  obtain ⟨m, hm, hin⟩ := h.prefix_inside htext hp hq
  rw [unmarshal, feeds_append, hm, Option.bind_some, feeds_object_inside hin h' ht hk]

/-- A whole object followed by anything but space is no JSON text either. -/
theorem ObjectText.unmarshal_append {n text v} (h : ObjectText n text v) {c : UInt8} (hc : isSpace c = false)
    (t : Bytes) : unmarshal (text ++ c :: t) = none := by
  have hread := h.closed.reads [] [] (c :: t) (by simpa using h.depth)
  have hstop : feed ⟨.endTop v, [], []⟩ c = none := by simp [feed, stepEndValue, hc]
  rw [unmarshal, init, hread, complete_nil, feeds_cons, hstop]
  rfl

/-! ## Streaming -/

theorem readValue_cons {s s' : Scanner} {c : UInt8} {t : Bytes} (broken : Bool) (hs : ∀ v, s.step ≠ .endTop v)
    (h : feed s c = some s') (hs' : ∀ v, s'.step ≠ .endTop v) :
    readValue s broken (c :: t) = readValue s' broken t := by
  rw [readValue]
  split
  · next v hv => exact absurd hv (hs v)
  · rw [h]
    split
    · next heq => cases heq
    · next heq =>
      cases heq
      split
      · next v hv => exact absurd hv (hs' v)
      · rfl

/-- Inside a container, a reader goes on to the byte that closes it. -/
theorem readValue_inside {v : Json} (broken : Bool) (rest : Bytes) : ∀ {t : Bytes} {s : Scanner}, Inside s →
    feeds s (t ++ [0x7D]) = some ⟨.endTop v, [], []⟩ → readValue s broken (t ++ 0x7D :: rest) = some v
  | [], s, hs, h => by
    have hfeed : feed s 0x7D = some ⟨.endTop v, [], []⟩ := by simpa [feeds_cons] using h
    rw [List.nil_append, readValue]
    split
    · next w hw => exact absurd hw (hs.step w)
    · simp [hfeed]
  | c :: t, s, hs, h => by
    rw [List.cons_append, feeds_cons] at h
    cases hc : feed s c with
    | none => simp [hc] at h
    | some m =>
      rw [hc, Option.bind_some] at h
      have hin : Inside m := by
        rcases feed_inside hs hc with hin | ⟨htop, -⟩
        · exact hin
        · exact absurd (feeds_atTop htop h 0x7D (by simp)) (by decide)
      rw [List.cons_append, readValue_cons broken hs.step hc hin.step, readValue_inside broken rest hin h]

/-- **A decoder reads an object to its last byte** and no further: neither what
follows it nor how the reader ends matters. -/
theorem ObjectText.decodeFirst {n text v} (h : ObjectText n text v) (rest : Bytes) (broken : Bool) :
    decodeFirst ⟨text ++ rest, broken⟩ = some v := by
  obtain ⟨mid, hshape⟩ := h.shape
  have hread := h.closed.reads [] [] [] (by simpa using h.depth)
  rw [List.append_nil, feeds_nil, complete_nil, hshape, List.cons_append, List.cons_append, feeds_cons] at hread
  have hopen : feed init 0x7B = some ⟨.beginStringOrEmpty, [.obj []], []⟩ := by
    simp [init, feed, stepBeginValue, push, isSpace, maxDepth]
  change (feed init 0x7B).bind _ = _ at hread
  rw [hopen, Option.bind_some] at hread
  have hin : Inside ⟨.beginStringOrEmpty, [.obj []], []⟩ := ⟨by simp, by simp, by simp⟩
  have hrest := readValue_inside broken rest hin (t := 0x22 :: mid) hread
  rw [Json.decodeFirst, hshape, List.append_assoc, List.cons_append,
    readValue_cons broken (by simp [init]) hopen hin.step]
  exact hrest

theorem atTop_feeds {s s' : Scanner} (hs : AtTop s) : ∀ {t : Bytes}, feeds s t = some s' → AtTop s'
  | [], h => by
    cases h
    exact hs
  | c :: t, h => by
    have hspace := feeds_atTop hs h c List.mem_cons_self
    obtain ⟨v, rfl⟩ := hs
    have hc : feed ⟨.endTop v, [], []⟩ c = some ⟨.endTop v, [], []⟩ := by simp [feed, stepEndValue, hspace]
    rw [feeds_cons, hc, Option.bind_some] at h
    exact atTop_feeds ⟨v, rfl⟩ h

/-- A reader that breaks inside a container has no value. -/
theorem readValue_broken : ∀ {t : Bytes} {s s' : Scanner}, Inside s → feeds s t = some s' → Inside s' →
    readValue s true t = none
  | [], _, _, _, _, _ => rfl
  | c :: t, s, s', hs, h, hs' => by
    rw [feeds_cons] at h
    obtain ⟨m, hc, h⟩ := Option.bind_eq_some_iff.1 h
    obtain hin | ⟨htop, -⟩ := feed_inside hs hc
    · rw [readValue_cons true hs.step hc hin.step]
      exact readValue_broken hin h hs'
    · obtain ⟨v, rfl⟩ := atTop_feeds htop h
      exact absurd rfl (hs'.step v)

/-- **An object of which a reader has only a part**, and then an error, is not decoded. -/
theorem ObjectText.decodeFirst_torn {n text v p q} (h : ObjectText n text v) (ht : text = p ++ q) (hq : q ≠ []) :
    Json.decodeFirst ⟨p, true⟩ = none := by
  by_cases hp : p = []
  · subst hp
    rfl
  · obtain ⟨m, hm, hin⟩ := h.prefix_inside ht hp hq
    obtain ⟨mid, hshape⟩ := h.shape
    obtain ⟨c, p', rfl⟩ := List.exists_cons_of_ne_nil hp
    have hc : c = 0x7B := by
      have hhead := congrArg (·.head?) (ht.symm.trans hshape)
      simpa using hhead
    subst hc
    have hopen : feed init 0x7B = some ⟨.beginStringOrEmpty, [.obj []], []⟩ := by
      simp [init, feed, stepBeginValue, push, isSpace, maxDepth]
    have hfirst : Inside ⟨.beginStringOrEmpty, [.obj []], []⟩ := ⟨by simp, by simp, by simp⟩
    rw [feeds_cons, hopen, Option.bind_some] at hm
    rw [Json.decodeFirst, readValue_cons true (by simp [init]) hopen hfirst.step]
    exact readValue_broken hfirst hm hin

/-! ## A space after a text -/

theorem isSpace_cases {c : UInt8} (hc : isSpace c = true) : c = 0x20 ∨ c = 0x09 ∨ c = 0x0D ∨ c = 0x0A := by
  simpa [isSpace, or_assoc] using hc

/-- A keyword the scanner is in the middle of has no space to come. -/
def Worded (s : Scanner) : Prop := ∀ rest v, s.step = .literal rest v → ∀ c ∈ rest, isSpace c = false

theorem spaceless {word : Bytes} (hword : word.all (fun c => !isSpace c) = true) : ∀ c ∈ word, isSpace c = false := by
  intro c hc
  simpa using List.all_eq_true.1 hword c hc

theorem worded_complete (v : Json) (st : List Frame) : Worded (complete v st) := by
  intro rest w hw
  match st with
  | [] | .arr _ :: _ | .key _ _ :: _ => cases hw
  | .obj _ :: _ => cases v <;> cases hw

theorem worded_stepEndValue {s s' : Scanner} {c : UInt8} (h : Worded s) (hs : stepEndValue s c = some s') :
    Worded s' := by
  obtain ⟨step, st, raw⟩ := s
  unfold stepEndValue at hs
  split at hs
  · cases hs
    exact h
  · match st, hs with
    | .key ms k :: st, hs =>
      dsimp only at hs
      split at hs
      · cases hs
        intro _ _ hw
        cases hw
      · cases hs
    | .obj ms :: st, hs =>
      dsimp only at hs
      split at hs
      · cases hs
        intro _ _ hw
        cases hw
      · split at hs
        · cases hs
          exact worded_complete _ _
        · cases hs
    | .arr items :: st, hs =>
      dsimp only at hs
      split at hs
      · cases hs
        intro _ _ hw
        cases hw
      · split at hs
        · cases hs
          exact worded_complete _ _
        · cases hs

theorem worded_stepBeginValue {s s' : Scanner} {c : UInt8} (h : Worded s) (hs : stepBeginValue s c = some s') :
    Worded s' := by
  cases begun hs with
  | same hs =>
    rw [hs]
    exact h
  | object hs | array hs | string hs =>
    rw [hs]
    intro _ _ hw
    cases hw
  | number next hnext hs =>
    rw [hs]
    intro _ _ hw
    rcases hnext with rfl | rfl | rfl <;> cases hw
  | word rest v hword hs =>
    rw [hs]
    intro rest' v' hw
    cases hw
    rcases hword with hword | hword | hword <;> cases hword <;> exact spaceless (by decide +kernel)

theorem worded_stepBeginString {s s' : Scanner} {c : UInt8} (h : Worded s) (hs : stepBeginString s c = some s') :
    Worded s' := by
  unfold stepBeginString at hs
  split at hs
  · cases hs
    exact h
  split at hs
  · cases hs
    intro _ _ hw
    cases hw
  · cases hs

/-- **One byte.** -/
theorem worded_feed {s s' : Scanner} {c : UInt8} (h : Worded s) (hs : feed s c = some s') : Worded s' := by
  cases fed hs with
  | same hs =>
    rw [hs]
    exact h
  | beginValue hs => exact worded_stepBeginValue h hs
  | beginString hs => exact worded_stepBeginString h hs
  | endValue hs => exact worded_stepEndValue h hs
  | number hs => exact worded_stepEndValue (worded_complete _ _) hs
  | more next htop hword hs =>
    rw [hs]
    exact fun rest v heq => absurd heq (hword rest v)
  | string hs | word v hstep hs =>
    rw [hs]
    exact worded_complete _ _
  | inWord rest v hstep hs =>
    rw [hs]
    intro rest' v' heq
    cases heq
    exact (List.forall_mem_cons.1 (h _ _ hstep)).2

theorem worded_feeds : ∀ {text : Bytes} {s s' : Scanner}, Worded s → feeds s text = some s' → Worded s'
  | [], _, _, h, hs => by
    cases hs
    exact h
  | c :: text, s, s', h, hs => by
    rw [feeds_cons] at hs
    obtain ⟨m, hm, hs⟩ := Option.bind_eq_some_iff.1 hs
    exact worded_feeds (worded_feed h hm) hs

theorem eof_of_settled {s s' : Scanner} {c : UInt8} (hc : feed s c = some s') (hspace : feed s 0x20 = some s')
    (hsettled : feed s' 0x20 = some s') : (feed s c).bind eof = eof s := by
  rw [hc, Option.bind_some, eof, eof, hspace, hsettled]

/-- A space ends a number. -/
theorem eof_of_number {s : Scanner} {c : UInt8} (hc : isSpace c = true)
    (h : ∀ c, isSpace c = true → feed s c = endNumber s c) : (feed s c).bind eof = eof s := by
  have hends : ∀ c, isSpace c = true → feed s c = some (complete (.num s.raw) s.stack) := fun c hc =>
    (h c hc).trans (if_pos hc)
  refine eof_of_settled (hends c hc) (hends _ rfl) ?_
  match s.stack with
  | [] | .arr _ :: _ | .key _ _ :: _ | .obj _ :: _ => rfl

/-- A space before the end is read as the end is. -/
theorem eof_feed_space {s : Scanner} {c : UInt8} (hs : Worded s) (hc : isSpace c = true) :
    (feed s c).bind eof = eof s := by
  obtain ⟨step, st, raw⟩ := s
  cases step with
  | beginValue | beginValueOrEmpty | beginString | beginStringOrEmpty | endValue | endTop =>
    exact eof_of_settled (if_pos hc) rfl rfl
  | int | zero | dot0 | exp0 =>
    refine eof_of_number hc fun c hc => ?_
    rcases isSpace_cases hc with rfl | rfl | rfl | rfl <;> rfl
  | inString | inStringEsc | inStringEscU | neg | dot | exp | expSign =>
    rcases isSpace_cases hc with rfl | rfl | rfl | rfl <;> rfl
  | literal rest v =>
    have hrest := hs rest v rfl
    have hfeed : ∀ c, isSpace c = true → feed ⟨.literal rest v, st, raw⟩ c = none := by
      intro c hc
      match rest, hrest with
      | [], _ => rfl
      | [d], hrest =>
        refine if_neg ?_
        rintro rfl
        exact absurd hc (by rw [hrest c List.mem_cons_self]; decide)
      | d :: d' :: rest, hrest =>
        refine if_neg ?_
        rintro rfl
        exact absurd hc (by rw [hrest c List.mem_cons_self]; decide)
    rw [eof, hfeed c hc, hfeed 0x20 rfl]
    rfl

/-- **A space after a text** changes nothing. -/
theorem unmarshal_space {text : Bytes} {c : UInt8} (hc : isSpace c = true) :
    unmarshal (text ++ [c]) = unmarshal text := by
  rw [unmarshal, unmarshal, feeds_append]
  cases hs : feeds init text with
  | none => rfl
  | some s =>
    have hinit : Worded init := fun _ _ hw => by cases hw
    rw [Option.bind_some, Option.bind_some, ← eof_feed_space (worded_feeds hinit hs) hc, feeds_cons]
    cases feed s c <;> rfl

end Lib.Json
