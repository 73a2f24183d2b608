/-
The buffer after a call into the file system has failed.

An operation that returns an error should leave a buffer that reads as before it
or as if it had been done, and goes on working. `recovers_iff` has the exact
condition: the call that failed is no close, rename or reopen of a rewrite, which
leave no file open; no append that has dropped entries fails after that; and no
part of a line is left at the end of the file. `wedged` is a rename that is
refused.
-/
import ScrewLogger.Agent.Accounting
import ScrewLogger.Agent.FailingCalls
import ScrewLogger.Agent.Shipper
import ScrewLogger.Agent.Torn

namespace ScrewLogger
open Lib Lib.Eff

/-- The heartbeat of an append is short. -/
def ShortCall : Call → Prop
  | .append e => Buf.short e = true
  | _ => True

namespace Buf

/-! ## A buffer that works -/

/-- Reading the unacked entries, however many, gives those of `s`. -/
def Reads (m : Machine) (s : List Heartbeat) : Prop :=
  ∀ limit : Int, (step m (.unacked limit)).1 = .ok (s.take limit.toNat)

/-- What a call makes of the entries. -/
def TakesEffect (b : Buffer) (s s' : List Heartbeat) : Call → Prop
  | .append e => s' = (if overflows b then youngerHalf (s.take allEntries.toNat) else s) ++ [e.sanitize]
  | .unacked _ => s' = s
  | .ack count => s' = s.drop count.toNat ∨ s' = (s.drop count.toNat).take allEntries.toNat

/-- The buffer reads as `s`, and the calls succeed and take effect. -/
def Serves : List Call → Machine → List Heartbeat → Prop
  | [], m, s => Reads m s
  | c :: calls, m, s => Reads m s ∧ (∃ out, (step m c).1 = .ok out) ∧
      ∃ s', TakesEffect m.buf s s' c ∧ Serves calls (step m c).2 s'

/-- The buffer reads as one of the lists, and works from then on. -/
def Recovers (m : Machine) (allowed : List (List Heartbeat)) : Prop :=
  ∃ s ∈ allowed, ∀ calls, (∀ c ∈ calls, ShortCall c) → Serves calls m s

variable {m m' : Machine} {acked q s s' : List Heartbeat}

theorem Serves.reads {calls : List Call} (h : Serves calls m s) : Reads m s := by
  cases calls with
  | nil => exact h
  | cons c calls => exact h.1

theorem Reads.unique (h : Reads m s) (h' : Reads m s') : s = s' := by
  have hlimit := (h (s.length + s'.length : Nat)).symm.trans (h' (s.length + s'.length : Nat))
  rw [Int.toNat_natCast, List.take_of_length_le (by omega), List.take_of_length_le (by omega)] at hlimit
  exact Except.ok.inj hlimit

/-- The buffer stays over its limit however many of the entries are acked, until it is rewritten. -/
def StaysOver (q : List Heartbeat) (b : Buffer) : Prop :=
  ∀ k, (k = 0 ∨ halfAcked { b with ackedOff := b.ackedOff + (encode (q.take k)).length } = false) →
    overflows { b with ackedOff := b.ackedOff + (encode (q.take k)).length } = true

theorem StaysOver.ofTake (h : StaysOver q m.buf) {n : Nat} (hhalf : halfAcked (advanced m (q.take n)).buf = false) :
    StaysOver (q.drop n) (advanced m (q.take n)).buf := by
  intro k hk
  have hbytes : (advanced m (q.take n)).buf.ackedOff + (encode ((q.drop n).take k)).length =
      m.buf.ackedOff + (encode (q.take (n + k))).length := by
    rw [List.take_add, encode_append, List.length_append, ← Nat.add_assoc]
    rfl
  rw [hbytes] at hk ⊢
  refine h (n + k) ?_
  obtain rfl | hk := hk
  · exact .inr hhalf
  · exact .inr hk

/-- The entries can be read, and lines can be added after them, or will not be
before a rewrite. -/
inductive Sound (q : List Heartbeat) (m : Machine) : Prop
  | holds (acked : List Heartbeat) (h : Holds acked q m)
  | unterminated (h : Reading q m) (hover : StaysOver q m.buf)

theorem Sound.reading (h : Sound q m) : Reading q m := by
  cases h with
  | holds acked h => exact h.reading
  | unterminated h _ => exact h

theorem reads_of_reading (h : Reading q m) (hfaults : m.faults = []) (hshort : q.all short = true) :
    Reads m (q.map Heartbeat.sanitize) := fun limit => by rw [h.step_unacked hfaults hshort]

theorem sound_rewritten {entries : List Heartbeat} : Sound entries (rewritten m entries) := .holds [] ⟨rfl, rfl, rfl⟩

/-- What a rewrite keeps has been read, and reads as it is. -/
theorem map_sanitize_of_mem_keep {l : List Heartbeat} (h : ∀ e ∈ l, e ∈ keep q) : l.map Heartbeat.sanitize = l := by
  refine (List.map_congr_left fun e he => ?_).trans (List.map_id _)
  obtain ⟨e', -, rfl⟩ := List.mem_map.1 (List.mem_of_mem_take (h e he))
  exact e'.sanitize_sanitize

/-- **One call** on a sound buffer. -/
theorem sound_step {c : Call} (h : Sound q m) (hfaults : m.faults = []) (hshort : q.all short = true)
    (hc : ShortCall c) :
    ∃ q', Sound q' (step m c).2 ∧ (step m c).2.faults = [] ∧ q'.all short = true ∧
      (∃ out, (step m c).1 = .ok out) ∧
      TakesEffect m.buf (q.map Heartbeat.sanitize) (q'.map Heartbeat.sanitize) c := by
  cases c with
  | unacked limit =>
    rw [h.reading.step_unacked hfaults hshort]
    exact ⟨q, h, hfaults, hshort, ⟨_, rfl⟩, rfl⟩
  | append e =>
    rw [h.reading.step_append hfaults hshort]
    by_cases hover : overflows m.buf = true
    · rw [rotated, if_pos hover]
      have hyounger : ∀ x ∈ youngerHalf (keep q), x ∈ keep q := fun x hx => List.mem_of_mem_drop hx
      refine ⟨youngerHalf (keep q) ++ [e], .holds [] ⟨?_, rfl, rfl⟩, hfaults, ?_, ⟨_, rfl⟩, ?_⟩
      · show encode (youngerHalf (keep q)) ++ line e = _
        simp
      · rw [List.all_append, List.all_cons, show short e = true from hc, List.all_eq_true.2 fun x hx =>
          short_keep hshort x (hyounger x hx)]
        rfl
      · rw [List.map_append, map_sanitize_of_mem_keep hyounger, TakesEffect, if_pos hover]
        rfl
    · rw [rotated, if_neg hover]
      cases h with
      | unterminated h hstays => exact absurd (hstays 0 (.inl rfl)) hover
      | holds acked h =>
        refine ⟨q ++ [e], .holds acked ⟨?_, h.ackedOff, h.isOpen⟩, hfaults, ?_, ⟨_, rfl⟩, ?_⟩
        · show m.file ++ line e = _
          simp [h.file]
        · rw [List.all_append, hshort, List.all_cons, show short e = true from hc]
          rfl
        · rw [List.map_append, TakesEffect, if_neg hover]
          rfl
  | ack count =>
    rw [h.reading.step_ack hfaults hshort, ackedTo]
    have hdrop : (q.drop count.toNat).all short = true :=
      List.all_eq_true.2 fun e he => List.all_eq_true.1 hshort e (List.mem_of_mem_drop he)
    by_cases hle : count ≤ 0
    · rw [if_pos hle]
      refine ⟨q, h, hfaults, hshort, ⟨_, rfl⟩, .inl ?_⟩
      rw [Int.toNat_of_nonpos hle, List.drop_zero]
    · rw [if_neg hle]
      by_cases hhalf : halfAcked (advanced m (q.take count.toNat)).buf = true
      · rw [if_pos hhalf]
        refine ⟨_, sound_rewritten, hfaults, List.all_eq_true.2 (short_keep hdrop), ⟨_, rfl⟩, .inr ?_⟩
        rw [map_sanitize_of_mem_keep fun _ h => h, keep, List.map_drop]
      · rw [if_neg hhalf]
        refine ⟨q.drop count.toNat, ?_, hfaults, hdrop, ⟨_, rfl⟩, .inl List.map_drop⟩
        cases h with
        | holds acked h => exact .holds _ (h.advanced count.toNat)
        | unterminated h hstays => exact .unterminated (h.advanced _) (hstays.ofTake (Bool.eq_false_iff.2 hhalf))

/-- **Any calls.** -/
theorem sound_serves : ∀ {calls : List Call} {m : Machine} {q : List Heartbeat}, Sound q m → m.faults = [] →
    q.all short = true → (∀ c ∈ calls, ShortCall c) → Serves calls m (q.map Heartbeat.sanitize)
  | [], _, _, h, hfaults, hshort, _ => reads_of_reading h.reading hfaults hshort
  | c :: calls, m, q, h, hfaults, hshort, hcalls => by
    obtain ⟨hc, hcalls⟩ := List.forall_mem_cons.1 hcalls
    obtain ⟨q', h', hfaults', hshort', hok, heffect⟩ := sound_step h hfaults hshort hc
    exact ⟨reads_of_reading h.reading hfaults hshort, hok, _, heffect, sound_serves h' hfaults' hshort' hcalls⟩

/-- A sound buffer recovers just if it reads as it may. -/
theorem recovers_of_sound {allowed : List (List Heartbeat)} (h : Sound q m) (hfaults : m.faults = [])
    (hshort : q.all short = true) : Recovers m allowed ↔ q.map Heartbeat.sanitize ∈ allowed := by
  constructor
  · intro hrecovers
    obtain ⟨s, hs, hserves⟩ := hrecovers
    have hreads := (hserves [] fun _ hc => absurd hc List.not_mem_nil).reads
    rwa [hreads.unique (reads_of_reading h.reading hfaults hshort)] at hs
  · intro hmem
    exact ⟨_, hmem, fun calls hcalls => sound_serves h hfaults hshort hcalls⟩

/-! ## A buffer that does not -/

/-- A buffer that is closed does not recover. -/
theorem not_recovers_closed {allowed : List (List Heartbeat)} (hclosed : m.buf.isOpen = false) :
    ¬ Recovers m allowed := by
  intro hrecovers
  obtain ⟨s, -, hserves⟩ := hrecovers
  have hreads := (hserves [] fun _ hc => absurd hc List.not_mem_nil).reads 1
  have herror : wp (call (.unacked 1)) (fun _ _ => False) (fun e _ => e = .closed) m :=
    wp_unacked_closed (by decide) hclosed rfl
  exact (wp_iff.1 herror).1 _ _ (Prod.ext hreads rfl)

/-- Nor one on a line of which no heartbeat is to be read. -/
theorem not_reads_of_bad {l : List Heartbeat} {bad : Bytes} (lines : List Bytes) (hfaults : m.faults = [])
    (hopen : m.buf.isOpen = true) (hshort : l.all short = true) (hbad : Heartbeat.unmarshal bad = none)
    (hread : ∀ limit, readEntries limit (scanLines ⟨m.file.drop m.buf.ackedOff, false⟩).tokens
      (scanLines ⟨m.file.drop m.buf.ackedOff, false⟩).err =
        readLines limit (l.map Heartbeat.marshal ++ bad :: lines)) :
    ¬ Reads m s := by
  intro hreads
  have hout := hreads (l.length + 1 : Nat)
  have heq : (step m (.unacked (l.length + 1 : Nat))).1 = _ := unacked_eq hfaults hopen (by omega)
  rw [heq, hread, Int.toNat_natCast] at hout
  exact readLines_bad (List.all_eq_true.1 hshort) hbad (by omega) hout

/-! ## A line of which a part was written -/

variable {t : Machine} {e : Heartbeat} {n : Nat}

/-- The machine `t`, with a part of a line more in its file. -/
structure Partly (t : Machine) (e : Heartbeat) (n : Nat) (m : Machine) : Prop where
  file : m.file = t.file ++ (line e).take n
  buf : m.buf = t.buf
  faults : m.faults = []

/-- Nothing was written. -/
theorem Partly.none (h : Partly t e 0 m) (ht : Holds acked q t) : Holds acked q m where
  file := by rw [h.file, ht.file, List.take_zero, List.append_nil]
  ackedOff := by rw [h.buf, ht.ackedOff]
  isOpen := by rw [h.buf, ht.isOpen]

/-- All of it was. -/
theorem Partly.whole (h : Partly t e n m) (ht : Holds acked q t) (hn : (line e).length ≤ n) :
    Holds acked (q ++ [e]) m where
  file := by rw [h.file, ht.file, List.take_of_length_le hn, ← List.append_assoc, encode_append]; simp
  ackedOff := by rw [h.buf, ht.ackedOff]
  isOpen := by rw [h.buf, ht.isOpen]

theorem take_line (hn : n ≤ e.marshal.length) : (line e).take n = e.marshal.take n := by
  rw [line, List.take_append_of_le_length hn]

theorem Partly.drop (h : Partly t e n m) (ht : Holds acked q t) (hn : n ≤ e.marshal.length) :
    m.file.drop m.buf.ackedOff = encode q ++ e.marshal.take n := by
  rw [h.file, h.buf, ht.file, ht.ackedOff, take_line hn, encode_append, List.append_assoc, List.drop_left]

/-- A part that cannot be read. -/
theorem Partly.not_recovers {allowed : List (List Heartbeat)} (h : Partly t e n m) (ht : Holds acked q t)
    (hshort : q.all short = true) (hpos : n ≠ 0) (hn : n < e.marshal.length) : ¬ Recovers m allowed := by
  intro hrecovers
  obtain ⟨s, -, hserves⟩ := hrecovers
  have hreads := (hserves [] fun _ hc => absurd hc List.not_mem_nil).reads
  have hharm : ¬ Harmless e n [] := by
    simp only [Harmless, and_true]
    omega
  obtain ⟨bad, lines, hlines, hbad⟩ := tornLines_bad (l := q) hharm
  refine not_reads_of_bad lines h.faults (by rw [h.buf, ht.isOpen]) hshort hbad (fun limit => ?_) hreads
  rw [h.drop ht (Nat.le_of_lt hn), ← hlines]
  have htorn := @readEntries_torn q e n [] limit
  rwa [encode_nil, List.append_nil] at htorn

/-- The last line reads the same without its line break. -/
theorem scan_unterminated (l : List Heartbeat) (e : Heartbeat) :
    scanLines ⟨encode l ++ e.marshal, false⟩ = scanLines ⟨encode (l ++ [e]), false⟩ := by
  have hpart := scanLines_encode (@printable_marshal l) e.marshal_printable
  have hwhole := scanLines_encode (@printable_marshal (l ++ [e])) fun c hc => absurd hc (@List.not_mem_nil _ c)
  rw [← encode_eq, List.append_nil, if_pos rfl, List.map_append, List.map_singleton] at hwhole
  rw [← encode_eq, if_neg e.marshal_ne_nil] at hpart
  exact Scan.ext (hpart.1.trans hwhole.1.symm) (hpart.2.trans hwhole.2.symm)

/-- All was written but the line break. -/
theorem Partly.reading (h : Partly t e e.marshal.length m) (ht : Holds acked q t) : Reading (q ++ [e]) m where
  scan k := by
    have hdrop := h.drop ht (Nat.le_refl _)
    rw [List.take_length] at hdrop
    by_cases hk : k ≤ q.length
    · rw [List.take_append_of_le_length hk, List.drop_append_of_le_length hk, ← List.drop_drop, hdrop]
      have hq : encode q = encode (q.take k) ++ encode (q.drop k) := by rw [← encode_append, List.take_append_drop]
      rw [hq, List.append_assoc, List.drop_left, scan_unterminated, scan_entries]
    · have hlen : (q ++ [e]).length ≤ k := by
        rw [List.length_append, List.length_singleton]
        omega
      rw [List.take_of_length_le hlen, List.drop_of_length_le hlen, ← List.drop_drop, hdrop, List.drop_of_length_le]
      · exact scan_entries []
      · simp only [encode_append, List.length_append, encode_cons, encode_nil, List.length_nil, line_length]
        omega
  isOpen := by rw [h.buf, ht.isOpen]

/-- A line that is appended goes on where that one ends. -/
theorem Partly.not_reads_appended {m₁ : Machine} {k : Nat} (h : Partly t e e.marshal.length m) (ht : Holds acked q t)
    (hq : q.all short = true) (hfile : m₁.file = m.file ++ line e)
    (hoff : m₁.buf.ackedOff = m.buf.ackedOff + (encode ((q ++ [e]).take k)).length) (hopen : m₁.buf.isOpen = true)
    (hfaults : m₁.faults = []) : ¬ Reads m₁ s := by
  have hall : (m.file ++ line e).drop m.buf.ackedOff = encode q ++ e.marshal ++ line e := by
    have hdrop := h.drop ht (Nat.le_refl _)
    rw [List.take_length] at hdrop
    rw [List.drop_append_of_le_length, hdrop]
    rw [h.file, h.buf, ht.file, ht.ackedOff, encode_append, List.append_assoc, List.length_append]
    omega
  have hdrop : m₁.file.drop m₁.buf.ackedOff =
      (encode q ++ e.marshal ++ line e).drop (encode ((q ++ [e]).take k)).length := by
    rw [← hall, List.drop_drop, hfile, hoff]
  by_cases hle : k ≤ q.length
  · have hrest : (encode q ++ e.marshal ++ line e).drop (encode ((q ++ [e]).take k)).length =
        encode (q.drop k) ++ e.marshal.take e.marshal.length ++ encode [e] := by
      have hq : encode q = encode (q.take k) ++ encode (q.drop k) := by rw [← encode_append, List.take_append_drop]
      rw [List.take_append_of_le_length hle, hq, List.append_assoc, List.append_assoc, List.drop_left,
        List.take_length, encode_cons, encode_nil, List.append_nil, List.append_assoc]
    have hharm : ¬ Harmless e e.marshal.length [e] := by
      have := List.length_pos_iff.2 e.marshal_ne_nil
      simp only [Harmless, List.cons_ne_nil, and_false, or_false]
      omega
    obtain ⟨bad, lines, hlines, hbad⟩ := tornLines_bad (l := q.drop k) hharm
    refine not_reads_of_bad (l := q.drop k) lines hfaults hopen ?_ hbad fun limit => ?_
    · exact List.all_eq_true.2 fun x hx => List.all_eq_true.1 hq x (List.mem_of_mem_drop hx)
    · rw [hdrop, hrest, readEntries_torn, hlines]
  · -- the line break is acked, too, so that the first byte of the line is
    have hrest : (encode q ++ e.marshal ++ line e).drop (encode ((q ++ [e]).take k)).length =
        encodeLines [e.marshal.tail] := by
      have hbytes : (encode ((q ++ [e]).take k)).length = (encode q ++ e.marshal).length + 1 := by
        rw [List.take_of_length_le (by rw [List.length_append, List.length_singleton]; omega), encode_append,
          encode_cons, encode_nil, List.append_nil, List.length_append, List.length_append, line_length]
        omega
      obtain ⟨bytes, hmarshal⟩ := e.marshal_head
      rw [hbytes, ← List.drop_drop, List.drop_left, line, hmarshal]
      simp [encodeLines]
    have hprintable : ∀ l ∈ [e.marshal.tail], Printable l := by
      intro l hl
      rw [List.mem_singleton.1 hl]
      exact fun c hc => e.marshal_printable c (List.mem_of_mem_tail hc)
    have hscan := scanLines_encode hprintable fun c hc => absurd hc (@List.not_mem_nil _ c)
    rw [List.append_nil, if_pos rfl] at hscan
    refine not_reads_of_bad (l := []) [] hfaults hopen rfl e.unmarshal_marshal_tail fun limit => ?_
    rw [hdrop, hrest, hscan.1, hscan.2]
    rfl

/-- So it does, unless the file is rewritten before. -/
theorem Partly.not_recovers_glued {allowed : List (List Heartbeat)} (h : Partly t e e.marshal.length m)
    (ht : Holds acked q t) (hq : q.all short = true) (he : short e = true) (hnot : ¬ StaysOver (q ++ [e]) m.buf) :
    ¬ Recovers m allowed := by
  intro hrecovers
  obtain ⟨s, -, hserves⟩ := hrecovers
  simp only [StaysOver, not_forall, Bool.not_eq_true] at hnot
  obtain ⟨k, hk, hover⟩ := hnot
  have hreading := h.reading ht
  have hshort : (q ++ [e]).all short = true := by
    rw [List.all_append, hq, List.all_cons, he]
    rfl
  have hacked : (step m (.ack k)).2 = advanced m ((q ++ [e]).take k) := by
    rw [hreading.step_ack h.faults hshort, ackedTo]
    by_cases hzero : k = 0
    · rw [if_pos (by omega), hzero]
      rfl
    · rw [if_neg (by omega), Int.toNat_natCast, if_neg]
      exact Bool.eq_false_iff.1 (hk.resolve_left hzero)
  have happended : step (advanced m ((q ++ [e]).take k)) (.append e) =
      (.ok [], appended e (advanced m ((q ++ [e]).take k))) := step_append_fits h.faults hreading.isOpen hover
  have hcalls : ∀ c ∈ [Call.ack k, .append e], ShortCall c := by
    simp only [List.forall_mem_cons]
    exact ⟨trivial, he, fun _ hc => absurd hc List.not_mem_nil⟩
  obtain ⟨-, -, s₁, -, -, -, s₂, -, hreads⟩ := hserves [.ack k, .append e] hcalls
  rw [hacked, happended] at hreads
  have hno : ¬ Reads (appended e (advanced m ((q ++ [e]).take k))) s₂ :=
    h.not_reads_appended ht hq rfl rfl hreading.isOpen h.faults
  exact hno hreads

/-! ## When a buffer recovers -/

/-- The entries once the buffer was rotated. -/
def rotatedEntries (q : List Heartbeat) (b : Buffer) : List Heartbeat :=
  if overflows b then youngerHalf (keep q) else q

/-- A rotation drops no entry. -/
def DropsNone (q : List Heartbeat) (b : Buffer) : Prop := overflows b = true → q.length ≤ 1

/-- Or it drops one of a few that are all the same as the one that is added. -/
def Replaces (e : Heartbeat) (q : List Heartbeat) (b : Buffer) : Prop :=
  overflows b = true → q.length ≤ 1 ∨ q.length ≤ 3 ∧ ∀ x ∈ q, x.sanitize = e.sanitize

/-- The buffer recovers from the call that failed inside an append. -/
def AppendSpared (e : Heartbeat) (q : List Heartbeat) (m : Machine) : SysCall → Fault → Prop
  | .write, f => written f = 0 ∧ DropsNone q m.buf ∨ Replaces e q m.buf ∧ ((line e).length ≤ written f ∨
      written f = e.marshal.length ∧ StaysOver (rotatedEntries q m.buf ++ [e]) (rotated q m).buf)
  | .sync, _ => Replaces e q m.buf
  | c, _ => pastClose c = false

theorem holds_rotated (h : Holds acked q m) : ∃ acked', Holds acked' (rotatedEntries q m.buf) (rotated q m) := by
  rw [rotatedEntries, rotated]
  by_cases hover : overflows m.buf = true
  · rw [if_pos hover, if_pos hover]
    exact ⟨[], rfl, rfl, rfl⟩
  · rw [if_neg hover, if_neg hover]
    exact ⟨acked, h⟩

theorem short_rotatedEntries {b : Buffer} (hshort : q.all short = true) : (rotatedEntries q b).all short = true := by
  unfold rotatedEntries
  split
  · exact List.all_eq_true.2 fun e he => short_keep hshort e (List.mem_of_mem_drop he)
  · exact hshort

/-- What is left of entries that were rotated, as they are read. -/
theorem map_rotatedEntries {b : Buffer} (hover : overflows b = true) : (rotatedEntries q b).map Heartbeat.sanitize =
    youngerHalf ((q.map Heartbeat.sanitize).take allEntries.toNat) := by
  rw [rotatedEntries, if_pos hover]
  exact map_sanitize_of_mem_keep fun e he => List.mem_of_mem_drop he

theorem youngerHalf_few {l : List Heartbeat} (h : l.length ≤ 1) : youngerHalf (l.take allEntries.toNat) = l := by
  have hall : allEntries.toNat = 0x40000000 := rfl
  rw [List.take_of_length_le (by omega), youngerHalf, Nat.div_eq_of_lt (by omega), List.drop_zero]

theorem length_youngerHalf (l : List Heartbeat) : (youngerHalf (l.take allEntries.toNat)).length =
    min allEntries.toNat l.length - min allEntries.toNat l.length / 2 := by
  rw [youngerHalf, List.length_drop, List.length_take]

theorem rotated_mem_iff {b : Buffer} {e : Heartbeat} :
    (rotatedEntries q b).map Heartbeat.sanitize ∈
      [q.map Heartbeat.sanitize, q.map Heartbeat.sanitize ++ [e.sanitize]] ↔ DropsNone q b := by
  by_cases hover : overflows b = true
  · have hlength := length_youngerHalf (q.map Heartbeat.sanitize)
    have hall : allEntries.toNat = 0x40000000 := rfl
    rw [map_rotatedEntries hover, List.mem_cons, List.mem_singleton]
    constructor
    · intro hmem _
      obtain hsame | hsame := hmem
      · rw [hsame, List.length_map] at hlength
        omega
      · rw [hsame, List.length_append, List.length_map, List.length_singleton] at hlength
        omega
    · intro hnone
      exact .inl (youngerHalf_few (by rw [List.length_map]; exact hnone hover))
  · rw [rotatedEntries, if_neg hover]
    exact iff_of_true (by simp) fun h => absurd h hover

theorem youngerHalf_three {l : List Heartbeat} (h : 2 ≤ l.length) (h' : l.length ≤ 3) :
    youngerHalf (l.take allEntries.toNat) = l.tail := by
  have hall : allEntries.toNat = 0x40000000 := rfl
  have hhalf : l.length / 2 = 1 := by omega
  rw [List.take_of_length_le (by omega), youngerHalf, hhalf, List.drop_one]

/-- Moving on by one entry changes nothing where they are all the same. -/
theorem tail_append_eq_iff {e x : Heartbeat} {l : List Heartbeat} : l ++ [e] = x :: l ↔ ∀ y ∈ x :: l, y = e := by
  induction l generalizing x with
  | nil => simp [eq_comm]
  | cons y l ih =>
    rw [List.cons_append, List.cons_eq_cons, ih, List.forall_mem_cons (a := x)]
    refine ⟨fun h => ⟨h.1 ▸ h.2 y List.mem_cons_self, h.2⟩, fun h => ⟨?_, h.2⟩⟩
    rw [h.1, h.2 y List.mem_cons_self]

theorem rotated_append_mem_iff {b : Buffer} {e : Heartbeat} :
    (rotatedEntries q b ++ [e]).map Heartbeat.sanitize ∈
      [q.map Heartbeat.sanitize, q.map Heartbeat.sanitize ++ [e.sanitize]] ↔ Replaces e q b := by
  rw [List.map_append, List.map_singleton, List.mem_cons, List.mem_singleton, List.append_left_inj]
  by_cases hover : overflows b = true
  · have hlength := length_youngerHalf (q.map Heartbeat.sanitize)
    have hall : allEntries.toNat = 0x40000000 := rfl
    rw [map_rotatedEntries hover]
    constructor
    · intro hmem _
      obtain hsame | hsame := hmem
      · have hlength' := congrArg List.length hsame
        rw [List.length_append, List.length_singleton, hlength, List.length_map] at hlength'
        rw [youngerHalf_three (by rw [List.length_map]; omega) (by rw [List.length_map]; omega)] at hsame
        cases q with
        | nil => exact .inl (Nat.zero_le 1)
        | cons x q =>
          refine .inr ⟨by omega, fun y hy => ?_⟩
          rw [List.map_cons, List.tail_cons] at hsame
          exact tail_append_eq_iff.1 hsame _ (List.map_cons ▸ List.mem_map_of_mem hy)
      · rw [hsame, List.length_map] at hlength
        exact .inl (by omega)
    · intro hreplaces
      by_cases hfew : q.length ≤ 1
      · exact .inr (youngerHalf_few (by rw [List.length_map]; exact hfew))
      · obtain ⟨hthree, hsame⟩ := (hreplaces hover).resolve_left hfew
        refine .inl ?_
        rw [youngerHalf_three (by rw [List.length_map]; omega) (by rw [List.length_map]; exact hthree)]
        cases q with
        | nil => exact absurd (Nat.zero_le 1) hfew
        | cons x q =>
          rw [List.map_cons, List.tail_cons, tail_append_eq_iff, ← List.map_cons, List.forall_mem_map]
          exact hsame
  · rw [rotatedEntries, if_neg hover]
    exact iff_of_true (.inr rfl) fun h => absurd h hover

/-! ## Each operation -/

variable {c : SysCall} {f : Fault}

theorem sound_working (h : Holds acked q m) : Sound q (working m) := .holds acked ⟨h.file, h.ackedOff, h.isOpen⟩

theorem Holds.untouched (h : Holds acked q m) (hm' : Untouched m m') : Holds acked q m' where
  file := hm'.file.trans h.file
  ackedOff := by rw [hm'.buf, h.ackedOff]
  isOpen := by rw [hm'.buf, h.isOpen]

/-- A write that failed. -/
theorem recovers_write {e : Heartbeat} (h : Holds acked q m) (hshort : q.all short = true) (he : short e = true)
    (hfile : m'.file = (rotated q m).file ++ (line e).take (written f)) (hbuf : m'.buf = (rotated q m).buf) :
    Recovers (working m') [q.map Heartbeat.sanitize, q.map Heartbeat.sanitize ++ [e.sanitize]] ↔
      AppendSpared e q m .write f := by
  obtain ⟨acked', ht⟩ := holds_rotated h
  have hq : (rotatedEntries q m.buf).all short = true := short_rotatedEntries hshort
  have hboth : (rotatedEntries q m.buf ++ [e]).all short = true := by
    rw [List.all_append, hq, List.all_cons, he]
    rfl
  have hpartly : Partly (rotated q m) e (written f) (working m') := ⟨hfile, hbuf, rfl⟩
  have hpos := List.length_pos_iff.2 e.marshal_ne_nil
  have hline := line_length e
  rw [AppendSpared]
  by_cases hnone : written f = 0
  · rw [hnone] at hpartly
    rw [recovers_of_sound (.holds _ (hpartly.none ht)) rfl hq, rotated_mem_iff, hnone]
    refine ⟨fun hdrops => .inl ⟨rfl, hdrops⟩, fun hor => (hor.resolve_right fun hpart => ?_).2⟩
    omega
  · rw [or_iff_right fun hzero => hnone hzero.1]
    by_cases hwhole : (line e).length ≤ written f
    · rw [recovers_of_sound (.holds _ (hpartly.whole ht hwhole)) rfl hboth, rotated_append_mem_iff]
      exact ⟨fun hreplaces => ⟨hreplaces, .inl hwhole⟩, fun hand => hand.1⟩
    · by_cases hbreak : written f = e.marshal.length
      · rw [hbreak] at hpartly
        by_cases hstays : StaysOver (rotatedEntries q m.buf ++ [e]) (rotated q m).buf
        · have hsound : Sound (rotatedEntries q m.buf ++ [e]) (working m') :=
            .unterminated (hpartly.reading ht) (by rwa [hpartly.buf])
          rw [recovers_of_sound hsound rfl hboth, rotated_append_mem_iff]
          exact ⟨fun hreplaces => ⟨hreplaces, .inr ⟨hbreak, hstays⟩⟩, fun hand => hand.1⟩
        · refine iff_of_false (hpartly.not_recovers_glued ht hq he (by rwa [hpartly.buf])) fun hand => ?_
          exact hand.2.elim hwhole fun hlast => hstays hlast.2
      · refine iff_of_false (hpartly.not_recovers ht hq hnone (by omega)) fun hand => ?_
        exact hand.2.elim hwhole fun hlast => hbreak hlast.1

/-- **An append.** -/
theorem recovers_append (e : Heartbeat) (h : Holds acked q m) (hshort : q.all short = true) (he : short e = true) :
    Calls (fun c f m' => Recovers m' [q.map Heartbeat.sanitize, q.map Heartbeat.sanitize ++ [e.sanitize]] ↔
      AppendSpared e q m c f) (append e) m (appendCalls q m) () (appended e (rotated q m)) := by
  refine calls_append e h.reading hshort ?_ ?_ (fun f m' => recovers_write h hshort he) fun f => ?_
  · intro c f m' hc hm'
    have hspared : AppendSpared e q m c f := by
      cases c <;> first | rfl | cases hc
    exact iff_of_true ((recovers_of_sound (sound_working (h.untouched hm')) rfl hshort).2 List.mem_cons_self) hspared
  · intro c f m' hc hclosed
    refine iff_of_false (not_recovers_closed hclosed) ?_
    cases c <;> first | (cases hc; done) | exact Bool.noConfusion
  · obtain ⟨acked', ht⟩ := holds_rotated h
    have happended := ht.appended e
    have hboth : (rotatedEntries q m.buf ++ [e]).all short = true := by
      rw [List.all_append, short_rotatedEntries hshort, List.all_cons, he]
      rfl
    rw [recovers_of_sound (sound_working happended) rfl hboth, rotated_append_mem_iff]
    rfl

/-- **An ack.** -/
theorem recovers_ack (count : Int) (h : Holds acked q m) (hshort : q.all short = true) :
    Calls (fun c _ m' => Recovers m' [q.map Heartbeat.sanitize, (q.map Heartbeat.sanitize).drop count.toNat] ↔
      pastClose c = false) (ack count) m (ackCalls count q m) () (ackedTo count q m) := by
  refine calls_ack count h.reading hshort ?_ ?_
  · intro c f m' hc hm'
    have hpast : pastClose c = false := by
      cases c <;> first | rfl | cases hc
    refine iff_of_true ?_ hpast
    obtain hm' | hm' := hm'
    · exact (recovers_of_sound (sound_working (h.untouched hm')) rfl hshort).2 List.mem_cons_self
    · have hholds := (h.advanced count.toNat).untouched hm'
      have hdrop : (q.drop count.toNat).all short = true :=
        List.all_eq_true.2 fun e he => List.all_eq_true.1 hshort e (List.mem_of_mem_drop he)
      rw [recovers_of_sound (sound_working hholds) rfl hdrop, List.map_drop]
      exact List.mem_cons_of_mem _ List.mem_cons_self
  · intro c f m' hc hclosed
    exact iff_of_false (not_recovers_closed hclosed) (by rw [hc]; exact Bool.noConfusion)

/-! ## Any operation -/

/-- What the agent does with its buffer. -/
inductive Op
  | append (e : Heartbeat)
  | ack (count : Int)
  | flush (s : Shipper) (answer : Request → Except FlushError Response) (now : Int64)

namespace Op

def run : Op → Eff Machine FlushError Unit
  | .append e => mapError .buffer (Buf.append e)
  | .ack count => mapError .buffer (Buf.ack count)
  | .flush s answer now => (fun _ => ()) <$> s.flushBy answer now

/-- The batch of a flush is there and answered 200. -/
def taken (s : Shipper) (answer : Request → Except FlushError Response) (now : Int64) (hbs : List Heartbeat) : Bool :=
  !hbs.isEmpty && match answer (ingestRequest s.token ⟨schemaVersion, now, hbs⟩) with
    | .ok resp => resp.status == 200
    | .error _ => false

/-- The calls into the file system. -/
def calls (q : List Heartbeat) (m : Machine) : Op → List SysCall
  | .append _ => appendCalls q m
  | .ack count => ackCalls count q m
  | .flush s answer now =>
    let hbs := (q.map Heartbeat.sanitize).take batchLimit.toNat
    [.seek, .read] ++ if taken s answer now hbs then ackCalls hbs.length q m else []

/-- What the entries may be after it. -/
def allowed (q : List Heartbeat) : Op → List (List Heartbeat)
  | .append e => [q.map Heartbeat.sanitize, q.map Heartbeat.sanitize ++ [e.sanitize]]
  | .ack count => [q.map Heartbeat.sanitize, (q.map Heartbeat.sanitize).drop count.toNat]
  | .flush .. => [q.map Heartbeat.sanitize, (q.map Heartbeat.sanitize).drop batchLimit.toNat]

/-- The buffer recovers from the call that failed. -/
def Spared (q : List Heartbeat) (m : Machine) : Op → SysCall → Fault → Prop
  | .append e => AppendSpared e q m
  | _ => fun c _ => pastClose c = false

/-- The heartbeat of an append is short. -/
def Short : Op → Prop
  | .append e => Buf.short e = true
  | _ => True

variable {m : Machine} {acked q : List Heartbeat}

/-- What the operation leaves when one of its calls has failed. -/
abbrev Left (op : Op) (q : List Heartbeat) (m : Machine) (c : SysCall) (f : Fault) (m' : Machine) : Prop :=
  Recovers m' (op.allowed q) ↔ op.Spared q m c f

/-- **A flush.** -/
theorem stops_flush {s : Shipper} {answer : Request → Except FlushError Response} {now : Int64}
    (h : Holds acked q m) (hshort : q.all short = true) {k : Nat} {f : Fault} {c : SysCall}
    (hc : (calls q m (.flush s answer now))[k]? = some c) (hcounts : Counts f c) :
    ∃ e m', s.flushBy answer now (failing k f m) = (.error e, m') ∧
      Left (.flush s answer now) q m c f m' := by
  have hread : Calls (Left (.flush s answer now) q m) (mapError FlushError.buffer (unacked batchLimit)) m [.seek, .read]
      ((q.map Heartbeat.sanitize).take batchLimit.toNat) m := by
    refine (calls_unacked (by decide) h.reading hshort fun f => ?_).mapError
    exact iff_of_true ((recovers_of_sound (sound_working h) rfl hshort).2 List.mem_cons_self) rfl
  rw [calls] at hc
  by_cases htaken : taken s answer now ((q.map Heartbeat.sanitize).take batchLimit.toNat) = true
  · rw [if_pos htaken] at hc
    rw [taken, Bool.and_eq_true] at htaken
    obtain ⟨hne, hanswer⟩ := htaken
    have hack : Calls (Left (.flush s answer now) q m)
        (mapError FlushError.buffer (Buf.ack ((q.map Heartbeat.sanitize).take batchLimit.toNat).length)) m
        (ackCalls ((q.map Heartbeat.sanitize).take batchLimit.toNat).length q m) ()
        (ackedTo ((q.map Heartbeat.sanitize).take batchLimit.toNat).length q m) := by
      have hcalls := recovers_ack ((q.map Heartbeat.sanitize).take batchLimit.toNat).length h hshort
      rw [Int.toNat_natCast, List.length_take, ← List.drop_eq_drop_min] at hcalls
      rw [List.length_take]
      exact hcalls.mapError
    split at hanswer
    · rename_i resp hresp
      have hsend : Calls (Left (.flush s answer now) q m) (fromExcept (answer (ingestRequest s.token
          ⟨schemaVersion, now, (q.map Heartbeat.sanitize).take batchLimit.toNat⟩)) : Eff Machine FlushError Response)
          m [] resp m := Makes.fromExcept hresp
      have hwhole := hread.bind (g := fun hbs => if hbs = [] then pure 0 else do
        let resp ← fromExcept (answer (ingestRequest s.token ⟨schemaVersion, now, hbs⟩))
        ensure (resp.status == 200) (.status resp.status)
        mapError .buffer (Buf.ack hbs.length)
        pure hbs.length) (by
          rw [if_neg (by simpa using hne)]
          exact hsend.bind ((Makes.ensure hanswer).andThen (hack.andThen Makes.pure)))
      rw [List.append_nil] at hwhole
      exact hwhole.stops k f c hc hcounts
    · exact absurd hanswer Bool.false_ne_true
  · rw [if_neg htaken, List.append_nil] at hc
    exact hread.stops_bind hc hcounts

/-- **One operation**, one of whose calls fails. -/
theorem stops (op : Op) (h : Holds acked q m) (hshort : q.all short = true) (hop : op.Short) {k : Nat} {f : Fault}
    {c : SysCall} (hc : (op.calls q m)[k]? = some c) (hcounts : Counts f c) :
    ∃ e m', op.run (failing k f m) = (.error e, m') ∧ Left op q m c f m' := by
  cases op with
  | append e => exact (recovers_append e h hshort hop).mapError.stops k f c hc hcounts
  | ack count => exact (recovers_ack count h hshort).mapError.stops k f c hc hcounts
  | flush s answer now =>
    obtain ⟨e, m', hrun, hleft⟩ := stops_flush h hshort hc hcounts
    exact ⟨e, m', bind_of_error hrun, hleft⟩

end Op

/-- The machine once the file was opened and the acts are done. -/
def reached (found : List Heartbeat) (maxBytes : Int) (acts : List Act) : Machine :=
  (runAll perform (.openBuffer maxBytes :: acts) (onDisk (encode found))).2

theorem lined_runAll : ∀ {acts : List Act} {m : Machine}, Lined m → (∀ a ∈ acts, ShortAct a) →
    Lined (runAll perform acts m).2
  | [], _, h, _ => h
  | a :: acts, m, h, hacts => by
    obtain ⟨ha, hacts⟩ := List.forall_mem_cons.1 hacts
    exact lined_runAll (m := (perform m a).2) (lined_act h ha) hacts

theorem lined_onDisk {found : List Heartbeat} (hfound : found.all short = true) : Lined (onDisk (encode found)) where
  entries := ⟨[], found, rfl, rfl, hfound⟩
  faults := rfl

end Buf

/-- **A buffer recovers** from a call that failed just if it was spared: the
call was no close, rename or reopen of a rewrite, no entry had been dropped for
an append that failed, and no part of a line was left without its end. -/
theorem recovers_iff (found : List Heartbeat) (maxBytes : Int) (acts : List Act) (hfound : found.all Buf.short = true)
    (hacts : ∀ a ∈ acts, Buf.ShortAct a) (hopen : (Buf.reached found maxBytes acts).buf.isOpen = true) :
    ∃ acked q, Buf.Holds acked q (Buf.reached found maxBytes acts) ∧
      Buf.pending (Buf.reached found maxBytes acts) = q.map Heartbeat.sanitize ∧
      ∀ op : Buf.Op, op.Short → ∀ k f c, (op.calls q (Buf.reached found maxBytes acts))[k]? = some c →
        Buf.Counts f c →
        ∃ e m', op.run (Buf.failing k f (Buf.reached found maxBytes acts)) = (.error e, m') ∧
          (Buf.Recovers m' (op.allowed q) ↔ op.Spared q (Buf.reached found maxBytes acts) c f) := by
  have hlined : Buf.Lined (Buf.reached found maxBytes acts) :=
    Buf.lined_runAll (Buf.lined_onDisk hfound) (List.forall_mem_cons.2 ⟨trivial, hacts⟩)
  obtain ⟨acked, q, hholds, hall⟩ := hlined.holds hopen
  refine ⟨acked, q, hholds, hholds.pending_sanitize, fun op hop k f c hc hcounts => ?_⟩
  exact op.stops hholds (Buf.all_short_right hall) hop hc hcounts

/-- An append to an empty buffer whose sync fails. -/
theorem recovers_sync :
    ∃ e m', (Buf.Op.append Buf.someHeartbeat).run (Buf.failing 1 .error (Buf.reached [] 1000 [])) = (.error e, m') ∧
      Buf.Recovers m' [[], [Buf.someHeartbeat]] := by
  obtain ⟨acked, q, -, hpending, hstops⟩ := recovers_iff [] 1000 [] rfl (fun _ h => absurd h List.not_mem_nil) rfl
  have hq : q = [] := List.map_eq_nil_iff.1 (hpending.symm.trans (by decide))
  subst hq
  have hshort : Buf.short Buf.someHeartbeat = true := by decide
  obtain ⟨e, m', hrun, hiff⟩ :=
    hstops (.append Buf.someHeartbeat) hshort 1 .error .sync rfl ⟨.inl rfl, fun h => by cases h⟩
  exact ⟨e, m', hrun, hiff.2 fun hover => absurd hover (by decide)⟩

/-- A buffer of two entries. -/
def twoEntries : Machine :=
  Buf.reached [] 1000 [.call (.append Buf.someHeartbeat), .call (.append Buf.someHeartbeat)]

/-- An ack of one of two entries, whose rename is refused: the buffer stays closed. -/
theorem wedged :
    let q := [Buf.someHeartbeat, Buf.someHeartbeat]
    let m' := ((Buf.Op.ack 1).run (Buf.failing 9 .error twoEntries)).2
    Buf.pending twoEntries = q ∧ ((Buf.Op.ack 1).calls q twoEntries)[9]? = some .rename ∧
      ((Buf.Op.ack 1).run (Buf.failing 9 .error twoEntries)).1 = .error (.buffer .io) ∧ m'.faults = [] ∧
      (Buf.step m' (.unacked 1)).1 = .error .closed ∧ (Buf.step m' (.append Buf.someHeartbeat)).1 = .error .closed ∧
      (Buf.step m' (.ack 1)).1 = .error .closed ∧ ¬ Buf.Recovers m' [q, q.drop 1] := by
  intro q m'
  have hclosed : m'.buf.isOpen = false := by decide +kernel
  refine ⟨?_, ?_, ?_, ?_, ?_, ?_, ?_, Buf.not_recovers_closed hclosed⟩
  · decide +kernel
  · decide +kernel
  · decide +kernel
  · decide +kernel
  · decide +kernel
  · decide +kernel
  · decide +kernel

end ScrewLogger
