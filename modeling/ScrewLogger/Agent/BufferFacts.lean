/-
What each operation of the buffer does to its file, when writes are whole and
nothing fails but the process may die at any call.

`Holds acked q m`: the file of `m` is the lines of `acked` and then those of
`q`, and the acked offset is where these begin. Each operation keeps some such
split; one the process dies in leaves the old file or the new one.
-/
import ScrewLogger.Agent.Buffer

namespace ScrewLogger.Buf
open Lib Lib.Eff

/-- The entries as the lines of a file. -/
def encode (entries : List Heartbeat) : Bytes := entries.flatMap line

@[simp] theorem encode_append {l l' : List Heartbeat} :
    encode (l ++ l') = encode l ++ encode l' := List.flatMap_append

@[simp] theorem encode_cons {h : Heartbeat} {l : List Heartbeat} : encode (h :: l) = line h ++ encode l := rfl

@[simp] theorem encode_nil : encode [] = [] := rfl

theorem encode_eq (l : List Heartbeat) : encode l = encodeLines (l.map Heartbeat.marshal) := by
  rw [encode, encodeLines, List.flatMap_map]
  rfl

theorem line_length (h : Heartbeat) : (line h).length = h.marshal.length + 1 := by simp [line]

/-- The scanner can read the heartbeat's line. -/
def short (h : Heartbeat) : Bool := h.marshal.length < maxScanTokenSize

/-! ## Reading entries -/

theorem printable_marshal {l : List Heartbeat} : ∀ t ∈ l.map Heartbeat.marshal, Printable t := by
  intro t ht
  obtain ⟨h, -, rfl⟩ := List.mem_map.1 ht
  exact h.marshal_printable

/-- What ends a scan of entries. -/
def scanEnd (l : List Heartbeat) : Option ScanError := if l.all short then none else some .tooLong

/-- A scan of entries: the lines up to the first that is too long. -/
theorem scan_entries (l : List Heartbeat) :
    scanLines ⟨encode l, false⟩ = ⟨(l.takeWhile short).map Heartbeat.marshal, scanEnd l⟩ := by
  have h := scanLines_encode (@printable_marshal l) fun c hc => absurd hc (@List.not_mem_nil _ c)
  simp only [List.append_nil, if_true, ← encode_eq] at h
  have htokens : (scanLines ⟨encode l, false⟩).tokens = (l.takeWhile short).map Heartbeat.marshal := by
    rw [h.1, List.takeWhile_map]
    rfl
  have herr : (scanLines ⟨encode l, false⟩).err = scanEnd l := by
    rw [h.2, scanEnd, List.any_map]
    by_cases hall : l.all short = true
    · rw [if_pos hall, if_neg]
      simpa [short] using hall
    · rw [if_neg hall, if_pos]
      simpa [short] using hall
  exact Scan.ext htokens herr

/-- What reading entries gives: an error when one of them, or the line after
the last that was asked for, is too long. -/
theorem readEntries_entries : ∀ (l : List Heartbeat) (limit : Nat),
    readEntries limit ((l.takeWhile short).map Heartbeat.marshal) (scanEnd l) =
      if (l.take (limit + 1)).all short then .ok ((l.map Heartbeat.sanitize).take limit) else .error .tooLong
  | [], limit => by simp [readEntries, scanEnd]
  | h :: l, limit => by
    by_cases hs : short h = true
    · cases limit with
      | zero => simp [readEntries, hs]
      | succ limit =>
        have ih := readEntries_entries l limit
        simp only [scanEnd] at ih
        simp only [List.takeWhile_cons, hs, if_true, List.map_cons, readEntries, h.unmarshal_marshal, scanEnd,
          List.all_cons, Bool.true_and, List.take_succ_cons, ih]
        split <;> rfl
    · simp [readEntries, hs, scanError, scanEnd]

/-- The bytes of the first entries; an error when one of them is too long. -/
theorem countBytes_entries : ∀ (l : List Heartbeat) (count : Nat),
    countBytes count ((l.takeWhile short).map Heartbeat.marshal) (scanEnd l) =
      if (l.take count).all short then .ok (encode (l.take count)).length else .error .tooLong
  | l, 0 => by simp [countBytes]
  | [], count + 1 => by simp [countBytes, scanEnd]
  | h :: l, count + 1 => by
    by_cases hs : short h = true
    · have ih := countBytes_entries l count
      simp only [scanEnd] at ih
      simp only [List.takeWhile_cons, hs, if_true, List.map_cons, countBytes, List.all_cons, Bool.true_and, scanEnd,
        List.take_succ_cons, ih, encode_cons, List.length_append, line_length]
      split <;> rfl
    · simp [countBytes, hs, scanError, scanEnd]

/-! ## System calls -/

/-- No call fails; the process may die at one. -/
def Benign (m : Machine) : Prop := ∀ f ∈ m.faults, f = .none ∨ f = .crash

variable {m : Machine} {E : BufferError → Machine → Prop}

theorem wp_nextFault {Q : Fault → Machine → Prop} (hb : Benign m)
    (hQ : ∀ fs, fs <:+ m.faults → Q .none { m with faults := fs })
    (hcrash : ∀ fs, fs <:+ m.faults → m.faults ≠ [] → Q .crash { m with faults := fs }) : wp nextFault Q E m := by
  simp only [nextFault, wp_take]
  cases hf : m.faults with
  | nil => exact hQ [] (hf ▸ List.suffix_refl _)
  | cons f fs =>
    have hsuffix : fs <:+ m.faults := hf ▸ List.suffix_cons f fs
    obtain rfl | rfl := hb f (hf ▸ List.mem_cons_self)
    · exact hQ fs hsuffix
    · exact hcrash fs hsuffix (by simp [hf])

theorem wp_sys {f : Machine → Machine} {Q : Unit → Machine → Prop} (hb : Benign m)
    (hQ : ∀ fs, fs <:+ m.faults → Q () (f { m with faults := fs }))
    (hE : ∀ fs, fs <:+ m.faults → m.faults ≠ [] → E .crash { m with faults := fs }) : wp (sys f) Q E m := by
  rw [sys, wp_bind]
  exact wp_nextFault hb hQ hE

theorem wp_write {f : Bytes → Machine → Machine} {data : Bytes} {Q : Unit → Machine → Prop} (hb : Benign m)
    (hQ : ∀ fs, fs <:+ m.faults → Q () (f data { m with faults := fs }))
    (hE : ∀ fs, fs <:+ m.faults → m.faults ≠ [] → E .crash { m with faults := fs }) : wp (write f data) Q E m := by
  rw [write, wp_bind]
  exact wp_nextFault hb hQ hE

theorem wp_ensureOpen {Q : Unit → Machine → Prop} (hopen : m.buf.isOpen = true) (hQ : Q () m) :
    wp ensureOpen Q E m := by
  simp only [ensureOpen, wp_bind, wp_read, wp_ensure, hopen]
  exact ⟨fun _ => hQ, fun h => absurd h (by decide)⟩

/-! Any call may fail. -/

theorem wp_nextFault_any {Q : Fault → Machine → Prop} (hQ : ∀ f fs, Q f { m with faults := fs }) :
    wp nextFault Q E m := by
  rw [nextFault, wp_take]
  exact hQ _ _

theorem wp_sys_any {f : Machine → Machine} {Q : Unit → Machine → Prop} (hQ : ∀ fs, Q () (f { m with faults := fs }))
    (hE : ∀ e m', e ≠ .tooLong → E e m') : wp (sys f) Q E m := by
  rw [sys, wp_bind]
  refine wp_nextFault_any fun fault fs => ?_
  cases fault with
  | none => exact hQ fs
  | error | crash | short | torn => exact hE _ _ fun h => by cases h

theorem wp_write_any {f : Bytes → Machine → Machine} {data : Bytes} {Q : Unit → Machine → Prop}
    (hQ : ∀ fs, Q () (f data { m with faults := fs })) (hE : ∀ e m', e ≠ .tooLong → E e m') :
    wp (write f data) Q E m := by
  rw [write, wp_bind]
  refine wp_nextFault_any fun fault fs => ?_
  cases fault with
  | none => exact hQ fs
  | error | crash | short | torn => exact hE _ _ fun h => by cases h

theorem wp_ensureOpen_any {Q : Unit → Machine → Prop} (hQ : Q () m) (hE : ∀ e m', e ≠ .tooLong → E e m') :
    wp ensureOpen Q E m := by
  simp only [ensureOpen, wp_bind, wp_read, wp_ensure]
  exact ⟨fun _ => hQ, fun _ => hE _ _ fun h => by cases h⟩

theorem Benign.suffix {fs : List Fault} (hb : Benign m) (h : fs <:+ m.faults) : Benign { m with faults := fs } :=
  fun f hf => hb f (h.subset hf)

theorem ne_nil_of_suffix {fs fs' : List Fault} (h : fs <:+ fs') (hne : fs ≠ []) : fs' ≠ [] := by
  rintro rfl
  exact hne (List.suffix_nil.1 h)

theorem wp_readUnacked {Q : Json.Reader → Machine → Prop} (hb : Benign m) (hopen : m.buf.isOpen = true)
    (hQ : ∀ fs, fs <:+ m.faults → Q ⟨m.file.drop m.buf.ackedOff, false⟩ { m with faults := fs })
    (hE : ∀ fs, fs <:+ m.faults → m.faults ≠ [] → E .crash { m with faults := fs }) : wp readUnacked Q E m := by
  simp only [readUnacked, wp_bind, wp_read]
  refine wp_ensureOpen hopen (wp_sys hb (fun fs hfs => ?_) hE)
  refine wp_nextFault (hb.suffix hfs) ?_ ?_
  · intro fs' hfs'
    exact hQ fs' (hfs'.trans hfs)
  · intro fs' hfs' hne
    exact hE fs' (hfs'.trans hfs) (ne_nil_of_suffix hfs hne)

/-! ## The buffer's operations -/

/-- The file is the lines of `acked`, up to the acked offset, and those of `q`. -/
structure Holds (acked q : List Heartbeat) (m : Machine) : Prop where
  file : m.file = encode (acked ++ q)
  ackedOff : m.buf.ackedOff = (encode acked).length
  isOpen : m.buf.isOpen = true

variable {acked q : List Heartbeat}

theorem Holds.drop (h : Holds acked q m) : m.file.drop m.buf.ackedOff = encode q := by
  rw [h.file, h.ackedOff, encode_append, List.drop_left]

theorem Holds.tick (h : Holds acked q m) (fs : List Fault) : Holds acked q { m with faults := fs } :=
  ⟨h.file, h.ackedOff, h.isOpen⟩

/-- Lines read from the acked offset on are those of `q`, also once some of it is acked. -/
structure Reading (q : List Heartbeat) (m : Machine) : Prop where
  scan : ∀ n, scanLines ⟨m.file.drop (m.buf.ackedOff + (encode (q.take n)).length), false⟩ =
    ⟨((q.drop n).takeWhile short).map Heartbeat.marshal, scanEnd (q.drop n)⟩
  isOpen : m.buf.isOpen = true

theorem Holds.reading (h : Holds acked q m) : Reading q m where
  scan n := by
    have hdrop : m.file.drop (m.buf.ackedOff + (encode (q.take n)).length) = encode (q.drop n) := by
      have hq : encode q = encode (q.take n) ++ encode (q.drop n) := by rw [← encode_append, List.take_append_drop]
      rw [← List.drop_drop, h.drop, hq, List.drop_left]
    rw [hdrop, scan_entries]
  isOpen := h.isOpen

theorem Reading.scan_all (h : Reading q m) : scanLines ⟨m.file.drop m.buf.ackedOff, false⟩ =
    ⟨(q.takeWhile short).map Heartbeat.marshal, scanEnd q⟩ := h.scan 0

theorem Reading.tick (h : Reading q m) (fs : List Fault) : Reading q { m with faults := fs } := ⟨h.scan, h.isOpen⟩

/-- The heartbeats on the unacked lines. -/
def pending (m : Machine) : List Heartbeat :=
  (splitLines (m.file.drop m.buf.ackedOff)).1.filterMap Heartbeat.unmarshal

theorem Holds.pending_sanitize (h : Holds acked q m) : pending m = q.map Heartbeat.sanitize := by
  have hsplit := @splitLines_encode (q.map Heartbeat.marshal) []
    (fun l hl => Printable.newline_notMem (printable_marshal l hl)) List.not_mem_nil
  rw [List.append_nil, ← encode_eq] at hsplit
  rw [Buf.pending, h.drop, hsplit, List.filterMap_map]
  have hread : ∀ e ∈ q, (Heartbeat.unmarshal ∘ Heartbeat.marshal) e = some e.sanitize := fun e _ =>
    e.unmarshal_marshal
  rw [List.filterMap_congr hread, ← List.filterMap_eq_map]
  rfl

theorem Holds.pending (h : Holds acked q m) (hvalid : ∀ e ∈ q, e.Valid) : pending m = q := by
  rw [h.pending_sanitize, Heartbeat.map_sanitize hvalid]

/-- An error that is no fault of the file system. -/
def Stopped (q : List Heartbeat) (m : Machine) (e : BufferError) : Prop :=
  e = .crash ∧ m.faults ≠ [] ∨ e = .tooLong ∧ q.all short = false

theorem wp_unacked {limit : Int} {Q : List Heartbeat → Machine → Prop} (hb : Benign m) (h : Reading q m)
    (hQ : ∀ fs, fs <:+ m.faults → Q ((q.map Heartbeat.sanitize).take limit.toNat) { m with faults := fs })
    (hE : ∀ e fs, fs <:+ m.faults → Stopped q m e → E e { m with faults := fs }) : wp (unacked limit) Q E m := by
  rw [unacked, wp_ite]
  refine ⟨fun hle => ?_, fun _ => ?_⟩
  · have := hQ m.faults (List.suffix_refl _)
    rwa [Int.toNat_of_nonpos hle, List.take_zero] at this
  · rw [wp_bind]
    refine wp_readUnacked hb h.isOpen (fun fs hfs => ?_) fun fs hfs hne => hE _ fs hfs (.inl ⟨rfl, hne⟩)
    simp only [h.scan_all, readEntries_entries, wp_fromExcept]
    split
    · exact ⟨fun out ho => by cases ho; exact hQ fs hfs, fun _ he => by cases he⟩
    · next hshort =>
      refine ⟨fun _ ho => by (cases ho), fun e he => ?_⟩
      cases he
      refine hE _ fs hfs (.inr ⟨rfl, ?_⟩)
      rw [Bool.eq_false_iff]
      exact fun hall => hshort (List.all_eq_true.2 fun x hx => List.all_eq_true.1 hall x (List.mem_of_mem_take hx))

/-- The machine with a new file. -/
def rewritten (m : Machine) (entries : List Heartbeat) : Machine :=
  { m with
    file := encode entries
    tmp := []
    buf := { m.buf with isOpen := true, ackedOff := 0, size := (encode entries).length } }

theorem wp_rewrite {entries : List Heartbeat} {Q : Unit → Machine → Prop} (hb : Benign m)
    (hopen : m.buf.isOpen = true)
    (hQ : ∀ fs, fs <:+ m.faults → Q () (rewritten { m with faults := fs } entries))
    (hE : ∀ m', m'.faults <:+ m.faults → m.faults ≠ [] → m'.file = m.file ∨ m'.file = encode entries → E .crash m') :
    wp (rewrite entries) Q E m := by
  simp only [rewrite, wp_bind]
  refine wp_sys hb (fun fs₁ h₁ => ?_) fun fs h hne => hE _ h hne (.inl rfl)
  refine (wp_foldlM (fun done n m' => n = (encode done).length ∧
    ∃ fs, fs <:+ m.faults ∧ m' = { m with tmp := encode done, faults := fs }) ⟨rfl, fs₁, h₁, rfl⟩ ?_).mono ?_
      fun _ _ h => h
  · intro done e rest n m' _ hm'
    obtain ⟨hn, fs, hfs, rfl⟩ := hm'
    rw [wp_bind]
    refine wp_write (hb.suffix hfs) (fun fs' hfs' => ⟨?_, fs', hfs'.trans hfs, ?_⟩) fun fs' hfs' hne =>
      hE _ (hfs'.trans hfs) (ne_nil_of_suffix hfs hne) (.inl rfl)
    · simp [hn]
    · simp
  · intro n m' hm'
    obtain ⟨hn, fs₂, h₂, rfl⟩ := hm'
    have died {m' : Machine} {fs fs' : List Fault} (h : fs <:+ m.faults) (h' : fs' <:+ fs) (hne : fs ≠ [])
        (hfs : m'.faults = fs') (hfile : m'.file = m.file ∨ m'.file = encode entries) : E .crash m' :=
      hE m' (hfs ▸ h'.trans h) (ne_nil_of_suffix h hne) hfile
    refine wp_sys (hb.suffix h₂) (fun fs₃ h₃ => ?_) fun fs h hne => died h₂ h hne rfl (.inl rfl)
    have h₃ := h₃.trans h₂
    refine wp_sys (hb.suffix h₃) (fun fs₄ h₄ => ?_) fun fs h hne => died h₃ h hne rfl (.inl rfl)
    have h₄ := h₄.trans h₃
    refine wp_ensureOpen hopen (wp_sys (hb.suffix h₄) (fun fs₅ h₅ => ?_) fun fs h hne => died h₄ h hne rfl (.inl rfl))
    have h₅ := h₅.trans h₄
    refine wp_sys (hb.suffix h₅) (fun fs₆ h₆ => ?_) fun fs h hne => died h₅ h hne rfl (.inl rfl)
    have h₆ := h₆.trans h₅
    -- the new file is in place
    refine wp_sys (hb.suffix h₆) (fun fs₇ h₇ => ?_) fun fs h hne => died h₆ h hne rfl (.inr rfl)
    subst hn
    exact hQ fs₇ (h₇.trans h₆)

/-- The entries a rewrite keeps of `q`. -/
def keep (q : List Heartbeat) : List Heartbeat := (q.map Heartbeat.sanitize).take allEntries.toNat

theorem short_sanitize {h : Heartbeat} (hs : short h = true) : short h.sanitize = true := by
  have := h.length_marshal_sanitize
  rw [short, decide_eq_true_eq] at hs ⊢
  omega

theorem short_keep (h : q.all short = true) : ∀ e ∈ keep q, short e = true := by
  intro e he
  obtain ⟨e', he', rfl⟩ := List.mem_map.1 (List.mem_of_mem_take he)
  exact short_sanitize (List.all_eq_true.1 h e' he')

theorem keep_eq (h : ∀ e ∈ q, e.Valid) (hroom : q.length ≤ allEntries.toNat) : keep q = q := by
  rw [keep, Heartbeat.map_sanitize h, List.take_of_length_le hroom]

/-- The process died with the old file or the new one. -/
def Died (m : Machine) (file : Bytes) (m' : Machine) : Prop :=
  m.faults ≠ [] ∧ m'.faults <:+ m.faults ∧ (m'.file = m.file ∨ m'.file = file)

theorem wp_compact {Q : Unit → Machine → Prop} (hb : Benign m) (h : Reading q m)
    (hQ : ∀ fs, fs <:+ m.faults → Q () (rewritten { m with faults := fs } (keep q)))
    (hcrash : ∀ m', Died m (encode (keep q)) m' → E .crash m')
    (hlong : ∀ fs, fs <:+ m.faults → q.all short = false → E .tooLong { m with faults := fs }) :
      wp compact Q E m := by
  rw [compact, wp_bind]
  refine wp_unacked hb h (fun fs hfs => ?_) fun e fs hfs he => ?_
  · refine wp_rewrite (hb.suffix hfs) h.isOpen (fun fs' hfs' => hQ fs' (hfs'.trans hfs)) fun m' hm' hne hfile => ?_
    exact hcrash m' ⟨ne_nil_of_suffix hfs hne, hm'.trans hfs, hfile⟩
  · obtain ⟨rfl, hne⟩ | ⟨rfl, hall⟩ := he
    · exact hcrash _ ⟨hne, hfs, .inl rfl⟩
    · exact hlong fs hfs hall

/-- The machine with entries more of its file acked. -/
def advanced (m : Machine) (entries : List Heartbeat) : Machine :=
  { m with buf := { m.buf with ackedOff := m.buf.ackedOff + (encode entries).length } }

theorem Holds.advanced (h : Holds acked q m) (n : Nat) :
    Holds (acked ++ q.take n) (q.drop n) (advanced m (q.take n)) where
  file := by rw [List.append_assoc, List.take_append_drop]; exact h.file
  ackedOff := by rw [encode_append, List.length_append, ← h.ackedOff]; rfl
  isOpen := h.isOpen

theorem Reading.advanced (h : Reading q m) (n : Nat) : Reading (q.drop n) (advanced m (q.take n)) where
  scan k := by
    have hbytes : (encode (q.take n)).length + (encode ((q.drop n).take k)).length =
      (encode (q.take (n + k))).length := by
      rw [List.take_add, encode_append, List.length_append]
    have hscan := h.scan (n + k)
    rw [← hbytes, ← Nat.add_assoc, ← List.drop_drop (l := q)] at hscan
    exact hscan
  isOpen := h.isOpen

/-- `Ack(count)` leaves the file as it is, or rewritten. -/
def ackedTo (count : Int) (q : List Heartbeat) (m : Machine) : Machine :=
  if count ≤ 0 then m
  else if halfAcked (advanced m (q.take count.toNat)).buf then rewritten m (keep (q.drop count.toNat))
  else advanced m (q.take count.toNat)

theorem wp_ack {count : Int} {Q : Unit → Machine → Prop} (hb : Benign m) (h : Reading q m)
    (hQ : ∀ fs, fs <:+ m.faults → Q () (ackedTo count q { m with faults := fs }))
    (hcrash : ∀ m', Died m (ackedTo count q m).file m' → E .crash m')
    (hlong : ∀ fs n, n ≤ count.toNat → fs <:+ m.faults → q.all short = false →
      E .tooLong (advanced { m with faults := fs } (q.take n))) :
    wp (ack count) Q E m := by
  rw [ack, wp_ite]
  refine ⟨fun hle => ?_, fun hpos => ?_⟩
  · have := hQ m.faults (List.suffix_refl _)
    rwa [ackedTo, if_pos hle] at this
  · simp only [wp_bind, wp_read]
    refine wp_readUnacked hb h.isOpen (fun fs hfs => ?_) fun fs hfs hne => hcrash _ ⟨hne, hfs, .inl rfl⟩
    simp only [h.scan_all, countBytes_entries, wp_fromExcept]
    split
    · refine ⟨fun n hn => ?_, fun _ he => by (cases he)⟩
      cases hn
      simp only [wp_modify, wp_ite]
      have hadv : Reading _ (advanced { m with faults := fs } (q.take count.toNat)) := (h.tick fs).advanced _
      refine ⟨fun hhalf => ?_, fun hhalf => ?_⟩
      · refine wp_compact (hb.suffix hfs) hadv (fun fs' hfs' => ?_) (fun m' hm' => ?_) fun fs' hfs' hall => ?_
        · have hfinal := hQ fs' (hfs'.trans hfs)
          rwa [ackedTo, if_neg hpos, if_pos (by exact hhalf)] at hfinal
        · obtain ⟨hne, hsuffix, hfile⟩ := hm'
          refine hcrash m' ⟨ne_nil_of_suffix hfs hne, hsuffix.trans hfs, ?_⟩
          rw [ackedTo, if_neg hpos, if_pos (by exact hhalf)]
          exact hfile
        · refine hlong fs' count.toNat (Nat.le_refl _) (hfs'.trans hfs) ?_
          rw [List.all_eq_false] at hall ⊢
          obtain ⟨x, hx, hlong⟩ := hall
          exact ⟨x, List.mem_of_mem_drop hx, hlong⟩
      · have hfinal := hQ fs hfs
        rwa [ackedTo, if_neg hpos, if_neg (by exact hhalf)] at hfinal
    · next hshort =>
      refine ⟨fun _ ho => by (cases ho), fun e he => ?_⟩
      cases he
      refine hlong fs 0 (Nat.zero_le _) hfs ?_
      rw [Bool.eq_false_iff]
      exact fun hall => hshort (List.all_eq_true.2 fun x hx => List.all_eq_true.1 hall x (List.mem_of_mem_take hx))

/-- The younger half of the entries. -/
def youngerHalf (l : List Heartbeat) : List Heartbeat := l.drop (l.length / 2)

/-- The file before an entry is appended: rewritten, if it overflows. -/
def rotated (q : List Heartbeat) (m : Machine) : Machine :=
  if overflows m.buf then rewritten m (youngerHalf (keep q)) else m

/-- The machine with an entry more. -/
def appended (h : Heartbeat) (m : Machine) : Machine :=
  { m with file := m.file ++ line h, buf := { m.buf with size := m.buf.size + (line h).length } }

theorem Holds.appended (h : Holds acked q m) (e : Heartbeat) : Holds acked (q ++ [e]) (appended e m) where
  file := by
    show m.file ++ line e = _
    rw [h.file, ← List.append_assoc, encode_append (l := acked ++ q), encode_cons, encode_nil, List.append_nil]
  ackedOff := h.ackedOff
  isOpen := h.isOpen

theorem appended_maxBytes (e : Heartbeat) (m : Machine) : (appended e m).buf.maxBytes = m.buf.maxBytes := rfl

theorem appended_ackedOff (e : Heartbeat) (m : Machine) : (appended e m).buf.ackedOff = m.buf.ackedOff := rfl

theorem appended_isOpen (e : Heartbeat) (m : Machine) : (appended e m).buf.isOpen = m.buf.isOpen := rfl

theorem wp_rotateIfFull {Q : Unit → Machine → Prop} (hb : Benign m) (h : Reading q m)
    (hQ : ∀ fs, fs <:+ m.faults → Q () (rotated q { m with faults := fs }))
    (hcrash : ∀ m', Died m (rotated q m).file m' → E .crash m')
    (hlong : ∀ fs, fs <:+ m.faults → q.all short = false → E .tooLong { m with faults := fs }) :
    wp rotateIfFull Q E m := by
  simp only [rotateIfFull, wp_bind, wp_read, wp_ite]
  refine ⟨fun hover => ?_, fun hover => ?_⟩
  · refine wp_unacked hb h (fun fs hfs => ?_) fun e fs hfs he => ?_
    · refine wp_rewrite (hb.suffix hfs) h.isOpen (fun fs' hfs' => ?_) fun m' hm' hne hfile => ?_
      · have := hQ fs' (hfs'.trans hfs)
        rwa [rotated, if_pos hover] at this
      · refine hcrash m' ⟨ne_nil_of_suffix hfs hne, hm'.trans hfs, ?_⟩
        rw [rotated, if_pos hover]
        exact hfile
    · obtain ⟨rfl, hne⟩ | ⟨rfl, hall⟩ := he
      · exact hcrash _ ⟨hne, hfs, .inl rfl⟩
      · exact hlong fs hfs hall
  · have := hQ m.faults (List.suffix_refl _)
    rwa [rotated, if_neg hover] at this

theorem rotated_isOpen (h : m.buf.isOpen = true) : (rotated q m).buf.isOpen = true := by
  unfold rotated
  split
  · rfl
  · exact h

theorem rotated_faults (fs : List Fault) :
    rotated q { m with faults := fs } = { rotated q m with faults := fs } := by
  unfold rotated
  split <;> rfl

/-- An append that does not overflow, to whatever file. -/
theorem wp_append_fits {e : Heartbeat} {Q : Unit → Machine → Prop} (hb : Benign m) (hopen : m.buf.isOpen = true)
    (hfits : overflows m.buf = false) (hQ : ∀ fs, fs <:+ m.faults → Q () (appended e { m with faults := fs }))
    (hcrash : ∀ m', Died m (m.file ++ line e) m' → E .crash m') : wp (append e) Q E m := by
  simp only [append, rotateIfFull, wp_bind, wp_read, wp_ite]
  refine ⟨fun hover => absurd (hfits.symm.trans hover) (by decide), fun _ => ?_⟩
  refine wp_ensureOpen hopen (wp_write hb (fun fs hfs => ?_) fun fs hfs hne => hcrash _ ⟨hne, hfs, .inl rfl⟩)
  refine wp_sys (hb.suffix hfs) (fun fs' hfs' => hQ fs' (hfs'.trans hfs)) fun fs' hfs' hne => ?_
  exact hcrash _ ⟨ne_nil_of_suffix hfs hne, hfs'.trans hfs, .inr rfl⟩

theorem wp_append {e : Heartbeat} {Q : Unit → Machine → Prop} (hb : Benign m) (h : Reading q m)
    (hQ : ∀ fs, fs <:+ m.faults → Q () (appended e (rotated q { m with faults := fs })))
    (hcrash : ∀ m', Died m (rotated q m).file m' ∨ Died m ((rotated q m).file ++ line e) m' → E .crash m')
    (hlong : ∀ fs, fs <:+ m.faults → q.all short = false → E .tooLong { m with faults := fs }) :
    wp (append e) Q E m := by
  simp only [append, wp_bind]
  refine wp_rotateIfFull hb h (fun fs hfs => ?_) (fun m' hm' => hcrash m' (.inl hm')) hlong
  rw [rotated_faults]
  have hb' : Benign { rotated q m with faults := fs } := hb.suffix hfs
  refine wp_ensureOpen (rotated_isOpen h.isOpen) (wp_write hb' (fun fs₁ h₁ => ?_) fun fs₁ h₁ hne => ?_)
  · have h₁ : fs₁ <:+ m.faults := h₁.trans hfs
    refine wp_sys (hb.suffix h₁) (fun fs₂ h₂ => ?_) fun fs₂ h₂ hne => ?_
    · have := hQ fs₂ (h₂.trans h₁)
      rwa [rotated_faults] at this
    · exact hcrash _ (.inr ⟨ne_nil_of_suffix h₁ hne, h₂.trans h₁, .inr rfl⟩)
  · exact hcrash _ (.inl ⟨ne_nil_of_suffix hfs hne, h₁.trans hfs, .inr rfl⟩)

end ScrewLogger.Buf
