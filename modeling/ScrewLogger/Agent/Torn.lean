/-
A crash in the middle of an append's write.

What was written of the line stays at the end of the file, and the next append
goes on right after it. `survives_torn_append_iff`: the entries survive just
when nothing was written, or the whole line, or all of it but the line break
and nothing is appended after. Otherwise there is a line in the file that is no
heartbeat, and no entry can be read any more.
-/
import Mathlib.Data.List.TakeWhile
import ScrewLogger.Agent.Queue

namespace ScrewLogger
open Lib Lib.Eff

namespace Buf

/-- The machine after `calls`, a crash when the first `n` bytes of an entry's
line were written, a new start, and the appends of `more`. -/
def torn (maxBytes : Int) (calls : List Call) (e : Heartbeat) (n : Nat) : Machine :=
  let m := (runAll step calls (opened maxBytes [])).2
  let m := (append e { m with faults := [.torn n] }).2
  (openBuffer maxBytes m).2

end Buf

/-- What the calls append, in order. -/
def appendedBy (calls : List Call) : List Heartbeat := calls.filterMap fun c =>
  match c with
  | .append h => some h
  | _ => none

/-- The entries appended and not acked, after one call more. -/
def outstandingAfter (q : List Heartbeat) : Call → List Heartbeat
  | .append h => q ++ [h]
  | .unacked _ => q
  | .ack count => q.drop count.toNat

/-- What the calls append and do not ack, in order. -/
def outstanding (calls : List Call) : List Heartbeat := calls.foldl outstandingAfter []

/-- Those of the heartbeats whose append returned no error. -/
def succeeded (hs : List Heartbeat) (results : List (Except BufferError (List Heartbeat))) : List Heartbeat :=
  (hs.zip results).filterMap fun r => if r.2.isOk then some r.1 else none

/-- After the crash and the appends of `more`, reading enough entries gives
every one that was appended and not acked, in order, and none that never was. -/
def Survives (maxBytes : Int) (calls : List Call) (e : Heartbeat) (n : Nat) (more : List Heartbeat) : Prop :=
  let run := runAll Buf.step (more.map .append) (Buf.torn maxBytes calls e n)
  let all := appendedBy calls ++ e :: more
  ∀ limit : Int, all.length ≤ limit → ∃ out, (Buf.unacked limit run.2).1 = .ok out ∧
    (outstanding calls ++ succeeded more run.1).Sublist out ∧ out.Sublist all

/-- The part that was written harms no reader. -/
def Harmless (e : Heartbeat) (n : Nat) (more : List Heartbeat) : Prop :=
  n = 0 ∨ e.marshal.length < n ∨ n = e.marshal.length ∧ more = []

namespace Buf

/-- The call drops no entry: no append overflows, and a compaction has room. -/
def Keeps (maxBytes : Int) (m : Machine) (q : List Heartbeat) : Call → Prop
  | .append _ => (encode q).length ≤ maxBytes
  | .unacked _ => True
  | .ack count => Roomy m q (.ack count)

end Buf

/-- Nothing but the crash disturbs the run: the heartbeats are clean, and no
call drops an entry. -/
structure Undisturbed (maxBytes : Int) (calls : List Call) (e : Heartbeat) (more : List Heartbeat) : Prop where
  clean : ∀ h ∈ appendedBy calls ++ e :: more, Buf.Clean h
  keeps : Along Buf.step (Queue.step maxBytes) (Buf.Keeps maxBytes) calls (Buf.opened maxBytes []) []
  fitsTorn : (Buf.encode (outstanding calls)).length ≤ maxBytes
  fitsMore : ∀ p h s, more = p ++ h :: s → (Buf.encode p).length ≤ maxBytes

namespace Buf

variable {maxBytes : Int} {m : Machine} {q : List Heartbeat}

/-! ## Before the crash -/

/-- The file's lines are entries of `all`, in order. -/
def FileOf (all : List Heartbeat) (m : Machine) (q : List Heartbeat) : Prop :=
  ∃ acked, Holds acked q m ∧ (acked ++ q).Sublist all

theorem Keeps.roomy {c : Call} (h : Sim maxBytes m q) (hk : Keeps maxBytes m q c) : Roomy m q c := by
  cases c with
  | append e =>
    intro hover
    have hfits : ((encode q).length : Int) ≤ maxBytes := hk
    have := h.overflows.1 hover
    omega
  | unacked limit => exact trivial
  | ack count => exact hk

/-- A call that drops no entry. -/
theorem fileOf_step {all : List Heartbeat} {c : Call} (h : Sim maxBytes m q) (hk : Keeps maxBytes m q c)
    (hf : FileOf all m q) : FileOf (all ++ appendedBy [c]) (step m c).2 (Queue.step maxBytes q c).2 ∧
      (Queue.step maxBytes q c).2 = outstandingAfter q c := by
  obtain ⟨acked, hholds, hsub⟩ := hf
  cases c with
  | unacked limit =>
    rw [step_unacked h]
    have hall : all ++ appendedBy [.unacked limit] = all := List.append_nil all
    rw [hall]
    exact ⟨⟨acked, hholds, hsub⟩, rfl⟩
  | append e =>
    have hfits : ¬ maxBytes < (encode q).length := Int.not_lt.2 hk
    have hrotated : rotated q m = m := if_neg fun hover => hfits (h.overflows.1 hover)
    rw [step_append h, hrotated]
    simp only [Queue.step, if_neg hfits]
    refine ⟨⟨acked, ⟨?_, hholds.ackedOff, hholds.isOpen⟩, ?_⟩, rfl⟩
    · simp [appended, hholds.file]
    · rw [← List.append_assoc]
      exact hsub.append (.refl _)
  | ack count =>
    rw [step_ack h, ackedTo]
    refine ⟨?_, rfl⟩
    have hdrop : ∀ e ∈ q.drop count.toNat, Clean e := fun e he => h.clean e (List.mem_of_mem_drop he)
    have hall : all ++ appendedBy [.ack count] = all := List.append_nil all
    rw [hall]
    show FileOf all _ (q.drop count.toNat)
    by_cases hle : count ≤ 0
    · rw [if_pos hle, Int.toNat_of_nonpos hle]
      exact ⟨acked, hholds, hsub⟩
    · rw [if_neg hle]
      by_cases hhalf : halfAcked (advanced m (q.take count.toNat)).buf = true
      · rw [if_pos hhalf, keep_eq (valid_of_clean hdrop) (hk (by omega) hhalf)]
        have hq := (List.drop_sublist count.toNat q).trans (List.sublist_append_right acked q)
        exact ⟨[], ⟨rfl, rfl, rfl⟩, hq.trans hsub⟩
      · rw [if_neg hhalf]
        refine ⟨acked ++ q.take count.toNat, hholds.advanced _, ?_⟩
        rwa [List.append_assoc, List.take_append_drop]

theorem appendedBy_cons {c : Call} {calls : List Call} :
    appendedBy (c :: calls) = appendedBy [c] ++ appendedBy calls := by
  cases c <;> rfl

theorem cleanCall_of_appendedBy {c : Call} (h : ∀ e ∈ appendedBy [c], Clean e) : CleanCall c := by
  cases c with
  | append e => exact h e List.mem_cons_self
  | unacked limit => exact trivial
  | ack count => exact trivial

/-- **A run that drops no entry** leaves a file of the entries appended. -/
theorem fileOf_run : ∀ {calls : List Call} {m : Machine} {q all : List Heartbeat}, Sim maxBytes m q → FileOf all m q →
    (∀ e ∈ appendedBy calls, Clean e) → Along step (Queue.step maxBytes) (Keeps maxBytes) calls m q →
    Sim maxBytes (runAll step calls m).2 (calls.foldl outstandingAfter q) ∧
      FileOf (all ++ appendedBy calls) (runAll step calls m).2 (calls.foldl outstandingAfter q)
  | [], m, q, all, h, hf, _, _ => by
    have hall : all ++ appendedBy [] = all := List.append_nil all
    rw [hall]
    exact ⟨h, hf⟩
  | c :: calls, m, q, all, h, hf, hclean, ⟨hk, hrest⟩ => by
    rw [appendedBy_cons, List.forall_mem_append] at hclean
    obtain ⟨hf', hq⟩ := fileOf_step h hk hf
    have h' := (sim_step m q c h ⟨cleanCall_of_appendedBy hclean.1, hk.roomy h⟩).2
    have hrun := fileOf_run h' hf' hclean.2 hrest
    rw [hq, List.append_assoc, ← appendedBy_cons] at hrun
    exact hrun

/-! ## The crash, and after -/

theorem openBuffer_quiet (h : m.faults = []) :
    (openBuffer maxBytes m).2 = { file := m.file, tmp := m.tmp, buf := { maxBytes := maxBytes } } := by
  cases m
  subst h
  rfl

/-- What is left of the line is at the end of the file. -/
theorem torn_eq {calls : List Call} {e : Heartbeat} {n : Nat}
    (h : Sim maxBytes (runAll step calls (opened maxBytes [])).2 q) (hfits : (encode q).length ≤ maxBytes) :
    ∃ tmp, torn maxBytes calls e n =
      { file := (runAll step calls (opened maxBytes [])).2.file ++ (line e).take n
        tmp := tmp
        buf := { maxBytes := maxBytes } } := by
  obtain ⟨acked, hholds⟩ := h.holds
  unfold torn
  generalize (runAll step calls (opened maxBytes [])).2 = m at h hholds
  have hover : ¬ overflows m.buf = true := fun hover => by
    have := h.overflows.1 hover
    omega
  have hcrash : wp (append e) (fun _ m' => m'.file = m.file ++ (line e).take n ∧ m'.faults = [])
      (fun _ m' => m'.file = m.file ++ (line e).take n ∧ m'.faults = []) { m with faults := [.torn n] } := by
    simp [append, rotateIfFull, hover, ensureOpen, write, nextFault, hholds.isOpen]
  obtain ⟨hfile, hfaults⟩ := hcrash.final
  exact ⟨_, (openBuffer_quiet hfaults).trans (by rw [hfile])⟩

/-- An append that does not overflow, to whatever file. -/
theorem step_append_fits {h : Heartbeat} (hfaults : m.faults = []) (hopen : m.buf.isOpen = true)
    (hover : overflows m.buf = false) : step m (.append h) = (.ok [], appended h m) := by
  refine step_eq ?_
  rw [call, wp_map]
  refine wp_append_fits (benign_of_nil hfaults) hopen hover (fun fs hfs => ⟨rfl, ?_⟩) fun m' hd => hd.1 hfaults
  rw [eq_of_suffix hfs hfaults]

/-- Appends that do not overflow. -/
theorem appends_fit : ∀ {more : List Heartbeat} {m : Machine}, m.faults = [] → m.buf.isOpen = true →
    (∀ p h s, more = p ++ h :: s → (m.buf.size : Int) - m.buf.ackedOff + (encode p).length ≤ m.buf.maxBytes) →
    ∃ size, runAll step (more.map .append) m =
      (more.map fun _ => .ok [], { m with file := m.file ++ encode more, buf := { m.buf with size := size } })
  | [], m, _, _, _ => ⟨m.buf.size, by simp [runAll]⟩
  | h :: more, m, hfaults, hopen, hfits => by
    have hover : overflows m.buf = false := by
      have := hfits [] h more rfl
      simp only [encode_nil, List.length_nil, overflows, decide_eq_false_iff_not] at this ⊢
      omega
    have hstep : step m (.append h) = (.ok [], appended h m) := step_append_fits hfaults hopen hover
    have hfits' : ∀ p h' s, more = p ++ h' :: s →
        ((appended h m).buf.size : Int) - (appended h m).buf.ackedOff + (encode p).length ≤
          (appended h m).buf.maxBytes := by
      intro p h' s hmore
      have := hfits (h :: p) h' s (by rw [hmore, List.cons_append])
      rw [encode_cons, List.length_append] at this
      simp only [appended]
      omega
    obtain ⟨size, hrun⟩ := appends_fit (m := appended h m) hfaults hopen hfits'
    refine ⟨size, ?_⟩
    simp only [List.map_cons, runAll, hstep, hrun]
    simp only [appended, encode_cons, List.append_assoc]

/-! ## Reading what is left -/

/-- What reading the unacked lines gives, whatever they are. -/
theorem unacked_eq {limit : Int} (hfaults : m.faults = []) (hopen : m.buf.isOpen = true) (hpos : 0 < limit) :
    (unacked limit m).1 = readEntries limit.toNat (scanLines ⟨m.file.drop m.buf.ackedOff, false⟩).tokens
      (scanLines ⟨m.file.drop m.buf.ackedOff, false⟩).err := by
  generalize hscan : scanLines ⟨m.file.drop m.buf.ackedOff, false⟩ = scan
  have h : wp (unacked limit) (fun out _ => readEntries limit.toNat scan.tokens scan.err = .ok out)
      (fun e _ => readEntries limit.toNat scan.tokens scan.err = .error e) m := by
    rw [unacked, wp_ite]
    refine ⟨fun hle => by omega, fun _ => ?_⟩
    rw [wp_bind]
    refine wp_readUnacked (benign_of_nil hfaults) hopen (fun fs _ => ?_) fun _ _ hne => absurd hfaults hne
    simp only [hscan, wp_fromExcept]
    exact ⟨fun _ h => h, fun _ h => h⟩
  unfold wp at h
  split at h
  · next heq => rw [heq, h]
  · next heq => rw [heq, h]

/-- Entries, and after them a line that is none. -/
theorem readEntries_corrupt {bad : Bytes} (hbad : Heartbeat.unmarshal bad = none) {tokens : List Bytes}
    {err : Option ScanError} : ∀ {l : List Heartbeat} {limit : Nat}, l.length < limit →
      readEntries limit (l.map Heartbeat.marshal ++ bad :: tokens) err = .error .corrupt
  | [], limit + 1, _ => by simp [readEntries, hbad]
  | h :: l, limit + 1, hlt => by
    have ih : readEntries limit (l.map Heartbeat.marshal ++ bad :: tokens) err = .error .corrupt :=
      readEntries_corrupt hbad (Nat.lt_of_succ_lt_succ hlt)
    simp only [List.map_cons, List.cons_append, readEntries, h.unmarshal_marshal, ih]
    rfl

/-- Entries, and an error after the last. -/
theorem readEntries_err {e : ScanError} : ∀ {l : List Heartbeat} {limit : Nat}, l.length ≤ limit →
      readEntries limit (l.map Heartbeat.marshal) (some e) = .error (scanError e)
  | [], _, _ => by simp [readEntries]
  | h :: l, limit + 1, hlt => by
    have ih : readEntries limit (l.map Heartbeat.marshal) (some e) = .error (scanError e) :=
      readEntries_err (Nat.le_of_succ_le_succ hlt)
    simp only [List.map_cons, readEntries, h.unmarshal_marshal, ih]
    rfl

/-- Reading lines up to the first that is too long. -/
def readLines (limit : Nat) (lines : List Bytes) : Except BufferError (List Heartbeat) :=
  readEntries limit (lines.takeWhile (·.length < maxScanTokenSize))
    (if lines.any (maxScanTokenSize ≤ ·.length) then some .tooLong else none)

theorem marshal_fits {l : List Heartbeat} (h : ∀ e ∈ l, short e = true) :
    ∀ t ∈ l.map Heartbeat.marshal, decide (t.length < maxScanTokenSize) = true := by
  intro t ht
  obtain ⟨e, he, rfl⟩ := List.mem_map.1 ht
  exact h e he

/-- Clean entries are read back. -/
theorem readLines_clean {l : List Heartbeat} {limit : Nat} (h : ∀ e ∈ l, Clean e) (hlimit : l.length ≤ limit) :
    readLines limit (l.map Heartbeat.marshal) = .ok l := by
  have hread := readEntries_entries l limit
  have hfits := marshal_fits fun e he => (h e he).2
  have hshort := all_short h
  have htake : (l.take (limit + 1)).all short = true := by rwa [List.take_of_length_le (by omega)]
  have hwhile : l.takeWhile short = l := List.takeWhile_eq_self_iff.2 fun e he => (h e he).2
  have hany : (l.map Heartbeat.marshal).any (maxScanTokenSize ≤ ·.length) = false := by
    rw [List.any_eq_false]
    intro t ht
    have := hfits t ht
    simp only [decide_eq_true_eq] at this ⊢
    omega
  rw [if_pos htake, hwhile, scanEnd, if_pos hshort, Heartbeat.map_sanitize (valid_of_clean h),
    List.take_of_length_le hlimit] at hread
  rw [readLines, List.takeWhile_eq_self_iff.2 hfits, hany]
  exact hread

/-- A line that is no heartbeat cannot be passed. -/
theorem readLines_bad {l : List Heartbeat} {bad : Bytes} {lines : List Bytes} {limit : Nat}
    (h : ∀ e ∈ l, short e = true) (hbad : Heartbeat.unmarshal bad = none) (hlimit : l.length < limit)
    {out : List Heartbeat} :
    readLines limit (l.map Heartbeat.marshal ++ bad :: lines) ≠ .ok out := by
  rw [readLines, List.takeWhile_append_of_pos (marshal_fits h)]
  by_cases hshort : bad.length < maxScanTokenSize
  · rw [List.takeWhile_cons_of_pos (by simpa using hshort), readEntries_corrupt hbad hlimit]
    exact fun h => by cases h
  · have hany : (l.map Heartbeat.marshal ++ bad :: lines).any (maxScanTokenSize ≤ ·.length) = true := by
      rw [List.any_eq_true]
      exact ⟨bad, by simp, by simpa using hshort⟩
    rw [List.takeWhile_cons_of_neg (by simpa using hshort), List.append_nil, hany, if_pos rfl,
      readEntries_err (Nat.le_of_lt hlimit)]
    exact fun h => by cases h

theorem printable_take {e : Heartbeat} {n : Nat} : Printable (e.marshal.take n) := fun c hc =>
  e.marshal_printable c (List.mem_of_mem_take hc)

/-- The lines of a file in whose middle a line was torn, and that was appended to. -/
def tornLines (l : List Heartbeat) (t : Bytes) : List Heartbeat → List Bytes
  | [] => l.map Heartbeat.marshal ++ if t = [] then [] else [t]
  | h :: more => l.map Heartbeat.marshal ++ (t ++ h.marshal) :: more.map Heartbeat.marshal

theorem readEntries_torn {l : List Heartbeat} {e : Heartbeat} {n : Nat} {more : List Heartbeat} {limit : Nat} :
    readEntries limit (scanLines ⟨encode l ++ e.marshal.take n ++ encode more, false⟩).tokens
      (scanLines ⟨encode l ++ e.marshal.take n ++ encode more, false⟩).err =
    readLines limit (tornLines l (e.marshal.take n) more) := by
  cases more with
  | nil =>
    obtain ⟨htokens, herr⟩ := scanLines_encode (@printable_marshal l) (@printable_take e n)
    rw [← encode_eq] at htokens herr
    rw [encode_nil, List.append_nil, htokens, herr, tornLines, readLines]
    split <;> simp
  | cons h more =>
    have hprintable : ∀ t ∈ tornLines l (e.marshal.take n) (h :: more), Printable t := by
      intro t ht
      rw [tornLines, List.mem_append, List.mem_cons] at ht
      obtain ht | rfl | ht := ht
      · exact printable_marshal t ht
      · intro c hc
        rw [List.mem_append] at hc
        exact hc.elim (printable_take c) (h.marshal_printable c)
      · exact printable_marshal t ht
    have hfile : encode l ++ e.marshal.take n ++ encode (h :: more) =
        encodeLines (tornLines l (e.marshal.take n) (h :: more)) := by
      simp [tornLines, encode_eq]
    obtain ⟨htokens, herr⟩ := scanLines_encode hprintable fun c hc => absurd hc (@List.not_mem_nil _ c)
    rw [List.append_nil, ← hfile, if_pos rfl] at htokens herr
    rw [htokens, herr, readLines]

/-- The torn line is no heartbeat, glued to what follows or not. -/
theorem tornLines_bad {l : List Heartbeat} {e : Heartbeat} {n : Nat} {more : List Heartbeat}
    (h : ¬ Harmless e n more) :
    ∃ bad lines, tornLines l (e.marshal.take n) more = l.map Heartbeat.marshal ++ bad :: lines ∧
      Heartbeat.unmarshal bad = none := by
  simp only [Harmless, not_or, not_and] at h
  obtain ⟨hne, hle, hmore⟩ := h
  have hsplit : e.marshal = e.marshal.take n ++ e.marshal.drop n := (List.take_append_drop n e.marshal).symm
  have ht : e.marshal.take n ≠ [] := by
    rw [ne_eq, List.take_eq_nil_iff, not_or]
    exact ⟨hne, e.marshal_ne_nil⟩
  have hno {t : Bytes} (hjson : Json.unmarshal t = none) : Heartbeat.unmarshal t = none := by
    rw [Heartbeat.unmarshal, hjson]
    rfl
  cases more with
  | nil =>
    have hdrop : e.marshal.drop n ≠ [] := by
      rw [ne_eq, List.drop_eq_nil_iff]
      intro hlen
      exact hmore (by omega) rfl
    refine ⟨e.marshal.take n, [], ?_, hno (e.objectText_marshal.unmarshal_torn hsplit ht hdrop)⟩
    rw [tornLines, if_neg ht]
  | cons h more =>
    refine ⟨e.marshal.take n ++ h.marshal, more.map Heartbeat.marshal, rfl, hno ?_⟩
    obtain ⟨rest, hhead⟩ := h.marshal_head
    by_cases hlen : n = e.marshal.length
    · rw [hlen, List.take_length, hhead]
      exact e.objectText_marshal.unmarshal_append (by decide) _
    · have hdrop : e.marshal.drop n ≠ [] := by
        rw [ne_eq, List.drop_eq_nil_iff]
        omega
      exact e.objectText_marshal.unmarshal_torn_append hsplit ht hdrop h.objectText_marshal hhead (by decide)

/-- What is left of a harmless line is nothing or an entry. -/
theorem read_harmless {l : List Heartbeat} {e : Heartbeat} {n : Nat} {more : List Heartbeat} (h : Harmless e n more)
    (hclean : ∀ x ∈ l ++ e :: more, Clean x) : ∃ mid, mid.Sublist [e] ∧ ∀ limit, (l ++ e :: more).length ≤ limit →
      readEntries limit (scanLines ⟨encode l ++ (line e).take n ++ encode more, false⟩).tokens
        (scanLines ⟨encode l ++ (line e).take n ++ encode more, false⟩).err = .ok (l ++ mid ++ more) := by
  have hsub {mid : List Heartbeat} (hmid : mid.Sublist [e]) : (l ++ mid ++ more).Sublist (l ++ e :: more) := by
    rw [List.append_assoc]
    exact (List.Sublist.refl l).append (hmid.append_right more)
  have hread {mid : List Heartbeat} (hmid : mid.Sublist [e]) {limit : Nat} (hlimit : (l ++ e :: more).length ≤ limit) :
      readLines limit ((l ++ mid ++ more).map Heartbeat.marshal) = .ok (l ++ mid ++ more) :=
    readLines_clean (fun x hx => hclean x ((hsub hmid).subset hx)) ((hsub hmid).length_le.trans hlimit)
  obtain rfl | hlt | ⟨rfl, rfl⟩ := h
  · refine ⟨[], List.nil_sublist _, fun limit hlimit => ?_⟩
    have htorn := @readEntries_torn l e 0 more limit
    rw [List.take_zero] at htorn ⊢
    rw [htorn, ← hread (List.nil_sublist _) hlimit]
    cases more <;> simp [tornLines]
  · refine ⟨[e], .refl _, fun limit hlimit => ?_⟩
    have hline : (line e).take n = line e := List.take_of_length_le (by rw [line_length]; omega)
    have hfile : encode l ++ (line e).take n ++ encode more =
      encode [] ++ e.marshal.take 0 ++ encode (l ++ e :: more) := by
      simp [hline]
    have hlines : tornLines [] (e.marshal.take 0) (l ++ e :: more) = (l ++ [e] ++ more).map Heartbeat.marshal := by
      cases l <;> simp [tornLines]
    rw [hfile, readEntries_torn, hlines]
    exact hread (.refl _) hlimit
  · refine ⟨[e], .refl _, fun limit hlimit => ?_⟩
    have hline : (line e).take e.marshal.length = e.marshal.take e.marshal.length := by simp [line]
    rw [hline, readEntries_torn, ← hread (.refl _) hlimit]
    simp [tornLines, e.marshal_ne_nil]

theorem succeeded_all {hs : List Heartbeat} : succeeded hs (hs.map fun _ => .ok []) = hs := by
  induction hs with
  | nil => rfl
  | cons h hs ih =>
    rw [succeeded] at ih
    exact congrArg (h :: ·) ih

end Buf

/-- **The entries survive a torn append just when the torn line harms no reader.** -/
theorem survives_torn_append_iff (maxBytes : Int) (calls : List Call) (e : Heartbeat) (n : Nat)
    (more : List Heartbeat)
    (h : Undisturbed maxBytes calls e more) : Survives maxBytes calls e n more ↔ Harmless e n more := by
  have hclean := h.clean
  rw [List.forall_mem_append] at hclean
  obtain ⟨hsim, acked, hholds, hsub⟩ : Buf.Sim maxBytes _ (outstanding calls) ∧ Buf.FileOf _ _ (outstanding calls) :=
    Buf.fileOf_run Buf.sim_opened ⟨[], ⟨rfl, rfl, rfl⟩, .refl _⟩ hclean.1 h.keeps
  rw [List.nil_append] at hsub
  obtain ⟨tmp, htorn⟩ := Buf.torn_eq (e := e) (n := n) hsim h.fitsTorn
  have hfits : ∀ p x s, more = p ++ x :: s → ((0 : Nat) : Int) - (0 : Nat) + (Buf.encode p).length ≤ maxBytes := by
    intro p x s hmore
    have := h.fitsMore p x s hmore
    omega
  obtain ⟨size, hrun⟩ := Buf.appends_fit (m := Buf.torn maxBytes calls e n) (by rw [htorn]) (by rw [htorn])
    (by rw [htorn]; exact hfits)
  rw [hholds.file] at htorn
  have hall : (acked ++ outstanding calls ++ e :: more).Sublist (appendedBy calls ++ e :: more) := hsub.append_right _
  -- what reading the whole file comes down to
  have hunacked : ∀ limit : Int, 0 < limit → (Buf.unacked limit (runAll Buf.step (more.map .append)
      (Buf.torn maxBytes calls e n)).2).1 = Buf.readEntries limit.toNat
        (scanLines ⟨Buf.encode (acked ++ outstanding calls) ++ (Buf.line e).take n ++ Buf.encode more, false⟩).tokens
        (scanLines ⟨Buf.encode (acked ++ outstanding calls) ++ (Buf.line e).take n ++ Buf.encode more, false⟩).err := by
    intro limit hpos
    rw [hrun, htorn]
    exact Buf.unacked_eq rfl rfl hpos
  have hlen := hall.length_le
  rw [List.length_append] at hlen
  constructor
  · intro hsurvives
    by_contra hharm
    obtain ⟨out, hout, -⟩ := hsurvives (appendedBy calls ++ e :: more).length (Int.le_refl _)
    obtain ⟨bad, lines, hlines, hbad⟩ := Buf.tornLines_bad (l := acked ++ outstanding calls) hharm
    have hle : n ≤ e.marshal.length := by
      simp only [Harmless, not_or] at hharm
      omega
    have htake : (Buf.line e).take n = e.marshal.take n := by rw [Buf.line, List.take_append_of_le_length hle]
    rw [hunacked _ (by simp; omega), Int.toNat_natCast, htake, Buf.readEntries_torn, hlines] at hout
    exact Buf.readLines_bad (fun x hx => (hclean.1 x (hsub.subset hx)).2) hbad (by simp at hlen ⊢; omega) hout
  · intro hharmless limit hlimit
    obtain ⟨mid, hmid, hread⟩ := Buf.read_harmless hharmless fun x hx => h.clean x (hall.subset hx)
    refine ⟨acked ++ outstanding calls ++ mid ++ more, ?_, ?_, ?_⟩
    · rw [hunacked limit (by simp at hlimit; omega)]
      exact hread limit.toNat (by have := hall.length_le; omega)
    · rw [hrun, Buf.succeeded_all]
      exact ((List.sublist_append_right _ _).trans (List.sublist_append_left _ mid)).append_right more
    · rw [List.append_assoc]
      exact hsub.append (hmid.append_right more)

/-- Nothing of the second line was written, and a third follows. -/
theorem survives_unwritten_append :
    Survives 1000 [.append Buf.someHeartbeat] Buf.someHeartbeat 0 [Buf.someHeartbeat] := by
  have hclean : ∀ h ∈ appendedBy [.append Buf.someHeartbeat] ++ [Buf.someHeartbeat, Buf.someHeartbeat],
    Buf.Clean h := by
    intro h hh
    simp only [appendedBy, List.filterMap_cons, List.filterMap_nil, List.cons_append, List.nil_append, List.mem_cons,
      List.not_mem_nil, or_self, or_false] at hh
    exact hh ▸ Buf.clean_someHeartbeat
  have hmore : ∀ p h s, [Buf.someHeartbeat] = p ++ h :: s → (Buf.encode p).length ≤ (1000 : Int) := by
    intro p h s hp
    cases p with
    | nil => decide
    | cons x p => simp at hp
  have hempty : ((Buf.encode []).length : Int) ≤ 1000 := by decide
  exact (survives_torn_append_iff 1000 [.append Buf.someHeartbeat] Buf.someHeartbeat 0 [Buf.someHeartbeat]
    ⟨hclean, ⟨hempty, trivial⟩, by decide, hmore⟩).2 (.inl rfl)

/-- Five bytes of the second line were written: nothing can be read any more. -/
theorem torn_append_corrupts :
    ¬ Survives 1000 [.append Buf.someHeartbeat] Buf.someHeartbeat 5 [Buf.someHeartbeat] := by
  intro hsurvives
  obtain ⟨out, hout, -⟩ := hsurvives 3 (by decide)
  have herr : (Buf.unacked 3 (runAll Buf.step ([Buf.someHeartbeat].map .append)
      (Buf.torn 1000 [.append Buf.someHeartbeat] Buf.someHeartbeat 5)).2).1 = .error .corrupt := by decide
  exact absurd (herr.symm.trans hout) (by simp)

end ScrewLogger
