/-
What the pipe lets in, the buffer reads back.

`entry_read_back`: an entry of a sample's line is a line that the buffer's
scanner takes, and stays one however often the file is rewritten. So no entry of
a sample is what `Unacked` or `Ack` fails on, whatever becomes of their calls
into the file system.
-/
import ScrewLogger.Agent.RunSamples
import ScrewLogger.Lib.Scanning

namespace ScrewLogger
open Lib Lib.Eff

/-- What `Observe` appends for a sample when there are no rules. -/
def Sample.entry (s : Sample) (id : Bytes) (ts : Int64) : Heartbeat where
  id := id
  ts := ts
  app := s.app
  category := Agent.categorize [] s.app
  active := s.active

theorem Agent.observe_entry {a : Agent} {time : Time} {s : Sample} (id : Bytes)
    (h : a.builder.due ⟨time, s.app, s.active⟩ = true) :
    (a.observe [] id ⟨time, s.app, s.active⟩).machine = (Buf.append (s.entry id time.unix) a.machine).2 := by
  rw [Agent.observe, HeartbeatBuilder.observe, if_pos h]
  rfl

/-- An entry, as it is after some rewrites of the file. -/
inductive Rewritten (e : Heartbeat) : Heartbeat → Prop
  | appended : Rewritten e e
  | rewritten {h h' : Heartbeat} (before : Rewritten e h) (read : Heartbeat.unmarshal h.marshal = some h') :
      Rewritten e h'

theorem Rewritten.sampled {e h : Heartbeat} (he : Sampled e) (hrewritten : Rewritten e h) : Sampled h := by
  induction hrewritten with
  | appended => exact he
  | rewritten before read ih =>
    rw [Heartbeat.unmarshal_marshal, Option.some.injEq] at read
    exact read ▸ ih.sanitize

theorem Sample.sampled_entry {line : Bytes} {s : Sample} {id : Bytes} (hs : decodeSample line = .ok s)
    (hline : line.length < maxSampleLine) (hid : IsUuid id) (ts : Int64) : Sampled (s.entry id ts) where
  id := hid
  category := rfl
  app := by
    have happ := length_app_le hs
    show (Lib.Json.quoteBody s.app).length ≤ _
    omega

/-! ## Calls that read no lines -/

namespace Buf

variable {m : Machine} {acked q : List Heartbeat} {r : Json.Reader}

/-- The error is not that a line is too long. -/
def NotTooLong (e : BufferError) (_ : Machine) : Prop := e ≠ .tooLong

/-- A rewrite reads no lines. -/
theorem wp_rewrite_any {entries : List Heartbeat} : wp (rewrite entries) (fun _ _ => True) NotTooLong m := by
  have hnot : ∀ e (m' : Machine), e ≠ BufferError.tooLong → NotTooLong e m' := fun _ _ h => h
  simp only [rewrite, wp_bind]
  refine wp_sys_any (fun fs => ?_) hnot
  refine (wp_foldlM (fun _ _ _ => True) trivial ?_).mono (fun n m _ => ?_) hnot
  · intro done e rest n m _ _
    rw [wp_bind]
    exact wp_write_any (fun fs => trivial) hnot
  · refine wp_sys_any (fun fs => wp_sys_any (fun fs => wp_ensureOpen_any ?_ hnot) hnot) hnot
    exact wp_sys_any (fun fs => wp_sys_any (fun fs => wp_sys_any (fun fs => trivial) hnot) hnot) hnot

/-! ## Lines that may come in part -/

/-- What a read of the lines of `q` brings: all of them, or a part and an error. -/
def Brings (q : List Heartbeat) (r : Json.Reader) : Prop :=
  r = ⟨encode q, false⟩ ∨ r.broken = true ∧ r.data <+: encode q

theorem wp_readUnacked_any {Q : Json.Reader → Machine → Prop} (h : Holds acked q m)
    (hQ : ∀ r fs, Brings q r → Q r { m with faults := fs }) : wp readUnacked Q NotTooLong m := by
  simp only [readUnacked, wp_bind]
  refine wp_ensureOpen_any (wp_sys_any (fun fs => ?_) fun _ _ h => h) fun _ _ h => h
  rw [wp_read]
  have hdrop : m.file.drop m.buf.ackedOff = encode q := h.drop
  refine wp_nextFault_any fun fault fs => ?_
  cases fault with
  | none => exact hQ _ fs (.inl (congrArg (Json.Reader.mk · false) hdrop))
  | error => exact hQ _ fs (.inr ⟨rfl, List.nil_prefix⟩)
  | short n => exact hQ _ fs (.inr ⟨rfl, hdrop ▸ List.take_prefix n _⟩)
  | crash | torn => exact fun h => by cases h

/-- **The lines that come are whole entries.** -/
theorem Brings.scan (h : Brings q r) (hshort : q.all short = true) : ∃ l rest, q = l ++ rest ∧
    (scanLines r).tokens = l.map Heartbeat.marshal ∧ (scanLines r).err ≠ some .tooLong := by
  rcases h with rfl | ⟨hbroken, t, ht⟩
  · refine ⟨q, [], (List.append_nil q).symm, ?_, ?_⟩
    · rw [scan_entries, List.takeWhile_eq_self_iff.2 (List.all_eq_true.1 hshort)]
    · rw [scan_entries, scanEnd, if_pos hshort]
      exact fun h => by cases h
  · have hsplit := @splitLines_encode (q.map Heartbeat.marshal) []
      (fun line hline => Printable.newline_notMem (printable_marshal line hline)) List.not_mem_nil
    rw [List.append_nil, ← encode_eq, ← ht, splitLines_parts, Prod.mk.injEq] at hsplit
    obtain ⟨l, rest, rfl, hl, -⟩ := List.map_eq_append_iff.1 hsplit.1.symm
    have hall : ∀ line ∈ l.map Heartbeat.marshal, line.length < maxScanTokenSize := by
      intro line hline
      obtain ⟨e, he, rfl⟩ := List.mem_map.1 hline
      exact of_decide_eq_true (List.all_eq_true.1 hshort e (List.mem_append_left _ he))
    have hwhile : (l.map Heartbeat.marshal).takeWhile (·.length < maxScanTokenSize) = l.map Heartbeat.marshal :=
      List.takeWhile_eq_self_iff.2 fun line hline => decide_eq_true (hall line hline)
    have hany : (l.map Heartbeat.marshal).any (maxScanTokenSize ≤ ·.length) = false := by
      rw [List.any_eq_false]
      exact fun line hline => by simpa using hall line hline
    refine ⟨l, rest, rfl, ?_, ?_⟩
    · simp only [scanLines, hbroken, or_true, if_true, ← hl, hwhile]
      refine (List.map_congr_left fun line hline => ?_).trans (List.map_id _)
      exact Printable.dropCR (printable_marshal line hline)
    · simp only [scanLines, hbroken, or_true, if_true, ← hl, hany, Bool.false_eq_true, if_false]
      exact fun h => by cases h

theorem readEntries_tooLong {err : Option ScanError} : ∀ {tokens : List Bytes} {limit : Nat},
    readEntries limit tokens err = .error .tooLong → err = some .tooLong
  | [], _, h => by
    cases err with
    | none => simp [readEntries] at h
    | some e => cases e <;> simp [readEntries, scanError] at h ⊢
  | token :: tokens, 0, h => by simp [readEntries] at h
  | token :: tokens, limit + 1, h => by
    rw [readEntries] at h
    split at h
    · cases h
    · cases hrest : readEntries limit tokens err with
      | error e =>
        rw [hrest] at h
        cases h
        exact readEntries_tooLong hrest
      | ok l =>
        rw [hrest] at h
        cases h

theorem countBytes_lines {err : Option ScanError} (herr : err ≠ some .tooLong) : ∀ {l : List Heartbeat} {count : Nat},
    countBytes count (l.map Heartbeat.marshal) err ≠ .error .tooLong ∧
      ∀ n, countBytes count (l.map Heartbeat.marshal) err = .ok n → ∃ k ≤ l.length, n = (encode (l.take k)).length
  | l, 0 => by
    refine ⟨by simp [countBytes], fun n h => ⟨0, Nat.zero_le _, ?_⟩⟩
    simpa [countBytes] using h.symm
  | [], count + 1 => by
    cases err with
    | none => simp [countBytes]
    | some e => cases e <;> simp [countBytes, scanError] at herr ⊢
  | e :: l, count + 1 => by
    obtain ⟨hnot, hsum⟩ := @countBytes_lines err herr l count
    rw [List.map_cons, countBytes]
    cases hrest : countBytes count (l.map Heartbeat.marshal) err with
    | error e' =>
      refine ⟨fun h => hnot ?_, fun n h => by cases h⟩
      cases h
      exact hrest
    | ok n =>
      refine ⟨fun h => by (cases h), fun n' h => ?_⟩
      obtain ⟨k, hk, rfl⟩ := hsum n hrest
      cases h
      refine ⟨k + 1, Nat.succ_le_succ hk, ?_⟩
      rw [List.take_succ_cons, encode_cons, List.length_append, line_length]

theorem wp_unacked_any {limit : Int} (h : Holds acked q m) (hshort : q.all short = true) :
    wp (unacked limit) (fun _ _ => True) NotTooLong m := by
  rw [unacked, wp_ite]
  refine ⟨fun _ => trivial, fun _ => ?_⟩
  rw [wp_bind]
  refine wp_readUnacked_any h fun r fs hr => ?_
  obtain ⟨l, rest, -, -, herr⟩ := hr.scan hshort
  rw [wp_fromExcept]
  refine ⟨fun _ _ => trivial, fun e he => ?_⟩
  rintro rfl
  exact herr (readEntries_tooLong he)

theorem wp_compact_any (h : Holds acked q m) (hshort : q.all short = true) :
    wp compact (fun _ _ => True) NotTooLong m := by
  rw [compact, wp_bind]
  exact (wp_unacked_any h hshort).mono (fun _ _ _ => wp_rewrite_any) fun _ _ h => h

theorem wp_ack_any {count : Int} (h : Holds acked q m) (hshort : q.all short = true) :
    wp (ack count) (fun _ _ => True) NotTooLong m := by
  rw [ack, wp_ite]
  refine ⟨fun _ => trivial, fun _ => ?_⟩
  simp only [wp_bind]
  refine wp_readUnacked_any h fun r fs hr => ?_
  obtain ⟨l, rest, rfl, htokens, herr⟩ := hr.scan hshort
  rw [wp_fromExcept, htokens]
  obtain ⟨hnot, hsum⟩ := @countBytes_lines _ herr l count.toNat
  refine ⟨fun n hn => ?_, fun e he => ?_⟩
  · obtain ⟨k, hk, rfl⟩ := hsum n hn
    have hadvanced := (h.tick fs).advanced k
    rw [advanced, List.take_append_of_le_length hk] at hadvanced
    simp only [wp_modify, wp_read, wp_ite]
    refine ⟨fun _ => wp_compact_any hadvanced ?_, fun _ => trivial⟩
    exact List.all_eq_true.2 fun e he => List.all_eq_true.1 hshort e (List.mem_of_mem_drop he)
  · rintro rfl
    exact hnot he

end Buf

/-- **What the pipe lets in is read back.** -/
theorem entry_read_back {line : Bytes} {s : Sample} {id : Bytes} (hs : decodeSample line = .ok s)
    (hline : line.length < maxSampleLine) (hid : IsUuid id) (ts : Int64) :
    (∀ h, Rewritten (s.entry id ts) h →
      ∃ text, Buf.line h = text ++ [newline] ∧ text.length < maxScanTokenSize ∧ newline ∉ text) ∧
    ∀ acked q m, Buf.Holds acked q m → (∀ h ∈ q, Rewritten (s.entry id ts) h ∨ Buf.short h = true) →
      ∀ n, (Buf.unacked n m).1 ≠ .error .tooLong ∧ (Buf.ack n m).1 ≠ .error .tooLong := by
  have hsampled := Sample.sampled_entry hs hline hid ts
  refine ⟨fun h hrewritten => ?_, fun acked q m hholds hq n => ?_⟩
  · have hshort := (hrewritten.sampled hsampled).short
    exact ⟨h.marshal, rfl, of_decide_eq_true hshort, Printable.newline_notMem h.marshal_printable⟩
  · have hshort : q.all Buf.short = true := by
      refine List.all_eq_true.2 fun h hmem => ?_
      rcases hq h hmem with hrewritten | hshort
      · exact (hrewritten.sampled hsampled).short
      · exact hshort
    have hnot : ∀ {α : Type} {p : Buf α}, wp p (fun _ _ => True) Buf.NotTooLong m → (p m).1 ≠ .error .tooLong := by
      intro α p hwp heq
      exact (wp_iff.1 hwp).2 .tooLong (p m).2 (Prod.ext heq rfl) rfl
    exact ⟨hnot (Buf.wp_unacked_any hholds hshort), hnot (Buf.wp_ack_any hholds hshort)⟩

/-- A name with characters that JSON escapes. -/
def escapedSample : Sample := { app := str "<\u0001>.exe", active := true }

theorem decode_escapedSample : decodeSample escapedSample.marshal = .ok escapedSample := by
  rw [decode_encode escapedSample (by decide)]
  exact congrArg Except.ok (by decide)

theorem entry_read_back_escaped :
    ∃ text, Buf.line (escapedSample.entry (str "123e4567-e89b-12d3-a456-426614174000") 1700000000) =
      text ++ [newline] ∧ text.length < maxScanTokenSize ∧ newline ∉ text :=
  (entry_read_back decode_escapedSample (by decide +kernel) ⟨by decide, by decide⟩ 1700000000).1 _ .appended

end ScrewLogger
