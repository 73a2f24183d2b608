/-
The buffer's accounts, over restarts.

`OpenBuffer` takes whatever file it finds for an empty one: it keeps its bytes
and counts none of them. `accounting_iff`: in a run in which nothing fails, the
size is the file's and an append to a buffer that overflows drops the older half
first, just if every file that is opened is empty, and no such append finds more
entries than a rewrite keeps. `found_uncounted` opens a file of two entries.
-/
import ScrewLogger.Agent.Queue

namespace ScrewLogger
open Lib Lib.Eff

/-- What is done with a buffer. -/
inductive Act
  | openBuffer (maxBytes : Int)
  | call (c : Call)
  | close

namespace Buf

def act : Act → Buf (List Heartbeat)
  | .openBuffer maxBytes => (fun _ => []) <$> openBuffer maxBytes
  | .call c => call c
  | .close => (fun _ => []) <$> closeBuffer

/-- An act's result, and the machine after it. -/
def perform (m : Machine) (a : Act) : Except BufferError (List Heartbeat) × Machine := act a m

/-- The machine before a file is opened. -/
def onDisk (file : Bytes) : Machine := { file := file, buf := { maxBytes := 0, isOpen := false } }

/-! ## Accounts -/

structure Accounted (m : Machine) : Prop where
  size : m.buf.size = m.file.length
  ackedOff : m.buf.ackedOff ≤ m.buf.size

/-- The unacked bytes that are in the file exceed the limit. -/
def Overfull (m : Machine) : Prop := m.buf.isOpen = true ∧
    m.buf.maxBytes < ((m.file.length - m.buf.ackedOff : Nat) : Int)

/-- An append drops the older half of the entries first, if their bytes exceed the limit. -/
def DropsHalf (m : Machine) (e : Heartbeat) : Prop :=
  Overfull m → (perform m (.call (.append e))).1 = .ok [] ∧
    pending (perform m (.call (.append e))).2 = youngerHalf (pending m) ++ [e.sanitize]

/-- After an act the accounts are right, and if it was an append it has dropped what it must. -/
def AccountsFor (m : Machine) (a : Act) : Prop :=
  Accounted (perform m a).2 ∧ ∀ e, a = .call (.append e) → DropsHalf m e

/-- A file that is opened is empty; one that overflows is no longer than a rewrite's may be. -/
def Fair (m : Machine) : Act → Prop
  | .openBuffer _ => m.file = []
  | .call (.append _) => Overfull m → (pending m).length ≤ allEntries.toNat
  | _ => True

/-- The heartbeat of an append is short. -/
def ShortAct : Act → Prop
  | .call (.append e) => short e = true
  | _ => True

/-! ## What is kept -/

/-- The file is of entries that can be read, split at the acked offset. -/
structure Lined (m : Machine) : Prop where
  entries : ∃ acked q, m.file = encode (acked ++ q) ∧ m.buf.ackedOff = (encode acked).length ∧
    (acked ++ q).all short = true
  faults : m.faults = []

/-- And its bytes are counted. -/
structure Kept (m : Machine) : Prop extends Lined m where
  size : m.buf.size = m.file.length

variable {m : Machine} {acked q : List Heartbeat}

theorem Lined.holds (h : Lined m) (hopen : m.buf.isOpen = true) :
    ∃ acked q, Holds acked q m ∧ (acked ++ q).all short = true := by
  obtain ⟨acked, q, hfile, hoff, hshort⟩ := h.entries
  exact ⟨acked, q, ⟨hfile, hoff, hopen⟩, hshort⟩

theorem all_short_right (h : (acked ++ q).all short = true) : q.all short = true := by
  rw [List.all_append, Bool.and_eq_true] at h
  exact h.2

theorem Kept.accounted (h : Kept m) : Accounted m := by
  obtain ⟨acked, q, hfile, hoff, -⟩ := h.entries
  refine ⟨h.size, ?_⟩
  rw [h.size, hoff, hfile, encode_append, List.length_append]
  omega

theorem lined_opened {maxBytes : Int} {found : List Heartbeat} (hshort : found.all short = true) :
    Lined (opened maxBytes (encode found)) where
  entries := ⟨[], found, rfl, rfl, hshort⟩
  faults := rfl

/-! Entries of any kind stay of that kind. -/

/-- A kind of entries that can be read, and are of it as they are read. -/
structure Kind (P : Heartbeat → Prop) : Prop where
  short : ∀ e, P e → Buf.short e = true
  sanitize : ∀ e, P e → P e.sanitize

/-- The file is of entries of the kind, split at the acked offset. -/
structure LinesOf (P : Heartbeat → Prop) (m : Machine) : Prop where
  entries : ∃ acked q, m.file = encode (acked ++ q) ∧ m.buf.ackedOff = (encode acked).length ∧ ∀ e ∈ acked ++ q, P e
  faults : m.faults = []

theorem kind_short : Kind (fun e => short e = true) := ⟨fun _ h => h, fun _ h => short_sanitize h⟩

theorem lined_iff : Lined m ↔ LinesOf (fun e => short e = true) m := by
  constructor
  · intro h
    obtain ⟨acked, q, hfile, hoff, hshort⟩ := h.entries
    exact ⟨⟨acked, q, hfile, hoff, List.all_eq_true.1 hshort⟩, h.faults⟩
  · intro h
    obtain ⟨acked, q, hfile, hoff, hshort⟩ := h.entries
    exact ⟨⟨acked, q, hfile, hoff, List.all_eq_true.2 hshort⟩, h.faults⟩

variable {P : Heartbeat → Prop}

theorem LinesOf.holds (h : LinesOf P m) (hopen : m.buf.isOpen = true) :
    ∃ acked q, Holds acked q m ∧ ∀ e ∈ acked ++ q, P e := by
  obtain ⟨acked, q, hfile, hoff, hkind⟩ := h.entries
  exact ⟨acked, q, ⟨hfile, hoff, hopen⟩, hkind⟩

theorem Kind.all_short (hP : Kind P) {l : List Heartbeat} (h : ∀ e ∈ l, P e) : l.all Buf.short = true :=
  List.all_eq_true.2 fun e he => hP.short e (h e he)

/-- What a rewrite keeps of entries of the kind is of the kind. -/
theorem Kind.keep (hP : Kind P) (h : ∀ e ∈ q, P e) : ∀ e ∈ Buf.keep q, P e := by
  intro e he
  obtain ⟨e', he', rfl⟩ := List.mem_map.1 (List.mem_of_mem_take he)
  exact hP.sanitize e' (h e' he')

theorem linesOf_rewritten {entries : List Heartbeat} (hfaults : m.faults = []) (h : ∀ e ∈ entries, P e) :
    LinesOf P (rewritten m entries) where
  entries := ⟨[], entries, rfl, rfl, h⟩
  faults := hfaults

theorem linesOf_rotated (hP : Kind P) (h : LinesOf P m) (hq : ∀ e ∈ q, P e) : LinesOf P (rotated q m) := by
  rw [rotated]
  by_cases hover : overflows m.buf = true
  · rw [if_pos hover]
    exact linesOf_rewritten h.faults fun e he => hP.keep hq e (List.mem_of_mem_drop he)
  · rw [if_neg hover]
    exact h

theorem linesOf_appended {e : Heartbeat} (h : LinesOf P m) (he : P e) : LinesOf P (appended e m) := by
  obtain ⟨acked, q, hfile, hoff, hkind⟩ := h.entries
  refine ⟨⟨acked, q ++ [e], ?_, hoff, ?_⟩, h.faults⟩
  · show m.file ++ line e = _
    simp [hfile]
  · rw [← List.append_assoc]
    intro x hx
    obtain hx | hx := List.mem_append.1 hx
    · exact hkind x hx
    · exact List.mem_singleton.1 hx ▸ he

theorem linesOf_acked {count : Int} (hP : Kind P) (h : LinesOf P m) (hholds : Holds acked q m)
    (hkind : ∀ e ∈ acked ++ q, P e) :
    LinesOf P (ackedTo count q m) := by
  have hdrop : ∀ e ∈ q.drop count.toNat, P e := fun e he =>
    hkind e (List.mem_append_right _ (List.mem_of_mem_drop he))
  rw [ackedTo]
  by_cases hle : count ≤ 0
  · rw [if_pos hle]
    exact h
  · rw [if_neg hle]
    by_cases hhalf : halfAcked (advanced m (q.take count.toNat)).buf = true
    · rw [if_pos hhalf]
      exact linesOf_rewritten h.faults (hP.keep hdrop)
    · rw [if_neg hhalf]
      obtain ⟨hfile, hoff, -⟩ := hholds.advanced count.toNat
      refine ⟨⟨_, _, hfile, hoff, ?_⟩, h.faults⟩
      rwa [List.append_assoc, List.take_append_drop]

/-! The bytes stay counted. -/

theorem size_rotated (h : m.buf.size = m.file.length) : (rotated q m).buf.size = (rotated q m).file.length := by
  unfold rotated
  split
  · rfl
  · exact h

theorem size_appended {e : Heartbeat} (h : m.buf.size = m.file.length) :
    (appended e m).buf.size = (appended e m).file.length := by
  show m.buf.size + (line e).length = (m.file ++ line e).length
  rw [h, List.length_append]

theorem size_acked {count : Int} (h : m.buf.size = m.file.length) :
    (ackedTo count q m).buf.size = (ackedTo count q m).file.length := by
  unfold ackedTo
  split
  · exact h
  · split
    · rfl
    · exact h

/-! ## One act -/

theorem wp_ensureOpen_closed {E : BufferError → Machine → Prop} {Q : Unit → Machine → Prop}
    (hclosed : m.buf.isOpen = false) (hE : E .closed m) : wp ensureOpen Q E m := by
  simp only [ensureOpen, wp_bind, wp_read, wp_ensure, hclosed]
  exact ⟨fun h => absurd h (by decide), fun _ => hE⟩

theorem wp_readUnacked_closed {E : BufferError → Machine → Prop} {Q : Json.Reader → Machine → Prop}
    (hclosed : m.buf.isOpen = false) (hE : E .closed m) : wp readUnacked Q E m := by
  rw [readUnacked, wp_bind]
  exact wp_ensureOpen_closed hclosed hE

theorem wp_unacked_closed {E : BufferError → Machine → Prop} {limit : Int} {Q : List Heartbeat → Machine → Prop}
    (hpos : ¬ limit ≤ 0) (hclosed : m.buf.isOpen = false) (hE : E .closed m) : wp (unacked limit) Q E m := by
  rw [unacked, if_neg hpos, wp_bind]
  exact wp_readUnacked_closed hclosed hE

/-- A buffer that is closed is left alone. -/
theorem perform_closed (hclosed : m.buf.isOpen = false) (c : Call) : (perform m (.call c)).2 = m := by
  refine wp.final (P := fun m' => m' = m) ?_
  cases c with
  | append e =>
    simp only [act, call, append, rotateIfFull, wp_map, wp_bind, wp_read, wp_ite]
    refine ⟨fun _ => ?_, fun _ => wp_ensureOpen_closed hclosed rfl⟩
    exact wp_unacked_closed (by decide) hclosed rfl
  | unacked limit =>
    by_cases hle : limit ≤ 0
    · rw [act, call, unacked, if_pos hle, wp_pure]
    · exact wp_unacked_closed hle hclosed rfl
  | ack count =>
    rw [act, call, wp_map, ack, wp_ite]
    refine ⟨fun _ => rfl, fun _ => ?_⟩
    rw [wp_bind]
    exact wp_readUnacked_closed hclosed rfl

theorem perform_openBuffer (maxBytes : Int) (hfaults : m.faults = []) :
    (perform m (.openBuffer maxBytes)).2 = { m with buf := { maxBytes := maxBytes } } := by
  refine wp.final (P := fun m' => m' = { m with buf := { maxBytes := maxBytes } }) ?_
  rw [act, wp_map, openBuffer]
  refine wp_sys (benign_of_nil hfaults) (fun fs hfs => ?_) fun _ _ hne => absurd hfaults hne
  rw [eq_of_suffix hfs hfaults]

/-- The accounts are right after a file is opened just if there was nothing in it. -/
theorem accountsFor_openBuffer {maxBytes : Int} (hfaults : m.faults = []) :
    AccountsFor m (.openBuffer maxBytes) ↔ Fair m (.openBuffer maxBytes) := by
  rw [AccountsFor, perform_openBuffer maxBytes hfaults]
  constructor
  · intro ha
    exact List.length_eq_zero_iff.1 ha.1.size.symm
  · intro hfile
    refine ⟨⟨?_, Nat.le_refl _⟩, fun _ he => by cases he⟩
    exact (List.length_eq_zero_iff.2 hfile).symm

/-- Closing closes, and leaves all else alone. -/
theorem perform_close (hfaults : m.faults = []) :
    (perform m .close).2 = { m with buf := { m.buf with isOpen := false } } := by
  refine wp.final (P := fun m' => m' = { m with buf := { m.buf with isOpen := false } }) ?_
  rw [act, wp_map, closeBuffer]
  simp only [wp_bind]
  by_cases hopen : m.buf.isOpen = true
  · refine wp_ensureOpen hopen ?_
    rw [wp_modify]
    refine wp_sys (benign_of_nil hfaults) (fun fs hfs => ?_) fun _ _ hne => absurd hfaults hne
    rw [hfaults, List.suffix_nil] at hfs
    rw [hfs, ← hfaults]
    rfl
  · have hclosed := Bool.eq_false_iff.2 hopen
    refine wp_ensureOpen_closed hclosed ?_
    rw [← hclosed]

/-- **One act** keeps the lines of a kind. -/
theorem linesOf_act {a : Act} (hP : Kind P) (h : LinesOf P m) (ha : ∀ e, a = .call (.append e) → P e) :
    LinesOf P (perform m a).2 := by
  cases a with
  | openBuffer maxBytes =>
    rw [perform_openBuffer maxBytes h.faults]
    obtain ⟨acked, q, hfile, -, hq⟩ := h.entries
    exact ⟨⟨[], acked ++ q, hfile, rfl, hq⟩, h.faults⟩
  | close =>
    rw [perform_close h.faults]
    exact ⟨h.entries, h.faults⟩
  | call c =>
    by_cases hopen : m.buf.isOpen = true
    · obtain ⟨acked, q, hholds, hall⟩ := h.holds hopen
      have hq : ∀ e ∈ q, P e := fun e he => hall e (List.mem_append_right _ he)
      cases c with
      | append e =>
        show LinesOf P (step m (.append e)).2
        rw [hholds.reading.step_append h.faults (hP.all_short hq)]
        exact linesOf_appended (linesOf_rotated hP h hq) (ha e rfl)
      | unacked limit =>
        show LinesOf P (step m (.unacked limit)).2
        rw [hholds.reading.step_unacked h.faults (hP.all_short hq)]
        exact h
      | ack count =>
        show LinesOf P (step m (.ack count)).2
        rw [hholds.reading.step_ack h.faults (hP.all_short hq)]
        exact linesOf_acked hP h hholds hall
    · rw [perform_closed (Bool.eq_false_iff.2 hopen)]
      exact h

theorem lined_act {a : Act} (h : Lined m) (hshort : ShortAct a) : Lined (perform m a).2 := by
  refine lined_iff.2 (linesOf_act kind_short (lined_iff.1 h) fun e he => ?_)
  subst he
  exact hshort

/-- If it is no opening of a file that has any lines, it keeps their count. -/
theorem size_act {a : Act} (h : Lined m) (hsize : m.buf.size = m.file.length)
    (hopened : ∀ n, a = .openBuffer n → m.file = []) :
    (perform m a).2.buf.size = (perform m a).2.file.length := by
  cases a with
  | openBuffer maxBytes =>
    rw [perform_openBuffer maxBytes h.faults, hopened maxBytes rfl]
    rfl
  | close =>
    rw [perform_close h.faults]
    exact hsize
  | call c =>
    by_cases hopen : m.buf.isOpen = true
    · obtain ⟨acked, q, hholds, hall⟩ := h.holds hopen
      have hq := all_short_right hall
      cases c with
      | append e =>
        show (step m (.append e)).2.buf.size = (step m (.append e)).2.file.length
        rw [hholds.reading.step_append h.faults hq]
        exact size_appended (size_rotated hsize)
      | unacked limit =>
        show (step m (.unacked limit)).2.buf.size = (step m (.unacked limit)).2.file.length
        rw [hholds.reading.step_unacked h.faults hq]
        exact hsize
      | ack count =>
        show (step m (.ack count)).2.buf.size = (step m (.ack count)).2.file.length
        rw [hholds.reading.step_ack h.faults hq]
        exact size_acked hsize
    · rw [perform_closed (Bool.eq_false_iff.2 hopen)]
      exact hsize

theorem kept_act {a : Act} (h : Kept m) (hshort : ShortAct a) (hopened : ∀ n, a = .openBuffer n → m.file = []) :
    Kept (perform m a).2 := ⟨lined_act h.toLined hshort, size_act h.toLined h.size hopened⟩

/-! ## What an append drops -/

/-- An append to a buffer that overflows. -/
theorem append_overfull {e : Heartbeat} (h : Kept m) (hover : Overfull m) :
    (perform m (.call (.append e))).1 = .ok [] ∧ pending (perform m (.call (.append e))).2 =
      youngerHalf ((pending m).take allEntries.toNat) ++ [e.sanitize] := by
  obtain ⟨acked, q, hholds, hall⟩ := h.holds hover.1
  have hq := all_short_right hall
  have hrotated : rotated q m = rewritten m (youngerHalf (keep q)) := by
    refine if_pos ?_
    have hbytes := hover.2
    have hoff := h.accounted.ackedOff
    rw [overflows, decide_eq_true_eq]
    rw [h.size] at hoff ⊢
    omega
  have hrewritten : Holds [] (youngerHalf (keep q)) (rewritten m (youngerHalf (keep q))) := ⟨rfl, rfl, rfl⟩
  have hidempotent : (youngerHalf (keep q)).map Heartbeat.sanitize = youngerHalf (keep q) := by
    refine (List.map_congr_left fun x hx => ?_).trans (List.map_id _)
    obtain ⟨x', -, rfl⟩ := List.mem_map.1 (List.mem_of_mem_take (List.mem_of_mem_drop hx))
    exact x'.sanitize_sanitize
  show (step m (.append e)).1 = _ ∧ pending (step m (.append e)).2 = _
  rw [hholds.reading.step_append h.faults hq, hrotated, (hrewritten.appended e).pending_sanitize, List.map_append,
    hidempotent, hholds.pending_sanitize]
  exact ⟨rfl, rfl⟩

/-- It drops the older half just if a rewrite keeps all of them. -/
theorem dropsHalf_iff {e : Heartbeat} (h : Kept m) :
    DropsHalf m e ↔ (Overfull m → (pending m).length ≤ allEntries.toNat) := by
  refine forall_congr' fun hover => ?_
  obtain ⟨hok, hpending⟩ := append_overfull (e := e) h hover
  rw [hpending]
  constructor
  · intro hdrops
    have hlength := congrArg List.length hdrops.2
    simp only [youngerHalf, List.length_append, List.length_drop, List.length_take] at hlength
    have hall : allEntries.toNat = 0x40000000 := rfl
    omega
  · intro hfew
    exact ⟨hok, by rw [List.take_of_length_le hfew]⟩

/-- The accounts are right after an act just if it was fair. -/
theorem accountsFor_iff {a : Act} (h : Kept m) (hshort : ShortAct a) : AccountsFor m a ↔ Fair m a := by
  have hkept (hno : ∀ n, a ≠ .openBuffer n) : Accounted (perform m a).2 :=
    (kept_act h hshort fun n hn => absurd hn (hno n)).accounted
  cases a with
  | openBuffer maxBytes => exact accountsFor_openBuffer h.faults
  | close => exact ⟨fun _ => trivial, fun _ => ⟨hkept fun _ hn => by (cases hn), fun _ he => by cases he⟩⟩
  | call c =>
    have hkept := hkept fun _ hn => by cases hn
    cases c with
    | append e =>
      rw [Fair, ← dropsHalf_iff h]
      refine ⟨fun ha => ha.2 e rfl, fun hdrops => ⟨hkept, fun e' he => ?_⟩⟩
      cases he
      exact hdrops
    | unacked limit => exact ⟨fun _ => trivial, fun _ => ⟨hkept, fun _ he => by cases he⟩⟩
    | ack count => exact ⟨fun _ => trivial, fun _ => ⟨hkept, fun _ he => by cases he⟩⟩

end Buf

/-- **The accounts survive restarts** just if no file that is opened has
anything in it, and no append to a buffer that overflows finds more entries than
a rewrite keeps. -/
theorem accounting_iff (found : List Heartbeat) (maxBytes : Int) (acts : List Act)
    (hacts : ∀ a ∈ acts, Buf.ShortAct a) :
    Throughout Buf.perform Buf.AccountsFor (.openBuffer maxBytes :: acts) (Buf.onDisk (Buf.encode found)) ↔
      Throughout Buf.perform Buf.Fair (.openBuffer maxBytes :: acts) (Buf.onDisk (Buf.encode found)) := by
  rw [Throughout, Throughout, Buf.accountsFor_openBuffer rfl]
  refine and_congr_right fun hempty => ?_
  refine throughout_iff (I := Buf.Kept) (P := Buf.AccountsFor) (Q := Buf.Fair) (C := Buf.ShortAct)
    (fun m a hshort h => Buf.accountsFor_iff h hshort) (fun m a hshort h hfair => ?_) hacts ?_
  · refine Buf.kept_act h hshort fun n hn => ?_
    subst hn
    exact hfair
  · rw [Buf.perform_openBuffer maxBytes rfl]
    have hfile : Buf.encode found = [] := hempty
    rw [hfile]
    exact ⟨@Buf.lined_opened maxBytes [] rfl, rfl⟩

/-- Three appends, of which the last overflows, a close and a restart once all is acked. -/
def restarted : List Act :=
  [.call (.append Buf.someHeartbeat), .call (.append Buf.someHeartbeat), .call (.append Buf.someHeartbeat),
    .call (.ack 2), .close, .openBuffer 100, .call (.append Buf.someHeartbeat)]

theorem accounting_restarted :
    Throughout Buf.perform Buf.AccountsFor (.openBuffer 100 :: restarted) (Buf.onDisk (Buf.encode [])) := by
  have hshort : ∀ a ∈ restarted, Buf.ShortAct a := by
    have hheartbeat : Buf.short Buf.someHeartbeat = true := by decide
    simp only [restarted, List.forall_mem_cons]
    exact ⟨hheartbeat, hheartbeat, hheartbeat, trivial, trivial, trivial, hheartbeat,
      fun _ h => absurd h List.not_mem_nil⟩
  refine (accounting_iff [] 100 restarted hshort).2 ?_
  have few {n : Nat} (h : n ≤ 5) : n ≤ Buf.allEntries.toNat := h.trans (by decide)
  refine ⟨rfl, fun _ => few ?_, fun _ => few ?_, fun _ => few ?_, trivial, trivial, ?_, fun _ => few ?_, trivial⟩
  · decide +kernel
  · decide +kernel
  · decide +kernel
  · show (_ : Bytes) = []
    decide +kernel
  · decide +kernel

/-- Two entries are found, and none of their bytes is counted: an append that
follows finds the file over its limit and drops nothing. -/
theorem found_uncounted :
    let found := [Buf.someHeartbeat, Buf.someHeartbeat]
    let m := (Buf.perform (Buf.onDisk (Buf.encode found)) (.openBuffer 100)).2
    let m' := (Buf.perform m (.call (.append Buf.someHeartbeat))).2
    Buf.Overfull m ∧ m.buf.size = 0 ∧ m.file.length = 124 ∧ Buf.pending m = found ∧
      Buf.pending m' = found ++ [Buf.someHeartbeat] ∧
      ¬ Throughout Buf.perform Buf.AccountsFor [.openBuffer 100, .call (.append Buf.someHeartbeat)]
        (Buf.onDisk (Buf.encode found)) := by
  refine ⟨⟨rfl, by decide +kernel⟩, rfl, by decide +kernel, by decide +kernel, by decide +kernel, fun h => ?_⟩
  have hsize : (0 : Nat) = 124 := h.1.1.size.trans (by decide +kernel)
  omega

end ScrewLogger
