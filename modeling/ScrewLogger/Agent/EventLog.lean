/-
The service's log, as events (`eventlog_windows.go`).

A line is one event. `reported_of_stream`: which events there are depends on the
bytes written alone, not on the calls of `Write` that wrote them, where no line
is longer than what the sink keeps of one.
-/
import ScrewLogger.Lib.Scanning
import ScrewLogger.Lib.Trim

namespace ScrewLogger
open Lib

variable {σ ε : Type}

/-- The sink, a reporter behind it. -/
structure EventLogSink (σ : Type) where
  report : σ
  /-- The messages that the reporter was given. -/
  reported : List Bytes := []
  pending : Bytes := []
  broken : Bool := false

/-- `newEventLogSinkWith(r)`. -/
def newEventLogSinkWith (r : σ) : EventLogSink σ := { report := r }

/-- How much of a line is kept: `64<<10`. -/
def maxPending : Nat := 0x10000

namespace EventLogSink

/-- The lines that are whole, one event each, until the reporter fails. -/
def drain (warning : σ → Bytes → Option ε × σ) (s : EventLogSink σ) : EventLogSink σ :=
  match _hcut : cutLine s.pending with
  | none => s
  | some (line, rest) =>
    let line := trimRightByte 0x0D line
    let s := { s with pending := rest }
    if trimSpace line = [] then drain warning s
    else
      match warning s.report line with
      | (none, r) => drain warning { s with report := r, reported := s.reported ++ [line] }
      | (some _, r) => { s with report := r, reported := s.reported ++ [line], pending := [], broken := true }
termination_by s.pending.length
decreasing_by
  all_goals
    obtain ⟨hpending, -⟩ := cutLine_eq_some _hcut
    rw [hpending, List.length_append, List.length_cons]
    omega

/-- `Write`: the number of bytes it says were written, and its error. -/
def write (warning : σ → Bytes → Option ε × σ) (p : Bytes) (s : EventLogSink σ) :
    (Nat × Option ε) × EventLogSink σ :=
  if s.broken then ((p.length, none), s)
  else
    let s := drain warning { s with pending := s.pending ++ p }
    let s := if maxPending < s.pending.length then { s with pending := [] } else s
    ((p.length, none), s)

/-- Calls of `Write`, one after the other. -/
def writes (warning : σ → Bytes → Option ε × σ) : List Bytes → EventLogSink σ → List (Nat × Option ε) × EventLogSink σ
  | [], s => ([], s)
  | p :: ps, s =>
    let (result, s) := write warning p s
    let (results, s) := writes warning ps s
    (result :: results, s)

end EventLogSink

/-! ## The messages of a text -/

/-- The lines that end in a line break, without carriage returns at their ends,
but for blank ones. -/
def messages (s : Bytes) : List Bytes :=
  ((splitLines s).1.map (trimRightByte 0x0D)).filter fun line => trimSpace line ≠ []

/-- Messages up to the first that the reporter rejects, that one included. -/
structure Reports (σ : Type) where
  report : σ
  given : List Bytes
  failed : Bool

/-- Messages given to the reporter, in order. -/
def reportAll (warning : σ → Bytes → Option ε × σ) (r : σ) : List Bytes → Reports σ
  | [] => ⟨r, [], false⟩
  | m :: ms =>
    match warning r m with
    | (none, r) =>
      let all := reportAll warning r ms
      { all with given := m :: all.given }
    | (some _, r) => ⟨r, [m], true⟩

variable {warning : σ → Bytes → Option ε × σ} {r : σ} {ms ms' : List Bytes} {s t : Bytes}

theorem reportAll_append (h : (reportAll warning r ms).failed = false) :
    (reportAll warning r (ms ++ ms')).given =
      (reportAll warning r ms).given ++ (reportAll warning (reportAll warning r ms).report ms').given := by
  induction ms generalizing r with
  | nil => rfl
  | cons m ms ih =>
    rw [List.cons_append, reportAll, reportAll]
    rw [reportAll] at h
    split at h
    · exact congrArg (m :: ·) (ih h)
    · cases h

/-- After a rejection nothing is reported. -/
theorem reportAll_append_failed (h : (reportAll warning r ms).failed = true) :
    (reportAll warning r (ms ++ ms')).given = (reportAll warning r ms).given := by
  induction ms generalizing r with
  | nil => cases h
  | cons m ms ih =>
    rw [List.cons_append, reportAll, reportAll]
    rw [reportAll] at h
    split at h
    · exact congrArg (m :: ·) (ih h)
    · rfl

theorem messages_rest (h : newline ∉ s) : messages s = [] := by
  rw [messages, splitLines_rest h]
  rfl

theorem messages_line {line : Bytes} (h : newline ∉ line) : messages (line ++ newline :: s) =
    if trimSpace (trimRightByte 0x0D line) = [] then messages s else trimRightByte 0x0D line :: messages s := by
  rw [messages, splitLines_line h, List.map_cons, List.filter_cons]
  by_cases hblank : trimSpace (trimRightByte 0x0D line) = []
  · simp [hblank, messages]
  · simp [hblank, messages]

theorem messages_parts (s t : Bytes) : messages (s ++ t) = messages s ++ messages ((splitLines s).2 ++ t) := by
  rw [messages, splitLines_parts, List.map_append, List.filter_append]
  rfl

/-! ## The sink -/

namespace EventLogSink

/-- **The loop**: the messages of what is pending. -/
theorem drain_eq (warning : σ → Bytes → Option ε × σ) (s : EventLogSink σ) (hworks : s.broken = false) :
    let all := reportAll warning s.report (messages s.pending)
    drain warning s =
      { report := all.report
        reported := s.reported ++ all.given
        pending := if all.failed then [] else (splitLines s.pending).2
        broken := all.failed } := by
  fun_induction drain warning s with
  | case1 s hcut =>
    have hnone := cutLine_eq_none hcut
    rw [messages_rest hnone, splitLines_rest hnone]
    show s = { report := s.report, reported := s.reported ++ [], pending := s.pending, broken := false }
    rw [List.append_nil, ← hworks]
  | case2 s line' rest hcut line s' hblank ih =>
    obtain ⟨hpending, hline⟩ := cutLine_eq_some hcut
    rw [hpending, messages_line hline, if_pos hblank, splitLines_line hline]
    exact ih hworks
  | case3 s line' rest hcut line s' hblank r hwarning ih =>
    obtain ⟨hpending, hline⟩ := cutLine_eq_some hcut
    rw [hpending, messages_line hline, if_neg hblank, splitLines_line hline, reportAll]
    rw [hwarning, ih hworks, List.append_assoc]
    rfl
  | case4 s line' rest hcut line s' hblank e r hwarning =>
    obtain ⟨hpending, hline⟩ := cutLine_eq_some hcut
    rw [hpending, messages_line hline, if_neg hblank, reportAll]
    rw [hwarning]
    rfl

theorem writes_result {ps : List Bytes} : ∀ {s : EventLogSink σ},
    (writes warning ps s).1 = ps.map fun p => (p.length, none) := by
  induction ps with
  | nil => exact rfl
  | cons p ps ih =>
    intro s
    have hwrite : (write warning p s).1 = (p.length, none) := by
      unfold write
      split <;> rfl
    rw [writes, List.map_cons, ← hwrite, ← ih]

/-- **One write.** -/
theorem write_eq (warning : σ → Bytes → Option ε × σ) {s : EventLogSink σ} (p : Bytes) (hworks : s.broken = false) :
    let all := reportAll warning s.report (messages (s.pending ++ p))
    let rest := (splitLines (s.pending ++ p)).2
    (write warning p s).2 =
      { report := all.report
        reported := s.reported ++ all.given
        pending := if all.failed ∨ maxPending < rest.length then [] else rest
        broken := all.failed } := by
  intro all rest
  have hdrain := drain_eq warning { s with pending := s.pending ++ p } hworks
  rw [write, if_neg (by simp [hworks]), hdrain]
  dsimp only
  by_cases hfailed : (reportAll warning s.report (messages (s.pending ++ p))).failed = true
  · simp [all, hfailed]
  · by_cases hlong : maxPending < rest.length
    · simp [all, rest, hfailed, hlong]
    · simp [all, rest, hfailed, hlong]

theorem writes_cons_snd {s : EventLogSink σ} {p : Bytes} {ps : List Bytes} :
    (writes warning (p :: ps) s).2 = (writes warning ps (write warning p s).2).2 := rfl

/-- A sink that is off reports nothing. -/
theorem writes_broken {s : EventLogSink σ} {ps : List Bytes} (h : s.broken = true) : (writes warning ps s).2 = s := by
  induction ps with
  | nil => rfl
  | cons p ps ih =>
    have hwrite : (write warning p s).2 = s := by rw [write, if_pos h]
    rw [writes_cons_snd, hwrite, ih]

/-- What goes on for more than is kept of a line never ends in a line. -/
theorem newline_notMem_of_long {rest : Bytes} (hrest : newline ∉ rest) (hlong : maxPending < rest.length)
    (hshort : ∀ line ∈ (splitLines (rest ++ t)).1, line.length ≤ maxPending) : newline ∉ t := by
  intro hmem
  obtain ⟨line, s, rfl, hline⟩ := List.eq_append_cons_of_mem hmem
  have hwhole : newline ∉ rest ++ line := by simp [hrest, hline]
  rw [← List.append_assoc, splitLines_line hwhole] at hshort
  have hle := hshort _ List.mem_cons_self
  rw [List.length_append] at hle
  omega

/-- **Any writes.** By induction on them; what is pending is a part of a line. -/
theorem writes_reported {ps : List Bytes} : ∀ {s : EventLogSink σ}, s.broken = false → newline ∉ s.pending →
    (∀ line ∈ (splitLines (s.pending ++ ps.flatten)).1, line.length ≤ maxPending) →
    (writes warning ps s).2.reported =
      s.reported ++ (reportAll warning s.report (messages (s.pending ++ ps.flatten))).given := by
  induction ps with
  | nil =>
    intro s _ hpending _
    rw [List.flatten_nil, List.append_nil, messages_rest hpending]
    exact (List.append_nil _).symm
  | cons p ps ih =>
    intro s hworks hpending hshort
    obtain ⟨-, -, hrest⟩ := encodeLines_splitLines (s.pending ++ p)
    have hwrite := write_eq warning p hworks
    rw [List.flatten_cons, ← List.append_assoc] at hshort ⊢
    rw [splitLines_parts] at hshort
    have hlater := fun line hline => hshort line (List.mem_append_right _ hline)
    rw [messages_parts, writes_cons_snd]
    cases hfailed : (reportAll warning s.report (messages (s.pending ++ p))).failed with
    | true =>
      have hbroken : (write warning p s).2.broken = true := by rw [hwrite, hfailed]
      rw [writes_broken hbroken, hwrite, reportAll_append_failed hfailed]
    | false =>
      have hbroken : (write warning p s).2.broken = false := by rw [hwrite, hfailed]
      rw [reportAll_append hfailed, ← List.append_assoc]
      by_cases hlong : maxPending < (splitLines (s.pending ++ p)).2.length
      · -- the part of a line is dropped, and the line does not end
        have hnone := newline_notMem_of_long hrest hlong hlater
        have hpending : (write warning p s).2.pending = [] := by rw [hwrite, if_pos (.inr hlong)]
        have ih := ih hbroken (by rw [hpending]; exact List.not_mem_nil) (by simp [hpending, splitLines_rest hnone])
        have hnothing : messages ((splitLines (s.pending ++ p)).2 ++ ps.flatten) = [] :=
          messages_rest (by simp [hrest, hnone])
        rw [ih, hpending, List.nil_append, messages_rest hnone, hnothing, hwrite]
      · have hpending : (write warning p s).2.pending = (splitLines (s.pending ++ p)).2 := by
          rw [hwrite, if_neg (by simp [hfailed, hlong])]
        have ih := ih hbroken (by rw [hpending]; exact hrest) (by rw [hpending]; exact hlater)
        rw [ih, hpending, hwrite]

end EventLogSink

/-- **Events and write boundaries.** -/
theorem reported_of_stream (warning : σ → Bytes → Option ε × σ) (r : σ) {ps ps' : List Bytes}
    (hsame : ps'.flatten = ps.flatten) (hshort : ∀ line ∈ (splitLines ps.flatten).1, line.length ≤ maxPending) :
    let run := fun ps => (newEventLogSinkWith r).writes warning ps
    (run ps).2.reported = (reportAll warning r (messages ps.flatten)).given ∧
      (run ps').2.reported = (run ps).2.reported ∧
      (run ps).1 = (ps.map fun p => (p.length, none)) ∧ (run ps').1 = ps'.map fun p => (p.length, none) := by
  intro run
  have hrun : ∀ {ps' : List Bytes}, ps'.flatten = ps.flatten →
      (run ps').2.reported = (reportAll warning r (messages ps.flatten)).given := by
    intro ps' hsame
    have hreported := @EventLogSink.writes_reported σ ε warning ps' (newEventLogSinkWith r) rfl List.not_mem_nil
    have hnil : (newEventLogSinkWith r).pending ++ ps'.flatten = ps.flatten := hsame
    rw [hnil] at hreported
    exact hreported hshort
  exact ⟨hrun rfl, (hrun hsame).trans (hrun rfl).symm, EventLogSink.writes_result, EventLogSink.writes_result⟩

/-- A reporter that takes anything, and keeps nothing. -/
def accepting : Unit → Bytes → Option Unit × Unit := fun _ _ => (none, ())

/-- A line in two writes, or in one. -/
theorem reported_of_parts :
    ((newEventLogSinkWith ()).writes accepting [str "spawner: ", str "launch\r\n"]).2.reported =
      ((newEventLogSinkWith ()).writes accepting [str "spawner: launch\r\n"]).2.reported := by
  refine (@reported_of_stream _ _ accepting () [str "spawner: launch\r\n"] [_, _] ?_ ?_).2.1
  · decide +kernel
  · decide +kernel

end ScrewLogger
