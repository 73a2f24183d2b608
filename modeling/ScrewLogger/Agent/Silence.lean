/-
What a client that was dropped still says.

A reader goes through the lines it has before it finds its file closed.
`silenced_of_quiet`: where no reader has a sample in hand when its client is
dropped or replaced, none is published of it after that.
-/
import ScrewLogger.Agent.PipeServer

namespace ScrewLogger.Pipe
open Lib

/-- The lines to come of what a reader has read. -/
def ReaderPc.lines : ReaderPc → List Bytes
  | scanning _ held | ended held => (fitting clientBuffer (textLines held)).tokens
  | _ => []

/-- None of them is a sample's. -/
def ReaderPc.Quiet (r : ReaderPc) : Prop := ∀ line ∈ r.lines, accepted line = none

namespace State

/-- The client that an action replaces or drops. -/
def drops (s : State) : Action → Option Handle
  | .serve _ =>
    match s.serve with
    | .accept _ => if s.p.dirty then none else s.p.client
    | _ => none
  | .ensureSDDL k userSID =>
    match s.ensure k with
    | .idle => if userSID = [] ∨ userSD userSID = s.p.sddl then none else s.p.client
    | .asleep .. => none
  | _ => none

/-- The action drops no client whose reader has a sample in hand. -/
def DropsQuiet (s : State) (a : Action) : Prop := ∀ h, s.drops a = some h → (s.reader h).Quiet

instance (s : State) (a : Action) : Decidable (s.DropsQuiet a) :=
  decidable_of_iff ((s.drops a).all fun h => (s.reader h).lines.all (accepted · = none)) (by
    cases hdrops : s.drops a <;> simp [DropsQuiet, ReaderPc.Quiet, hdrops])

/-- Nothing is published of a client after its eviction. -/
def Silenced (s : State) : Prop :=
  s.trace.Pairwise fun later earlier => ∀ h sample, later = .published h sample → earlier ≠ .evicted h

end State

/-- A reader's buffer holds what it has read, and a line at most when a read fails. -/
def ReaderPc.Fits : ReaderPc → Prop
  | scanning start held => start + held.length ≤ clientBuffer
  | ended held => held.length < clientBuffer ∧ newline ∉ held
  | _ => True

/-- An event that drops no client and publishes nothing. -/
def Event.Plain : Event → Prop
  | evicted _ | published .. => False
  | _ => True

/-- An event that drops no client and publishes nothing but a sample of `h`. -/
def Event.By (h : Handle) : Event → Prop
  | evicted _ => False
  | published h' _ => h' = h
  | _ => True

structure Hushed (s : State) : Prop where
  fits : ∀ h, (s.reader h).Fits
  closed : ∀ h, .evicted h ∈ s.trace → .fileClosed h ∈ s.trace
  quiet : ∀ h, .evicted h ∈ s.trace → (s.reader h).Quiet
  silenced : s.Silenced

variable {s s' : State} {h : Handle} {l : List Event}

theorem Hushed.append_silenced (hH : Hushed s) (htrace : s'.trace = l ++ s.trace)
    (hl : ∀ h sample, .published h sample ∈ l → .evicted h ∉ l ++ s.trace) : s'.Silenced := by
  rw [State.Silenced, htrace, List.pairwise_append]
  refine ⟨List.pairwise_of_forall_mem_list ?_, hH.silenced, ?_⟩
  · rintro e he e' he' h sample rfl rfl
    exact hl h sample he (List.mem_append_left _ he')
  · rintro e he e' he' h sample rfl rfl
    exact hl h sample he (List.mem_append_right _ he')

theorem plain_nil : ∀ e ∈ ([] : List Event), e.Plain := fun _ hmem => absurd hmem List.not_mem_nil

/-- What the others do. -/
theorem Hushed.append (hH : Hushed s) (htrace : s'.trace = l ++ s.trace) (hl : ∀ e ∈ l, e.Plain)
    (hreader : s'.reader = s.reader) : Hushed s' := by
  have hevicted : ∀ h, .evicted h ∈ s'.trace → .evicted h ∈ s.trace := by
    intro h hmem
    rw [htrace, List.mem_append] at hmem
    exact hmem.resolve_left fun hmem => hl _ hmem
  constructor
  case fits => exact hreader ▸ hH.fits
  case closed =>
    intro h hmem
    rw [htrace]
    exact List.mem_append_right _ (hH.closed h (hevicted h hmem))
  case quiet => exact fun h hmem => hreader ▸ hH.quiet h (hevicted h hmem)
  case silenced => exact hH.append_silenced htrace fun h sample hmem => (hl _ hmem).elim

/-- A client is dropped. -/
theorem Hushed.evict (hH : Hushed s) (hquiet : ∀ h, s.p.client = some h → (s.reader h).Quiet) :
    Hushed { s with trace := s.evict ++ s.trace } := by
  cases hclient : s.p.client with
  | none => exact hH.append (l := s.evict) rfl (by simp [State.evict, hclient]) rfl
  | some c =>
    have hevict : s.evict = [.fileClosed c, .evicted c] := by simp [State.evict, hclient]
    rw [hevict]
    have hevicted : ∀ h, .evicted h ∈ [.fileClosed c, .evicted c] ++ s.trace → h = c ∨ .evicted h ∈ s.trace := by
      intro h hmem
      simpa using hmem
    constructor
    case fits => exact hH.fits
    case closed =>
      intro h hmem
      rcases hevicted h hmem with rfl | hmem
      · exact List.mem_cons_self
      · exact List.mem_append_right _ (hH.closed h hmem)
    case quiet =>
      intro h hmem
      rcases hevicted h hmem with rfl | hmem
      · exact hquiet h hclient
      · exact hH.quiet h hmem
    case silenced =>
      refine hH.append_silenced (l := [.fileClosed c, .evicted c]) rfl fun h sample hmem => ?_
      simp at hmem

/-- The reader of `h` goes on. -/
theorem Hushed.reads {r : ReaderPc} (hH : Hushed s) (htrace : s'.trace = l ++ s.trace)
    (hreader : s'.reader = Function.update s.reader h r) (hfits : r.Fits)
    (hl : ∀ e ∈ l, e.By h)
    (hquiet : .evicted h ∈ s.trace → r.Quiet ∧ ∀ sample, .published h sample ∉ l) : Hushed s' := by
  have hevicted : ∀ h, .evicted h ∈ l ++ s.trace → .evicted h ∈ s.trace := by
    intro h hmem
    rw [List.mem_append] at hmem
    exact hmem.resolve_left fun hmem => hl _ hmem
  constructor
  case fits =>
    intro h'
    rw [hreader]
    by_cases heq : h' = h
    · rw [heq, Function.update_self]
      exact hfits
    · rw [Function.update_of_ne heq]
      exact hH.fits h'
  case closed =>
    intro h' hmem
    rw [htrace] at hmem ⊢
    exact List.mem_append_right _ (hH.closed h' (hevicted h' hmem))
  case quiet =>
    intro h' hmem
    rw [htrace] at hmem
    rw [hreader]
    by_cases heq : h' = h
    · rw [heq] at hmem ⊢
      rw [Function.update_self]
      exact (hquiet (hevicted h hmem)).1
    · rw [Function.update_of_ne heq]
      exact hH.quiet h' (hevicted h' hmem)
  case silenced =>
    refine hH.append_silenced htrace fun h' sample hmem hmem' => ?_
    obtain rfl : h' = h := hl _ hmem
    exact (hquiet (hevicted h' hmem')).2 sample hmem

/-! ## The readers -/

theorem handle_by {room : Bool} {line : Bytes} : ∀ e ∈ State.handle h room line, e.By h := by
  intro e hmem
  obtain ⟨sample, rfl⟩ := State.mem_handle hmem
  exact rfl

/-- A line that is no sample's. -/
theorem handle_eq_nil {room : Bool} {line : Bytes} (hline : accepted line = none) :
    State.handle h room line = [] := by
  rw [accepted] at hline
  rw [State.handle, handleLine]
  cases hdecode : decodeSample line with
  | error err => rfl
  | ok sample =>
    rw [hdecode] at hline
    cases hline

theorem read_hushed {chunk : Bytes} (hH : Hushed s) (hstep : s.read h chunk = some s') : Hushed s' := by
  rw [State.read] at hstep
  split at hstep
  · next start held hreader =>
    have hfits := hH.fits h
    have hquiet := hH.quiet h
    rw [hreader] at hfits hquiet
    split at hstep
    · next start' room hscan =>
      obtain ⟨hline, hroom, hsize⟩ := scanNext_eq_read hfits hscan
      split at hstep
      · cases hstep
        refine hH.reads (l := []) rfl rfl ⟨by omega, hline⟩ (fun e hmem => absurd hmem List.not_mem_nil) ?_
        exact fun hmem => ⟨hquiet hmem, fun _ => List.not_mem_nil⟩
      · next hopen =>
        split at hstep <;> cases hstep
        refine hH.reads (l := []) rfl rfl ?_ (fun e hmem => absurd hmem List.not_mem_nil) ?_
        · rw [ReaderPc.Fits, List.length_append]
          omega
        · exact fun hmem => absurd (.inl (hH.closed h hmem)) hopen
    · cases hstep
  · cases hstep

/-- A reader that has no line left. -/
theorem Hushed.finishes {r : ReaderPc} (hH : Hushed s) (hr : r.lines = []) (hfits : r.Fits) (hl : ∀ e ∈ l, e.Plain)
    (htrace : s'.trace = l ++ s.trace) (hreader : s'.reader = Function.update s.reader h r) : Hushed s' := by
  refine hH.reads htrace hreader hfits (fun e hmem => ?_) fun _ => ?_
  · have hplain := hl e hmem
    cases e <;> trivial
  · rw [ReaderPc.Quiet, hr]
    exact ⟨fun _ hmem => absurd hmem List.not_mem_nil, fun sample hmem => (hl _ hmem).elim⟩

theorem readerStep_hushed {room : Bool} (hH : Hushed s) (hstep : s.readerStep h room = some s') : Hushed s' := by
  have hfits := hH.fits h
  have hquiet := hH.quiet h
  rw [State.readerStep] at hstep
  split at hstep
  · cases hstep
  · cases hstep
  · next start held hreader =>
    rw [hreader] at hfits hquiet
    split at hstep
    · next line start' rest hscan =>
      cases hstep
      obtain ⟨rfl, hline, hstart⟩ := scanNext_eq_token hscan
      rw [ReaderPc.Fits, List.length_append, List.length_cons] at hfits
      rw [List.length_append, List.length_cons] at hstart
      refine hH.reads rfl rfl ?_ handle_by fun hmem => ?_
      · rw [ReaderPc.Fits]
        omega
      · have hlines := hquiet hmem
        rw [ReaderPc.Quiet, ReaderPc.lines, textLines_line hline, fitting_cons (by omega)] at hlines
        obtain ⟨hfirst, hrest⟩ := List.forall_mem_cons.1 hlines
        rw [handle_eq_nil hfirst]
        exact ⟨hrest, fun _ => List.not_mem_nil⟩
    · cases hstep
      exact hH.finishes (r := .leave) rfl trivial plain_nil rfl rfl
    · cases hstep
  · next held hreader =>
    rw [hreader] at hfits hquiet
    cases hstep
    obtain ⟨hshort, hline⟩ := hfits
    by_cases hheld : held = []
    · rw [if_pos hheld]
      exact hH.finishes (r := .leave) rfl trivial plain_nil rfl rfl
    · rw [if_neg hheld]
      refine hH.reads rfl rfl trivial handle_by fun hmem => ?_
      have hlines := hquiet hmem
      rw [ReaderPc.Quiet, ReaderPc.lines, textLines_rest hheld hline, fitting_cons hshort] at hlines
      rw [handle_eq_nil (List.forall_mem_cons.1 hlines).1]
      exact ⟨fun _ hmem => absurd hmem List.not_mem_nil, fun _ => List.not_mem_nil⟩
  · cases hstep
    exact hH.finishes (r := .close) rfl trivial plain_nil rfl rfl
  · cases hstep
    refine hH.finishes (r := .returned) (l := [.fileClosed h]) rfl trivial (fun e hmem => ?_) rfl rfl
    cases List.mem_singleton.1 hmem
    trivial

/-! ## The others -/

theorem Hushed.log {e : Event} (hH : Hushed s) (he : e.Plain) (htrace : s'.trace = e :: s.trace)
    (hreader : s'.reader = s.reader) : Hushed s' := by
  refine hH.append (l := [e]) htrace (fun e' hmem => ?_) hreader
  rw [List.mem_singleton.1 hmem]
  exact he

theorem serveStep_hushed {ok : Bool} (hH : Hushed s) (hdrops : s.DropsQuiet (.serve ok))
    (hstep : s.serveStep ok = some s') : Hushed s' := by
  rw [State.serveStep] at hstep
  cases hpc : s.serve
  all_goals
    rw [hpc] at hstep
    dsimp only at hstep
  case top | copy | copied | dropStale | lookUp | sleep | store | launch | select | giveUp | pop | retry | returned =>
    repeat' split at hstep
    all_goals cases hstep
    all_goals exact hH.append rfl plain_nil rfl
  case create sddl =>
    split at hstep <;> cases hstep
    · exact hH.log (e := .created s.instances sddl) trivial rfl rfl
    · exact hH.append rfl plain_nil rfl
  case cancel h =>
    cases hstep
    exact hH.log (e := .cancelIoEx h) trivial rfl rfl
  case disconnect h next =>
    cases hstep
    exact hH.log (e := .disconnectNamedPipe h) trivial rfl rfl
  case close h next =>
    cases hstep
    exact hH.log (e := .closeHandle h) trivial rfl rfl
  case accept h =>
    split at hstep
    · cases hstep
      refine hH.append (l := [.fileClosed h, .adopted h]) rfl (fun e hmem => ?_) rfl
      rcases List.mem_pair.1 hmem with rfl | rfl <;> trivial
    · next hclean =>
      cases hstep
      have hquiet : ∀ c, s.p.client = some c → (s.reader c).Quiet := by
        intro c hclient
        refine hdrops c ?_
        rw [State.drops, hpc]
        exact (if_neg hclean).trans hclient
      exact (hH.evict hquiet).log (e := .adopted h) trivial rfl rfl
  case startReader h =>
    cases hstep
    refine hH.reads (r := .scanning 0 []) (l := []) rfl rfl (Nat.zero_le _) (fun e hmem =>
      absurd hmem List.not_mem_nil) ?_
    exact fun _ => ⟨fun _ hmem => absurd hmem List.not_mem_nil, fun _ => List.not_mem_nil⟩
  case leave =>
    cases hstep
    refine hH.append (l := s.leftovers) rfl (fun e hmem => ?_) rfl
    rcases List.mem_append.1 hmem with hmem | hmem
    · obtain ⟨h, -, hmem⟩ := List.mem_flatMap.1 hmem
      rcases List.mem_pair.1 hmem with rfl | rfl <;> trivial
    · obtain ⟨h, -, rfl⟩ := List.mem_map.1 hmem
      trivial

theorem ensureSDDL_hushed {k : Nat} {userSID : Bytes} (hH : Hushed s) (hdrops : s.DropsQuiet (.ensureSDDL k userSID))
    (hstep : s.ensureSDDL k userSID = some s') : Hushed s' := by
  rw [State.ensureSDDL] at hstep
  split at hstep
  · cases hstep
  next hidle =>
    split at hstep
    · cases hstep
      exact hH
    next huser =>
    split at hstep
    · cases hstep
      exact hH
    next hchanged =>
    have hquiet : ∀ c, s.p.client = some c → (s.reader c).Quiet := by
      intro c hclient
      refine hdrops c ?_
      rw [State.drops, hidle]
      exact (if_neg (not_or.2 ⟨huser, hchanged⟩)).trans hclient
    have hevict := hH.evict hquiet
    dsimp only at hstep
    split at hstep
    · cases hstep
      exact hevict.append rfl plain_nil rfl
    · cases hstep
      exact hevict.log (e := .cancelIoEx _) trivial rfl rfl

/-- **One action.** -/
theorem act_hushed {a : Action} (hH : Hushed s) (hdrops : s.DropsQuiet a) (hact : act s a = some s') : Hushed s' := by
  cases a with
  | cancel =>
    cases hact
    exact hH.append rfl plain_nil rfl
  | dial h =>
    rw [act] at hact
    split at hact <;> cases hact
    exact hH.log (e := .dialed h) trivial rfl rfl
  | serve ok => exact serveStep_hushed hH hdrops hact
  | connect h err =>
    obtain ⟨c, l, rfl, hl⟩ := State.connectStep_frame hact
    refine hH.append rfl (fun e hmem => ?_) rfl
    rcases hl e hmem with rfl | rfl <;> trivial
  | ensureSDDL k userSID => exact ensureSDDL_hushed hH hdrops hact
  | resume k =>
    obtain ⟨c, l, rfl, hl⟩ := State.resume_frame hact
    refine hH.append rfl (fun e hmem => ?_) rfl
    obtain ⟨h, rfl⟩ := hl e hmem
    trivial
  | read h chunk => exact read_hushed hH hact
  | reader h room => exact readerStep_hushed hH hact

theorem initial_hushed : Hushed initial where
  fits := fun _ => trivial
  closed := fun _ hmem => absurd hmem List.not_mem_nil
  quiet := fun _ hmem => absurd hmem List.not_mem_nil
  silenced := List.Pairwise.nil

/-- **Every interleaving** in which no reader has a sample in hand when its client
is dropped. -/
theorem silenced_of_quiet {as : List Action} (hquiet : EachMeets act State.DropsQuiet as initial)
    (hrun : actAll act as initial = some s) : s.Silenced :=
  (actAll_inv_of (I := Hushed) act_hushed initial_hushed hquiet hrun).silenced

/-! ## Nothing less will do -/

theorem handle_of_accepted {line : Bytes} {sample : Sample} (hline : accepted line = some sample) :
    State.handle h true line = [.published h sample] := by
  have hsample := handleLine_sample line
  rw [State.handle, hsample, hline]
  rfl

theorem loud_of_published {sample : Sample} (htrace : s'.trace = [.published h sample] ++ s.trace)
    (hevicted : .evicted h ∈ s.trace) : ¬s'.Silenced := by
  intro hsilenced
  rw [State.Silenced, htrace] at hsilenced
  exact (List.pairwise_cons.1 hsilenced).1 _ hevicted h sample rfl rfl

/-- A reader that is left with a fragment of a line. -/
theorem publishes_fragment {held : Bytes} (hreader : s.reader h = .ended held) (hfits : (ReaderPc.ended held).Fits)
    (hloud : ¬(ReaderPc.ended held).Quiet) (hevicted : .evicted h ∈ s.trace) :
    ∃ t, actAll act [.reader h true] s = some t ∧ ¬t.Silenced := by
  obtain ⟨hshort, hline⟩ := hfits
  have hheld : held ≠ [] := by
    rintro rfl
    exact hloud fun _ hmem => absurd hmem List.not_mem_nil
  rw [ReaderPc.Quiet, ReaderPc.lines, textLines_rest hheld hline, fitting_cons hshort] at hloud
  have hsome : accepted (dropCR held) ≠ none := by
    intro hnone
    refine hloud (List.forall_mem_cons.2 ⟨hnone, fun _ hmem => absurd hmem List.not_mem_nil⟩)
  obtain ⟨sample, hsample⟩ := Option.ne_none_iff_exists'.1 hsome
  have hstep : act s (.reader h true) = some
      { s with
        reader := Function.update s.reader h .leave
        trace := [.published h sample] ++ s.trace } := by
    simp only [act, State.readerStep, hreader, if_neg hheld, handle_of_accepted hsample]
  exact ⟨_, by rw [actAll, hstep]; rfl, loud_of_published rfl hevicted⟩

/-- A reader with a sample in hand, whose client was dropped. -/
theorem publishes_loud (n : Nat) : ∀ {s : State} {start : Nat} {held : Bytes}, s.reader h = .scanning start held →
    held.length < n → (ReaderPc.scanning start held).Fits → ¬(ReaderPc.scanning start held).Quiet →
    .evicted h ∈ s.trace → .fileClosed h ∈ s.trace → ∃ as t, actAll act as s = some t ∧ ¬t.Silenced := by
  induction n with
  | zero => exact fun _ hlt => absurd hlt (Nat.not_lt_zero _)
  | succ n ih =>
    intro s start held hreader hlt hfits hloud hevicted hclosed
    cases hscan : scanNext clientBuffer start held with
    | token line start' rest =>
      obtain ⟨rfl, hline, hstart⟩ := scanNext_eq_token hscan
      rw [ReaderPc.Fits, List.length_append, List.length_cons] at hfits
      rw [List.length_append, List.length_cons] at hstart hlt
      rw [ReaderPc.Quiet, ReaderPc.lines, textLines_line hline, fitting_cons (by omega),
        List.forall_mem_cons] at hloud
      cases haccepted : accepted (dropCR line) with
      | some sample =>
        have hstep : act s (.reader h true) = some
            { s with
              reader := Function.update s.reader h (.scanning start' rest)
              trace := [.published h sample] ++ s.trace } := by
          simp only [act, State.readerStep, hreader, hscan, handle_of_accepted haccepted]
        exact ⟨[.reader h true], _, by rw [actAll, hstep]; rfl, loud_of_published rfl hevicted⟩
      | none =>
        have hstep : act s (.reader h true) =
            some { s with reader := Function.update s.reader h (.scanning start' rest) } := by
          simp only [act, State.readerStep, hreader, hscan, handle_eq_nil haccepted, List.nil_append]
        have hrest : (ReaderPc.scanning start' rest).Fits := by
          rw [ReaderPc.Fits]
          omega
        obtain ⟨as, t, hrun, hlate⟩ :=
          ih (s := { s with reader := Function.update s.reader h (.scanning start' rest) }) (Function.update_self ..)
            (by omega) hrest (fun hquiet => hloud ⟨haccepted, hquiet⟩) hevicted hclosed
        exact ⟨.reader h true :: as, t, by rw [actAll, hstep]; exact hrun, hlate⟩
    | full =>
      -- what fills the buffer is no line
      obtain ⟨hlong, hline⟩ := scanNext_eq_full hfits hscan
      have hheld : held ≠ [] := by
        rintro rfl
        exact absurd hlong (by decide)
      rw [ReaderPc.Quiet, ReaderPc.lines, textLines_rest hheld hline, fitting_tooLong hlong] at hloud
      exact absurd (fun _ hmem => absurd hmem List.not_mem_nil) hloud
    | read start' room =>
      obtain ⟨hline, hroom, hsize⟩ := scanNext_eq_read hfits hscan
      have hstep : act s (.read h []) = some { s with reader := Function.update s.reader h (.ended held) } := by
        simp [act, State.read, hreader, hscan, hclosed]
      obtain ⟨t, hrun, hlate⟩ :=
        publishes_fragment (s := { s with reader := Function.update s.reader h (.ended held) }) (Function.update_self ..)
          ⟨by omega, hline⟩ hloud hevicted
      exact ⟨[.read h [], .reader h true], t, by rw [actAll, hstep]; exact hrun, hlate⟩

/-- What the drop of a client leaves of it. -/
theorem drops_leaves {a : Action} (hdrops : s.drops a = some h) (hact : act s a = some s') :
    s'.reader = s.reader ∧ .evicted h ∈ s'.trace ∧ .fileClosed h ∈ s'.trace := by
  have hevict : ∀ {c}, s.p.client = some c → .evicted c ∈ s.evict ∧ .fileClosed c ∈ s.evict := by
    intro c hclient
    simp [State.evict, hclient]
  cases a with
  | serve ok =>
    simp only [State.drops] at hdrops
    split at hdrops
    · next c hpc =>
      split at hdrops
      · cases hdrops
      next hclean =>
      rw [act, State.serveStep, hpc] at hact
      simp only [if_neg hclean, Option.some.injEq] at hact
      subst hact
      exact ⟨rfl, List.mem_cons_of_mem _ (List.mem_append_left _ (hevict hdrops).1),
        List.mem_cons_of_mem _ (List.mem_append_left _ (hevict hdrops).2)⟩
    · cases hdrops
  | ensureSDDL k userSID =>
    simp only [State.drops] at hdrops
    split at hdrops
    · next hidle =>
      split at hdrops
      · cases hdrops
      next hchanges =>
      obtain ⟨huser, hchanged⟩ := not_or.1 hchanges
      rw [act, State.ensureSDDL, hidle] at hact
      simp only [if_neg huser, if_neg hchanged] at hact
      split at hact
      · cases hact
        exact ⟨rfl, List.mem_append_left _ (hevict hdrops).1, List.mem_append_left _ (hevict hdrops).2⟩
      · cases hact
        exact ⟨rfl, List.mem_cons_of_mem _ (List.mem_append_left _ (hevict hdrops).1),
          List.mem_cons_of_mem _ (List.mem_append_left _ (hevict hdrops).2)⟩
    · cases hdrops
  | _ => cases hdrops

/-- Nothing less will do: a reader with a sample in hand when its client is dropped
may publish it. -/
theorem loud_of_not_quiet {a : Action} (hH : Hushed s) (hact : act s a = some s') (hnot : ¬s.DropsQuiet a) :
    ∃ as t, actAll act as s' = some t ∧ ¬t.Silenced := by
  simp only [State.DropsQuiet, not_forall] at hnot
  obtain ⟨h, hdrops, hloud⟩ := hnot
  obtain ⟨hreader, hevicted, hclosed⟩ := drops_leaves hdrops hact
  have hfits := hH.fits h
  rw [← hreader] at hfits hloud
  cases hpc : s'.reader h
  all_goals rw [hpc] at hfits hloud
  case scanning start held =>
    exact publishes_loud (held.length + 1) hpc (Nat.lt_succ_self _) hfits hloud hevicted hclosed
  case ended held =>
    obtain ⟨t, hrun, hlate⟩ := publishes_fragment hpc hfits hloud hevicted
    exact ⟨_, t, hrun, hlate⟩
  all_goals exact absurd (fun _ hmem => absurd hmem List.not_mem_nil) hloud

/-- A user's watcher connects and sends a sample, and then another user comes. -/
def userSwitch : List Action :=
  .ensureSDDL 0 (str "S-1-5-21-100") :: untilWaiting ++ clientComes 0 ++
    [.read 0 someSample.encode, .reader 0 true, .ensureSDDL 0 (str "S-1-5-21-200"), .read 0 [], .reader 0 true]

theorem quiet_userSwitch : ∃ s, actAll act userSwitch initial = some s ∧ .evicted 0 ∈ s.trace ∧ s.Silenced := by
  have hevicted : (actAll act userSwitch initial).map (fun s => decide (.evicted 0 ∈ s.trace)) = some true := by
    decide +kernel
  obtain ⟨s, hrun, hevicted⟩ := Option.map_eq_some_iff.1 hevicted
  exact ⟨s, hrun, of_decide_eq_true hevicted, silenced_of_quiet (by decide +kernel) hrun⟩

/-- The sample has been read but not yet published when the other user comes. -/
theorem published_late : ¬∀ (as : List Action) (s : State), actAll act as initial = some s → s.Silenced := by
  intro h
  let as : List Action :=
    .ensureSDDL 0 (str "S-1-5-21-100") :: untilWaiting ++ clientComes 0 ++
      [.read 0 someSample.encode, .ensureSDDL 0 (str "S-1-5-21-200"), .reader 0 true]
  have hlast : (actAll act as initial).map (·.trace.take 3) =
      some [.published 0 someSample, .fileClosed 0, .evicted 0] := by decide +kernel
  obtain ⟨s, hrun, hlast⟩ := Option.map_eq_some_iff.1 hlast
  have hsilenced := (h as s hrun).sublist (List.take_sublist 3 s.trace)
  rw [hlast, List.pairwise_cons] at hsilenced
  exact hsilenced.1 (.evicted 0) (by simp) 0 someSample rfl rfl

end ScrewLogger.Pipe
