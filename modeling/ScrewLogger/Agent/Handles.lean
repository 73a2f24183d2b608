/-
What becomes of the instances' handles.

`linear_of_waited`: each is closed once or made a client's, and not used after
that, where `Serve` closes an instance at the end of its context only when the
goroutine that waits for its client has made its last call.
-/
import ScrewLogger.Agent.Attached

namespace ScrewLogger.Pipe
open Lib

/-- The instance that a call is made on. -/
def Event.uses : Event → Option Handle
  | connectNamedPipe h | getOverlappedResult h | cancelIoEx h | disconnectNamedPipe h | closeHandle h | adopted h =>
    some h
  | _ => none

/-- The goroutine is to call `ConnectNamedPipe` or `GetOverlappedResult` yet. -/
def ConnectPc.hasCall : ConnectPc → Bool
  | createEvent | connect | getResult => true
  | _ => false

/-- The instance that `Serve` closes because the context is done. -/
def ServePc.abandons : ServePc → Option Handle
  | close h .leave => some h
  | _ => none

namespace State

/-- Where the context is done, the instance is closed when its goroutine has made
its last call. -/
def Waited (s : State) : Action → Prop
  | .serve _ => ∀ h, s.serve.abandons = some h → (s.connect h).hasCall = false
  | _ => True

instance (s : State) : (a : Action) → Decidable (s.Waited a)
  | .serve _ =>
    decidable_of_iff (s.serve.abandons.all fun h => !(s.connect h).hasCall) (by
      cases habandons : s.serve.abandons <;> simp [Waited, habandons])
  | .cancel | .dial _ | .connect .. | .ensureSDDL .. | .resume _ | .read .. | .reader .. => .isTrue trivial

/-- How often an instance is closed or made a client's. -/
def ends (s : State) (h : Handle) : Nat := s.trace.countP (·.givesUp = some h)

/-- Handles are used linearly. -/
structure Linear (s : State) : Prop where
  once : ∀ h, s.ends h ≤ 1
  settled : s.serve = .returned → ∀ h sddl, .created h sddl ∈ s.trace → s.ends h = 1
  unused : s.trace.Pairwise fun later earlier => ∀ h, later.uses = some h → earlier.givesUp ≠ some h

end State

/-- The instance whose connect goroutine may be at work. -/
def ServePc.awaits : ServePc → Option Handle
  | select h | cancel h | giveUp h | disconnect h .leave | close h .leave => some h
  | _ => none

/-- What holds of the calls when `Serve` is at `pc`. -/
structure Calls (pc : ServePc) (s : State) : Prop where
  awaited : ∀ h, (s.connect h).hasCall = true → pc.awaits = some h
  -- an instance stored later has a later `pendingGen`
  asleep : ∀ k h gen cancels, s.ensure k = .asleep h gen cancels →
    gen ≤ s.p.pendingGen ∧ (gen = s.p.pendingGen → ∀ h', s.p.pending = some h' → h' = h)
  unused : s.trace.Pairwise fun later earlier => ∀ h, later.uses = some h → earlier.givesUp ≠ some h

variable {s s' : State} {pc : ServePc} {h : Handle} {l : List Event}

theorem Calls.append (hC : Calls pc s) (hl : ∀ e ∈ l, e.uses = none) : Calls pc { s with trace := l ++ s.trace } := by
  refine { hC with unused := List.pairwise_append.2 ⟨?_, hC.unused, ?_⟩ }
  · refine List.pairwise_of_forall_mem_list fun e hmem e' _ h huses => ?_
    rw [hl e hmem] at huses
    cases huses
  · intro e hmem e' _ h huses
    rw [hl e hmem] at huses
    cases huses

/-- A call on an instance that is still held. -/
theorem Calls.use (hC : Calls pc s) (hI : Inv pc s) (hholds : pc.holds = some h) {e : Event} (he : e.uses = some h) :
    Calls pc (s.log e) := by
  refine { hC with unused := List.pairwise_cons.2 ⟨fun e' hmem h' huses => ?_, hC.unused⟩ }
  cases he.symm.trans huses
  exact (hI.held h hholds).2 e' hmem

/-- No instance is stored any more. -/
theorem Calls.forget (hC : Calls pc s) : Calls pc { s with p := { s.p with pending := none } } where
  awaited := hC.awaited
  asleep := fun k h gen cancels hk => ⟨(hC.asleep k h gen cancels hk).1, fun _ _ hpending => by cases hpending⟩
  unused := hC.unused

theorem holds_of_stored (hpc : pc.stored = some h) : pc.holds = some h := by
  cases pc <;> first | exact hpc | cases hpc

theorem holds_of_awaits (hpc : pc.awaits = some h) : pc.holds = some h := by
  cases pc with
  | disconnect h next | close h next => cases next <;> first | exact hpc | cases hpc
  | _ => first | exact hpc | cases hpc

theorem evict_uses : ∀ e ∈ s.evict, e.uses = none := by
  intro e hmem
  obtain ⟨h, -, hmem⟩ := List.mem_flatMap.1 hmem
  rcases List.mem_pair.1 hmem with rfl | rfl <;> rfl

/-- **A step of `Serve`.** -/
theorem serveStep_calls {ok : Bool} (hI : Inv s.serve s) (hC : Calls s.serve s) (hwaited : s.Waited (.serve ok))
    (hstep : s.serveStep ok = some s') : Calls s'.serve s' := by
  rw [State.serveStep] at hstep
  cases hpc : s.serve
  all_goals
    rw [hpc] at hI hC hstep
    dsimp only at hstep
  case top | copied | retry =>
    cases hstep
    dsimp only
    split <;> exact { hC with }
  case copy | startReader =>
    cases hstep
    exact { hC with }
  case dropStale | lookUp =>
    have hpending : s.p.pending = none := hI.stored
    rw [hpending] at hstep
    cases hstep
    exact { hC with }
  case create sddl =>
    split at hstep <;> cases hstep
    · exact { hC.append (l := [.created s.instances sddl]) (by simp [Event.uses]) with }
    · exact { hC with }
  case sleep =>
    split at hstep
    · cases hstep
      exact { hC with }
    split at hstep <;> cases hstep
    exact { hC with }
  case store h =>
    split at hstep <;> cases hstep
    · exact { hC with }
    · refine { hC with asleep := fun k h' gen cancels hk => ?_ }
      have hgen := (hC.asleep k h' gen cancels hk).1
      dsimp only
      exact ⟨by omega, fun heq => by omega⟩
  case launch h =>
    cases hstep
    refine { hC with awaited := fun h' hcall => ?_ }
    by_cases heq : h' = h
    · rw [heq]
      rfl
    · dsimp only at hcall
      rw [Function.update_of_ne heq] at hcall
      cases hC.awaited h' hcall
  case select h =>
    split at hstep
    · split at hstep <;> cases hstep
      next err hsent =>
      -- the goroutine is at its end
      refine { hC with awaited := fun h' hcall => ?_ }
      cases hC.awaited h' hcall
      dsimp only at hcall
      rw [hsent] at hcall
      cases hcall
    split at hstep <;> cases hstep
    exact { hC with }
  case cancel h =>
    cases hstep
    exact { hC.use hI rfl (e := .cancelIoEx h) rfl with }
  case giveUp h =>
    cases hstep
    exact { hC.forget with }
  case pop h err =>
    cases hstep
    dsimp only
    split <;> exact { hC.forget with }
  case disconnect h next =>
    cases hstep
    have hused := hC.use hI rfl (e := .disconnectNamedPipe h) rfl
    cases next <;> exact { hused with }
  case close h next =>
    cases hstep
    have hused := hC.use hI rfl (e := .closeHandle h) rfl
    cases next with
    | leave =>
      refine { hused with awaited := fun h' hcall => ?_ }
      cases hC.awaited h' hcall
      exact absurd (hwaited h (by rw [hpc]; rfl)) (ne_of_eq_of_ne hcall (by decide))
    | _ => exact { hused with }
  case accept h =>
    split at hstep
    · cases hstep
      have hused := hC.use hI rfl (e := .adopted h) rfl
      exact { hused.append (l := [.fileClosed h]) (by simp [Event.uses]) with }
    · cases hstep
      exact { (hC.append evict_uses).use (hI.append neutral_evict) rfl (e := .adopted h) rfl with }
  case leave =>
    cases hstep
    have hpending : s.p.pending = none := hI.stored
    have hleftovers : ∀ e ∈ s.leftovers, e.uses = none := by
      intro e hmem
      rw [State.leftovers, hpending] at hmem
      obtain ⟨h, -, rfl⟩ := List.mem_map.1 hmem
      rfl
    exact { (hC.append hleftovers).forget with }
  case returned => cases hstep

/-! ## The others -/

theorem Calls.goesOn {c : ConnectPc} (hC : Calls pc s) (hcall : c.hasCall = true → (s.connect h).hasCall = true) :
    Calls pc { s with connect := Function.update s.connect h c } := by
  refine { hC with awaited := fun h' hcall' => ?_ }
  dsimp only at hcall'
  by_cases heq : h' = h
  · rw [heq, Function.update_self] at hcall'
    rw [heq]
    exact hC.awaited h (hcall hcall')
  · rw [Function.update_of_ne heq] at hcall'
    exact hC.awaited h' hcall'

theorem connectStep_calls {err : ConnectErr} (hI : Inv s.serve s) (hC : Calls s.serve s)
    (hstep : s.connectStep h err = some s') : Calls s'.serve s' := by
  have hholds : (s.connect h).hasCall = true → s.serve.holds = some h := fun hcall =>
    holds_of_awaits (hC.awaited h hcall)
  rw [State.connectStep] at hstep
  cases hpc : s.connect h
  all_goals
    rw [hpc] at hstep hholds
    dsimp only at hstep
  case idle | sent => cases hstep
  case createEvent =>
    cases hstep
    exact hC.goesOn fun _ => by rw [hpc]; rfl
  case connect =>
    have hused := hC.use hI (hholds rfl) (e := .connectNamedPipe h) rfl
    split at hstep
    · cases hstep
      exact hused.goesOn (c := .getResult) fun _ => by rw [State.log, hpc]; rfl
    split at hstep <;> cases hstep
    exact hused.goesOn (c := .sent err) fun hcall => by cases hcall
  case getResult =>
    cases hstep
    have hused := hC.use hI (hholds rfl) (e := .getOverlappedResult h) rfl
    exact hused.goesOn (c := .waiting) fun hcall => by cases hcall
  case waiting =>
    split at hstep <;> cases hstep
    exact hC.goesOn fun hcall => by cases hcall

theorem Calls.sleeps {k : Nat} {c : EnsurePc} (hC : Calls pc s)
    (hc : ∀ h gen cancels, c = .asleep h gen cancels →
      gen ≤ s.p.pendingGen ∧ (gen = s.p.pendingGen → ∀ h', s.p.pending = some h' → h' = h)) :
    Calls pc { s with ensure := Function.update s.ensure k c } := by
  refine { hC with asleep := fun k' h gen cancels hk => ?_ }
  dsimp only at hk
  by_cases heq : k' = k
  · rw [heq, Function.update_self] at hk
    exact hc h gen cancels hk
  · rw [Function.update_of_ne heq] at hk
    exact hC.asleep k' h gen cancels hk

theorem ensureSDDL_calls {k : Nat} {userSID : Bytes} (hI : Inv s.serve s) (hC : Calls s.serve s)
    (hstep : s.ensureSDDL k userSID = some s') : Calls s'.serve s' := by
  rw [State.ensureSDDL] at hstep
  split at hstep
  · cases hstep
  split at hstep
  · cases hstep
    exact hC
  split at hstep
  · cases hstep
    exact hC
  dsimp only at hstep
  split at hstep
  · cases hstep
    exact { hC.append evict_uses with }
  · next h hpending =>
    cases hstep
    have hholds := holds_of_stored (hI.stored.symm.trans hpending)
    have hused := (hC.append (l := s.evict) evict_uses).use (hI.append neutral_evict) hholds (e := .cancelIoEx h) rfl
    refine { hused.sleeps (k := k) (c := .asleep h s.p.pendingGen 1) (fun h' gen cancels heq => ?_) with }
    cases heq
    exact ⟨Nat.le_refl _, fun _ h' hpending' => Option.some.inj (hpending'.symm.trans hpending)⟩

theorem resume_calls {k : Nat} (hI : Inv s.serve s) (hC : Calls s.serve s) (hstep : s.resume k = some s') :
    Calls s'.serve s' := by
  rw [State.resume] at hstep
  split at hstep
  · cases hstep
  next h gen cancels hk =>
    have hasleep := hC.asleep k h gen cancels hk
    split at hstep
    · cases hstep
      exact hC.sleeps fun _ _ _ heq => by cases heq
    next hpending =>
    split at hstep
    · cases hstep
      -- the instance is the one that was pending at the first cancel
      obtain ⟨hsome, hgen⟩ := not_or.1 hpending
      obtain ⟨h', hh'⟩ := Option.ne_none_iff_exists'.1 hsome
      obtain rfl := hasleep.2 (not_not.1 hgen).symm h' hh'
      have hused := hC.use hI (holds_of_stored (hI.stored.symm.trans hh')) (e := .cancelIoEx h') rfl
      refine hused.sleeps (k := k) fun h'' gen' cancels' heq => ?_
      cases heq
      exact hasleep
    · cases hstep
      exact hC.sleeps fun _ _ _ heq => by cases heq

theorem readerStep_calls {room : Bool} (hC : Calls s.serve s) (hstep : s.readerStep h room = some s') :
    Calls s'.serve s' := by
  obtain ⟨p, r, l, rfl, hp, hl⟩ := State.readerStep_frame hstep
  have hread : Calls s.serve { s with trace := l ++ s.trace } := by
    refine hC.append fun e hmem => ?_
    rcases hl e hmem with rfl | ⟨sample, rfl⟩ <;> rfl
  rcases hp with rfl | ⟨-, rfl⟩ <;> exact { hread with }

theorem initial_calls : Calls initial.serve initial where
  awaited := fun _ hcall => by cases hcall
  asleep := fun _ _ _ _ hk => by cases hk
  unused := List.Pairwise.nil

/-- **One action.** -/
theorem act_calls {a : Action} (hI : Inv s.serve s) (hC : Calls s.serve s) (hwaited : s.Waited a)
    (hact : act s a = some s') : Calls s'.serve s' := by
  cases a with
  | cancel =>
    cases hact
    exact { hC with }
  | dial h =>
    rw [act] at hact
    split at hact <;> cases hact
    exact { hC.append (l := [.dialed h]) (by simp [Event.uses]) with }
  | serve ok => exact serveStep_calls hI hC hwaited hact
  | connect h err => exact connectStep_calls hI hC hact
  | ensureSDDL k userSID => exact ensureSDDL_calls hI hC hact
  | resume k => exact resume_calls hI hC hact
  | read h chunk =>
    obtain ⟨r, rfl⟩ := State.read_frame hact
    exact { hC with }
  | reader h room => exact readerStep_calls hC hact

/-! ## What becomes of the handles -/

theorem ends_le_one (h : Handle) :
    ∀ {trace : List Event}, (trace.Pairwise fun later earlier => ∀ h, later.uses = some h →
      earlier.givesUp ≠ some h) →
      trace.countP (·.givesUp = some h) ≤ 1
  | [], _ => Nat.zero_le _
  | e :: trace, hunused => by
    obtain ⟨hfirst, hrest⟩ := List.pairwise_cons.1 hunused
    by_cases he : e.givesUp = some h
    · have huses : e.uses = some h := by
        cases e <;> first | exact he | cases he
      have hnone : trace.countP (·.givesUp = some h) = 0 := by
        rw [List.countP_eq_zero]
        intro e' hmem
        simpa using hfirst e' hmem h huses
      rw [List.countP_cons_of_pos (by simpa using he), hnone]
    · rw [List.countP_cons_of_neg (by simpa using he)]
      exact ends_le_one h hrest

/-- **Every interleaving** in which, at the end of the context, the instance is
closed after its goroutine's last call. -/
theorem linear_of_waited {as : List Action} (hwaited : EachMeets act State.Waited as initial)
    (hrun : actAll act as initial = some s) : s.Linear := by
  have hstep : ∀ {s : State} {a : Action} {s' : State}, Inv s.serve s ∧ Calls s.serve s → s.Waited a →
      act s a = some s' → Inv s'.serve s' ∧ Calls s'.serve s' := fun hs hwaited hact =>
    ⟨act_inv hs.1 hact, act_calls hs.1 hs.2 hwaited hact⟩
  obtain ⟨hI, hC⟩ := actAll_inv_of (I := fun s => Inv s.serve s ∧ Calls s.serve s) hstep
    ⟨initial_inv, initial_calls⟩ hwaited hrun
  have honce : ∀ h, s.ends h ≤ 1 := fun h => ends_le_one h hC.unused
  refine ⟨honce, fun hreturned h sddl hmem => ?_, hC.unused⟩
  rw [hreturned] at hI
  rcases hI.others h sddl hmem with hholds | ⟨e, hmem, hgives⟩
  · cases hholds
  · have hpos : 0 < s.ends h := List.countP_pos_iff.2 ⟨e, hmem, by simpa using hgives⟩
    have hle := honce h
    omega

theorem makes_connect (hconnect : s.connect h = .connect) : ∃ t,
    actAll act [.connect h .other] s = some t ∧ t.trace = .connectNamedPipe h :: s.trace := by
  have hstep : act s (.connect h .other) =
      some { s.log (.connectNamedPipe h) with connect := Function.update s.connect h (.sent .other) } := by
    simp [act, State.connectStep, State.Answers, hconnect]
  exact ⟨_, by rw [actAll, hstep]; rfl, rfl⟩

/-- A goroutine that has a call to make may make it. -/
theorem makes_call (hcall : (s.connect h).hasCall = true) : ∃ as t e,
    actAll act as s = some t ∧ t.trace = e :: s.trace ∧ e.uses = some h := by
  cases hconnect : s.connect h with
  | createEvent =>
    have hstep : act s (.connect h .none) = some { s with connect := Function.update s.connect h .connect } := by
      simp [act, State.connectStep, hconnect]
    obtain ⟨t, hrun, htrace⟩ := makes_connect (s := { s with connect := Function.update s.connect h .connect }) (h := h)
      (Function.update_self ..)
    refine ⟨[.connect h .none, .connect h .other], t, .connectNamedPipe h, ?_, htrace, rfl⟩
    rw [actAll, hstep]
    exact hrun
  | connect =>
    obtain ⟨t, hrun, htrace⟩ := makes_connect hconnect
    exact ⟨_, t, .connectNamedPipe h, hrun, htrace, rfl⟩
  | getResult =>
    have hstep : act s (.connect h .none) =
        some { s.log (.getOverlappedResult h) with connect := Function.update s.connect h .waiting } := by
      simp [act, State.connectStep, hconnect]
    exact ⟨[.connect h .none], _, .getOverlappedResult h, by rw [actAll, hstep]; rfl, rfl, rfl⟩
  | idle | waiting | sent =>
    rw [hconnect] at hcall
    cases hcall

/-- Nothing less will do: an instance closed before its goroutine's last call may be
used after that. -/
theorem used_of_not_waited {a : Action} (hact : act s a = some s') (hnot : ¬s.Waited a) :
    ∃ as t, actAll act as s' = some t ∧ ¬t.Linear := by
  cases a with
  | serve ok =>
    simp only [State.Waited, not_forall, Bool.not_eq_false] at hnot
    obtain ⟨h, hpc, hcall⟩ := hnot
    have hclose : s.serve = .close h .leave := by
      cases hserve : s.serve with
      | close h' next =>
        rw [hserve] at hpc
        cases next <;> cases hpc
        rfl
      | _ =>
        rw [hserve] at hpc
        cases hpc
    rw [act, State.serveStep, hclose] at hact
    cases hact
    obtain ⟨as, t, e, hrun, htrace, huses⟩ := makes_call (s := { s.log (.closeHandle h) with serve := .leave }) hcall
    refine ⟨as, t, hrun, fun hlinear => ?_⟩
    have hunused := hlinear.unused
    rw [htrace, List.pairwise_cons] at hunused
    exact hunused.1 (.closeHandle h) List.mem_cons_self h huses rfl
  | _ => exact absurd trivial hnot

/-- The context is done while `Serve` waits for the client of instance 0, and it
closes the instance. -/
def shutdown : List Action := [.cancel, .serve false] ++ List.replicate 4 (.serve true)

theorem linear_shutdown : ∃ s, actAll act
    (untilWaiting ++ [.connect 0 .none, .connect 0 .ioPending, .connect 0 .none] ++ shutdown ++
      [.connect 0 .other, .serve true]) initial = some s ∧ s.ends 0 = 1 ∧ s.Linear := by
  have hends : (actAll act
      (untilWaiting ++ [.connect 0 .none, .connect 0 .ioPending, .connect 0 .none] ++ shutdown ++
        [.connect 0 .other, .serve true]) initial).map (·.ends 0) = some 1 := by decide +kernel
  obtain ⟨s, hrun, hends⟩ := Option.map_eq_some_iff.1 hends
  exact ⟨s, hrun, hends, linear_of_waited (by decide +kernel) hrun⟩

/-- The goroutine gets to its `ConnectNamedPipe` when the instance is closed. -/
theorem used_after_close : ¬∀ (as : List Action) (s : State), actAll act as initial = some s → s.Linear := by
  intro h
  have hlast : (actAll act (untilWaiting ++ [.connect 0 .none] ++ shutdown ++ [.connect 0 .other]) initial).map
      (·.trace.take 2) = some [.connectNamedPipe 0, .closeHandle 0] := by decide +kernel
  obtain ⟨s, hrun, hlast⟩ := Option.map_eq_some_iff.1 hlast
  have hunused := (h _ s hrun).unused.sublist (List.take_sublist 2 s.trace)
  rw [hlast, List.pairwise_cons] at hunused
  exact hunused.1 (.closeHandle 0) List.mem_cons_self 0 rfl rfl

end ScrewLogger.Pipe
