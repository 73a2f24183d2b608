/-
The client attached is the current user's, in every interleaving.

`attached`: `connected` and `client` go together, the client's instance has the
descriptor that is in force, and of all instances that neither have been closed
nor are a client's there is at most one.
-/
import ScrewLogger.Agent.PipeServer

namespace ScrewLogger.Pipe
open Lib

/-- The instance that an event closes or makes a client's. -/
def Event.givesUp : Event → Option Handle
  | closeHandle h | adopted h => some h
  | _ => none

/-- The instance that `Serve` has and is to close or to make a client's. -/
def ServePc.holds : ServePc → Option Handle
  | store h | launch h | select h | cancel h | giveUp h | pop h _ | disconnect h _ | close h _ | accept h => some h
  | _ => none

/-- What `pending` is while `Serve` is there. -/
def ServePc.stored : ServePc → Option Handle
  | launch h | select h | cancel h | giveUp h | pop h _ => some h
  | _ => none

/-- The descriptor that `Serve` has copied for the instance it is to create. -/
def ServePc.copy? : ServePc → Option Bytes
  | copied sddl _ | dropStale sddl | lookUp sddl | create sddl => some sddl
  | disconnect _ (.lookUp sddl) | close _ (.lookUp sddl) => some sddl
  | _ => none

/-- What holds when `Serve` is at `pc`. -/
structure Inv (pc : ServePc) (s : State) : Prop where
  attached : s.p.connected = s.p.client.isSome
  stored : s.p.pending = pc.stored
  created : ∀ h sddl, .created h sddl ∈ s.trace → h < s.instances
  given : ∀ h, ∀ e ∈ s.trace, e.givesUp = some h → h < s.instances
  once : ∀ h sddl sddl', .created h sddl ∈ s.trace → .created h sddl' ∈ s.trace → sddl = sddl'
  held : ∀ h, pc.holds = some h → (∃ sddl, .created h sddl ∈ s.trace) ∧ ∀ e ∈ s.trace, e.givesUp ≠ some h
  others : ∀ h sddl, .created h sddl ∈ s.trace → pc.holds = some h ∨ ∃ e ∈ s.trace, e.givesUp = some h
  -- a change after the copy leaves `dirty` set
  copied : ∀ sddl, pc.copy? = some sddl → s.p.dirty = true ∨ sddl = s.p.sddl
  current : ∀ h, pc.holds = some h → s.p.dirty = true ∨ .created h s.p.sddl ∈ s.trace
  client : ∀ h, s.p.client = some h → .created h s.p.sddl ∈ s.trace

/-- An event that neither creates an instance nor gives one up. -/
def Event.Neutral : Event → Prop
  | created .. | closeHandle _ | adopted _ => False
  | _ => True

variable {s s' : State} {pc : ServePc} {h : Handle}

theorem Event.Neutral.givesUp_eq {e : Event} (he : e.Neutral) : e.givesUp = none := by
  cases e <;> first | rfl | cases he

theorem Inv.append (hI : Inv pc s) {l : List Event} (hl : ∀ e ∈ l, e.Neutral) :
    Inv pc { s with trace := l ++ s.trace } := by
  have hcreated : ∀ h sddl, .created h sddl ∈ l ++ s.trace ↔ .created h sddl ∈ s.trace := by
    intro h sddl
    rw [List.mem_append]
    exact or_iff_right fun hmem => hl _ hmem
  have hgiven : ∀ h, ∀ e ∈ l ++ s.trace, e.givesUp = some h → e ∈ s.trace := by
    intro h e hmem hgives
    rcases List.mem_append.1 hmem with hmem | hmem
    · rw [(hl e hmem).givesUp_eq] at hgives
      cases hgives
    · exact hmem
  constructor
  case attached => exact hI.attached
  case stored => exact hI.stored
  case created => exact fun h sddl hmem => hI.created h sddl ((hcreated h sddl).1 hmem)
  case given => exact fun h e hmem hgives => hI.given h e (hgiven h e hmem hgives) hgives
  case once =>
    exact fun h sddl sddl' hmem hmem' => hI.once h sddl sddl' ((hcreated _ _).1 hmem) ((hcreated _ _).1 hmem')
  case held =>
    intro h hholds
    obtain ⟨⟨sddl, hmem⟩, hnone⟩ := hI.held h hholds
    exact ⟨⟨sddl, (hcreated h sddl).2 hmem⟩, fun e hmem hgives => hnone e (hgiven h e hmem hgives) hgives⟩
  case others =>
    intro h sddl hmem
    rcases hI.others h sddl ((hcreated h sddl).1 hmem) with hholds | ⟨e, hmem, hgives⟩
    · exact .inl hholds
    · exact .inr ⟨e, List.mem_append_right _ hmem, hgives⟩
  case copied => exact hI.copied
  case current => exact fun h hholds => (hI.current h hholds).imp_right fun hmem => (hcreated _ _).2 hmem
  case client => exact fun h hclient => (hcreated _ _).2 (hI.client h hclient)

theorem Inv.log (hI : Inv pc s) {e : Event} (he : e.Neutral) : Inv pc (s.log e) := by
  have hl : ∀ e' ∈ [e], e'.Neutral := by simpa using he
  exact hI.append hl

/-- An instance is given up. -/
theorem Inv.gaveUp {pc' : ServePc} (hI : Inv pc s) (hholds : pc.holds = some h) {e : Event} (he : e.givesUp = some h)
    (hnone : pc'.holds = none) (hstored : pc'.stored = pc.stored) (hcopy : pc'.copy? = pc.copy?) :
    Inv pc' (s.log e) := by
  have hne : ∀ h sddl, e ≠ .created h sddl := by
    rintro h sddl rfl
    cases he
  have hcreated : ∀ {h sddl}, .created h sddl ∈ e :: s.trace → .created h sddl ∈ s.trace := fun hmem =>
    (List.mem_cons.1 hmem).resolve_left (hne _ _).symm
  constructor
  case attached => exact hI.attached
  case stored => exact hI.stored.trans hstored.symm
  case created => exact fun h sddl hmem => hI.created h sddl (hcreated hmem)
  case given =>
    intro h' e' hmem hgives
    rcases List.mem_cons.1 hmem with rfl | hmem
    · obtain ⟨⟨sddl, hmade⟩, -⟩ := hI.held h hholds
      rw [he] at hgives
      cases hgives
      exact hI.created h sddl hmade
    · exact hI.given h' e' hmem hgives
  case once => exact fun h sddl sddl' hmem hmem' => hI.once h sddl sddl' (hcreated hmem) (hcreated hmem')
  case held =>
    intro h' hholds'
    rw [hnone] at hholds'
    cases hholds'
  case others =>
    intro h' sddl hmem
    rcases hI.others h' sddl (hcreated hmem) with hholds' | ⟨e', hmem, hgives⟩
    · exact .inr ⟨e, List.mem_cons_self, he.trans (hholds.symm.trans hholds')⟩
    · exact .inr ⟨e', List.mem_cons_of_mem _ hmem, hgives⟩
  case copied => exact hcopy ▸ hI.copied
  case current =>
    intro h' hholds'
    rw [hnone] at hholds'
    cases hholds'
  case client => exact fun h hclient => List.mem_cons_of_mem _ (hI.client h hclient)

theorem Inv.create {sddl : Bytes} (hI : Inv (.create sddl) s) :
    Inv (.store s.instances)
      { s.log (.created s.instances sddl) with serve := .store s.instances, instances := s.instances + 1 } := by
  have hnew : ∀ sddl, .created s.instances sddl ∉ s.trace := fun sddl hmem =>
    absurd (hI.created _ _ hmem) (Nat.lt_irrefl _)
  constructor
  case attached => exact hI.attached
  case stored => exact hI.stored
  case created =>
    intro h sddl' hmem
    rcases List.mem_cons.1 hmem with heq | hmem
    · cases heq
      exact Nat.lt_succ_self _
    · exact Nat.lt_succ_of_lt (hI.created h sddl' hmem)
  case given =>
    intro h e hmem hgives
    rcases List.mem_cons.1 hmem with rfl | hmem
    · cases hgives
    · exact Nat.lt_succ_of_lt (hI.given h e hmem hgives)
  case once =>
    intro h a b ha hb
    rcases List.mem_cons.1 ha with ha | ha <;> rcases List.mem_cons.1 hb with hb | hb
    · cases ha
      cases hb
      rfl
    · cases ha
      exact absurd hb (hnew b)
    · cases hb
      exact absurd ha (hnew a)
    · exact hI.once h a b ha hb
  case held =>
    intro h hholds
    cases hholds
    refine ⟨⟨sddl, List.mem_cons_self⟩, fun e hmem hgives => ?_⟩
    rcases List.mem_cons.1 hmem with rfl | hmem
    · cases hgives
    · exact absurd (hI.given _ e hmem hgives) (Nat.lt_irrefl _)
  case others =>
    intro h sddl' hmem
    rcases List.mem_cons.1 hmem with heq | hmem
    · cases heq
      exact .inl rfl
    · rcases hI.others h sddl' hmem with hholds | ⟨e, hmem, hgives⟩
      · cases hholds
      · exact .inr ⟨e, List.mem_cons_of_mem _ hmem, hgives⟩
  case copied => exact fun _ hcopy => by cases hcopy
  case current =>
    intro h hholds
    cases hholds
    rcases hI.copied sddl rfl with hdirty | rfl
    · exact .inl hdirty
    · exact .inr List.mem_cons_self
  case client => exact fun h hclient => List.mem_cons_of_mem _ (hI.client h hclient)

theorem neutral_evict : ∀ e ∈ s.evict, e.Neutral := by
  intro e hmem
  obtain ⟨h, -, hmem⟩ := List.mem_flatMap.1 hmem
  rcases List.mem_pair.1 hmem with rfl | rfl <;> trivial

/-- **A step of `Serve`.** -/
theorem serveStep_inv {ok : Bool} (hI : Inv s.serve s) (hstep : s.serveStep ok = some s') : Inv s'.serve s' := by
  rw [State.serveStep] at hstep
  cases hpc : s.serve
  all_goals
    rw [hpc] at hI hstep
    dsimp only at hstep
  case top | retry =>
    cases hstep
    dsimp only
    split <;> exact { hI with }
  case copy =>
    cases hstep
    exact
      { hI with
        copied := fun sddl hcopy => .inr (Option.some.inj hcopy).symm
        current := fun _ hholds => by cases hholds }
  case copied sddl dirty =>
    cases hstep
    dsimp only
    split <;> exact { hI with }
  case dropStale sddl =>
    have hpending : s.p.pending = none := hI.stored
    rw [hpending] at hstep
    cases hstep
    exact { hI with }
  case lookUp sddl =>
    have hpending : s.p.pending = none := hI.stored
    rw [hpending] at hstep
    cases hstep
    exact { hI with }
  case create sddl =>
    split at hstep <;> cases hstep
    · exact hI.create
    · exact { hI with copied := fun _ hcopy => by cases hcopy }
  case sleep =>
    split at hstep
    · cases hstep
      exact { hI with }
    split at hstep <;> cases hstep
    exact { hI with }
  case store h =>
    split at hstep <;> cases hstep
    · exact { hI with }
    · exact { hI with stored := rfl }
  case launch h =>
    cases hstep
    exact { hI with }
  case select h =>
    split at hstep
    · split at hstep <;> cases hstep
      exact { hI with }
    split at hstep <;> cases hstep
    exact { hI with }
  case cancel h =>
    cases hstep
    exact { hI.log (e := .cancelIoEx h) trivial with }
  case giveUp h =>
    cases hstep
    exact { hI with stored := rfl }
  case pop h err =>
    cases hstep
    dsimp only
    split <;> exact { hI with stored := rfl }
  case disconnect h next =>
    cases hstep
    have hlog := hI.log (e := .disconnectNamedPipe h) trivial
    cases next <;> exact { hlog with }
  case close h next =>
    cases hstep
    have hgave : Inv next.pc (s.log (.closeHandle h)) := by
      cases next <;> exact hI.gaveUp rfl rfl rfl rfl rfl
    exact { hgave with }
  case accept h =>
    split at hstep
    · cases hstep
      have hgave : Inv .top (s.log (.adopted h)) := hI.gaveUp rfl rfl rfl rfl rfl
      exact { hgave.log (e := .fileClosed h) trivial with }
    · next hclean =>
      cases hstep
      -- the descriptor in force is still the one that was copied
      have hcurrent := (hI.current h rfl).resolve_left hclean
      have hgave : Inv (.startReader h) ({ s with trace := s.evict ++ s.trace }.log (.adopted h)) :=
        (hI.append neutral_evict).gaveUp rfl rfl rfl rfl rfl
      refine { hgave with attached := rfl, client := fun h' hclient => ?_ }
      cases hclient
      exact List.mem_cons_of_mem _ (List.mem_append_right _ hcurrent)
  case startReader h =>
    cases hstep
    exact { hI with }
  case leave =>
    cases hstep
    have hpending : s.p.pending = none := hI.stored
    have hneutral : ∀ e ∈ s.leftovers, e.Neutral := by
      intro e hmem
      rw [State.leftovers, hpending] at hmem
      obtain ⟨h, -, rfl⟩ := List.mem_map.1 hmem
      exact trivial
    exact
      { hI.append hneutral with
        attached := rfl
        stored := rfl
        client := fun _ hclient => by cases hclient }
  case returned => cases hstep

/-! ## The others -/

theorem connectStep_inv {err : ConnectErr} (hI : Inv s.serve s) (hstep : s.connectStep h err = some s') :
    Inv s'.serve s' := by
  obtain ⟨c, l, rfl, hl⟩ := State.connectStep_frame hstep
  refine { hI.append (l := l) (fun e hmem => ?_) with }
  rcases hl e hmem with rfl | rfl <;> trivial

theorem ensureSDDL_inv {k : Nat} {userSID : Bytes} (hI : Inv s.serve s) (hstep : s.ensureSDDL k userSID = some s') :
    Inv s'.serve s' := by
  have hdropped : Inv s.serve
      { s with
        p := { s.p with sddl := userSD userSID, dirty := true, connected := false, client := none }
        trace := s.evict ++ s.trace } :=
    { hI.append neutral_evict with
      attached := rfl
      copied := fun _ _ => .inl rfl
      current := fun _ _ => .inl rfl
      client := fun _ hclient => by cases hclient }
  rw [State.ensureSDDL] at hstep
  split at hstep
  · cases hstep
  split at hstep
  · cases hstep
    exact hI
  split at hstep
  · cases hstep
    exact hI
  dsimp only at hstep
  split at hstep
  · cases hstep
    exact hdropped
  · cases hstep
    exact { hdropped.log (e := .cancelIoEx _) trivial with }

theorem resume_inv {k : Nat} (hI : Inv s.serve s) (hstep : s.resume k = some s') : Inv s'.serve s' := by
  obtain ⟨c, l, rfl, hl⟩ := State.resume_frame hstep
  refine { hI.append (l := l) (fun e hmem => ?_) with }
  obtain ⟨h, rfl⟩ := hl e hmem
  trivial

theorem read_inv {chunk : Bytes} (hI : Inv s.serve s) (hstep : s.read h chunk = some s') : Inv s'.serve s' := by
  obtain ⟨r, rfl⟩ := State.read_frame hstep
  exact { hI with }

theorem readerStep_inv {room : Bool} (hI : Inv s.serve s) (hstep : s.readerStep h room = some s') :
    Inv s'.serve s' := by
  obtain ⟨p, r, l, rfl, hp, hl⟩ := State.readerStep_frame hstep
  have hread : Inv s.serve { s with trace := l ++ s.trace } := by
    refine hI.append fun e hmem => ?_
    rcases hl e hmem with rfl | ⟨sample, rfl⟩ <;> trivial
  rcases hp with rfl | ⟨-, rfl⟩
  · exact { hread with }
  · exact { hread with attached := rfl, client := fun _ hclient => by cases hclient }

theorem initial_inv : Inv initial.serve initial where
  attached := rfl
  stored := rfl
  created := fun _ _ hmem => absurd hmem List.not_mem_nil
  given := fun _ _ hmem => absurd hmem List.not_mem_nil
  once := fun _ _ _ hmem => absurd hmem List.not_mem_nil
  held := fun _ hholds => by cases hholds
  others := fun _ _ hmem => absurd hmem List.not_mem_nil
  copied := fun _ hcopy => by cases hcopy
  current := fun _ hholds => by cases hholds
  client := fun _ hclient => by cases hclient

/-- **One action.** -/
theorem act_inv {a : Action} (hI : Inv s.serve s) (hact : act s a = some s') : Inv s'.serve s' := by
  cases a with
  | cancel =>
    cases hact
    exact { hI with }
  | dial h =>
    rw [act] at hact
    split at hact <;> cases hact
    exact { hI.log (e := .dialed h) trivial with }
  | serve ok => exact serveStep_inv hI hact
  | connect h err => exact connectStep_inv hI hact
  | ensureSDDL k userSID => exact ensureSDDL_inv hI hact
  | resume k => exact resume_inv hI hact
  | read h chunk => exact read_inv hI hact
  | reader h room => exact readerStep_inv hI hact

/-- **Every run.** -/
theorem inv {as : List Action} (hrun : actAll act as initial = some s) : Inv s.serve s :=
  actAll_inv (I := fun s => Inv s.serve s) act_inv initial_inv hrun

/-! ## What is attached -/

/-- An instance that is open and no client's. -/
def State.Waiting (s : State) (h : Handle) : Prop :=
  (∃ sddl, .created h sddl ∈ s.trace) ∧ ∀ e ∈ s.trace, e.givesUp ≠ some h

/-- The client is the current user's, and one instance at most waits for the next. -/
structure State.Attached (s : State) : Prop where
  connected : s.p.connected = true ↔ s.p.client.isSome = true
  descriptor : ∀ h, s.p.client = some h → ∀ sddl, .created h sddl ∈ s.trace ↔ sddl = s.p.sddl
  pending : ∀ h, s.p.pending = some h → s.Waiting h
  waiting : ∀ h h', s.Waiting h → s.Waiting h' → h = h'

/-- **Every interleaving.** -/
theorem always_attached {as : List Action} (hrun : actAll act as initial = some s) : s.Attached := by
  have hI := inv hrun
  have hholds : ∀ h, s.Waiting h → s.serve.holds = some h := by
    rintro h ⟨⟨sddl, hmem⟩, hnone⟩
    rcases hI.others h sddl hmem with hholds | ⟨e, hmem, hgives⟩
    · exact hholds
    · exact absurd hgives (hnone e hmem)
  constructor
  case connected => rw [hI.attached]
  case descriptor =>
    intro h hclient sddl
    have hcurrent := hI.client h hclient
    refine ⟨fun hmem => hI.once h _ _ hmem hcurrent, ?_⟩
    rintro rfl
    exact hcurrent
  case pending =>
    intro h hpending
    have hstored := hI.stored.symm.trans hpending
    refine hI.held h ?_
    cases hpc : s.serve <;> rw [hpc] at hstored <;> cases hstored <;> rfl
  case waiting => exact fun h h' hw hw' => Option.some.inj ((hholds h hw).symm.trans (hholds h' hw'))

/-- The user changes while an instance waits for its client: it gives way to one
with the new descriptor, where the client comes. -/
def descriptorChanges : List Action :=
  .ensureSDDL 0 (str "S-1-5-21-100") :: untilWaiting ++
    [.connect 0 .none, .connect 0 .ioPending, .connect 0 .none, .ensureSDDL 0 (str "S-1-5-21-200"), .connect 0 .other] ++
    List.replicate 5 (.serve true) ++ .resume 0 :: untilWaiting ++ clientComes 1

theorem attached_after_change : ∃ s, actAll act descriptorChanges initial = some s ∧
    s.p.client = some 1 ∧ s.p.sddl = userSD (str "S-1-5-21-200") ∧ s.Attached := by
  have hlast : (actAll act descriptorChanges initial).map (fun s => (s.p.client, s.p.sddl)) =
      some (some 1, userSD (str "S-1-5-21-200")) := by
    decide +kernel
  obtain ⟨s, hrun, hlast⟩ := Option.map_eq_some_iff.1 hlast
  obtain ⟨hclient, hsddl⟩ := Prod.mk.inj hlast
  exact ⟨s, hrun, hclient, hsddl, always_attached hrun⟩

end ScrewLogger.Pipe
