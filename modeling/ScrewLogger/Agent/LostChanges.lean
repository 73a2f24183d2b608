/-
The agent's builder and its buffer, when appends fail (`agent.go`, `Observe`).

The builder takes a heartbeat for emitted once it has returned it. Where the
append then fails, the buffer does not have it, and the builder finds nothing due
until the next change or keep-alive. `reflects_iff`: the newest heartbeat of the
buffer is of the state observed, whatever is observed next, exactly where no
append that a change of state makes has failed.
-/
import ScrewLogger.Agent.Emissions
import ScrewLogger.Agent.RunSamples

namespace ScrewLogger
open Lib Lib.Eff

/-- A call of `Observe`: the next UUID, what is observed, and what becomes of
the calls into the file system. -/
structure Poll where
  id : Bytes
  obs : Observation
  faults : List Fault := []

/-- The app and the activity, as JSON reads them back. -/
def Observation.state (o : Observation) : Bytes × Bool := (toValid o.app, o.active)

namespace Buf

variable {m m' : Machine} {acked q : List Heartbeat} {e : Heartbeat}

/-- The newest heartbeat that is not uploaded yet. -/
def newest (m : Machine) : Option Heartbeat := (pending m).getLast?

/-- The state of the newest heartbeat. -/
def newestState (m : Machine) : Option (Bytes × Bool) := (newest m).map fun h => (h.app, h.active)

theorem Holds.newestState_append (h : Holds acked (q ++ [e]) m) : newestState m = some (toValid e.app, e.active) := by
  rw [newestState, newest, h.pending_sanitize, List.map_append, List.getLast?_append]
  rfl

/-- The machine but for the temporary file and the faults. -/
structure Unchanged (m m' : Machine) : Prop where
  file : m'.file = m.file
  buf : m'.buf = m.buf

theorem Unchanged.holds (h : Unchanged m m') (hholds : Holds acked q m) : Holds acked q m' :=
  ⟨h.file.trans hholds.file, by rw [h.buf, hholds.ackedOff], by rw [h.buf, hholds.isOpen]⟩

theorem Unchanged.newestState (h : Unchanged m m') : newestState m' = newestState m := by
  rw [Buf.newestState, newest, pending, h.file, h.buf]
  rfl

/-- An append that returns, to a buffer with room. -/
theorem append_returns (hfits : overflows m.buf = false) (hok : (append e m).1 = .ok ()) :
    ∃ fs, (append e m).2 = appended e { m with faults := fs } := by
  have hwp : wp (append e) (fun _ m' => ∃ fs, m' = appended e { m with faults := fs }) (fun _ _ => True) m := by
    simp only [append, rotateIfFull, wp_bind, wp_read, wp_ite]
    refine ⟨fun hover => absurd (hfits.symm.trans hover) (by decide), fun _ => ?_⟩
    refine wp_ensureOpen_any (wp_write_any (fun fs => ?_) fun _ _ _ => trivial) fun _ _ _ => trivial
    rw [wp_modify]
    exact wp_sys_any (fun fs => ⟨fs, rfl⟩) fun _ _ _ => trivial
  exact (wp_iff.1 hwp).1 () _ (Prod.ext hok rfl)

theorem append_ok (hopen : m.buf.isOpen = true) (hfits : overflows m.buf = false) (hfaults : m.faults = []) :
    (append e m).1 = .ok () := by
  have hwp : wp (append e) (fun _ _ => True) (fun _ _ => False) m :=
    wp_append_fits (fun f hf => by simp [hfaults] at hf) hopen hfits (fun _ _ => trivial) fun _ hdied =>
      hdied.1 hfaults
  obtain ⟨u, m', hrun, -⟩ := hwp.returns
  exact congrArg Prod.fst hrun

end Buf

namespace Agent

variable {rules : List Rule} {a : Agent} {x y : Poll} {before xs : List Poll} {m : Machine} {acked q : List Heartbeat}

/-- The entry of a call, if one is due. -/
def entry (rules : List Rule) (x : Poll) : Heartbeat :=
  { HeartbeatBuilder.heartbeat x.obs with id := x.id, category := categorize rules x.obs.app }

/-- The machine as the call finds it. -/
def facing (a : Agent) (x : Poll) : Machine := { a.machine with faults := x.faults }

def poll (rules : List Rule) (a : Agent) (x : Poll) : Agent :=
  { a with machine := a.facing x }.observe rules x.id x.obs

/-- Calls one after the other. -/
def polls (rules : List Rule) (a : Agent) (xs : List Poll) : Agent := xs.foldl (poll rules) a

/-- An agent that has observed nothing yet. -/
def fresh (m : Machine) : Agent := { builder := newHeartbeatBuilder defaultKeepAlive, machine := m }

/-- `Append` would succeed, and drop nothing for it. -/
def Succeeds (rules : List Rule) (a : Agent) (x : Poll) : Prop :=
  Buf.overflows a.machine.buf = false ∧ (Buf.append (entry rules x) (a.facing x)).1 = .ok ()

/-- `Append` would fail, and leave the buffer as it is. -/
def Fails (rules : List Rule) (a : Agent) (x : Poll) : Prop :=
  (Buf.append (entry rules x) (a.facing x)).1 ≠ .ok () ∧
    (Buf.append (entry rules x) (a.facing x)).2.file = a.machine.file ∧
    (Buf.append (entry rules x) (a.facing x)).2.buf = a.machine.buf

/-- Each append of the calls does one or the other. -/
def Steady (rules : List Rule) (a : Agent) (xs : List Poll) : Prop :=
  ∀ before x, before ++ [x] <+: xs → (polls rules a before).builder.due x.obs = true →
    Succeeds rules (polls rules a before) x ∨ Fails rules (polls rules a before) x

/-- The newest heartbeat is of the observation's state. -/
def Reflects (a : Agent) (x : Poll) : Prop := Buf.newestState a.machine = some x.obs.state

/-- The state before a call: that of the call before, or of the newest heartbeat. -/
def prior (m : Machine) (before : List Poll) : Option (Bytes × Bool) :=
  match before.getLast? with
  | some y => some y.obs.state
  | none => Buf.newestState m

/-! ## One call -/

theorem poll_due (h : a.builder.due x.obs = true) :
    (poll rules a x).machine = (Buf.append (entry rules x) (a.facing x)).2 := by
  rw [poll, observe, HeartbeatBuilder.observe_due h]
  rfl

theorem poll_not_due (h : a.builder.due x.obs = false) : Buf.Unchanged a.machine (poll rules a x).machine := by
  rw [poll, observe, HeartbeatBuilder.observe_not_due h]
  exact ⟨rfl, rfl⟩

theorem poll_builder : (poll rules a x).builder = (a.builder.observe x.obs).2 := by
  cases h : a.builder.due x.obs with
  | true =>
    rw [poll, observe, HeartbeatBuilder.observe_due h]
  | false =>
    rw [poll, observe, HeartbeatBuilder.observe_not_due h]

theorem poll_succeeds (hdue : a.builder.due x.obs = true) (h : Succeeds rules a x)
    (hholds : Buf.Holds acked q a.machine) : Buf.Holds acked (q ++ [entry rules x]) (poll rules a x).machine := by
  obtain ⟨fs, happend⟩ := Buf.append_returns (m := a.facing x) h.1 h.2
  rw [poll_due hdue, happend]
  exact (hholds.tick fs).appended (entry rules x)

theorem poll_fails (hdue : a.builder.due x.obs = true) (h : Fails rules a x) :
    Buf.Unchanged a.machine (poll rules a x).machine := by
  rw [poll_due hdue]
  exact ⟨h.2.1, h.2.2⟩

/-- The same once more, at once: nothing is due. -/
theorem due_again {b : HeartbeatBuilder} {o : Observation} (hk : b.keepAlive = defaultKeepAlive) :
    (b.observe o).2.due o = false := by
  have hzero : o.time.sub o.time = 0 := by simp [Time.sub]
  cases hdue : b.due o with
  | true =>
    rw [HeartbeatBuilder.observe_due hdue, HeartbeatBuilder.due, HeartbeatBuilder.emitted]
    simp [hk, hzero, defaultKeepAlive]
  | false => rwa [HeartbeatBuilder.observe_not_due hdue]

/-! ## Calls one after the other -/

theorem polls_concat : polls rules a (xs ++ [x]) = poll rules (polls rules a xs) x := by
  rw [polls, List.foldl_append]
  rfl

theorem polls_builder : (polls rules a xs).builder = a.builder.after (xs.map Poll.obs) := by
  induction xs using List.reverseRecOn with
  | nil => rfl
  | append_singleton xs x ih =>
    rw [polls_concat, poll_builder, ih, List.map_append, List.map_cons, List.map_nil, HeartbeatBuilder.after_concat]

theorem Steady.of_prefix (h : Steady rules a xs) (hbefore : before <+: xs) : Steady rules a before :=
  fun _ _ hx => h _ _ (hx.trans hbefore)

theorem prior_concat : prior m (xs ++ [x]) = some x.obs.state := by
  rw [prior, List.getLast?_concat]

theorem holds_polls (hholds : Buf.Holds acked q m) (hsteady : Steady rules (fresh m) xs) :
    ∃ q', Buf.Holds acked q' (polls rules (fresh m) xs).machine := by
  induction xs using List.reverseRecOn with
  | nil => exact ⟨q, hholds⟩
  | append_singleton xs x ih =>
    obtain ⟨q', hq'⟩ := ih (hsteady.of_prefix (List.prefix_append _ _))
    rw [polls_concat]
    cases hdue : (polls rules (fresh m) xs).builder.due x.obs with
    | true =>
      rcases hsteady xs x List.prefix_rfl hdue with hsucceeds | hfails
      · exact ⟨_, poll_succeeds hdue hsucceeds hq'⟩
      · exact ⟨_, (poll_fails hdue hfails).holds hq'⟩
    | false => exact ⟨_, (poll_not_due hdue).holds hq'⟩

/-- **What is not due was there before**, and what changes is due. -/
theorem due_of_change (hchange : prior m before ≠ some x.obs.state) :
    (polls rules (fresh m) before).builder.due x.obs = true := by
  rw [polls_builder]
  by_cases hne : before = []
  · subst hne
    rfl
  · have hmap : before.map Poll.obs ≠ [] := by simpa using hne
    obtain ⟨p, e, hp, -, htracks⟩ := @HeartbeatBuilder.tracks_after _ defaultKeepAlive hmap
    refine (htracks.due_iff (by decide) (by decide)).2 ?_
    rw [List.getLast?_map, Option.map_eq_some_iff] at hp
    obtain ⟨y, hy, rfl⟩ := hp
    by_contra hsame
    simp only [not_or, not_not] at hsame
    have hstate : y.obs.state = x.obs.state := by rw [Observation.state, ← hsame.1, ← hsame.2.1]; rfl
    refine hchange ?_
    rw [prior, hy]
    exact congrArg some hstate

/-- No append fails that a change of state makes, while there is room. -/
def KeepsChanges (rules : List Rule) (m : Machine) (xs : List Poll) : Prop :=
  ∀ before x, before ++ [x] <+: xs → prior m before ≠ some x.obs.state →
    Buf.overflows (polls rules (fresh m) before).machine.buf = false → Succeeds rules (polls rules (fresh m) before) x

/-- **The state kept**, while there is room. By induction on the calls, from the end. -/
theorem newestState_polls (hholds : Buf.Holds acked q m) (hsteady : Steady rules (fresh m) xs)
    (hkeeps : KeepsChanges rules m xs) (hroom : Buf.overflows (polls rules (fresh m) xs).machine.buf = false) :
    Buf.newestState (polls rules (fresh m) xs).machine = prior m xs := by
  induction xs using List.reverseRecOn with
  | nil => rfl
  | append_singleton xs x ih =>
    have hprefix : xs <+: xs ++ [x] := List.prefix_append _ _
    have hbefore := hsteady.of_prefix hprefix
    obtain ⟨q', hq'⟩ := holds_polls hholds hbefore
    rw [prior_concat]
    -- nothing is appended: the state is the one before, and was kept
    have hunchanged : Buf.Unchanged (polls rules (fresh m) xs).machine (polls rules (fresh m) (xs ++ [x])).machine →
        ¬ Succeeds rules (polls rules (fresh m) xs) x ∨ prior m xs = some x.obs.state →
        Buf.newestState (polls rules (fresh m) (xs ++ [x])).machine = some x.obs.state := by
      intro hsame hnot
      rw [hsame.buf] at hroom
      have hkept := ih hbefore (fun _ _ hx => hkeeps _ _ (hx.trans hprefix)) hroom
      rw [hsame.newestState, hkept]
      by_contra hchange
      rcases hnot with hnot | hprior
      · exact hnot (hkeeps xs x List.prefix_rfl hchange hroom)
      · exact hchange hprior
    cases hdue : (polls rules (fresh m) xs).builder.due x.obs with
    | true =>
      rcases hsteady xs x List.prefix_rfl hdue with hsucceeds | hfails
      · rw [polls_concat]
        exact (poll_succeeds hdue hsucceeds hq').newestState_append
      · refine hunchanged ?_ (.inl fun hsucceeds => hfails.1 hsucceeds.2)
        rw [polls_concat]
        exact poll_fails hdue hfails
    | false =>
      refine hunchanged ?_ (.inr ?_)
      · rw [polls_concat]
        exact poll_not_due hdue
      · by_contra hchange
        have hchanged : (polls rules (fresh m) xs).builder.due x.obs = true := due_of_change hchange
        rw [hdue] at hchanged
        cases hchanged

/-- A call again, at which nothing fails. -/
def again (x : Poll) : Poll := { x with faults := [] }

theorem clocked_again (h : Clocked ((xs ++ [x]).map Poll.obs)) : Clocked ((xs ++ [x] ++ [again x]).map Poll.obs) := by
  have hwhole := h
  rw [Clocked, List.map_append, List.pairwise_append] at h ⊢
  refine ⟨hwhole, by simp, ?_⟩
  intro o ho o' ho'
  obtain rfl : o' = x.obs := by simpa [again] using ho'
  rw [List.map_append, List.mem_append] at ho
  rcases ho with ho | ho
  · exact h.2.2 o ho _ (by simp)
  · obtain rfl : o = x.obs := by simpa using ho
    exact Int.le_refl _

theorem keepAlive_polls : (polls rules (fresh m) xs).builder.keepAlive = defaultKeepAlive := by
  induction xs using List.reverseRecOn with
  | nil => rfl
  | append_singleton xs x ih =>
    rw [polls_concat, poll_builder]
    cases hdue : (polls rules (fresh m) xs).builder.due x.obs with
    | true => rwa [HeartbeatBuilder.observe_due hdue]
    | false => rwa [HeartbeatBuilder.observe_not_due hdue]

/-- A call at once after another appends nothing. -/
theorem polls_again : Buf.Unchanged (polls rules (fresh m) (xs ++ [x])).machine
    (polls rules (fresh m) (xs ++ [x] ++ [again x])).machine := by
  rw [polls_concat (x := again x)]
  refine poll_not_due ?_
  rw [polls_concat, poll_builder]
  exact due_again keepAlive_polls

theorem succeeds_again (hholds : Buf.Holds acked q a.machine) (hroom : Buf.overflows a.machine.buf = false) :
    Succeeds rules a (again x) := ⟨hroom, Buf.append_ok hholds.isOpen hroom rfl⟩

/-- **The current state and failing appends.** -/
theorem reflects_iff (hholds : Buf.Holds acked q m) (hclock : Clocked (xs.map Poll.obs))
    (hsteady : Steady rules (fresh m) xs) :
    (∀ before, before <+: xs → ∀ x, Clocked ((before ++ [x]).map Poll.obs) →
      Succeeds rules (polls rules (fresh m) before) x → Reflects (polls rules (fresh m) (before ++ [x])) x) ↔
      KeepsChanges rules m xs := by
  constructor
  · intro hreflects before x hx hchange hroom
    have hbefore : before <+: xs := (List.prefix_append _ _).trans hx
    obtain ⟨q', hq'⟩ := holds_polls hholds (hsteady.of_prefix hbefore)
    have hclocked : ∀ {ys : List Poll}, ys <+: xs → Clocked (ys.map Poll.obs) := fun hys =>
      List.Pairwise.sublist (hys.sublist.map _) hclock
    rcases hsteady before x hx (due_of_change hchange) with hsucceeds | hfails
    · exact hsucceeds
    -- the same again is not due, so the newest heartbeat is the one before
    exfalso
    have hsame : Buf.Unchanged (polls rules (fresh m) before).machine
        (polls rules (fresh m) (before ++ [x])).machine := by
      rw [polls_concat]
      exact poll_fails (due_of_change hchange) hfails
    have hnext := hreflects _ hx (again x) (clocked_again (hclocked hx))
      (succeeds_again (hsame.holds hq') (by rw [hsame.buf]; exact hroom))
    rw [Reflects, polls_again.newestState, hsame.newestState] at hnext
    rcases List.eq_nil_or_concat' before with rfl | ⟨ys, y, rfl⟩
    · exact hchange hnext
    · have hlast := hreflects _ hbefore (again y) (clocked_again (hclocked hbefore)) (succeeds_again hq' hroom)
      rw [Reflects, polls_again.newestState] at hlast
      rw [prior_concat] at hchange
      exact hchange (hlast.symm.trans hnext)
  · intro hkeeps before hbefore x hclocked hsucceeds
    have hprefix := hsteady.of_prefix hbefore
    obtain ⟨q', hq'⟩ := holds_polls hholds hprefix
    have hkept := newestState_polls hholds hprefix (fun _ _ hx => hkeeps _ _ (hx.trans hbefore)) hsucceeds.1
    rw [Reflects, polls_concat]
    cases hdue : (polls rules (fresh m) before).builder.due x.obs with
    | true => exact (poll_succeeds hdue hsucceeds hq').newestState_append
    | false =>
      rw [(poll_not_due hdue).newestState, hkept]
      by_contra hchange
      have hchanged : (polls rules (fresh m) before).builder.due x.obs = true := due_of_change hchange
      rw [hdue] at hchanged
      cases hchanged

/-! ## Two runs -/

/-- What holds of the calls, and of one more. -/
theorem forall_prefix_concat {P : List Poll → Poll → Prop} (h : ∀ before z, before ++ [z] <+: xs → P before z)
    (hx : P xs x) : ∀ before z, before ++ [z] <+: xs ++ [x] → P before z := by
  intro before z hz
  rcases List.prefix_concat_iff.1 hz with heq | hprefix
  · obtain ⟨rfl, hlast⟩ := List.append_inj' heq rfl
    cases hlast
    exact hx
  · exact h before z hprefix

theorem forall_prefix_nil {P : List Poll → Poll → Prop} : ∀ before z, before ++ [z] <+: [] → P before z := by
  intro before z hz
  simp at hz

def wordPoll : Poll := { id := str "1", obs := ⟨.epoch, str "word.exe", true⟩ }

/-- The same app 15 seconds later, and the write fails. -/
def keptPoll : Poll where
  id := str "2"
  obs := ⟨⟨15000000000, by decide, by decide⟩, str "word.exe", true⟩
  faults := [.error]

/-- Another app one second later, and the write fails. -/
def lostPoll : Poll where
  id := str "2"
  obs := ⟨⟨1000000000, by decide, by decide⟩, str "mail.exe", true⟩
  faults := [.error]

/-- An agent on an empty file. -/
def onEmpty (xs : List Poll) : Agent := polls [] (fresh (Buf.opened 1000 [])) xs

theorem word_succeeds : Succeeds [] (onEmpty []) wordPoll :=
  ⟨by decide +kernel, Buf.append_ok rfl (by decide +kernel) rfl⟩

theorem kept_fails : Fails [] (onEmpty [wordPoll]) keptPoll := ⟨by decide +kernel, by decide +kernel, rfl⟩

theorem lost_fails : Fails [] (onEmpty [wordPoll]) lostPoll := ⟨by decide +kernel, by decide +kernel, rfl⟩

theorem holds_opened : Buf.Holds [] [] (Buf.opened 1000 []) := ⟨rfl, rfl, rfl⟩

/-- A failed keep-alive does no harm. -/
theorem reflects_kept : Reflects (onEmpty ([wordPoll, keptPoll] ++ [again keptPoll])) (again keptPoll) := by
  refine (@reflects_iff [] [wordPoll, keptPoll] _ [] [] holds_opened ?_ ?_).2 ?_ [wordPoll, keptPoll] List.prefix_rfl
    (again keptPoll) ?_ ?_
  · simp [Clocked, wordPoll, keptPoll, Time.epoch]
  · exact forall_prefix_concat (forall_prefix_concat forall_prefix_nil fun _ => .inl word_succeeds) fun _ =>
      .inr kept_fails
  · exact forall_prefix_concat (forall_prefix_concat forall_prefix_nil fun _ _ => word_succeeds) fun hchange =>
      absurd (by decide +kernel) hchange
  · simp [Clocked, wordPoll, keptPoll, again, Time.epoch]
  · exact ⟨by decide +kernel, by decide +kernel⟩

/-- A change whose append fails, and the same app observed again. -/
theorem reflects_not_lost :
    ¬ ∀ (rules : List Rule) (m : Machine) (acked q : List Heartbeat) (xs : List Poll), Buf.Holds acked q m →
      Clocked (xs.map Poll.obs) → Steady rules (fresh m) xs → ∀ before x, before ++ [x] <+: xs →
        Succeeds rules (polls rules (fresh m) before) x → Reflects (polls rules (fresh m) (before ++ [x])) x := by
  intro h
  have hclock : Clocked ([wordPoll, lostPoll, again lostPoll].map Poll.obs) := by
    simp [Clocked, wordPoll, lostPoll, again, Time.epoch]
  have hdue : (onEmpty [wordPoll, lostPoll]).builder.due (again lostPoll).obs = false := by decide +kernel
  have hsteady : Steady [] (fresh (Buf.opened 1000 [])) ([wordPoll] ++ [lostPoll] ++ [again lostPoll]) := by
    refine forall_prefix_concat (forall_prefix_concat (forall_prefix_concat forall_prefix_nil ?_) ?_) ?_
    · exact fun _ => .inl word_succeeds
    · exact fun _ => .inr lost_fails
    · exact fun hagain => absurd (hdue.symm.trans hagain) (by decide)
  have hreflects := h [] _ [] [] _ holds_opened hclock hsteady [wordPoll, lostPoll] (again lostPoll) List.prefix_rfl
    ⟨by decide +kernel, by decide +kernel⟩
  have hnewest : Buf.newestState (onEmpty [wordPoll, lostPoll, again lostPoll]).machine =
      some (str "word.exe", true) := by decide +kernel
  exact absurd (hnewest.symm.trans hreflects) (by decide +kernel)

end Agent
end ScrewLogger
