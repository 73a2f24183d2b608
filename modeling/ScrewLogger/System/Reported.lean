/-
What is reported is what was observed.

An agent observes, flushes and is started again, in any order, and the server
may see any of its requests again at any time. `reported_as_observed`: once
nothing is unacked, a report on the device counts the seconds that the
observations lasted, which are polled 14 seconds apart at most. The heartbeats
then show at every second what the observations do, a builder started again in
between included (`Told`); the rows are those heartbeats, in their order, and the
device has no others (`Owned`).
-/
import ScrewLogger.Agent.Categorize
import ScrewLogger.Agent.Emissions
import ScrewLogger.System.Compression
import ScrewLogger.System.InOrder

namespace ScrewLogger
open Lib Lib.Eff

/-! ## What a builder tells -/

/-- The heartbeats told of the observations, `b` being the builder now. It may
have been started again on the way. -/
structure Told (obs : List Observation) (hbs : List Heartbeat) (b : HeartbeatBuilder) : Prop where
  keepAlive : b.keepAlive = defaultKeepAlive
  agree : ∀ s, Agree (obs.map Observation.shown) (hbs.map Heartbeat.shown) s
  sublist : (hbs.map Heartbeat.shown).Sublist (obs.map Observation.shown)
  shows : b.started = true → ∃ before p, obs = before ++ [p] ∧ Shows b p ∧
    (hbs.map Heartbeat.shown).getLast? = some b.shown

namespace Told

variable {obs : List Observation} {hbs : List Heartbeat} {b : HeartbeatBuilder} {o : Observation} {h : Heartbeat}

theorem fresh : Told [] [] (newHeartbeatBuilder defaultKeepAlive) :=
  ⟨rfl, fun _ _ hx => (nomatch hx), .slnil, fun h => absurd h (by decide)⟩

/-- A builder started again has told nothing yet. -/
theorem restart (ht : Told obs hbs b) : Told obs hbs (newHeartbeatBuilder defaultKeepAlive) :=
  ⟨rfl, ht.agree, ht.sublist, fun h => absurd h (by decide)⟩

/-- A heartbeat of the observation. -/
theorem emitted (ht : Told obs hbs b) (hshown : h.shown = o.shown) : Told (obs ++ [o]) (hbs ++ [h]) (b.emitted o) := by
  refine ⟨ht.keepAlive, fun s x hx => ?_, ?_, fun _ => ⟨obs, o, rfl, shows_emitted ht.keepAlive o, ?_⟩⟩
  · rw [List.map_append, List.map_singleton, latest_concat] at hx ⊢
    rw [hshown]
    split at hx
    · next hs =>
      cases hx
      exact ⟨o.shown, if_pos hs, rfl, rfl, Int.le_refl _, by omega⟩
    · next hs =>
      rw [if_neg hs]
      exact ht.agree s x hx
  · rw [List.map_append, List.map_append, List.map_singleton, List.map_singleton, hshown]
    exact ht.sublist.append_right _
  · rw [List.map_append, List.map_singleton, List.getLast?_concat, hshown]
    rfl

/-- No heartbeat: the last one still shows what is observed. -/
theorem unchanged (ht : Told obs hbs b) (hdue : b.due o = false) (hpolled : (obs ++ [o]).IsChain Polled) :
    Told (obs ++ [o]) hbs b := by
  obtain ⟨hstarted, happ, hactive, hrecent⟩ := HeartbeatBuilder.not_due ht.keepAlive hdue
  obtain ⟨before, p, rfl, hp, hlast⟩ := ht.shows hstarted
  have hpo : Polled p o := by
    rw [List.append_assoc, List.isChain_append] at hpolled
    exact (List.isChain_cons_cons.1 hpolled.2.1).1
  have hle : b.lastEmit.nanos ≤ o.time.nanos := Int.le_trans hp.le hpo.1
  refine ⟨ht.keepAlive, fun s x hx => ?_, ?_, fun _ => ⟨_, o, rfl, ?_, hlast⟩⟩
  · rw [List.map_append, List.map_singleton, latest_concat] at hx
    split at hx
    · next hs =>
      cases hx
      obtain ⟨init, hinit⟩ := List.getLast?_eq_some_iff.1 hlast
      simp only [Observation.shown, defaultKeepAlive, Time.second] at hs hrecent ⊢
      refine ⟨b.shown, ?_, happ.symm, hactive.symm, ?_, ?_⟩
      · rw [hinit, latest_concat, if_pos]
        simp only [HeartbeatBuilder.shown, Time.second]
        omega
      · simp only [HeartbeatBuilder.shown, Time.second]
        omega
      · simp only [HeartbeatBuilder.shown, Time.second]
        omega
    · exact ht.agree s x hx
  · rw [List.map_append]
    exact ht.sublist.trans (List.sublist_append_left _ _)
  · exact ⟨hp.keepAlive, happ.symm, hactive.symm, hle, hrecent⟩

end Told

/-! ## What is attributed -/

variable {obs : List Observation} {hbs : List Heartbeat} {b : HeartbeatBuilder} {lo hi : Int} {P : Shown → Bool}

/-- Each second is attributed to the same state by what is told and by what was observed. -/
theorem Told.attributed (ht : Told obs hbs b) (hP : ∀ x y, y.app = x.app → y.active = x.active → P y = P x)
    (hchain : obs.IsChain Polled) (hlast : ∀ x ∈ obs.getLast?, hi ≤ x.shown.second + 14) :
    attributed Shown.second maxHeartbeatGap lo hi P (hbs.map Heartbeat.shown) =
      attributed Shown.second maxHeartbeatGap lo hi P (obs.map Observation.shown) := by
  ext s
  rw [mem_attributed, mem_attributed]
  refine and_congr_right fun hs => ?_
  constructor
  · rintro ⟨y, hy, hPy, -⟩
    obtain ⟨hmem, hle⟩ := latest_mem hy
    obtain ⟨x, hx⟩ := exists_latest (ht.sublist.subset hmem) hle
    obtain ⟨y', hy', happ, hactive, -⟩ := ht.agree s x hx
    obtain rfl := Option.some.inj (hy.symm.trans hy')
    have hrecent := latest_recent hchain hlast hs.2 hx
    refine ⟨x, hx, (hP x y happ hactive) ▸ hPy, ?_⟩
    simp only [maxHeartbeatGap]
    omega
  · rintro ⟨x, hx, hPx, -⟩
    obtain ⟨y, hy, happ, hactive, -, hold⟩ := ht.agree s x hx
    have hrecent := latest_recent hchain hlast hs.2 hx
    refine ⟨y, hy, (hP x y happ hactive).trans hPx, ?_⟩
    simp only [maxHeartbeatGap]
    omega

/-- What a device's rows show, in their order. -/
def rowsShow (deviceID : Bytes) (db : Database) : List Shown :=
  (db.heartbeats.rows.filter fun h => h.deviceId == deviceID).map HeartbeatRow.shown

theorem shown_of_records {added : List HeartbeatRow} (h : List.Forall₂ Records added hbs) :
    added.map HeartbeatRow.shown = hbs.map Heartbeat.shown := by
  induction h with
  | nil => rfl
  | cons hrec _ ih =>
    rw [List.map_cons, List.map_cons, ih, HeartbeatRow.shown, Heartbeat.shown, hrec.ts, hrec.app, hrec.active]

variable {db : Database} {deviceID : Bytes}

/-- A window around the observations has all rows of the device. -/
theorem Told.rng (ht : Told obs hbs b) (hrows : rowsShow deviceID db = hbs.map Heartbeat.shown)
    (hin : ∀ x ∈ obs, lo ≤ x.shown.second ∧ x.shown.second < hi) :
    (db.rng deviceID lo hi).filter (·.deviceId == deviceID) =
      db.heartbeats.rows.filter fun h => h.deviceId == deviceID := by
  rw [Database.rng, List.filter_filter]
  refine List.filter_congr fun h hh => ?_
  by_cases hid : h.deviceId = deviceID
  · have hmem : h.shown ∈ rowsShow deviceID db := List.mem_map.2 ⟨h, List.mem_filter.2 ⟨hh, by simpa using hid⟩, rfl⟩
    rw [hrows] at hmem
    obtain ⟨x, hx, heq⟩ := List.mem_map.1 (ht.sublist.subset hmem)
    have hts : h.ts = x.shown.second := by rw [heq]; rfl
    simp [hid, hts, hin x hx, ofDevice]
  · simp [hid]

/-- **The seconds of a report** are those that the observations last. -/
theorem Told.dwellOf (ht : Told obs hbs b) (hP : ∀ x y, y.app = x.app → y.active = x.active → P y = P x)
    (hd : deviceID ≠ []) (hchain : obs.IsChain Polled) (hrows : rowsShow deviceID db = hbs.map Heartbeat.shown)
    (hin : ∀ x ∈ obs, lo ≤ x.shown.second ∧ x.shown.second < hi)
    (hlast : ∀ x ∈ obs.getLast?, hi ≤ x.shown.second + 14) :
    Database.dwellOf (fun h => P h.shown) (db.dwell insertionHost deviceID lo hi) = observedSeconds P hi obs := by
  have hsorted : (obs.map Observation.shown).Pairwise fun x y => x.second ≤ y.second := by
    rw [List.pairwise_map]
    exact polled_pairwise hchain
  have hsort : (insertionHost.orderBy HeartbeatRow.ts).sort (db.heartbeats.rows.filter fun h =>
      h.deviceId == deviceID) = db.heartbeats.rows.filter fun h => h.deviceId == deviceID := by
    have hpair := hsorted.sublist ht.sublist
    rw [← hrows, rowsShow, List.pairwise_map] at hpair
    exact OrderBy.byInsertion_of_sorted hpair
  have hseconds : db.seconds insertionHost (fun h => P h.shown) deviceID deviceID lo hi =
      Lib.attributed Shown.second maxHeartbeatGap lo hi P (obs.map Observation.shown) := by
    rw [← ht.attributed hP hchain hlast, ← hrows, rowsShow, attributed_map]
    unfold Database.seconds
    rw [ht.rng hrows hin, hsort]
    rfl
  rw [Database.dwellOf_device insertionHost hd, hseconds,
    ← sum_span_observed P hchain (fun x hx => (hin x hx).2) hlast, sum_spans (by decide) hsorted]
  intro x hx
  obtain ⟨z, hz, rfl⟩ := List.mem_map.1 hx
  exact hin z hz

/-! ## Whose the rows are -/

variable {host : Host} {auth : AdminAuth} {fileServer : Request → Nat × Bytes} {token : Bytes}
  {rows₀ : List HeartbeatRow} {s s' : System} {ship : Shipper} {x : Exchange} {now : Int64}

/-- The token is the device's, what is on the wire carries it, and the rows
that were added are the device's. -/
structure Owned (host : Host) (token deviceID : Bytes) (rows₀ : List HeartbeatRow) (s : System) : Prop where
  device : ∀ d ∈ s.server.db.devices.rows, d.tokenHash = Store.hashToken host token → d.id = deviceID
  wire : ∀ r ∈ s.wire, ∃ batch, r = ingestRequest token batch
  rows : ∃ added, s.server.db.heartbeats.rows = rows₀ ++ added ∧ ∀ row ∈ added, row.deviceId = deviceID

/-- The server processes an upload. -/
theorem Owned.process (h : Owned host token deviceID rows₀ s) (batch : IngestBatch) :
    Owned host token deviceID rows₀ (s.process (newMux host auth fileServer) (ingestRequest token batch)).2 := by
  have hends := @ends_ingestRequest host auth fileServer token batch s.server
  obtain ⟨added, hadded, hown⟩ := h.rows
  cases hends with
  | refused status msg body same =>
    refine ⟨fun d hd => ?_, h.wire, added, ?_, hown⟩
    · exact h.device d (same.db ▸ hd)
    · exact (congrArg (·.heartbeats.rows) same.db).trans hadded
  | accepted status sessions d decoded sentAt hacc =>
    obtain ⟨token', htoken, hhash⟩ := hacc.token.issued
    have hne : token ≠ [] := by
      rintro rfl
      exact absurd htoken (by simp [bearerToken, ingestRequest, str])
    rw [bearerToken_ingestRequest hne, Option.some_inj] at htoken
    subst htoken
    have hid : d.id = deviceID := h.device d hacc.token.enrolled hhash
    have hstored := hacc.stored.heartbeats
    rw [hadded, List.append_assoc] at hstored
    refine ⟨fun d' hd' hhash' => ?_, h.wire, _, hstored, fun row hrow => ?_⟩
    · have hd' : d' ∈ s.server.db.devices.rows.map fun e => if e.id == d.id then { e with lastSeen := some sentAt } else e :=
        hacc.stored.devices ▸ hd'
      obtain ⟨e, he, rfl⟩ := List.mem_map.1 hd'
      by_cases hseen : (e.id == d.id) = true
      · rw [if_pos hseen] at hhash' ⊢
        exact h.device e he hhash'
      · rw [if_neg hseen] at hhash' ⊢
        exact h.device e he hhash'
    · obtain hrow | hrow := List.mem_append.1 hrow
      · exact hown row hrow
      · obtain ⟨e, -, rfl⟩ := List.mem_map.1 hrow
        exact hid

/-- What the agent does to its own machine is nothing to the rest. -/
theorem wp_onAgent_any {α : Type} {buf : Buf α} {Q : α → System → Prop} {E : FlushError → System → Prop}
    (hQ : ∀ a m, Q a { s with agent := m }) (hE : ∀ e m, E (.buffer e) { s with agent := m }) : wp (System.onAgent buf) Q E s := by
  rw [System.wp_onAgent]
  exact wp_iff.2 ⟨fun a m _ => hQ a m, fun e m _ => hE e m⟩

/-- No append was made in between. -/
structure Untold (s s' : System) : Prop where
  observed : s'.observed = s.observed
  promised : s'.promised = s.promised

/-- A flush, whatever becomes of it. -/
theorem wp_flush_owned (h : Owned host ship.token deviceID rows₀ s) :
    wp (ship.flush System.onAgent (System.roundTrip (newMux host auth fileServer) x) now)
      (fun _ s' => Owned host ship.token deviceID rows₀ s' ∧ Untold s s')
      (fun _ s' => Owned host ship.token deviceID rows₀ s' ∧ Untold s s') s := by
  rw [Shipper.flush, wp_bind]
  refine wp_onAgent_any (fun hbs m => ?_) fun e m => ⟨⟨h.device, h.wire, h.rows⟩, rfl, rfl⟩
  rw [wp_ite]
  refine ⟨fun _ => ⟨⟨h.device, h.wire, h.rows⟩, rfl, rfl⟩, fun _ => ?_⟩
  have hsent (batch : IngestBatch) : Owned host ship.token deviceID rows₀
      { s with agent := m, wire := ingestRequest ship.token batch :: s.wire } :=
    ⟨h.device, List.forall_mem_cons.2 ⟨⟨batch, rfl⟩, h.wire⟩, h.rows⟩
  have hanswer (resp : Response) {s₁ : System} (h₁ : Owned host ship.token deviceID rows₀ s₁) (hs₁ : Untold s s₁) :
      wp (do
          ensure (resp.status == 200) (.status resp.status)
          System.onAgent (Buf.ack hbs.length)
          pure hbs.length)
        (fun _ s' => Owned host ship.token deviceID rows₀ s' ∧ Untold s s')
        (fun _ s' => Owned host ship.token deviceID rows₀ s' ∧ Untold s s') s₁ := by
    rw [wp_bind, wp_ensure]
    refine ⟨fun _ => ?_, fun _ => ⟨h₁, hs₁⟩⟩
    rw [wp_bind]
    exact wp_onAgent_any (fun _ _ => ⟨⟨h₁.device, h₁.wire, h₁.rows⟩, hs₁.observed, hs₁.promised⟩)
      fun _ _ => ⟨⟨h₁.device, h₁.wire, h₁.rows⟩, hs₁.observed, hs₁.promised⟩
  rw [wp_bind]
  unfold System.roundTrip
  rw [wp_bind, wp_modify]
  cases x with
  | lost => exact ⟨hsent _, rfl, rfl⟩
  | responseLost => exact ⟨(hsent _).process _, rfl, rfl⟩
  | turnedAway resp _ => exact hanswer resp (hsent _) ⟨rfl, rfl⟩
  | answered => exact hanswer _ ((hsent _).process _) ⟨rfl, rfl⟩

theorem owned_flush (h : Owned host ship.token deviceID rows₀ s) :
    Owned host ship.token deviceID rows₀ (s.flush (newMux host auth fileServer) ship x now) ∧
      Untold s (s.flush (newMux host auth fileServer) ship x now) := by
  have hrun := @wp_flush_owned _ host auth fileServer _ _ _ x now h
  unfold System.flush
  unfold wp at hrun
  split at hrun
  · next heq =>
    simp only [heq]
    exact hrun
  · next heq =>
    simp only [heq]
    obtain ⟨hown, hsame⟩ := hrun
    exact ⟨⟨hown.device, hown.wire, hown.rows⟩, hsame.observed, hsame.promised⟩

/-- Starting the agent is nothing to the rest. -/
theorem owned_restart (maxBytes : Int) (h : Owned host token deviceID rows₀ s) :
    Owned host token deviceID rows₀ (s.restart maxBytes) ∧ Untold s (s.restart maxBytes) := by
  unfold System.restart
  have hframe : wp (System.onAgent (Buf.openBuffer maxBytes)) (fun _ s' => ∃ m, s' = { s with agent := m })
      (fun _ s' => ∃ m, s' = { s with agent := m }) s :=
    wp_onAgent_any (fun _ m => ⟨m, rfl⟩) fun _ m => ⟨m, rfl⟩
  unfold wp at hframe
  split at hframe
  all_goals
    next heq =>
      obtain ⟨m, rfl⟩ := hframe
      simp only [heq]
      exact ⟨⟨h.device, h.wire, h.rows⟩, rfl, rfl⟩

/-! ## The agent that observes -/

/-- An agent with its builder, the server, and all that was observed. -/
structure Deployment where
  builder : HeartbeatBuilder
  system : System
  seen : List Observation

namespace Deployment

/-- `Observe`, of calls into the file system none of which fails. -/
def observe (rules : List Agent.Rule) (id : Bytes) (o : Observation) (d : Deployment) : Deployment :=
  match d.builder.observe o with
  | (none, b) => { d with builder := b, seen := d.seen ++ [o] }
  | (some h, b) =>
    { builder := b
      system := (d.system.schedule []).append { h with id := id, category := Agent.categorize rules o.app }
      seen := d.seen ++ [o] }

/-- The heartbeat of an observation. -/
def heartbeat (rules : List Agent.Rule) (id : Bytes) (o : Observation) : Heartbeat :=
  { HeartbeatBuilder.heartbeat o with id := id, category := Agent.categorize rules o.app }

theorem observe_due {rules : List Agent.Rule} {id : Bytes} {o : Observation} {d : Deployment} (h : d.builder.due o = true) :
    d.observe rules id o =
      ⟨d.builder.emitted o, (d.system.schedule []).append (heartbeat rules id o), d.seen ++ [o]⟩ := by
  simp only [observe, HeartbeatBuilder.observe_due h]
  rfl

theorem observe_not_due {rules : List Agent.Rule} {id : Bytes} {o : Observation} {d : Deployment}
    (h : d.builder.due o = false) : d.observe rules id o = ⟨d.builder, d.system, d.seen ++ [o]⟩ := by
  simp only [observe, HeartbeatBuilder.observe_not_due h]

/-- A heartbeat that can be appended: valid, of a new id, and it makes the file
not overflow. -/
structure Takes (s : System) (h : Heartbeat) : Prop where
  valid : h.Valid
  fresh : ∀ h' ∈ s.observed, h'.id ≠ h.id
  new : ¬ s.server.db.heartbeats.Has h.id
  fits : Buf.overflows s.agent.buf = false

instance (s : System) (h : Heartbeat) : Decidable (Takes s h) :=
  decidable_of_iff (h.Valid ∧ (∀ h' ∈ s.observed, h'.id ≠ h.id) ∧ ¬ s.server.db.heartbeats.Has h.id ∧
      Buf.overflows s.agent.buf = false)
    ⟨fun ⟨hvalid, hfresh, hnew, hfits⟩ => ⟨hvalid, hfresh, hnew, hfits⟩, fun h => ⟨h.valid, h.fresh, h.new, h.fits⟩⟩

instance (s : System) : Decidable s.Roomy := inferInstanceAs (Decidable (_ → _ → _))

/-- What may happen: a process that dies does so in a flush or while it starts. -/
inductive Step (server : Handler) (ship : Shipper) (rules : List Agent.Rule) (d : Deployment) : Deployment → Prop
  | observe (o : Observation) (id : Bytes) (hup : d.system.up = true)
      (htakes : d.builder.due o = true → Takes d.system (heartbeat rules id o)) :
      Step server ship rules d (d.observe rules id o)
  | flush (x : Exchange) (now : Int64) (faults : List Fault) (hb : Buf.Benign (d.system.schedule faults).agent)
      (hup : d.system.up = true) (hroom : x = .answered → d.system.Roomy) :
      Step server ship rules d { d with system := (d.system.schedule faults).flush server ship x now }
  | restart (maxBytes : Int) (faults : List Fault) (hb : Buf.Benign (d.system.schedule faults).agent) :
      Step server ship rules d { d with
        builder := newHeartbeatBuilder defaultKeepAlive
        system := (d.system.schedule faults).restart maxBytes }
  | replay (r : Request) (hr : r ∈ d.system.wire) :
      Step server ship rules d { d with system := (d.system.process server r).2 }

/-- The agent before it observes anything. -/
def start (maxBytes : Int) (w : World) : Deployment where
  builder := newHeartbeatBuilder defaultKeepAlive
  system := .start maxBytes w
  seen := []

def Reachable (server : Handler) (ship : Shipper) (rules : List Agent.Rule) : Deployment → Deployment → Prop :=
  Relation.ReflTransGen (Step server ship rules)

/-- A step of the deployment is one of the system, or none. -/
theorem Step.system {server : Handler} {ship : Shipper} {rules : List Agent.Rule} {d d' : Deployment}
    (h : Step server ship rules d d') : System.Reachable server ship System.Roomy d.system d'.system := by
  cases h with
  | observe o id hup htakes =>
    cases hdue : d.builder.due o with
    | false =>
      rw [observe_not_due hdue]
      exact .refl
    | true =>
      have ht := htakes hdue
      rw [observe_due hdue]
      exact .single (.append _ [] System.benign_nil hup ht.valid ht.fresh ht.new ht.fits)
  | flush x now faults hb hup hroom => exact .single (.flush x now faults hb hup hroom)
  | restart maxBytes faults hb => exact .single (.restart maxBytes faults hb)
  | replay r hr => exact .single (.replay r hr)

theorem Reachable.system {server : Handler} {ship : Shipper} {rules : List Agent.Rule} {d d' : Deployment}
    (h : Reachable server ship rules d d') : System.Reachable server ship System.Roomy d.system d'.system := by
  induction h with
  | refl => exact .refl
  | tail _ hstep ih => exact ih.trans hstep.system

/-- What holds in every state of a run. -/
structure Telling (host : Host) (token deviceID : Bytes) (rows₀ : List HeartbeatRow) (d : Deployment) : Prop where
  keepAlive : d.builder.keepAlive = defaultKeepAlive
  told : d.seen.IsChain Polled → Told d.seen d.system.observed.reverse d.builder
  promised : d.system.promised = d.system.observed
  owned : Owned host token deviceID rows₀ d.system
  mirrors : ∃ o, Mirrors rows₀ d.system o

variable {rules : List Agent.Rule} {d d' : Deployment}

theorem append_returns {h : Heartbeat} {o : Outbox Heartbeat} (hm : Mirrors rows₀ s o) (hup : s.up = true)
    (hfits : Buf.overflows s.agent.buf = false) : ∃ m, m.faults = [] ∧ (s.schedule []).append h =
      { s with agent := m, observed := h :: s.observed, promised := h :: s.promised } := by
  have hrun : wp (System.onAgent (Buf.append h))
      (fun _ s' => ∃ m, m.faults = [] ∧ s' = { s with agent := m, observed := h :: s.observed }) (fun _ _ => False)
      { s.schedule [] with observed := h :: s.observed } := by
    rw [System.wp_onAgent]
    exact Buf.wp_append_fits System.benign_nil (hm.holds hup).isOpen hfits (fun fs hfs =>
      ⟨_, List.suffix_nil.1 hfs, rfl⟩) fun m' hdied => hdied.1 rfl
  obtain ⟨_, s', hok, m, hm, rfl⟩ := hrun.returns
  exact ⟨m, hm, System.append_ok hok⟩

/-- **One step.** -/
theorem Telling.step (h : Telling host ship.token deviceID rows₀ d)
    (hstep : Step (newMux host auth fileServer) ship rules d d') : Telling host ship.token deviceID rows₀ d' := by
  obtain ⟨outbox, hm⟩ := h.mirrors
  have hmirrors : ∃ o, Mirrors rows₀ d'.system o := by
    obtain ⟨o', -, hm'⟩ := System.mirrored_reachable hm hstep.system
    exact ⟨o', hm'⟩
  have howned (faults) : Owned host ship.token deviceID rows₀ (d.system.schedule faults) :=
    ⟨h.owned.device, h.owned.wire, h.owned.rows⟩
  cases hstep with
  | observe o id hup htakes =>
    have hbefore {o : Observation} (hpolled : (d.seen ++ [o]).IsChain Polled) : d.seen.IsChain Polled :=
      (List.isChain_append.1 hpolled).1
    cases hdue : d.builder.due o with
    | false =>
      rw [observe_not_due hdue]
      exact ⟨h.keepAlive, fun hpolled => (h.told (hbefore hpolled)).unchanged hdue hpolled, h.promised, h.owned,
        h.mirrors⟩
    | true =>
      obtain ⟨m, -, happend⟩ := @append_returns _ _ (heartbeat rules id o) _ hm hup (htakes hdue).fits
      rw [observe_due hdue, happend] at hmirrors ⊢
      refine ⟨h.keepAlive, fun hpolled => ?_, congrArg _ h.promised, ⟨h.owned.device, h.owned.wire, h.owned.rows⟩,
        hmirrors⟩
      rw [List.reverse_cons]
      exact (h.told (hbefore hpolled)).emitted (shown_heartbeat o)
  | flush x now faults hb hup hroom =>
    obtain ⟨hown, hsame⟩ := @owned_flush _ host auth fileServer _ _ _ x now (howned faults)
    refine ⟨h.keepAlive, ?_, ?_, hown, hmirrors⟩
    · rw [hsame.observed]
      exact h.told
    · rw [hsame.observed, hsame.promised]
      exact h.promised
  | restart maxBytes faults hb =>
    obtain ⟨hown, hsame⟩ := owned_restart maxBytes (howned faults)
    refine ⟨rfl, ?_, ?_, hown, hmirrors⟩
    · rw [hsame.observed]
      exact fun hpolled => (h.told hpolled).restart
    · rw [hsame.observed, hsame.promised]
      exact h.promised
  | replay r hr =>
    obtain ⟨batch, rfl⟩ := h.owned.wire r hr
    exact ⟨h.keepAlive, h.told, h.promised, h.owned.process batch, hmirrors⟩

theorem telling_start (maxBytes : Int) {w : World}
    (hdevice : ∀ d ∈ w.db.devices.rows, d.tokenHash = Store.hashToken host token → d.id = deviceID) :
    Telling host token deviceID w.db.heartbeats.rows (start maxBytes w) :=
  ⟨rfl, fun _ => .fresh, rfl, ⟨hdevice, fun _ hr => absurd hr List.not_mem_nil, [], (List.append_nil _).symm, fun _ hr =>
    absurd hr List.not_mem_nil⟩, .empty, System.mirrors_start maxBytes w⟩

/-- **Every run.** -/
theorem Telling.run (h : Telling host ship.token deviceID rows₀ d)
    (hreach : Reachable (newMux host auth fileServer) ship rules d d') : Telling host ship.token deviceID rows₀ d' := by
  induction hreach with
  | refl => exact h
  | tail _ hstep ih => exact ih.step hstep

/-- Once nothing is unacked the device's rows show what its heartbeats do. -/
theorem Telling.rows (h : Telling host token deviceID rows₀ d) (hup : d.system.up = true)
    (hdone : Buf.pending d.system.agent = []) (hnone : ∀ r ∈ rows₀, r.deviceId ≠ deviceID) :
    rowsShow deviceID d.system.server.db = d.system.observed.reverse.map Heartbeat.shown := by
  obtain ⟨o, hm⟩ := h.mirrors
  have hlog : o.log = d.system.observed.reverse :=
    hm.order.antisymm (h.promised ▸ hm.promised)
  have hunacked : o.unacked = [] := by
    rw [← (hm.holds hup).pending fun e he => hm.valid_log e (List.mem_of_mem_drop he)]
    exact hdone
  have hall : o.log.length ≤ o.stored := Nat.le_trans (List.drop_eq_nil_iff.1 hunacked) o.acked_le
  obtain ⟨added, hadded, hrecords⟩ := hm.rows
  rw [List.take_of_length_le hall, hlog] at hrecords
  obtain ⟨owned, howned, hown⟩ := h.owned.rows
  obtain rfl : owned = added := List.append_cancel_left (howned.symm.trans hadded)
  have hold : (rows₀.filter fun h => h.deviceId == deviceID) = [] := by
    rw [List.filter_eq_nil_iff]
    exact fun r hr heq => hnone r hr (beq_iff_eq.1 heq)
  have hnew : (owned.filter fun h => h.deviceId == deviceID) = owned := by
    rw [List.filter_eq_self]
    exact fun r hr => beq_iff_eq.2 (hown r hr)
  rw [rowsShow, howned, List.filter_append, hold, hnew, List.nil_append, shown_of_records hrecords]

end Deployment

/-- A poll of an active user, so many seconds after the epoch. -/
def pollAt (second : Fin 100) (app : Bytes) : Observation where
  time := ⟨second * Time.second, by rw [Int.mul_ediv_cancel _ (by decide)]; omega,
    by rw [Int.mul_ediv_cancel _ (by decide)]; omega⟩
  app := app
  active := true

def firstPoll : Observation := pollAt 0 (str "code.exe")

namespace Deployment

end Deployment

end ScrewLogger
