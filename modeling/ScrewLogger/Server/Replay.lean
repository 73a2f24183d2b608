/-
Ingest as a merge of batches that may come in any order and more than once.

`ingest_is_merge`: whatever calls of `InsertHeartbeats` deliver the same
heartbeats leave the same readings, one for each id; the counts they return add
up to the rows gained; and a call that comes after a recategorizing leaves every
row as that made it.
-/
import ScrewLogger.Server.Arrival

namespace ScrewLogger
open Lib Lib.Eff

namespace Store

/-- A call of `InsertHeartbeats`. -/
structure Call where
  deviceID : Bytes
  agentSentAt : Int
  heartbeats : List Heartbeat

inductive Event
  | ingest (call : Call)
  | recategorize (pattern category : Bytes)

/-- The tables, and what the calls so far that returned have delivered and counted. -/
structure Ledger where
  world : World
  delivered : List (Bytes × Heartbeat) := []
  accepted : Nat := 0

def Event.step : Event → Ledger → Ledger
  | .ingest call, m =>
    match insertHeartbeats call.deviceID call.agentSentAt call.heartbeats m.world with
    | (.ok n, w) => ⟨w, m.delivered ++ call.heartbeats.map (call.deviceID, ·), m.accepted + n⟩
    | (.error _, w) => { m with world := w }
  | .recategorize pattern category, m => { m with world := (Store.recategorize pattern category m.world).2 }

/-- Calls one after the other. -/
def merge (events : List Event) (w : World) : Ledger := events.foldl (fun m e => e.step m) ⟨w, [], 0⟩

/-- Equal ids mean equal heartbeats of one device. -/
def Consistent (delivered : List (Bytes × Heartbeat)) : Prop :=
  ∀ x ∈ delivered, ∀ y ∈ delivered, x.2.id = y.2.id → x = y

instance (delivered : List (Bytes × Heartbeat)) : Decidable (Consistent delivered) :=
  inferInstanceAs (Decidable (∀ x ∈ delivered, ∀ y ∈ delivered, x.2.id = y.2.id → x = y))

/-! ## One call -/

/-- What a call does: it returns, and its batch is stored and counted, or nothing changes. -/
theorem step_ingest (call : Call) (m : Ledger) : let m' := (Event.ingest call).step m
    (m'.delivered = m.delivered ++ call.heartbeats.map (call.deviceID, ·) ∧
      m'.accepted = m.accepted + (newHeartbeats (m.world.db.heartbeats.rows.map (·.id)) call.heartbeats).length ∧
      ∃ now, Ingested call.deviceID call.agentSentAt call.heartbeats now m.world.db m'.world.db) ∨
    (m'.delivered = m.delivered ∧ m'.accepted = m.accepted ∧ m'.world.db = m.world.db) := by
  intro m'
  have h := (atomic_insertHeartbeats call.deviceID call.agentSentAt call.heartbeats).ends m.world
  simp only [m', Event.step]
  cases hrun : insertHeartbeats call.deviceID call.agentSentAt call.heartbeats m.world with
  | mk r w =>
    rw [hrun] at h
    obtain ⟨n, hr, hn, now, hi⟩ | ⟨e, hr, -, hdb⟩ := h
    · subst hr
      exact .inl ⟨rfl, by rw [← hn], now, hi⟩
    · subst hr
      exact .inr ⟨rfl, rfl, hdb⟩

/-- A recategorizing gives the heartbeats it matches its category, or does nothing. -/
theorem step_recategorize (pattern category : Bytes) (m : Ledger) :
    let m' := (Event.recategorize pattern category).step m
    m'.delivered = m.delivered ∧ m'.accepted = m.accepted ∧
      (m'.world.db.heartbeats.rows = m.world.db.heartbeats.rows.map (recategorized pattern category) ∨
        m'.world.db = m.world.db) := by
  refine ⟨rfl, rfl, ?_⟩
  obtain ⟨n, -, -, -, -, hrows⟩ | ⟨e, -, -, hdb⟩ := (atomic_recategorize pattern category).ends m.world
  · exact .inl hrows
  · exact .inr hdb

theorem recategorized_id {pattern category : Bytes} {h : HeartbeatRow} :
    (recategorized pattern category h).id = h.id := by
  unfold recategorized
  split <;> rfl

/-! ## What the calls count -/

/-- The accepted heartbeats are the rows gained since `db`, and every heartbeat
that was delivered has its row. -/
structure Counted (db : Database) (m : Ledger) : Prop where
  gained : m.world.db.heartbeats.rows.length = db.heartbeats.rows.length + m.accepted
  has_row : ∀ x ∈ m.delivered, m.world.db.heartbeats.Has x.2.id

theorem Counted.step {db : Database} {m : Ledger} (h : Counted db m) (e : Event) : Counted db (e.step m) := by
  cases e with
  | ingest call =>
    obtain ⟨hdelivered, haccepted, now, hi⟩ | ⟨hdelivered, haccepted, hdb⟩ := step_ingest call m
    · refine ⟨?_, fun x hx => ?_⟩
      · rw [hi.heartbeats, haccepted, List.length_append, List.length_map, h.gained]
        omega
      · rw [hdelivered, List.mem_append, List.mem_map] at hx
        obtain hx | ⟨hb, hmem, rfl⟩ := hx
        · rw [Table.Has, hi.heartbeats, List.map_append]
          exact List.mem_append_left _ (h.has_row x hx)
        · exact hi.has_id hb hmem
    · exact ⟨by rw [hdb, haccepted, h.gained], fun x hx => hdb ▸ h.has_row x (hdelivered ▸ hx)⟩
  | recategorize pattern category =>
    obtain ⟨hdelivered, haccepted, hrows | hdb⟩ := step_recategorize pattern category m
    · refine ⟨by rw [hrows, haccepted, List.length_map, h.gained], fun x hx => ?_⟩
      obtain ⟨row, hmem, hid⟩ := Table.has_iff.1 (h.has_row x (hdelivered ▸ hx))
      exact Table.has_iff.2 ⟨_, hrows ▸ List.mem_map_of_mem hmem, recategorized_id.trans hid⟩
    · exact ⟨by rw [hdb, haccepted, h.gained], fun x hx => hdb ▸ h.has_row x (hdelivered ▸ hx)⟩

theorem merge_concat {events : List Event} {e : Event} {w : World} :
    merge (events ++ [e]) w = e.step (merge events w) := by
  rw [merge, List.foldl_append]
  rfl

theorem merge_counted (events : List Event) (w : World) : Counted w.db (merge events w) := by
  induction events using List.reverseRecOn with
  | nil => exact ⟨rfl, nofun⟩
  | append_singleton events e ih =>
    rw [merge_concat]
    exact ih.step e

/-! ## What the calls leave -/

/-- The readings since `db` are those of the heartbeats delivered whose ids were new. -/
def Merged (db : Database) (m : Ledger) : Prop :=
  ∀ r, r ∈ m.world.db.heartbeats.rows.map HeartbeatRow.reading ↔ r ∈ db.heartbeats.rows.map HeartbeatRow.reading ∨
    ∃ x ∈ m.delivered, ¬ db.heartbeats.Has x.2.id ∧ r = toRow x.1 0 0 x.2

theorem has_of_reading {db : Database} {r : HeartbeatRow} (h : r ∈ db.heartbeats.rows.map HeartbeatRow.reading) :
    db.heartbeats.Has r.id := by
  obtain ⟨row, hmem, rfl⟩ := List.mem_map.1 h
  exact Table.has_iff.2 ⟨row, hmem, rfl⟩

/-- An id is there just if it was or a heartbeat was delivered with it. -/
theorem Merged.has {db : Database} {m : Ledger} (h : Merged db m) (id : Bytes) :
    m.world.db.heartbeats.Has id → db.heartbeats.Has id ∨ ∃ x ∈ m.delivered, ¬ db.heartbeats.Has x.2.id ∧
      x.2.id = id ∧
      toRow x.1 0 0 x.2 ∈ m.world.db.heartbeats.rows.map HeartbeatRow.reading := by
  intro hhas
  obtain ⟨row, hmem, rfl⟩ := Table.has_iff.1 hhas
  have hreading := List.mem_map_of_mem (f := HeartbeatRow.reading) hmem
  obtain hold | ⟨x, hx, hnew, heq⟩ := (h _).1 hreading
  · exact .inl (has_of_reading (r := row.reading) hold)
  · exact .inr ⟨x, hx, hnew, (congrArg HeartbeatRow.id heq).symm, heq ▸ hreading⟩

/-- **One call.** Where the heartbeats delivered are consistent, so is what it leaves. -/
theorem Merged.step {db : Database} {m : Ledger} {call : Call} (h : Merged db m)
    (hold : ∀ id, db.heartbeats.Has id → m.world.db.heartbeats.Has id)
    (hcons : Consistent ((Event.ingest call).step m).delivered) : Merged db ((Event.ingest call).step m) := by
  obtain ⟨hdelivered, -, now, hi⟩ | ⟨hdelivered, -, hdb⟩ := step_ingest call m
  · intro r
    rw [hdelivered] at hcons ⊢
    rw [hi.heartbeats, List.map_append, List.mem_append, h r]
    constructor
    · intro hr
      obtain (hr | ⟨x, hx, hnew, rfl⟩) | hr := hr
      · exact .inl hr
      · exact .inr ⟨x, List.mem_append_left _ hx, hnew, rfl⟩
      · obtain ⟨_, hrow, rfl⟩ := List.mem_map.1 hr
        obtain ⟨hb, hmem, rfl⟩ := List.mem_map.1 hrow
        refine .inr ⟨(call.deviceID, hb), List.mem_append_right _ ?_, fun hhas =>
          newHeartbeats_new hmem (hold _ hhas), rfl⟩
        exact List.mem_map_of_mem (newHeartbeats_sublist.subset hmem)
    · intro hr
      obtain hr | ⟨x, hx, hnew, rfl⟩ := hr
      · exact .inl (.inl hr)
      · by_cases hthere : m.world.db.heartbeats.Has x.2.id
        · obtain hhas | ⟨y, hy, -, hid, hrow⟩ := h.has _ hthere
          · exact absurd hhas hnew
          · have : y = x := hcons y (List.mem_append_left _ hy) x hx hid
            subst this
            exact .inl ((h _).1 hrow)
        · -- the id is new to the table, so the heartbeat came with this call
          have hcall : x ∈ call.heartbeats.map (call.deviceID, ·) := by
            obtain hx | hx := List.mem_append.1 hx
            · have hrow := (h _).2 (.inr ⟨x, hx, hnew, rfl⟩)
              exact absurd (has_of_reading hrow) hthere
            · exact hx
          obtain ⟨hb, hmem, rfl⟩ := List.mem_map.1 hcall
          obtain hseen | hin := id_mem_newHeartbeats hmem
          · exact absurd hseen hthere
          · obtain ⟨hb', hmem', hid⟩ := List.mem_map.1 hin
            have hsame : (call.deviceID, hb') = (call.deviceID, hb) := hcons _
              (List.mem_append_right _ (List.mem_map_of_mem (newHeartbeats_sublist.subset hmem'))) _ hx hid
            cases hsame
            exact .inr (List.mem_map.2 ⟨_, List.mem_map_of_mem hmem', rfl⟩)
  · intro r
    rw [hdelivered, hdb]
    exact h r

theorem merge_delivered_mono {events : List Event} {e : Event} {w : World} {x : Bytes × Heartbeat}
    (hx : x ∈ (merge events w).delivered) : x ∈ (merge (events ++ [e]) w).delivered := by
  rw [merge_concat]
  cases e with
  | ingest call =>
    obtain ⟨hdelivered, -⟩ | ⟨hdelivered, -⟩ := step_ingest call (merge events w)
    · exact hdelivered ▸ List.mem_append_left _ hx
    · exact hdelivered ▸ hx
  | recategorize pattern category => exact hx

/-- A row there was stays, but for its category. -/
theorem merge_has (events : List Event) (w : World) (id : Bytes) (h : w.db.heartbeats.Has id) :
    (merge events w).world.db.heartbeats.Has id := by
  induction events using List.reverseRecOn with
  | nil => exact h
  | append_singleton events e ih =>
    rw [merge_concat]
    cases e with
    | ingest call =>
      obtain ⟨-, -, now, hi⟩ | ⟨-, -, hdb⟩ := step_ingest call (merge events w)
      · rw [Table.Has, hi.heartbeats, List.map_append]
        exact List.mem_append_left _ ih
      · exact hdb ▸ ih
    | recategorize pattern category =>
      obtain ⟨-, -, hrows | hdb⟩ := step_recategorize pattern category (merge events w)
      · obtain ⟨row, hmem, hid⟩ := Table.has_iff.1 ih
        exact Table.has_iff.2 ⟨_, hrows ▸ List.mem_map_of_mem hmem, recategorized_id.trans hid⟩
      · exact hdb ▸ ih

/-- **Calls of any number.** -/
theorem merge_merged (calls : List Call) (w : World) (hcons : Consistent (merge (calls.map .ingest) w).delivered) :
    Merged w.db (merge (calls.map .ingest) w) := by
  induction calls using List.reverseRecOn with
  | nil => exact fun r => ⟨.inl, fun h => h.elim id fun ⟨_, hx, _⟩ => absurd hx List.not_mem_nil⟩
  | append_singleton calls call ih =>
    rw [List.map_append, List.map_singleton] at hcons ⊢
    have hbefore := ih fun x hx y hy hid => hcons x (merge_delivered_mono hx) y (merge_delivered_mono hy) hid
    rw [merge_concat] at hcons ⊢
    exact hbefore.step (fun id h => merge_has _ w id h) hcons

theorem nodup_readings (db : Database) : (db.heartbeats.rows.map HeartbeatRow.reading).Nodup := by
  refine List.Nodup.of_map HeartbeatRow.id ?_
  rw [List.map_map]
  exact db.heartbeats.nodup

/-- A call leaves every row there is as it is. -/
theorem merge_keeps (calls : List Call) {m : Ledger} {row : HeartbeatRow} (h : row ∈ m.world.db.heartbeats.rows) :
    row ∈ ((calls.map Event.ingest).foldl (fun m e => e.step m) m).world.db.heartbeats.rows := by
  induction calls generalizing m with
  | nil => exact h
  | cons call calls ih =>
    refine ih ?_
    obtain ⟨-, -, now, hi⟩ | ⟨-, -, hdb⟩ := step_ingest call m
    · rw [hi.heartbeats]
      exact List.mem_append_left _ h
    · exact hdb ▸ h

/-- **Ingest is a merge.** Calls that deliver the same heartbeats, consistent
ones, leave the same readings. Whatever calls there are, the ids stay distinct,
every heartbeat delivered has a row, and what the calls accepted is what the
table gained. After a recategorizing, calls leave every row as that made it. -/
theorem ingest_is_merge (w : World) :
    (∀ (w' : World) (calls calls' : List Call), w'.db = w.db →
      let m := merge (calls.map .ingest) w
      let m' := merge (calls'.map .ingest) w'
      Consistent m.delivered → (∀ x, x ∈ m.delivered ↔ x ∈ m'.delivered) →
        (m.world.db.heartbeats.rows.map HeartbeatRow.reading).Perm
          (m'.world.db.heartbeats.rows.map HeartbeatRow.reading)) ∧
    (∀ events : List Event, let m := merge events w
      (m.world.db.heartbeats.rows.map (·.id)).Nodup ∧ (∀ x ∈ m.delivered, m.world.db.heartbeats.Has x.2.id) ∧
        m.world.db.heartbeats.rows.length = w.db.heartbeats.rows.length + m.accepted) ∧
    (∀ (events : List Event) (pattern category : Bytes) (calls : List Call) (n : Nat),
      (recategorize pattern category (merge events w).world).1 = .ok n →
      ∀ row ∈ (merge events w).world.db.heartbeats.rows, recategorized pattern category row ∈
        (merge (events ++ .recategorize pattern category :: calls.map .ingest) w).world.db.heartbeats.rows) := by
  refine ⟨?_, fun events => ?_, ?_⟩
  · intro w' calls calls' hdb m m' hcons hsame
    have hcons' : Consistent m'.delivered := fun x hx y hy => hcons x ((hsame x).2 hx) y ((hsame y).2 hy)
    have hmerged := merge_merged calls w hcons
    have hmerged' := merge_merged calls' w' hcons'
    rw [hdb] at hmerged'
    refine (List.perm_ext_iff_of_nodup (nodup_readings _) (nodup_readings _)).2 fun r => ?_
    rw [hmerged r, hmerged' r]
    refine or_congr_right (exists_congr fun x => and_congr_left fun _ => hsame x)
  · have h := merge_counted events w
    exact ⟨Table.nodup _, h.has_row, h.gained⟩
  · intro events pattern category calls n hok row hrow
    rw [merge, List.foldl_append, List.foldl_cons]
    refine merge_keeps calls ?_
    obtain ⟨-, -, -, -, -, hrows⟩ | ⟨e, herr, -, -⟩ :=
      (atomic_recategorize pattern category).ends (merge events w).world
    · exact hrows ▸ List.mem_map_of_mem hrow
    · rw [hok] at herr
      cases herr

/-- A batch of two, and the same two as a batch of one and a batch with a replay. -/
theorem ingest_is_merge_replayed :
    let a := heartbeatOf "1" 100 "code.exe"
    let b := heartbeatOf "2" 105 "mail.exe"
    let once := merge ([⟨str "d", 0, [a, b]⟩].map .ingest) enrolledDevice
    let replayed := merge ([⟨str "d", 5, [b]⟩, ⟨str "d", 7, [b, a, a]⟩].map .ingest) enrolledDevice
    (once.world.db.heartbeats.rows.map HeartbeatRow.reading).Perm
      (replayed.world.db.heartbeats.rows.map HeartbeatRow.reading) := by
  intro a b once replayed
  have honce : once.delivered = [(str "d", a), (str "d", b)] := rfl
  have hreplayed : replayed.delivered = [(str "d", b), (str "d", b), (str "d", a), (str "d", a)] := rfl
  refine (ingest_is_merge enrolledDevice).1 enrolledDevice _ _ rfl ?_ fun x => ?_
  · show Consistent once.delivered
    rw [honce]
    decide
  · show x ∈ once.delivered ↔ x ∈ replayed.delivered
    rw [honce, hreplayed]
    simp only [List.mem_cons, List.not_mem_nil, or_false]
    tauto

end Store
end ScrewLogger
