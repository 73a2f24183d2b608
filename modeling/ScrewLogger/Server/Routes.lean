/-
Every route of the server (`mux.go`, `dashboard.go`), and who may do what.

`privileges_separated` is over every request to the mux and every state of the
server: what changes a table is a session, or a device's token in a `POST` to
`/v1/ingest`; what reads one is a session under `/admin/api/`, or an API key
under `/api/v1/`.
-/
import ScrewLogger.Server.AdminApi

namespace ScrewLogger
open Lib Lib.Eff

/-- `Dashboard`: the embedded files of the admin UI, whose server answers from
the request alone, never cached. -/
def dashboard (fileServer : Request → Nat × Bytes) : Handler := fun r =>
  let (status, content) := fileServer r
  Answer.withHeaders [(str "Cache-Control", str "no-store")] (pure { status := status, body := .text content })

def healthz : Handler := fun _ => pure { body := .text (str "ok") }

def literals (method : Option String) (path : List String) : Pattern :=
  ⟨method.map str, path.map fun s => .literal (str s)⟩

/-- A pattern that ends in a slash. -/
def subtree (path : List String) : Pattern := ⟨none, path.map (fun s => .literal (str s)) ++ [.rest]⟩

def routes (host : Host) (auth : AdminAuth) (fileServer : Request → Nat × Bytes) : Mux Handler :=
  [(literals (some "POST") ["v1", "ingest"], ingestHandler host),
    (literals (some "GET") ["healthz"], healthz),
    (subtree ["api", "v1"], queryAPI host),
    (literals (some "POST") ["admin", "login"], login host auth),
    (literals (some "POST") ["admin", "logout"], logout),
    (subtree ["admin", "api"], adminAPI host),
    (subtree ["admin"], dashboard fileServer)]

def newMux (host : Host) (auth : AdminAuth) (fileServer : Request → Nat × Bytes) : Handler :=
  serveMux (routes host auth fileServer)

/-- The path is below `path`. -/
def Under (path : List String) (r : Request) : Prop := ∃ s ss, segments r.path = path.map str ++ s :: ss

variable {host : Host} {auth : AdminAuth} {fileServer : Request → Nat × Bytes} {r : Request} {w : World}

/-- The admin API goes before the dashboard. -/
theorem not_dashboard_of_under (h : Under ["admin", "api"] r) {handler : Handler} {vals : List Bytes} :
    (routes host auth fileServer).find r.method r.path ≠ some ((subtree ["admin"], handler), vals) := by
  obtain ⟨s, ss, hs⟩ := h
  intro hfind
  have hmatch := Mux.find_ofMethod_none hfind rfl
  rw [hs] at hmatch
  have hroutes : (routes host auth fileServer).ofMethod none =
      [([.literal (str "api"), .literal (str "v1"), .rest], (subtree ["api", "v1"], queryAPI host)),
        ([.literal (str "admin"), .literal (str "api"), .rest], (subtree ["admin", "api"], adminAPI host)),
        ([.literal (str "admin"), .rest], (subtree ["admin"], dashboard fileServer))] := rfl
  have hne : str "api" ≠ str "admin" := by decide
  have heq : subtree ["admin", "api"] = subtree ["admin"] := by
    rw [hroutes] at hmatch
    simp [Routes.matchPath, Routes.literal, Routes.wild, hne] at hmatch
    exact hmatch.1.1
  exact absurd heq (by decide)

/-- The request is a `POST` to `/v1/ingest`. -/
def IsIngest (r : Request) : Prop := r.method = str "POST" ∧ segments r.path = [str "v1", str "ingest"]

/-- What the tables' changes and the answer of a request have to do with what it
carries. -/
structure Privileged (host : Host) (r : Request) (w : World) (resp : Response) (w' : World) : Prop where
  /-- Only a session or a device's token changes the tables. -/
  changed : w'.db = w.db ∨ HasSession r w ∨ IsIngest r ∧
    ∃ (d : Device) (batch : IngestBatch) (now : Int), TokenOf host r w.db d ∧
    Store.Ingested d.id batch.deviceSentAt.toInt batch.heartbeats now w.db w'.db
  /-- Only a session or an API key reads them. -/
  told : resp.body.tells = true → HasSession r w ∧ Under ["admin", "api"] r ∨ HasKey host r w.db ∧
    Under ["api", "v1"] r
  admin : Under ["admin", "api"] r → ¬ HasSession r w → Refused w resp w'
  api : Under ["api", "v1"] r → ¬ HasKey host r w.db → Refused w resp w'

/-- A path the routes do not guard, and an answer that tells nothing. -/
theorem Privileged.ofSilent {resp : Response} {w' : World} (h : Silent w resp w')
    (hadmin : ¬ Under ["admin", "api"] r)
    (hapi : ¬ Under ["api", "v1"] r) : Privileged host r w resp w' where
  changed := .inl h.db
  told ht := absurd (h.body.symm.trans ht) Bool.false_ne_true
  admin hu := absurd hu hadmin
  api hu := absurd hu hapi

theorem Privileged.ofRefused {resp : Response} {w' : World} (h : Refused w resp w') :
    Privileged host r w resp w' where
  changed := .inl h.db
  told ht := absurd (h.refuses.2.symm.trans ht) Bool.false_ne_true
  admin _ _ := h
  api _ _ := h

theorem matches_literals_iff {method : Option String} {path : List String} :
    Matches (literals method path).segments (segments r.path) ↔ segments r.path = path.map str := by
  have h : (literals method path).segments = (path.map str).map .literal := by simp [literals]
  rw [h, matches_literals]

theorem matches_subtree_iff {path : List String} :
    Matches (subtree path).segments (segments r.path) ↔ Under path r := by
  have h : (subtree path).segments = (path.map str).map .literal ++ [.rest] := by simp [subtree]
  rw [h, matches_subtree]
  rfl

/-- A path of no more segments is not below. -/
theorem not_under_of_length {path path' : List String} (h : segments r.path = path'.map str)
    (hle : path'.length ≤ path.length) : ¬ Under path r := by
  intro ⟨s, ss, hs⟩
  have hlen := congrArg List.length (h.symm.trans hs)
  simp only [List.length_map, List.length_append, List.length_cons] at hlen
  omega

/-- Paths below one another agree where they begin. -/
theorem Under.head_eq {p q : String} {path path' : List String} (h : Under (p :: path) r)
    (h' : Under (q :: path') r) :
    str p = str q := by
  obtain ⟨s, ss, hs⟩ := h
  obtain ⟨s', ss', hs'⟩ := h'
  exact (List.cons.inj (hs.symm.trans hs')).1

theorem Privileged.ofIngest {resp : Response} {w' : World} {values : List (Bytes × Bytes)} (hi : IsIngest r)
    (h : IngestEnds host { r with pathValues := values } w resp w') : Privileged host r w resp w' := by
  have hsegs : segments r.path = ["v1", "ingest"].map str := hi.2
  cases h with
  | refused status msg body same => exact .ofRefused ⟨same.db, status, by rw [body]; rfl⟩
  | accepted status sessions d batch now h =>
    have htoken : TokenOf host r w.db d := ⟨h.token.issued, h.token.enrolled, h.token.unrevoked⟩
    have htells : resp.body.tells = false := by rw [h.body]; rfl
    exact ⟨.inr (.inr ⟨hi, d, batch, now, htoken, h.stored⟩),
      fun ht => absurd (htells.symm.trans ht) Bool.false_ne_true,
      fun hu => absurd hu (not_under_of_length hsegs (Nat.le_refl 2)),
      fun hu => absurd hu (not_under_of_length hsegs (Nat.le_refl 2))⟩

/-- **Every route.** -/
theorem ends_newMux : (newMux host auth fileServer r).Ends (Privileged host r w) w := by
  refine ends_serveMux (fun resp h => .ofRefused ⟨rfl, h⟩) fun p handler values vals hmem hallows hm hfind _ => ?_
  have unguarded {path : List String} (hle : path.length ≤ 2) (hsegs : segments r.path = path.map str) (resp w')
      (h : Silent w resp w') : Privileged host r w resp w' :=
    .ofSilent h (not_under_of_length hsegs hle) (not_under_of_length hsegs hle)
  simp only [routes, List.mem_cons, Prod.mk.injEq, List.not_mem_nil, or_false] at hmem
  obtain ⟨rfl, rfl⟩ | ⟨rfl, rfl⟩ | ⟨rfl, rfl⟩ | ⟨rfl, rfl⟩ | ⟨rfl, rfl⟩ | ⟨rfl, rfl⟩ | ⟨rfl, rfl⟩ := hmem
  · have hsegs := matches_literals_iff.1 hm
    have hmethod : r.method = str "POST" := by
      obtain h | h | ⟨h, -⟩ := hallows
      · cases h
      · exact (Option.some.inj h).symm
      · exact absurd (Option.some.inj h) (by decide)
    exact (ends_ingestHandler host _ w).mono fun resp w' h => .ofIngest ⟨hmethod, hsegs⟩ h
  · exact unguarded (by decide) (matches_literals_iff.1 hm) _ _ ⟨rfl, rfl⟩
  · have hu := matches_subtree_iff.1 hm
    refine ends_queryAPI.mono fun resp w' ⟨hsame, h⟩ => ?_
    obtain h | hkey := h
    · exact .ofRefused ⟨hsame.db, h⟩
    · exact ⟨.inl hsame.db, fun _ => .inr ⟨hkey, hu⟩, fun h => absurd (h.head_eq hu) (by decide),
        fun _ hno => absurd hkey hno⟩
  · exact ends_login.mono (unguarded (by decide) (matches_literals_iff.1 hm))
  · exact ends_logout.mono (unguarded (by decide) (matches_literals_iff.1 hm))
  · have hu := matches_subtree_iff.1 hm
    by_cases hsession : HasSession r w
    · exact Answer.ends_of_forall fun resp w' =>
        ⟨.inr (.inl hsession), fun _ => .inl ⟨hsession, hu⟩, fun _ hno => absurd hsession hno,
          fun h => absurd (hu.head_eq h) (by decide)⟩
    · exact (ends_adminAPI hsession).mono fun resp w' h => .ofRefused h
  · have hu := matches_subtree_iff.1 hm
    refine .ofSilent ⟨rfl, rfl⟩ (fun h => not_dashboard_of_under h hfind) fun h => ?_
    exact absurd (hu.head_eq h) (by decide)

/-! ## What a request without a session can do -/

/-- Names, revocations, rules and keys are as they were, and no heartbeat is
changed or deleted. -/
structure Guarded (db db' : Database) : Prop where
  devices : db'.devices.rows.map (fun d => { d with lastSeen := none }) =
    db.devices.rows.map fun d => { d with lastSeen := none }
  rules : db'.rules = db.rules
  apiKeys : db'.apiKeys = db.apiKeys
  heartbeats : db.heartbeats.rows <+: db'.heartbeats.rows

/-- Heartbeats of the device are added and the time it was last seen is set;
nothing else changes. -/
structure AddsFor (d : Device) (db db' : Database) : Prop where
  heartbeats : ∃ added, db'.heartbeats.rows = db.heartbeats.rows ++ added ∧ ∀ h ∈ added, h.deviceId = d.id
  devices : ∃ now, db'.devices.rows =
    db.devices.rows.map fun d' => if d'.id == d.id then { d' with lastSeen := some now } else d'
  rules : db'.rules = db.rules
  apiKeys : db'.apiKeys = db.apiKeys

theorem Guarded.refl (db : Database) : Guarded db db := ⟨rfl, rfl, rfl, List.prefix_refl _⟩

theorem AddsFor.guarded {d : Device} {db db' : Database} (h : AddsFor d db db') : Guarded db db' := by
  obtain ⟨added, hadded, -⟩ := h.heartbeats
  obtain ⟨now, hdevices⟩ := h.devices
  refine ⟨?_, h.rules, h.apiKeys, added, hadded.symm⟩
  rw [hdevices, List.map_map]
  refine List.map_congr_left fun d' _ => ?_
  rw [Function.comp_apply]
  split <;> rfl

theorem addsFor_of_ingested {d : Device} {sentAt now : Int} {hbs : List Heartbeat} {db db' : Database}
    (h : Store.Ingested d.id sentAt hbs now db db') : AddsFor d db db' := by
  refine ⟨⟨_, h.heartbeats, fun r hr => ?_⟩, ⟨now, h.devices⟩, h.rules, h.apiKeys⟩
  obtain ⟨hb, -, rfl⟩ := List.mem_map.1 hr
  rfl

/-- **Privileges are separate.** Whatever API keys it carries, a request
without a session changes nothing but by a device's token, and only for that
device; the admin API refuses it. Whatever session or device token it carries,
the query API refuses a request without a key. -/
theorem privileges_separated (host : Host) (auth : AdminAuth) (fileServer : Request → Nat × Bytes) (r : Request)
    (w : World) :
    let resp := ((newMux host auth fileServer).serve r w).1
    let db' := ((newMux host auth fileServer).serve r w).2.db
    (¬ HasSession r w → Guarded w.db db' ∧
      (db' ≠ w.db → IsIngest r ∧ ∃ d, TokenOf host r w.db d ∧ AddsFor d w.db db')) ∧
    (Under ["admin", "api"] r → ¬ HasSession r w → resp.Refuses) ∧
    (Under ["api", "v1"] r → ¬ HasKey host r w.db → resp.Refuses ∧ db' = w.db) ∧
    (resp.body.tells = true →
      HasSession r w ∧ Under ["admin", "api"] r ∨ HasKey host r w.db ∧ Under ["api", "v1"] r) := by
  intro resp db'
  have h : Privileged host r w resp ((newMux host auth fileServer).serve r w).2 := Answer.run_iff.2 ends_newMux
  refine ⟨fun hno => ?_, fun hu hno => (h.admin hu hno).refuses, fun hu hno => ?_, h.told⟩
  · obtain heq | hs | ⟨hi, d, batch, now, htoken, hstored⟩ := h.changed
    · exact ⟨heq.symm ▸ Guarded.refl w.db, fun hne => absurd heq hne⟩
    · exact absurd hs hno
    · have hadds := addsFor_of_ingested hstored
      exact ⟨hadds.guarded, fun _ => ⟨hi, d, htoken, hadds⟩⟩
  · exact ⟨(h.api hu hno).refuses, (h.api hu hno).db⟩

end ScrewLogger
