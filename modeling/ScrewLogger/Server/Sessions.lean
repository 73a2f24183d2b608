/-
The admin's sessions over any run of visits (`admin_auth.go`).

`session_exact`: a request gets past `RequireAdmin` just when its cookie was
minted by a login with the right password, at most `sessionTTL` ago, and no
logout carried it since. That a session found expired is deleted changes no
later decision.
-/
import ScrewLogger.Lib.Expiry
import ScrewLogger.Lib.Simulation
import ScrewLogger.Server.AdminApi

namespace ScrewLogger
open Lib Lib.Eff Lib.Json

/-- A handler that may stand behind the session: it leaves the sessions alone. -/
structure Protected where
  handle : Handler
  keeps : ∀ r w, (handle r w).2.sessions = w.sessions

/-! ## The admin API is one -/

section
variable {host : Host} {r : Request} {w : World}

/-- The sessions are as they were. -/
def KeepsSessions (w : World) (_ : Response) (w' : World) : Prop := w'.sessions = w.sessions

theorem wp_keeps {α : Type} {op : Store α} {R : Database → α → Database → Prop} {F : Database → StoreError → Prop}
    (h : Store.Atomic op R F) {f : StoreError → Response} {Q : α → World → Prop} {E : Response → World → Prop}
    (hQ : ∀ a w', w'.sessions = w.sessions → Q a w') (hE : ∀ e w', w'.sessions = w.sessions → E (f e) w') :
    wp (mapError f op) Q E w := by
  rw [wp_mapError]
  exact (h w).mono (fun a w' h => hQ a w' h.1) fun e w' h => hE e w' h.1.sessions

theorem keeps_handleDeviceEnroll : (handleDeviceEnroll host r).Ends (KeepsSessions w) w := by
  simp only [Answer.Ends, handleDeviceEnroll, wp_bind, wp_fromOption]
  refine ⟨fun name _ => ?_, fun _ => rfl⟩
  exact wp_keeps (Store.atomic_createDevice host name) (fun _ _ h => h) fun _ _ h => h

theorem keeps_handleDeviceRevoke : (handleDeviceRevoke r).Ends (KeepsSessions w) w := by
  simp only [Answer.Ends, handleDeviceRevoke, wp_bind]
  exact wp_keeps (Store.atomic_revokeDevice _) (fun _ _ h => h) fun _ _ h => h

theorem keeps_handleDeviceRename : (handleDeviceRename r).Ends (KeepsSessions w) w := by
  simp only [Answer.Ends, handleDeviceRename, wp_bind, wp_fromOption, wp_ensure]
  refine ⟨fun _ _ => ⟨fun _ => ⟨fun _ => ?_, fun _ => rfl⟩, fun _ => rfl⟩, fun _ => rfl⟩
  exact wp_keeps (Store.atomic_renameDevice _ _) (fun _ _ h => h) fun _ _ h => h

theorem keeps_handleDeviceDelete : (handleDeviceDelete r).Ends (KeepsSessions w) w := by
  simp only [Answer.Ends, handleDeviceDelete, wp_bind]
  exact wp_keeps (Store.atomic_deleteDevice _) (fun _ _ h => h) fun _ _ h => h

theorem keeps_handleRulesList : (handleRulesList r).Ends (KeepsSessions w) w := by
  simp only [Answer.Ends, handleRulesList, wp_bind]
  exact wp_keeps Store.atomic_query (fun _ _ h => h) fun _ _ h => h

theorem keeps_handleRuleUpsert : (handleRuleUpsert r).Ends (KeepsSessions w) w := by
  simp only [Answer.Ends, handleRuleUpsert, wp_bind, wp_fromOption, wp_ite]
  refine ⟨fun body _ => ?_, fun _ => rfl⟩
  refine wp_keeps (Store.atomic_upsertRule _ _) (fun _ w' h => ⟨fun _ => ?_, fun _ => h⟩) fun _ _ h => h
  exact wp_keeps (Store.atomic_recategorize _ _) (fun _ _ h' => h'.trans h) fun _ _ h' => h'.trans h

theorem keeps_handleRuleDelete : (handleRuleDelete r).Ends (KeepsSessions w) w := by
  simp only [Answer.Ends, handleRuleDelete, wp_bind, wp_fromOption]
  refine ⟨fun _ _ => ?_, fun _ => rfl⟩
  exact wp_keeps (Store.atomic_deleteRule _) (fun _ _ h => h) fun _ _ h => h

theorem keeps_handleKeyCreate : (handleKeyCreate host r).Ends (KeepsSessions w) w := by
  simp only [Answer.Ends, handleKeyCreate, wp_bind, wp_fromOption]
  refine ⟨fun label _ => ?_, fun _ => rfl⟩
  exact wp_keeps (Store.atomic_createAPIKey host label) (fun _ _ h => h) fun _ _ h => h

theorem keeps_handleKeyList : (handleKeyList host r).Ends (KeepsSessions w) w := by
  simp only [Answer.Ends, handleKeyList, wp_bind]
  exact wp_keeps Store.atomic_query (fun _ _ h => h) fun _ _ h => h

theorem keeps_handleKeyRevoke : (handleKeyRevoke r).Ends (KeepsSessions w) w := by
  simp only [Answer.Ends, handleKeyRevoke, wp_bind, wp_ensure]
  exact wp_keeps (Store.atomic_revokeAPIKeyByPrefix _) (fun _ _ h => ⟨fun _ => h, fun _ => h⟩) fun _ _ h => h

theorem keeps_adminRoutes : ∀ route ∈ adminRoutes host, (route.2 r).Ends (KeepsSessions w) w := by
  have hqueries := @ends_queryRoutes host r w
  simp only [queryRoutes, List.forall_mem_cons] at hqueries
  obtain ⟨hdevices, husage, hratio, hevents, -⟩ := hqueries
  have hread {m : Answer} (h : m.Ends (fun _ w' => Same w w') w) : m.Ends (KeepsSessions w) w :=
    h.mono fun _ _ h => h.sessions
  simp only [adminRoutes, List.forall_mem_cons]
  exact ⟨keeps_handleDeviceEnroll, hread hdevices, keeps_handleDeviceRevoke, keeps_handleDeviceRename,
    keeps_handleDeviceDelete, keeps_handleRulesList, keeps_handleRuleUpsert, keeps_handleRuleDelete,
    keeps_handleKeyCreate, keeps_handleKeyList, keeps_handleKeyRevoke, hread husage, hread hratio, hread hevents,
    fun _ h => absurd h List.not_mem_nil⟩

end

/-- What stands behind the session in the server. -/
def protectedAdmin (host : Host) : Protected where
  handle := serveMux (adminRoutes host)
  keeps r w := by
    have hends : (serveMux (adminRoutes host) r).Ends (KeepsSessions w) w :=
      ends_serveMux (fun _ _ => rfl) fun p handler _ _ hmem _ _ _ _ => keeps_adminRoutes (p, handler) hmem
    exact Answer.run_snd ▸ Answer.run_iff.2 hends

/-! ## Runs -/

inductive Visit
  | login (r : Request)
  | logout (r : Request)
  | admin (next : Protected) (r : Request)

/-- A visit, and the world it finds: all of it but the sessions is left open. -/
structure Turn where
  visit : Visit
  world : World

abbrev Sessions : Type := List (Bytes × Int)

namespace Turn

/-- What the clock reads. -/
def now (turn : Turn) : Int := (turn.world.clock 0).nanos

def enter (turn : Turn) (sessions : Sessions) : World := { turn.world with sessions := sessions }

end Turn

variable {host : Host} {auth : AdminAuth}

/-- The visits to a server. -/
def visit (host : Host) (auth : AdminAuth) (sessions : Sessions)
    (turn : Turn) : Except Response Response × Sessions :=
  let m := match turn.visit with
    | .login r => login host auth r
    | .logout r => logout r
    | .admin next r => requireAdmin next.handle r
  ((m (turn.enter sessions)).1, (m (turn.enter sessions)).2.sessions)

/-- The visits to one that lets a session found expired be. -/
def visitKeeping (host : Host) (auth : AdminAuth) (sessions : Sessions)
    (turn : Turn) : Except Response Response × Sessions :=
  match turn.visit with
  | .admin .. => ((visit host auth sessions turn).1, sessions)
  | _ => visit host auth sessions turn

/-- A turn and its answer. -/
abbrev Visited : Type := Turn × Except Response Response

/-- A login with the right password, answered with the cookie `c`. -/
def Mints (host : Host) (auth : AdminAuth) (v : Visited) (c : Bytes) : Prop :=
  ∃ r password, v.1.visit = .login r ∧ stringBody (str "password") r.body = some password ∧
    host.comparePassword auth.hash password = true ∧ v.2 = .ok (sessionSet (setCookie [] c))

/-- A logout that carries `c`. -/
def LogsOut (v : Visited) (c : Bytes) : Prop := ∃ r, v.1.visit = .logout r ∧ r.cookie sessionCookieName = some c

/-- A session as the history has it. -/
def sessionLease (host : Host) (auth : AdminAuth) : Lease Visited Bytes where
  grants := Mints host auth
  drops := LogsOut
  time v := v.1.now
  ttl := sessionTTL

/-- The session is there, and lasts until `t`. -/
def ValidAt (sessions : Sessions) (c : Bytes) (t : Int) : Prop := ∃ expiry, sessions.lookup c = some expiry ∧
    t ≤ expiry

/-- The request reaches what is behind the session. -/
def Admits (r : Request) (w : World) : Prop := ∃ w', ∀ next : Handler, requireAdmin next r w = next r w'

/-- The request does not. -/
def Rejects (r : Request) (w : World) : Prop := ∃ w', ∀ next : Handler, requireAdmin next r w =
    (.error unauthorized, w')

/-! ## The table -/

section
variable {sessions : Sessions} {c c' : Bytes} {t expiry : Int} {next : Handler} {r : Request} {w : World}

theorem lookup_without : (sessions.filter (·.1 != c)).lookup c' = if c' = c then none else sessions.lookup c' := by
  induction sessions with
  | nil => simp
  | cons s sessions ih =>
    obtain ⟨k, x⟩ := s
    by_cases hk : k = c
    · subst hk
      rw [List.filter_cons_of_neg (by simp), ih, List.lookup_cons]
      by_cases hc : c' = k
      · rw [if_pos hc, if_pos hc]
      · rw [if_neg hc, if_neg hc, beq_false_of_ne hc]
    · rw [List.filter_cons_of_pos (by simpa using hk), List.lookup_cons, List.lookup_cons, ih]
      by_cases hc : c' = c
      · subst hc
        rw [beq_false_of_ne (Ne.symm hk), if_pos rfl]
      · rw [if_neg hc, if_neg hc]

theorem validAt_nil : ¬ ValidAt [] c t := by
  intro hvalid
  obtain ⟨expiry, h, -⟩ := hvalid
  cases h

theorem validAt_without : ValidAt (sessions.filter (·.1 != c)) c' t ↔ ValidAt sessions c' t ∧ c' ≠ c := by
  unfold ValidAt
  rw [lookup_without]
  by_cases hc : c' = c
  · simp [hc]
  · simp [hc]

theorem validAt_minted : ValidAt ((c, expiry) :: sessions.filter (·.1 != c)) c' t ↔
    (c' = c ∧ t ≤ expiry) ∨ (ValidAt sessions c' t ∧ c' ≠ c) := by
  by_cases hc : c' = c
  · subst hc
    simp [ValidAt]
  · rw [← validAt_without]
    simp [ValidAt, List.lookup_cons, beq_false_of_ne hc, hc]

/-- The world after the clock was read. -/
def World.ticked (w : World) : World := { w with clock := fun n => w.clock (n + 1) }

theorem requireAdmin_noCookie (hc : r.cookie sessionCookieName = none) :
    requireAdmin next r w = (.error unauthorized, w) := by
  unfold requireAdmin
  rw [hc]
  exact bind_of_error rfl

/-- What `requireAdmin` makes of the session's state. -/
theorem requireAdmin_cookie {valid : Bool} {w' : World} (hc : r.cookie sessionCookieName = some c)
    (h : @sessionValid Response c w = (.ok valid, w')) :
    requireAdmin next r w = if valid then next r w' else (.error unauthorized, w') := by
  unfold requireAdmin
  rw [hc]
  refine (bind_of_ok rfl).trans ((bind_of_ok h).trans ?_)
  cases valid with
  | true => exact bind_of_ok rfl
  | false => exact bind_of_error rfl

theorem requireAdmin_unknown (hc : r.cookie sessionCookieName = some c) (h : w.sessions.lookup c = none) :
    requireAdmin next r w = (.error unauthorized, w) := by
  refine @requireAdmin_cookie _ _ _ _ false _ hc ?_
  unfold sessionValid
  refine (bind_of_ok rfl).trans ?_
  simp only [h]
  rfl

theorem requireAdmin_expired (hc : r.cookie sessionCookieName = some c) (h : w.sessions.lookup c = some expiry)
    (hlate : (w.clock 0).nanos > expiry) :
    requireAdmin next r w = (.error unauthorized, { w.ticked with sessions := w.sessions.filter (·.1 != c) }) := by
  refine @requireAdmin_cookie _ _ _ _ false _ hc ?_
  unfold sessionValid
  refine (bind_of_ok rfl).trans ?_
  simp only [h]
  refine (bind_of_ok rfl).trans ?_
  rw [if_pos hlate]
  rfl

theorem requireAdmin_valid (hc : r.cookie sessionCookieName = some c) (h : w.sessions.lookup c = some expiry)
    (hlate : (w.clock 0).nanos ≤ expiry) : requireAdmin next r w = next r w.ticked := by
  refine @requireAdmin_cookie _ _ _ _ true _ hc ?_
  unfold sessionValid
  refine (bind_of_ok rfl).trans ?_
  simp only [h]
  refine (bind_of_ok rfl).trans ?_
  have hnot : ¬ (w.clock 0).nanos > expiry := by omega
  exact congrFun (if_neg hnot) w.ticked

theorem sessionSet_inj (h : sessionSet (setCookie [] c) = sessionSet (setCookie [] c')) : c = c' := by
  have hheaders := congrArg Response.headers h
  simp only [sessionSet, setCookie, List.cons.injEq, Prod.mk.injEq, List.append_nil, List.append_cancel_right_eq,
    List.append_cancel_left_eq] at hheaders
  exact hheaders.1.2

/-- The login is a good one, and the server has random bytes for it. -/
structure Succeeds (host : Host) (auth : AdminAuth) (r : Request) (w : World) : Prop where
  method : (r.method == str "POST") = true
  password : ∃ password, stringBody (str "password") r.body = some password ∧
    host.comparePassword auth.hash password = true
  entropy : w.faults.headD false = false

/-- The cookie a login mints. -/
def cookieOf (w : World) : Bytes := base64Encode ((List.range 32).map w.entropy)

/-- What a login does. -/
theorem wp_login : wp (login host auth r)
    (fun resp w' => Succeeds host auth r w ∧ resp = sessionSet (setCookie [] (cookieOf w)) ∧
      w'.sessions = (cookieOf w, (w.clock 0).nanos + sessionTTL) :: w.sessions.filter (·.1 != cookieOf w))
    (fun _ w' => ¬ Succeeds host auth r w ∧ w'.sessions = w.sessions) w := by
  simp only [login, wp_bind, wp_ensure, wp_fromOption, wp_mapError, Store.randRead, Store.call, Store.timeNow,
    wp_take, wp_modify, wp_pure]
  refine ⟨fun hmethod => ⟨fun password hpassword => ⟨fun hcorrect => ?_, fun hwrong => ⟨fun h => ?_, trivial⟩⟩,
    fun hnone => ⟨fun h => ?_, trivial⟩⟩, fun hmethod => ⟨fun h => ?_, trivial⟩⟩
  · refine ⟨fun hentropy => ⟨⟨hmethod, ⟨password, hpassword, hcorrect⟩, by simpa using hentropy⟩, rfl, rfl⟩,
      fun hfault => ⟨fun h => ?_, trivial⟩⟩
    rw [h.entropy] at hfault
    cases hfault
  · obtain ⟨password', hpassword', hcorrect⟩ := h.password
    rw [hpassword] at hpassword'
    cases hpassword'
    rw [hwrong] at hcorrect
    cases hcorrect
  · obtain ⟨password', hpassword', -⟩ := h.password
    rw [hnone] at hpassword'
    cases hpassword'
  · exact Bool.noConfusion (hmethod.symm.trans h.method)

/-- What a logout does. -/
theorem logout_sessions : (logout r w).2.sessions =
    (r.cookie sessionCookieName).elim w.sessions fun c => w.sessions.filter (·.1 != c) := by
  unfold logout
  cases r.cookie sessionCookieName with
  | none => rfl
  | some c => rfl

end

/-! ## One visit -/

variable {sessions sessions' : Sessions} {turn : Turn} {c : Bytes} {t now : Int}

/-- A request is let in by a session that is valid when the clock is read. -/
theorem admits_of_validAt {r : Request} (hc : r.cookie sessionCookieName = some c)
    (hvalid : ValidAt sessions c turn.now) : Admits r (turn.enter sessions) := by
  obtain ⟨expiry, hlookup, hle⟩ := hvalid
  exact ⟨_, fun next => requireAdmin_valid hc hlookup hle⟩

/-- Every other is turned away. -/
theorem rejects_of_not_validAt {r : Request} (hc : r.cookie sessionCookieName = some c)
    (hnot : ¬ ValidAt sessions c turn.now) : Rejects r (turn.enter sessions) := by
  cases hlookup : sessions.lookup c with
  | none => exact ⟨_, fun next => requireAdmin_unknown hc hlookup⟩
  | some expiry =>
    have hlate : turn.now > expiry := by
      by_contra hle
      exact hnot ⟨expiry, hlookup, by omega⟩
    exact ⟨_, fun next => requireAdmin_expired hc hlookup hlate⟩

/-- The sessions that are valid from the time of a visit on, after it. -/
theorem validAt_admin {next : Protected} {r : Request} (hturn : turn.visit = .admin next r) (hlate : turn.now ≤ t) :
    ValidAt (visit host auth sessions turn).2 c t ↔ ValidAt sessions c t := by
  have hsessions : (visit host auth sessions turn).2 =
    (requireAdmin next.handle r (turn.enter sessions)).2.sessions := by
    rw [visit, hturn]
  rw [hsessions]
  cases hc : r.cookie sessionCookieName with
  | none =>
    rw [requireAdmin_noCookie hc]
    rfl
  | some c' =>
    cases hlookup : sessions.lookup c' with
    | none =>
      rw [requireAdmin_unknown hc hlookup]
      rfl
    | some expiry =>
      by_cases hold : turn.now ≤ expiry
      · rw [@requireAdmin_valid _ _ next.handle _ (turn.enter sessions) hc hlookup hold, next.keeps]
        rfl
      · rw [requireAdmin_expired hc hlookup (by unfold Turn.now at hold; exact Int.not_le.1 hold)]
        refine validAt_without.trans ⟨fun h => h.1, fun hvalid => ⟨hvalid, ?_⟩⟩
        rintro rfl
        obtain ⟨expiry', hlookup', hle⟩ := hvalid
        rw [hlookup] at hlookup'
        cases hlookup'
        omega

theorem validAt_logout {r : Request} (hturn : turn.visit = .logout r) :
    ValidAt (visit host auth sessions turn).2 c t ↔ ValidAt sessions c t ∧ r.cookie sessionCookieName ≠ some c := by
  have hsessions : (visit host auth sessions turn).2 = (logout r (turn.enter sessions)).2.sessions := by
    rw [visit, hturn]
  rw [hsessions, logout_sessions]
  cases r.cookie sessionCookieName with
  | none => simp [Turn.enter]
  | some c' =>
    have hother : some c' ≠ some c ↔ c ≠ c' := by simp [eq_comm]
    rw [Option.elim_some, hother]
    exact validAt_without

/-- A login mints a cookie, or fails. -/
theorem visit_login {r : Request} (hturn : turn.visit = .login r) :
    (Succeeds host auth r turn.world ∧ Mints host auth (turn, (visit host auth sessions turn).1) (cookieOf turn.world) ∧
      (visit host auth sessions turn).2 =
        (cookieOf turn.world, turn.now + sessionTTL) :: sessions.filter (·.1 != cookieOf turn.world)) ∨
      (¬ Succeeds host auth r turn.world ∧ (∃ resp, (visit host auth sessions turn).1 = .error resp) ∧
        (visit host auth sessions turn).2 = sessions) := by
  have hvisit : visit host auth sessions turn =
      ((login host auth r (turn.enter sessions)).1, (login host auth r (turn.enter sessions)).2.sessions) := by
    rw [visit, hturn]
  have hlogin := wp_iff.1 (@wp_login host auth r (turn.enter sessions))
  rw [hvisit]
  cases hrun : login host auth r (turn.enter sessions) with
  | mk answer w' =>
    cases answer with
    | error resp =>
      obtain ⟨hnot, hsessions⟩ := hlogin.2 resp w' hrun
      exact .inr ⟨fun h => hnot ⟨h.method, h.password, h.entropy⟩, ⟨resp, rfl⟩, hsessions⟩
    | ok resp =>
      obtain ⟨hsucceeds, rfl, hsessions⟩ := hlogin.1 resp w' hrun
      obtain ⟨password, hpassword, hcorrect⟩ := hsucceeds.password
      exact .inl ⟨⟨hsucceeds.method, hsucceeds.password, hsucceeds.entropy⟩,
        ⟨r, password, hturn, hpassword, hcorrect, rfl⟩,
        hsessions⟩

theorem not_mints {answer : Except Response Response} (hturn : ∀ r, turn.visit ≠ .login r) :
    ¬ Mints host auth (turn, answer) c := by
  rintro ⟨r, password, hlogin, -⟩
  exact hturn r hlogin

theorem not_logsOut {answer : Except Response Response} (hturn : ∀ r, turn.visit ≠ .logout r) :
    ¬ LogsOut (turn, answer) c := by
  rintro ⟨r, hlogout, -⟩
  exact hturn r hlogout

/-- A visit has one answer, so it mints one cookie. -/
theorem mints_iff {answer : Except Response Response} {c' : Bytes} (h : Mints host auth (turn, answer) c') :
    Mints host auth (turn, answer) c ↔ c = c' := by
  constructor
  · obtain ⟨-, -, -, -, -, hok⟩ := h
    rintro ⟨-, -, -, -, -, hok'⟩
    exact sessionSet_inj (Except.ok.inj (hok'.symm.trans hok))
  · rintro rfl
    exact h

/-- **One visit** keeps the table exact. -/
theorem exact_visit {past : List Visited} (h : (sessionLease host auth).Exact past now (ValidAt sessions))
    (hnow : now ≤ turn.now) :
    (sessionLease host auth).Exact (past ++ [(turn, (visit host auth sessions turn).1)]) turn.now
      (ValidAt (visit host auth sessions turn).2) := by
  refine h.step hnow fun c t ht => ?_
  have hlate : turn.now ≤ t := ht
  cases hturn : turn.visit with
  | admin next r =>
    have hnone : ¬ Mints host auth (turn, (visit host auth sessions turn).1) c := not_mints (by simp [hturn])
    have hkept : ¬ LogsOut (turn, (visit host auth sessions turn).1) c := not_logsOut (by simp [hturn])
    rw [validAt_admin hturn hlate]
    exact ⟨fun hvalid => .inr ⟨hvalid, hkept⟩, fun h => h.elim (fun h => absurd h.1 hnone) fun h => h.1⟩
  | logout r =>
    have hnone : ¬ Mints host auth (turn, (visit host auth sessions turn).1) c := not_mints (by simp [hturn])
    have hdrops : LogsOut (turn, (visit host auth sessions turn).1) c ↔ r.cookie sessionCookieName = some c := by
      constructor
      · rintro ⟨r', hlogout, hc⟩
        rw [hturn] at hlogout
        cases hlogout
        exact hc
      · exact fun hc => ⟨r, hturn, hc⟩
    rw [validAt_logout hturn]
    refine ⟨fun h => .inr ⟨h.1, fun hout => h.2 (hdrops.1 hout)⟩, fun h => ?_⟩
    exact h.elim (fun h => absurd h.1 hnone) fun h => ⟨h.1, fun hc => h.2 (hdrops.2 hc)⟩
  | login r =>
    have hkept : ¬ LogsOut (turn, (visit host auth sessions turn).1) c := not_logsOut (by simp [hturn])
    rcases @visit_login host auth sessions turn r hturn with ⟨-, hmints, hsessions⟩ | ⟨-, ⟨resp, herror⟩, hsessions⟩
    · rw [hsessions, validAt_minted]
      constructor
      · rintro (⟨rfl, hle⟩ | ⟨hvalid, -⟩)
        · exact .inl ⟨hmints, hle⟩
        · exact .inr ⟨hvalid, hkept⟩
      · rintro (⟨hgrant, hle⟩ | ⟨hvalid, -⟩)
        · exact .inl ⟨(mints_iff hmints).1 hgrant, hle⟩
        · by_cases hc : c = cookieOf turn.world
          · -- the session minted now lasts longer than any before it
            have hbound : t ≤ now + sessionTTL := h.le (by omega) hvalid
            exact .inl ⟨hc, by omega⟩
          · exact .inr ⟨hvalid, hc⟩
    · have hnone : ¬ Mints host auth (turn, (visit host auth sessions turn).1) c := by
        rintro ⟨r', password, -, -, -, hok⟩
        rw [herror] at hok
        cases hok
      rw [hsessions]
      exact ⟨fun hvalid => .inr ⟨hvalid, hkept⟩, fun h => h.elim (fun h => absurd h.1 hnone) fun h => h.1⟩

/-! ## All of them -/

/-- **Any run.** -/
theorem exact_run : ∀ {turns : List Turn} {past : List Visited} {sessions : Sessions} {now last : Int},
    (sessionLease host auth).Exact past now (ValidAt sessions) →
    (now :: (turns.map Turn.now ++ [last])).Pairwise (· ≤ ·) →
    (sessionLease host auth).Exact (past ++ turns.zip (runAll (visit host auth) turns sessions).1) last
      (ValidAt (runAll (visit host auth) turns sessions).2)
  | [], past, _, now, last, h, hclock => by
    have hnow : now ≤ last := (List.pairwise_cons.1 hclock).1 last (List.mem_singleton_self last)
    rw [List.zip_nil_left, List.append_nil]
    exact h.later hnow
  | turn :: turns, past, sessions, now, last, h, hclock => by
    obtain ⟨hnow, hrest⟩ := List.pairwise_cons.1 hclock
    have hstep := exact_visit h (hnow turn.now List.mem_cons_self)
    have hrun := @exact_run turns _ _ _ _ hstep hrest
    rw [List.append_assoc, List.singleton_append] at hrun
    exact hrun

/-- From `now` on the two tables have the same sessions. -/
def AgreeFrom (now : Int) (sessions sessions' : Sessions) : Prop :=
  ∀ c t, now ≤ t → (ValidAt sessions c t ↔ ValidAt sessions' c t)

theorem agreeFrom_visit (h : AgreeFrom now sessions sessions') (hnow : now ≤ turn.now) :
    AgreeFrom turn.now (visit host auth sessions turn).2 (visitKeeping host auth sessions' turn).2 := by
  intro c t ht
  have hsame := h c t (hnow.trans ht)
  cases hturn : turn.visit with
  | admin next r =>
    have hkeeping : (visitKeeping host auth sessions' turn).2 = sessions' := by rw [visitKeeping, hturn]
    rw [validAt_admin hturn ht, hkeeping]
    exact hsame
  | logout r =>
    have hkeeping : visitKeeping host auth sessions' turn =
      visit host auth sessions' turn := by rw [visitKeeping, hturn]
    rw [hkeeping, validAt_logout hturn, validAt_logout hturn, hsame]
  | login r =>
    have hkeeping : visitKeeping host auth sessions' turn =
      visit host auth sessions' turn := by rw [visitKeeping, hturn]
    rw [hkeeping]
    rcases @visit_login host auth sessions turn r hturn with ⟨hsucceeds, -, hsessions⟩ | ⟨hnot, -, hsessions⟩
    · rcases @visit_login host auth sessions' turn r hturn with ⟨-, -, hsessions'⟩ | ⟨hnot, -⟩
      · rw [hsessions, hsessions', validAt_minted, validAt_minted, hsame]
      · exact absurd hsucceeds hnot
    · rcases @visit_login host auth sessions' turn r hturn with ⟨hsucceeds, -⟩ | ⟨-, -, hsessions'⟩
      · exact absurd hsucceeds hnot
      · rw [hsessions, hsessions']
        exact hsame

theorem agreeFrom_run : ∀ {turns : List Turn} {sessions sessions' : Sessions} {now last : Int},
    AgreeFrom now sessions sessions' →
    (now :: (turns.map Turn.now ++ [last])).Pairwise (· ≤ ·) →
    AgreeFrom last (runAll (visit host auth) turns sessions).2 (runAll (visitKeeping host auth) turns sessions').2
  | [], _, _, now, last, h, hclock => fun c t ht =>
    h c t (((List.pairwise_cons.1 hclock).1 last (List.mem_singleton_self last)).trans ht)
  | turn :: turns, sessions, sessions', _, _, h, hclock => by
    obtain ⟨hnow, hrest⟩ := List.pairwise_cons.1 hclock
    have hstep : AgreeFrom turn.now (visit host auth sessions turn).2 (visitKeeping host auth sessions' turn).2 :=
      agreeFrom_visit h (hnow turn.now List.mem_cons_self)
    have hrun := @agreeFrom_run turns _ _ _ _ hstep hrest
    exact hrun

theorem not_admits_of_rejects {r : Request} {w : World} (h : Rejects r w) : ¬ Admits r w := by
  intro hadmits
  obtain ⟨w', hw'⟩ := h
  obtain ⟨w'', hw''⟩ := hadmits
  have hrun : (Except.error unauthorized, w') = (Except.ok (writeJSON .ok), w'') :=
    (hw' fun _ => pure (writeJSON .ok)).symm.trans (hw'' fun _ => pure (writeJSON .ok))
  cases congrArg Prod.fst hrun

theorem admits_iff {r : Request} (hc : r.cookie sessionCookieName = some c) :
    Admits r (turn.enter sessions) ↔ ValidAt sessions c turn.now := by
  constructor
  · intro hadmits
    by_contra hnot
    exact not_admits_of_rejects (rejects_of_not_validAt hc hnot) hadmits
  · exact admits_of_validAt hc

/-- A time before all others. -/
theorem exists_le_all (times : List Int) : ∃ now, ∀ t ∈ times, now ≤ t := by
  induction times with
  | nil => exact ⟨0, fun _ h => absurd h List.not_mem_nil⟩
  | cons t times ih =>
    obtain ⟨now, hnow⟩ := ih
    refine ⟨min now t, List.forall_mem_cons.2 ⟨by omega, fun t' ht' => ?_⟩⟩
    have hle := hnow t' ht'
    omega

/-- **Sessions are exact.** -/
theorem session_exact (host : Host) (auth : AdminAuth) (turns : List Turn) (turn : Turn) (r : Request) (c : Bytes)
    (hclock : (turns.map Turn.now ++ [turn.now]).Pairwise (· ≤ ·)) (hc : r.cookie sessionCookieName = some c) :
    let run := runAll (visit host auth) turns []
    let keeping := runAll (visitKeeping host auth) turns []
    let live := (sessionLease host auth).Live (turns.zip run.1) c turn.now
    (Admits r (turn.enter run.2) ↔ live) ∧ (¬ live → Rejects r (turn.enter run.2)) ∧
      (Admits r (turn.enter keeping.2) ↔ Admits r (turn.enter run.2)) := by
  intro run keeping live
  obtain ⟨now, hnow⟩ := exists_le_all (turns.map Turn.now ++ [turn.now])
  have hchain : (now :: (turns.map Turn.now ++ [turn.now])).Pairwise (· ≤ ·) := List.pairwise_cons.2 ⟨hnow, hclock⟩
  have hnone : (sessionLease host auth).Exact [] now (ValidAt []) := Lease.exact_nil fun c t => validAt_nil
  have hexact : ValidAt run.2 c turn.now ↔ live := (exact_run hnone hchain).valid_iff c turn.now le_rfl
  refine ⟨(admits_iff hc).trans hexact, fun hnot => ?_, ?_⟩
  · exact rejects_of_not_validAt hc fun hvalid => hnot (hexact.1 hvalid)
  · rw [admits_iff hc, admits_iff hc]
    have hagree : AgreeFrom now [] [] := fun c t _ => Iff.rfl
    exact (agreeFrom_run hagree hchain c turn.now le_rfl).symm

/-- A host with one password. -/
def openHost : Host := { insertionHost with comparePassword := fun _ password => password == str "s3cret" }

def firstLogin : Request where
  method := str "POST"
  path := str "/admin/login"
  body := ⟨str "\x7b\"password\":\"s3cret\"\x7d", false⟩

/-- A login at the epoch, and the moment twelve hours later. -/
def loginTurn : Turn := ⟨.login firstLogin, { db := {}, clock := fun _ => .epoch, entropy := fun _ => 7 }⟩

def halfDayLater : Turn :=
  ⟨.logout firstLogin, { db := {}, clock := fun _ => ⟨sessionTTL, by decide, by decide⟩, entropy := fun _ => 7 }⟩

def adminRequest : Request where
  method := str "GET"
  path := str "/admin/api/rules"
  cookies := [(sessionCookieName, cookieOf loginTurn.world)]

/-- Twelve hours after the login its session is still good. -/
theorem session_after_login :
    Admits adminRequest (halfDayLater.enter (runAll (visit openHost ⟨[]⟩) [loginTurn] []).2) := by
  have hexact := session_exact openHost ⟨[]⟩ [loginTurn] halfDayLater adminRequest (cookieOf loginTurn.world)
    (by decide) (by decide +kernel)
  refine hexact.1.2 ⟨[], _, [], rfl, ?_, by decide, fun _ h => absurd h List.not_mem_nil⟩
  have hsucceeds : Succeeds openHost ⟨[]⟩ firstLogin loginTurn.world :=
    ⟨by decide, ⟨str "s3cret", by decide +kernel, by decide⟩, rfl⟩
  rcases @visit_login openHost ⟨[]⟩ [] loginTurn firstLogin rfl with ⟨-, hmints, -⟩ | ⟨hnot, -⟩
  · exact hmints
  · exact absurd hsucceeds hnot

end ScrewLogger
