/-
The admin UI (`web/app.js`): what is typed and clicked, up to the store.

`action_performed`: each action's request reaches its own handler with the ids and
texts that the action is about, whatever characters are in them, and does to the
store what the action is for.
-/
import ScrewLogger.Lib.Json.Stringify
import ScrewLogger.Lib.Routing
import ScrewLogger.Lib.Trim
import ScrewLogger.Server.Failures
import ScrewLogger.Server.Routes

namespace ScrewLogger
open Lib Lib.Eff Lib.Json

namespace WebUi

/-! ## What the page sends -/

/-- White space in JavaScript: Go's without U+0085, and U+FEFF. -/
def isSpace : Rune → Bool
  | .two a b _ => a = 0xC2 && b = 0xA0
  | .three a b c h => a = 0xEF && b = 0xBB && c = 0xBF || (Rune.three a b c h).isSpace
  | r => r.isSpace

/-- `String.prototype.trim`. -/
def trim (s : Bytes) : Bytes := (((runes s).dropWhile isSpace).rdropWhile isSpace).flatMap Rune.bytes

/-- What `api` is called with. -/
structure Call where
  method : Bytes := str "GET"
  path : Bytes
  body : Option (List (Bytes × Scalar)) := none

/-- The request of `api`, which has the cookies of the browser. That a browser
writes `%27` for a quote in a query is left out: it is read as one. -/
def api (cookies : List (Bytes × Bytes)) (c : Call) : Request where
  method := c.method
  path := c.path.takeWhile (· != 0x3F)
  query := parseQuery ((c.path.dropWhile (· != 0x3F)).drop 1)
  cookies := cookies
  body := { data := c.body.elim [] stringifyObject, broken := false }

/-- What can be done on the page, with what is typed, and the ids and the texts
of the rows it is done to. -/
inductive Action
  | enrollDevice (name : Bytes)
  | renameDevice (id old name : Bytes)
  | revokeDevice (id : Bytes)
  | deleteDevice (id : Bytes)
  | saveRule (pattern category : Bytes) (applyToHistory : Bool)
  | deleteRule (pattern : Bytes)
  | createKey (label : Bytes)
  | revokeKey (hashPrefix : Bytes)

/-- The call of `api`, none where the page does nothing. -/
def Action.call : Action → Option Call
  | .enrollDevice name =>
    if trim name = [] then none
    else
      let body : List (Bytes × Scalar) := [(str "name", .str (trim name))]
      some { method := str "POST", path := str "/admin/api/devices", body := some body }
  | .renameDevice id old name =>
    if trim name = [] ∨ trim name = old then none
    else
      let path := str "/admin/api/devices/" ++ encodeURIComponent id ++ str "/name"
      some { method := str "PUT", path := path, body := some [(str "name", .str (trim name))] }
  | .revokeDevice id =>
    some { method := str "POST", path := str "/admin/api/devices/" ++ encodeURIComponent id ++ str "/revoke" }
  | .deleteDevice id => some { method := str "DELETE", path := str "/admin/api/devices/" ++ encodeURIComponent id }
  | .saveRule pattern category applyToHistory =>
    let body : List (Bytes × Scalar) := [(str "pattern", .str (trim pattern)),
      (str "category", .str (trim category)), (str "apply_to_history", .bool applyToHistory)]
    if trim pattern = [] ∨ trim category = [] then none
    else some { method := str "PUT", path := str "/admin/api/rules", body := some body }
  | .deleteRule pattern =>
    some { method := str "DELETE", path := str "/admin/api/rules", body := some [(str "pattern", .str pattern)] }
  | .createKey label =>
    if trim label = [] then none
    else some { method := str "POST", path := str "/admin/api/keys", body := some [(str "label", .str (trim label))] }
  | .revokeKey hashPrefix =>
    some { method := str "POST", path := str "/admin/api/keys/" ++ encodeURIComponent hashPrefix ++ str "/revoke" }

/-- What the action is for. -/
def Action.performs (host : Host) : Action → Answer
  | .enrollDevice name => do
    let (id, token) ← mapError (fun _ => storageError) (Store.createDevice host (trim name))
    pure (writeJSON (.deviceEnroll id token))
  | .renameDevice id _ name => do
    -- U+0085 is trimmed by the server only
    let name := trimSpace (trim name)
    ensure (name != []) (writeErr 400 (str "name must not be empty"))
    ensure ((runes name).length ≤ maxDeviceNameLen) (writeErr 400 (str "name too long (max 128 characters)"))
    mapError oneDeviceError (Store.renameDevice id name)
    pure (writeJSON .ok)
  | .revokeDevice id => do
    mapError (fun _ => storageError) (Store.revokeDevice id)
    pure (writeJSON .ok)
  | .deleteDevice id => do
    mapError oneDeviceError (Store.deleteDevice id)
    pure (writeJSON .ok)
  | .saveRule pattern category applyToHistory => do
    mapError (fun _ => storageError) (Store.upsertRule (trim pattern) (trim category))
    if applyToHistory then
      let n ← mapError (fun _ => storageError) (Store.recategorize (trim pattern) (trim category))
      pure (writeJSON (.ok (some n)))
    else pure (writeJSON .ok)
  | .deleteRule pattern => do
    mapError (fun _ => storageError) (Store.deleteRule pattern)
    pure (writeJSON .ok)
  | .createKey label => do
    let key ← mapError (fun _ => storageError) (Store.createAPIKey host (trim label))
    pure (writeJSON (.key key))
  | .revokeKey hashPrefix => do
    let n ← mapError (fun _ => storageError) (Store.revokeAPIKeyByPrefix hashPrefix)
    ensure (n != 0) (writeErr 404 (str "unknown api key"))
    pure (writeJSON .ok)

/-- The texts are texts, and the ids may stand in a path. -/
def Action.WellFormed : Action → Prop
  | .enrollDevice name => validUtf8 name = true
  | .renameDevice id _ name => IsSegment id ∧ validUtf8 name = true
  | .revokeDevice id => IsSegment id
  | .deleteDevice id => IsSegment id
  | .saveRule pattern category _ => validUtf8 pattern = true ∧ validUtf8 category = true
  | .deleteRule pattern => validUtf8 pattern = true
  | .createKey label => validUtf8 label = true
  | .revokeKey hashPrefix => IsSegment hashPrefix

/-! ## What the server reads -/

variable {host : Host} {auth : AdminAuth} {fileServer : Request → Nat × Bytes} {path s : Bytes} {ss : List Bytes}

/-- The names in the routes, pairwise different. -/
theorem route_names : (str "v1" ≠ str "admin" ∧ str "healthz" ≠ str "admin" ∧ str "login" ≠ str "api" ∧
    str "logout" ≠ str "api") ∧ str "api" ≠ str "admin" := by decide

/-- What is below the admin API goes there. -/
theorem find_adminAPI {method : Bytes} (hm : method ∈ [str "GET", str "POST", str "PUT", str "DELETE"])
    (hsegs : segments path = str "admin" :: str "api" :: s :: ss) :
    (routes host auth fileServer).find method path = some ((subtree ["admin", "api"], adminAPI host), []) := by
  obtain ⟨⟨hv1, hhealthz, hlogin, hlogout⟩, hapi⟩ := route_names
  have hnone : (routes host auth fileServer).ofMethod none =
      [([.literal (str "api"), .literal (str "v1"), .rest], (subtree ["api", "v1"], queryAPI host)),
        ([.literal (str "admin"), .literal (str "api"), .rest], (subtree ["admin", "api"], adminAPI host)),
        ([.literal (str "admin"), .rest], (subtree ["admin"], dashboard fileServer))] := rfl
  have hfound : Routes.matchPath ((routes host auth fileServer).ofMethod none) [] (segments path) =
      some ((subtree ["admin", "api"], adminAPI host), []) := by
    rw [hnone, hsegs]
    simp [Routes.matchPath, Routes.literal, Routes.wild, hapi]
  have hown : Routes.matchPath ((routes host auth fileServer).ofMethod (some method)) [] (segments path) = none := by
    rw [hsegs]
    simp only [List.mem_cons, List.not_mem_nil, or_false] at hm
    obtain rfl | rfl | rfl | rfl := hm
    · have hget : (routes host auth fileServer).ofMethod (some (str "GET")) =
        [([.literal (str "healthz")], (literals (some "GET") ["healthz"], healthz))] := rfl
      rw [hget]
      simp [Routes.matchPath, Routes.literal, Routes.wild, hhealthz]
    · have hpost : (routes host auth fileServer).ofMethod (some (str "POST")) =
        [([.literal (str "v1"), .literal (str "ingest")],
            (literals (some "POST") ["v1", "ingest"], ingestHandler host)),
          ([.literal (str "admin"), .literal (str "login")],
            (literals (some "POST") ["admin", "login"], login host auth)),
          ([.literal (str "admin"), .literal (str "logout")],
            (literals (some "POST") ["admin", "logout"], logout))] := rfl
      rw [hpost]
      simp [Routes.matchPath, Routes.literal, Routes.wild, hv1, hlogin, hlogout]
    · have hput : (routes host auth fileServer).ofMethod (some (str "PUT")) = [] := rfl
      rw [hput, Routes.matchPath_nil]
    · have hdelete : (routes host auth fileServer).ofMethod (some (str "DELETE")) = [] := rfl
      rw [hdelete, Routes.matchPath_nil]
  have hhead : method ≠ str "HEAD" := by
    rintro rfl
    exact absurd hm (by decide)
  rw [Mux.find, hown, if_neg hhead, hfound]
  rfl

/-! ## The admin routes -/

/-- The names in the routes' paths. -/
abbrev adminNames : List Bytes :=
  [str "admin", str "api", str "devices", str "rules", str "keys", str "revoke", str "name", str "usage",
    str "active-ratio", str "events"]

/-- They are written as they are. -/
theorem encode_names : ∀ s ∈ adminNames, encodeURIComponent s = s := by decide

theorem isSegment_names (s : Bytes) (hs : s ∈ adminNames) : IsSegment s := by
  have h : ∀ s ∈ adminNames, s ≠ [] ∧ s ≠ [0x2F] ∧ s ≠ [0x2E] ∧ s ≠ [0x2E, 0x2E] := by decide
  exact ⟨(h s hs).1, (h s hs).2.1, (h s hs).2.2⟩

theorem adminRoutes_apart : (adminRoutes host).Apart := by
  simp only [Mux.Apart, adminRoutes, List.map_cons, List.map_nil]
  decide

variable {method : String} {ps : List Segment} {handler : Handler} {vals : List Bytes} {r : Request} {w : World}

/-- The request is for a route of the admin API. -/
structure ForRoute (host : Host) (method : String) (ps : List Segment) (handler : Handler) (vals : List Bytes)
    (r : Request) : Prop where
  mem : (adminRoute method ps, handler) ∈ adminRoutes host
  known : str method ∈ [str "GET", str "POST", str "PUT", str "DELETE"]
  takes : takes ps vals = true
  nonempty : fill ps vals ≠ []
  segments : ∀ s ∈ fill ps vals, IsSegment s
  method : r.method = str method
  path : r.path = rooted ((str "admin" :: str "api" :: fill ps vals).map encodeURIComponent)

/-- The request as the route's handler gets it. -/
def withValues (ps : List Segment) (vals : List Bytes) (r : Request) : Request :=
  { r with pathValues := (Mux.wildNames ⟨none, ps⟩).zip vals }

theorem ForRoute.segments_cons (h : ForRoute host method ps handler vals r) :
    ∀ s ∈ str "admin" :: str "api" :: fill ps vals, IsSegment s := by
  simp only [List.forall_mem_cons]
  exact ⟨isSegment_names _ (by simp), isSegment_names _ (by simp), h.segments⟩

theorem ForRoute.isPart (h : ForRoute host method ps handler vals r) :
    ∀ part ∈ (str "admin" :: str "api" :: fill ps vals).map encodeURIComponent, IsPart part := by
  simp only [List.forall_mem_map]
  exact fun s hs => isPart_encode (h.segments_cons s hs)

theorem ForRoute.path_ne (h : ForRoute host method ps handler vals r) : r.path ≠ str "*" := by
  intro heq
  rw [h.path, List.map_cons, rooted_cons] at heq
  exact absurd (List.cons.inj heq).1 (by decide)

theorem ForRoute.method_mem (h : ForRoute host method ps handler vals r) :
    r.method ∈ [str "GET", str "POST", str "PUT", str "DELETE"] := by
  rw [h.method]
  exact h.known

theorem ForRoute.method_ne (h : ForRoute host method ps handler vals r) : r.method ≠ str "CONNECT" :=
  fun heq => absurd (heq ▸ h.method_mem) (by decide)

/-- **A request for a route** goes to the admin API. -/
theorem ForRoute.adminAPI (h : ForRoute host method ps handler vals r) :
    newMux host auth fileServer r = adminAPI host { r with pathValues := [] } := by
  obtain ⟨hsegs, hslashed⟩ := segments_encoded (List.cons_ne_nil _ _) h.segments_cons
  have hparts := h.isPart
  have hpath := h.path
  obtain ⟨s, ss, hfill⟩ := List.exists_cons_of_ne_nil h.nonempty
  rw [hfill] at hsegs hslashed hparts hpath
  have hroute : (routes host auth fileServer).route r.method r.path = .handler (ScrewLogger.adminAPI host) [] := by
    rw [hpath]
    exact Mux.route_below (by simp) hparts h.method_ne (find_adminAPI h.method_mem hsegs)
      (find_adminAPI h.method_mem (hslashed.trans rfl)) rfl (by simp [subtree])
  exact serveMux_reaches ⟨h.path_ne, hroute⟩

/-- **Behind the session** it goes to the route's handler, with the values. -/
theorem ForRoute.reaches (h : ForRoute host method ps handler vals r) :
    serveMux (adminRoutes host) { r with pathValues := [] } = handler (withValues ps vals r) := by
  have hfill : fill (adminRoute method ps).segments vals = str "admin" :: str "api" :: fill ps vals := rfl
  have hroute := @Mux.route_fill _ _ r.method _ _ vals adminRoutes_apart h.mem (congrArg some h.method.symm)
    h.method_ne h.takes
  rw [hfill, ← h.path] at hroute
  have hreaches : Reaches (adminRoutes host) { r with pathValues := [] } handler (withValues ps vals r).pathValues :=
    ⟨h.path_ne, hroute (List.cons_ne_nil _ _) h.segments_cons⟩
  exact serveMux_reaches hreaches

/-- Without a session no handler runs. -/
theorem requireAdmin_turnsAway {next : Handler} (hno : ¬ HasSession r w) :
    (requireAdmin next r).Ends (fun resp w' => resp = unauthorized ∧ w'.db = w.db) w := by
  simp only [Answer.Ends, requireAdmin, sessionValid, wp_bind, wp_fromOption, wp_read]
  refine ⟨fun c hc => ?_, fun _ => ⟨trivial, trivial⟩⟩
  cases he : w.sessions.lookup c with
  | none => simp
  | some expiry =>
    simp only [Store.timeNow, wp_bind, wp_take, wp_ite, wp_modify, wp_pure, wp_ensure]
    refine ⟨fun _ => ⟨fun h => Bool.noConfusion h, fun _ => by simp⟩, fun h => ?_⟩
    exact absurd ⟨c, expiry, hc, he, by omega⟩ hno

/-- **With a session** the handler runs after the clock is read. -/
theorem ForRoute.serve (h : ForRoute host method ps handler vals r) (hsession : HasSession r w) :
    (newMux host auth fileServer).serve r w =
      (handler (withValues ps vals r)).run { w with clock := fun n => w.clock (n + 1) } := by
  have hserve := Answer.run_iff.2 ((@requireAdmin_session { r with pathValues := [] } w (serveMux (adminRoutes host))
    (fun resp w' => (resp, w') = (handler (withValues ps vals r)).run { w with clock := fun n => w.clock (n + 1) })
    hsession).2 ?_)
  · rw [Handler.serve, h.adminAPI]
    exact hserve
  · rw [h.reaches]
    exact Answer.run_iff.1 rfl

/-- **Without one** it is turned away. -/
theorem ForRoute.turnedAway (h : ForRoute host method ps handler vals r) (hno : ¬ HasSession r w) :
    ((newMux host auth fileServer).serve r w).1 = unauthorized ∧
      ((newMux host auth fileServer).serve r w).2.db = w.db := by
  rw [Handler.serve, h.adminAPI]
  exact Answer.run_iff (P := fun resp w' => resp = unauthorized ∧ w'.db = w.db) |>.2 (requireAdmin_turnsAway hno)

/-! ## The paths of the calls -/

/-- There is no question mark in a path. -/
theorem question_not_mem_rooted : 0x3F ∉ rooted (ss.map encodeURIComponent) := by
  intro hb
  simp only [rooted, List.mem_flatMap, List.mem_map, exists_exists_and_eq_and, List.mem_cons] at hb
  obtain ⟨s, -, hb | hb⟩ := hb
  · exact absurd hb (by decide)
  · exact not_mem_encode (by decide) (by decide) (by decide) hb

theorem api_path {cookies : List (Bytes × Bytes)} {c : Call} (h : c.path = rooted (ss.map encodeURIComponent)) :
    (api cookies c).path = c.path := by
  refine List.takeWhile_eq_self_iff.2 fun b hb => ?_
  rw [bne_iff_ne]
  rintro rfl
  rw [h] at hb
  exact question_not_mem_rooted hb

/-- A path and the query after it. -/
theorem api_query {cookies : List (Bytes × Bytes)} {c : Call} {query : Bytes}
    (h : c.path = rooted (ss.map encodeURIComponent) ++ 0x3F :: query) :
    (api cookies c).path = rooted (ss.map encodeURIComponent) ∧ (api cookies c).query = parseQuery query := by
  have hplain : ∀ b ∈ rooted (ss.map encodeURIComponent), (b != 0x3F) = true := fun b hb => by
    rw [bne_iff_ne]
    rintro rfl
    exact question_not_mem_rooted hb
  refine ⟨?_, congrArg parseQuery ?_⟩
  · show c.path.takeWhile _ = _
    rw [h, List.takeWhile_append_of_pos hplain]
    simp
  · rw [h, List.dropWhile_append_of_pos hplain]
    simp

/-- A call whose path is that of a route. -/
theorem forRoute {cookies : List (Bytes × Bytes)} {c : Call} (ss : List Bytes)
    (hmem : (adminRoute method ps, handler) ∈ adminRoutes host)
    (hknown : str method ∈ [str "GET", str "POST", str "PUT", str "DELETE"]) (htakes : takes ps vals = true)
    (hfill : fill ps vals = ss) (hne : ss ≠ []) (hsegs : ∀ s ∈ ss, IsSegment s) (hmethod : c.method = str method)
    (hpath : c.path = rooted ((str "admin" :: str "api" :: ss).map encodeURIComponent)) :
    ForRoute host method ps handler vals (api cookies c) := by
  subst hfill
  exact ⟨hmem, hknown, htakes, hne, hsegs, hmethod, (api_path hpath).trans hpath⟩

/-! ## The bodies of the calls -/

theorem validUtf8_trim {s : Bytes} (h : validUtf8 s = true) : validUtf8 (trim s) = true := by
  have hgood : ∀ r ∈ runes s, r.isBad = false := by simpa [validUtf8] using h
  have hsub : (((runes s).dropWhile isSpace).rdropWhile isSpace).Sublist (runes s) :=
    (List.rdropWhile_prefix _ _).sublist.trans (List.dropWhile_sublist _)
  rw [validUtf8, trim, runes_flatMap_bytes fun r hr => hgood r (hsub.subset hr)]
  simpa using fun r hr => hgood r (hsub.subset hr)

theorem plain_names : ∀ s ∈ [str "name", str "pattern", str "category", str "apply_to_history", str "label"],
    Plain s := by
  unfold Plain
  decide +kernel

/-- A body of one string. -/
theorem stringBody_stringify {field text : Bytes} (hfield : Plain field) (htext : validUtf8 text = true) :
    stringBody field ⟨stringifyObject [(field, .str text)], false⟩ = some text := by
  rw [stringBody, decodeFirst_stringify (by simp) (by simpa using hfield)]
  simp [readStruct, Scalar.value, toValid_eq_self htext, isField, readString]

/-- The body of a rule. -/
theorem ruleBody_stringify {pattern category : Bytes} {applyToHistory : Bool} (hpattern : validUtf8 pattern = true)
    (hcategory : validUtf8 category = true) :
    (decodeFirst ⟨stringifyObject [(str "pattern", .str pattern), (str "category", .str category),
      (str "apply_to_history", .bool applyToHistory)], false⟩).bind (readStruct RuleBody.setField {}) =
        some ⟨pattern, category, applyToHistory⟩ := by
  have hnames := plain_names
  simp only [List.forall_mem_cons] at hnames
  have hcp : isField (str "pattern") (str "category") = false := by decide
  have hap : isField (str "pattern") (str "apply_to_history") = false := by decide
  have hac : isField (str "category") (str "apply_to_history") = false := by decide
  have hself : ∀ s, isField s s = true := fun s => by simp [isField]
  rw [decodeFirst_stringify (by simp) (by simp [hnames])]
  simp [readStruct, Scalar.value, toValid_eq_self hpattern, toValid_eq_self hcategory, RuleBody.setField, hcp, hap, hac,
    hself, readString, readBool]

/-! ## The actions -/

/-- The paths of the calls that name no row. -/
theorem kind_paths :
    str "/admin/api/devices" = rooted ([str "admin", str "api", str "devices"].map encodeURIComponent) ∧
    str "/admin/api/rules" = rooted ([str "admin", str "api", str "rules"].map encodeURIComponent) ∧
    str "/admin/api/keys" = rooted ([str "admin", str "api", str "keys"].map encodeURIComponent) := by
  decide

/-- The paths of those that name one. -/
theorem row_paths (s : Bytes) : str "/admin/api/devices/" ++ encodeURIComponent s =
      rooted ([str "admin", str "api", str "devices", s].map encodeURIComponent) ∧
    str "/admin/api/devices/" ++ encodeURIComponent s ++ str "/revoke" =
      rooted ([str "admin", str "api", str "devices", s, str "revoke"].map encodeURIComponent) ∧
    str "/admin/api/devices/" ++ encodeURIComponent s ++ str "/name" =
      rooted ([str "admin", str "api", str "devices", s, str "name"].map encodeURIComponent) ∧
    str "/admin/api/keys/" ++ encodeURIComponent s ++ str "/revoke" =
      rooted ([str "admin", str "api", str "keys", s, str "revoke"].map encodeURIComponent) := by
  have hdevices : str "/admin/api/devices/" = rooted [str "admin", str "api", str "devices"] ++ [0x2F] := by decide
  have hkeys : str "/admin/api/keys/" = rooted [str "admin", str "api", str "keys"] ++ [0x2F] := by decide
  have hrevoke : str "/revoke" = 0x2F :: str "revoke" := by decide
  have hname : str "/name" = 0x2F :: str "name" := by decide
  have hencode := encode_names
  simp only [adminNames, List.forall_mem_cons] at hencode
  simp [rooted, hdevices, hkeys, hrevoke, hname, hencode]

/-- The action's call is for a route whose handler does what the action is for. -/
def Action.Routed (host : Host) (a : Action) (c : Call) : Prop :=
  ∃ method ps handler vals, ∀ cookies, ForRoute host method ps handler vals (api cookies c) ∧
    handler (withValues ps vals (api cookies c)) = a.performs host

/-- The value of a route's one wildcard. -/
theorem pathValue_first {kind name v : Bytes} {ps : List Segment} :
    (withValues (.literal kind :: .wild name :: ps) [v] r).pathValue name = v := by
  simp [withValues, Request.pathValue, Mux.wildNames]

variable {c : Call}

theorem routed_enrollDevice {name : Bytes} (hcall : (Action.enrollDevice name).call = some c)
    (hname : validUtf8 name = true) : Action.Routed host (.enrollDevice name) c := by
  obtain ⟨-, hcall⟩ := Option.ite_none_left_eq_some.1 hcall
  cases hcall
  have hbody := stringBody_stringify (plain_names (str "name") (by simp)) (validUtf8_trim hname)
  refine ⟨"POST", [.literal (str "devices")], handleDeviceEnroll host, [], fun cookies => ⟨?_, ?_⟩⟩
  · refine forRoute [str "devices"] (by simp [adminRoutes]) (by simp) rfl rfl (by simp) ?_ rfl kind_paths.1
    simp [isSegment_names]
  · simp only [handleDeviceEnroll, withValues, api, Option.elim_some, hbody]
    rfl

theorem routed_renameDevice {id old name : Bytes} (hcall : (Action.renameDevice id old name).call = some c)
    (hid : IsSegment id) (hname : validUtf8 name = true) : Action.Routed host (.renameDevice id old name) c := by
  obtain ⟨-, hcall⟩ := Option.ite_none_left_eq_some.1 hcall
  cases hcall
  have hbody := stringBody_stringify (plain_names (str "name") (by simp)) (validUtf8_trim hname)
  refine ⟨"PUT", [.literal (str "devices"), .wild (str "id"), .literal (str "name")], handleDeviceRename, [id],
    fun cookies => ⟨?_, ?_⟩⟩
  · refine forRoute [str "devices", id, str "name"] (by simp [adminRoutes]) (by simp) rfl rfl (by simp) ?_ rfl
      (row_paths id).2.2.1
    simp [hid, isSegment_names]
  · rw [handleDeviceRename, pathValue_first]
    simp only [withValues, api, Option.elim_some, hbody]
    rfl

theorem routed_revokeDevice {id : Bytes} (hcall : (Action.revokeDevice id).call = some c) (hid : IsSegment id) :
    Action.Routed host (.revokeDevice id) c := by
  cases hcall
  refine ⟨"POST", [.literal (str "devices"), .wild (str "id"), .literal (str "revoke")], handleDeviceRevoke, [id],
    fun cookies => ⟨?_, ?_⟩⟩
  · refine forRoute [str "devices", id, str "revoke"] (by simp [adminRoutes]) (by simp) rfl rfl (by simp) ?_ rfl
      (row_paths id).2.1
    simp [hid, isSegment_names]
  · rw [handleDeviceRevoke, pathValue_first]
    rfl

theorem routed_deleteDevice {id : Bytes} (hcall : (Action.deleteDevice id).call = some c) (hid : IsSegment id) :
    Action.Routed host (.deleteDevice id) c := by
  cases hcall
  refine ⟨"DELETE", [.literal (str "devices"), .wild (str "id")], handleDeviceDelete, [id], fun cookies => ⟨?_, ?_⟩⟩
  · refine forRoute [str "devices", id] (by simp [adminRoutes]) (by simp) rfl rfl (by simp) ?_ rfl (row_paths id).1
    simp [hid, isSegment_names]
  · rw [handleDeviceDelete, pathValue_first]
    rfl

theorem routed_saveRule {pattern category : Bytes} {applyToHistory : Bool}
    (hcall : (Action.saveRule pattern category applyToHistory).call = some c) (hpattern : validUtf8 pattern = true)
    (hcategory : validUtf8 category = true) : Action.Routed host (.saveRule pattern category applyToHistory) c := by
  obtain ⟨-, hcall⟩ := Option.ite_none_left_eq_some.1 hcall
  cases hcall
  have hbody := @ruleBody_stringify _ _ applyToHistory (validUtf8_trim hpattern) (validUtf8_trim hcategory)
  refine ⟨"PUT", [.literal (str "rules")], handleRuleUpsert, [], fun cookies => ⟨?_, ?_⟩⟩
  · refine forRoute [str "rules"] (by simp [adminRoutes]) (by simp) rfl rfl (by simp) ?_ rfl kind_paths.2.1
    simp [isSegment_names]
  · simp only [handleRuleUpsert, withValues, api, Option.elim_some, hbody]
    rfl

theorem routed_deleteRule {pattern : Bytes} (hcall : (Action.deleteRule pattern).call = some c)
    (hpattern : validUtf8 pattern = true) : Action.Routed host (.deleteRule pattern) c := by
  cases hcall
  have hbody := stringBody_stringify (plain_names (str "pattern") (by simp)) hpattern
  refine ⟨"DELETE", [.literal (str "rules")], handleRuleDelete, [], fun cookies => ⟨?_, ?_⟩⟩
  · refine forRoute [str "rules"] (by simp [adminRoutes]) (by simp) rfl rfl (by simp) ?_ rfl kind_paths.2.1
    simp [isSegment_names]
  · simp only [handleRuleDelete, withValues, api, Option.elim_some, hbody]
    rfl

theorem routed_createKey {label : Bytes} (hcall : (Action.createKey label).call = some c)
    (hlabel : validUtf8 label = true) : Action.Routed host (.createKey label) c := by
  obtain ⟨-, hcall⟩ := Option.ite_none_left_eq_some.1 hcall
  cases hcall
  have hbody := stringBody_stringify (plain_names (str "label") (by simp)) (validUtf8_trim hlabel)
  refine ⟨"POST", [.literal (str "keys")], handleKeyCreate host, [], fun cookies => ⟨?_, ?_⟩⟩
  · refine forRoute [str "keys"] (by simp [adminRoutes]) (by simp) rfl rfl (by simp) ?_ rfl kind_paths.2.2
    simp [isSegment_names]
  · simp only [handleKeyCreate, withValues, api, Option.elim_some, hbody]
    rfl

theorem routed_revokeKey {hashPrefix : Bytes} (hcall : (Action.revokeKey hashPrefix).call = some c)
    (hhash : IsSegment hashPrefix) : Action.Routed host (.revokeKey hashPrefix) c := by
  cases hcall
  refine ⟨"POST", [.literal (str "keys"), .wild (str "hash"), .literal (str "revoke")], handleKeyRevoke, [hashPrefix],
    fun cookies => ⟨?_, ?_⟩⟩
  · refine forRoute [str "keys", hashPrefix, str "revoke"] (by simp [adminRoutes]) (by simp) rfl rfl (by simp) ?_ rfl
      (row_paths hashPrefix).2.2.2
    simp [hhash, isSegment_names]
  · rw [handleKeyRevoke, pathValue_first]
    rfl

/-- **Every action** is routed. -/
theorem Action.routed {a : Action} (hcall : a.call = some c) (hformed : a.WellFormed) : a.Routed host c := by
  cases a with
  | enrollDevice name => exact routed_enrollDevice hcall hformed
  | renameDevice id old name => exact routed_renameDevice hcall hformed.1 hformed.2
  | revokeDevice id => exact routed_revokeDevice hcall hformed
  | deleteDevice id => exact routed_deleteDevice hcall hformed
  | saveRule pattern category applyToHistory => exact routed_saveRule hcall hformed.1 hformed.2
  | deleteRule pattern => exact routed_deleteRule hcall hformed
  | createKey label => exact routed_createKey hcall hformed
  | revokeKey hashPrefix => exact routed_revokeKey hcall hformed

/-- **What is done on the page is done to the store**, whatever characters are
in the texts and the ids; without a session nothing is, and the page is told. -/
theorem action_performed (host : Host) (auth : AdminAuth) (fileServer : Request → Nat × Bytes) (a : Action) (c : Call)
    (cookies : List (Bytes × Bytes)) (w : World) (hcall : a.call = some c) (hformed : a.WellFormed) :
    let served := (newMux host auth fileServer).serve (api cookies c) w
    (HasSession (api cookies c) w → served = (a.performs host).run { w with clock := fun n => w.clock (n + 1) }) ∧
      (¬ HasSession (api cookies c) w → served.1 = unauthorized ∧ served.2.db = w.db) := by
  obtain ⟨method, ps, handler, vals, hrouted⟩ := a.routed hcall hformed
  obtain ⟨hroute, hhandler⟩ := hrouted cookies
  refine ⟨fun hsession => ?_, hroute.turnedAway⟩
  rw [← hhandler]
  exact hroute.serve hsession

/-- A device whose id is no path's. -/
def slashDevice : World where
  db :=
    let d : Device := { id := str "d/1?", name := str "old", tokenHash := [], enrolledAt := 0 }
    { devices := { rows := [d], nodup := by decide } }
  sessions := [(str "s", 0)]
  clock := fun _ => .epoch
  entropy := fun _ => 0

/-- The name given to it is kept as it was typed, but for the spaces. -/
theorem slashDevice_renamed :
    let path := str "/admin/api/devices/d%2F1%3F/name"
    let call : Call := { method := str "PUT", path := path, body := some [(str "name", .str (str "<new>"))] }
    let served := (newMux insertionHost ⟨[]⟩ fun _ => (404, [])).serve (api [(sessionCookieName, str "s")] call)
      slashDevice
    served.1.status = 200 ∧ served.2.db.devices.rows.map (·.name) = [str "<new>"] := by
  intro path call served
  have hserved := (action_performed insertionHost ⟨[]⟩ (fun _ => (404, []))
    (.renameDevice (str "d/1?") (str "old") (str " <new> ")) call [(sessionCookieName, str "s")] slashDevice (by rfl)
    ⟨⟨by decide, by decide, by decide⟩, by decide⟩).1 ⟨str "s", 0, by decide, by decide, by decide⟩
  have hserved : served = _ := hserved
  rw [hserved]
  decide

end WebUi
end ScrewLogger
