/-
The dashboards of the admin UI (`renderDashboards` in `web/app.js`): four
requests, and four charts.

`chart_served`: each request is answered with the report of the device and the
window that were chosen. `dashboards_agree`: so the charts of one device agree
with each other, unless the limit of the events cuts off time that counts.
-/
import ScrewLogger.Server.Timeline
import ScrewLogger.Server.WebUi

namespace ScrewLogger
open Lib Lib.Eff Lib.Json

namespace WebUi

inductive Chart
  | category
  | app
  | ratio
  | hourly

/-- The parameters of a chart's own. -/
def Chart.params : Chart → List (Bytes × Bytes)
  | .category => [(str "group_by", str "category")]
  | .app => [(str "group_by", str "app")]
  | .ratio => []
  | .hourly => [(str "limit", str "10000")]

/-- The parameters of all charts: no device stands for all of them. -/
def windowParams (device : Bytes) (lo hi : Int64) : List (Bytes × Bytes) :=
  [(str "from", formatInt lo.toInt), (str "to", formatInt hi.toInt)] ++
    if device = [] then [] else [(str "device", device)]

/-- The query `q`. -/
def windowQuery (device : Bytes) (lo hi : Int64) : Bytes :=
  str "from=" ++ formatInt lo.toInt ++ str "&to=" ++ formatInt hi.toInt ++
    if device = [] then [] else str "&device=" ++ encodeURIComponent device

/-- The jobs of `renderDashboards`. -/
def Chart.call (device : Bytes) (lo hi : Int64) : Chart → Call
  | .category => { path := str "/admin/api/usage?group_by=category&" ++ windowQuery device lo hi }
  | .app => { path := str "/admin/api/usage?group_by=app&" ++ windowQuery device lo hi }
  | .ratio => { path := str "/admin/api/active-ratio?" ++ windowQuery device lo hi }
  | .hourly => { path := str "/admin/api/events?limit=10000&" ++ windowQuery device lo hi }

/-- What the chart is a picture of. -/
def Chart.report (host : Host) (db : Database) (device : Bytes) (lo hi : Int64) : Chart → Body
  | .category => .usage (str "category") (Database.buckets host .category (db.dwell host device lo.toInt hi.toInt))
  | .app => .usage (str "app") (Database.buckets host .app (db.dwell host device lo.toInt hi.toInt))
  | .ratio => .activeRatio (Database.activeRatio (db.dwell host device lo.toInt hi.toInt))
  | .hourly => .events (db.events host device lo.toInt hi.toInt 10000)

/-- The name of the chart's route. -/
def Chart.route : Chart → Bytes
  | .category => str "usage"
  | .app => str "usage"
  | .ratio => str "active-ratio"
  | .hourly => str "events"

variable {host : Host} {auth : AdminAuth} {fileServer : Request → Nat × Bytes} {device : Bytes} {lo hi : Int64}
  {cookies : List (Bytes × Bytes)} {r : Request} {w : World}

/-! ## The queries -/

theorem encode_formatInt (i : Int) : encodeURIComponent (formatInt i) = formatInt i := by
  have hdigits : ∀ n, ∀ c ∈ formatNat n, isUnreserved c = true := fun n c hc => by
    have h := formatNat_isDigit hc
    simp only [isDigit, Bool.and_eq_true] at h
    simp [isUnreserved, h]
  refine encode_unreserved fun c hc => ?_
  unfold formatInt at hc
  split at hc
  · obtain rfl | hc := List.mem_cons.1 hc
    · decide
    · exact hdigits _ c hc
  · exact hdigits _ c hc

theorem windowQuery_eq :
    windowQuery device lo hi = [0x26].intercalate ((windowParams device lo hi).map encodePair) := by
  have hfrom : str "from=" = str "from" ++ [0x3D] := by decide
  have hto : str "&to=" = 0x26 :: str "to" ++ [0x3D] := by decide
  have hdevice : str "&device=" = 0x26 :: str "device" ++ [0x3D] := by decide
  unfold windowQuery windowParams
  split <;> simp [List.intercalate, encodePair, writePair, encode_formatInt, hfrom, hto, hdevice]

/-- The path and the query of a chart. -/
theorem Chart.path_eq (chart : Chart) : (chart.call device lo hi).path =
    rooted ([str "admin", str "api", chart.route].map encodeURIComponent) ++ 0x3F ::
      [0x26].intercalate ((chart.params ++ windowParams device lo hi).map encodePair) := by
  have hcategory : str "/admin/api/usage?group_by=category&" =
    rooted ([str "admin", str "api", str "usage"].map encodeURIComponent) ++ 0x3F ::
      (encodePair (str "group_by", str "category") ++ [0x26]) := by decide +kernel
  have happ : str "/admin/api/usage?group_by=app&" =
    rooted ([str "admin", str "api", str "usage"].map encodeURIComponent) ++ 0x3F ::
      (encodePair (str "group_by", str "app") ++ [0x26]) := by decide +kernel
  have hratio : str "/admin/api/active-ratio?" =
    rooted ([str "admin", str "api", str "active-ratio"].map encodeURIComponent) ++ [0x3F] := by decide +kernel
  have hevents : str "/admin/api/events?limit=10000&" =
    rooted ([str "admin", str "api", str "events"].map encodeURIComponent) ++ 0x3F ::
      (encodePair (str "limit", str "10000") ++ [0x26]) := by decide +kernel
  have hcall : (chart.call device lo hi).path = rooted ([str "admin", str "api", chart.route].map encodeURIComponent) ++
      0x3F :: (chart.params.flatMap (fun p => encodePair p ++ [0x26]) ++ windowQuery device lo hi) := by
    cases chart <;> simp [call, params, route, hcategory, happ, hratio, hevents]
  rw [hcall, windowQuery_eq]
  cases chart <;> simp [params, List.intercalate, windowParams]

/-- **The query** is read back. -/
theorem Chart.query_eq (chart : Chart) :
    (api cookies (chart.call device lo hi)).query = chart.params ++ windowParams device lo hi := by
  rw [(api_query chart.path_eq).2]
  refine parseQuery_encoded (by simp [windowParams]) fun p hp => ?_
  have hkeys : ∀ k ∈ [str "group_by", str "limit", str "from", str "to", str "device"],
      ∀ c ∈ k, isUnreserved c = true := by
    decide +kernel
  refine hkeys p.1 ?_
  unfold windowParams at hp
  cases chart <;> split at hp <;> simp [params] at hp <;> grind

/-- The window and the device as a handler reads them. -/
structure Asks (device : Bytes) (lo hi : Int64) (r : Request) : Prop where
  «from» : r.get (str "from") = formatInt lo.toInt
  «to» : r.get (str "to") = formatInt hi.toInt
  device : r.get (str "device") = device

theorem lookup_windowParams :
    (windowParams device lo hi).lookup (str "from") = some (formatInt lo.toInt) ∧
    (windowParams device lo hi).lookup (str "to") = some (formatInt hi.toInt) ∧
    ((windowParams device lo hi).lookup (str "device")).getD [] = device := by
  have hto : (str "to" == str "from") = false := by decide
  have hdevice : (str "device" == str "from") = false ∧ (str "device" == str "to") = false := by decide
  unfold windowParams
  split
  · next h => simp [List.lookup, hto, hdevice, h]
  · simp [List.lookup, hto, hdevice]

theorem Chart.asks (chart : Chart) {values : List (Bytes × Bytes)} :
    Asks device lo hi { api cookies (chart.call device lo hi) with pathValues := values } := by
  obtain ⟨hfrom, hto, hdevice⟩ := @lookup_windowParams device lo hi
  have hskip : ∀ k ∈ [str "from", str "to", str "device"], chart.params.lookup k = none := by
    cases chart <;> decide
  simp only [List.forall_mem_cons] at hskip
  have hget : ∀ k, chart.params.lookup k = none →
      (api cookies (chart.call device lo hi)).query.lookup k = (windowParams device lo hi).lookup k := fun k hk => by
    rw [chart.query_eq, List.lookup_append, hk]
    rfl
  refine ⟨?_, ?_, ?_⟩
  · show ((api cookies (chart.call device lo hi)).query.lookup _).getD [] = _
    rw [hget _ hskip.1, hfrom]
    rfl
  · show ((api cookies (chart.call device lo hi)).query.lookup _).getD [] = _
    rw [hget _ hskip.2.1, hto]
    rfl
  · show ((api cookies (chart.call device lo hi)).query.lookup _).getD [] = _
    rw [hget _ hskip.2.2.1, hdevice]

/-- A parameter of the chart's own. -/
theorem Chart.get_param (chart : Chart) {k v : Bytes} (h : chart.params.lookup k = some v)
    {values : List (Bytes × Bytes)} :
    ({ api cookies (chart.call device lo hi) with pathValues := values } : Request).get k = v := by
  show ((api cookies (chart.call device lo hi)).query.lookup _).getD [] = _
  rw [chart.query_eq, List.lookup_append, h]
  rfl

/-! ## The answers -/

theorem formatInt_ne_nil (i : Int) : formatInt i ≠ [] := by
  unfold formatInt
  split
  · exact List.cons_ne_nil _ _
  · exact formatNat_ne_nil _

theorem Asks.intParam (h : Asks device lo hi r) (default : Int64) :
    intParam r (str "from") default = some lo ∧ intParam r (str "to") default = some hi := by
  rw [ScrewLogger.intParam, ScrewLogger.intParam, h.from, h.to, if_neg (formatInt_ne_nil _),
    if_neg (formatInt_ne_nil _)]
  exact ⟨parseInt64_formatInt lo, parseInt64_formatInt hi⟩

/-- The window is the one that was chosen. -/
theorem Asks.parseWindow (h : Asks device lo hi r) {Q : Int × Int → World → Prop} {E : Response → World → Prop} :
    wp (parseWindow r) Q E w ↔ Q (lo.toInt, hi.toInt) { w with clock := fun n => w.clock (n + 1) } := by
  simp [ScrewLogger.parseWindow, (h.intParam _).1, (h.intParam _).2, Store.timeNow]

/-- A query that nothing disturbs. -/
theorem wp_query_quiet {α : Type} {f : Database → α} {g : StoreError → Response} {clock : Nat → Time}
    {Q : α → World → Prop} {E : Response → World → Prop} (hq : Store.Quiet w) :
    wp (mapError g (Store.query f)) Q E { w with clock := clock } ↔
      Q (f w.db) { w with faults := w.faults.tail, clock := clock } := by
  unfold Store.Quiet at hq
  simp [Store.query, Store.call, hq]

theorem Asks.usage (h : Asks device lo hi r) {groupBy : Bytes} {group : Group} (hget : r.get (str "group_by") = groupBy)
    (hgroup : groupBy = str "category" ∧ group = .category ∨ groupBy = str "app" ∧ group = .app) (hq : Store.Quiet w) :
    ((handleUsage host r).run w).1 =
      writeJSON (.usage groupBy (Database.buckets host group (w.db.dwell host device lo.toInt hi.toInt))) := by
  refine Answer.run_iff.2 (?_ : (handleUsage host r).Ends (fun resp _ => resp = _) w)
  have hne : groupBy ≠ [] ∧ (groupBy == str "category" || groupBy == str "app") = true ∧
      Store.parseGroup groupBy = .ok group := by
    obtain ⟨rfl, rfl⟩ | ⟨rfl, rfl⟩ := hgroup <;> exact ⟨by decide, by decide, rfl⟩
  have husage : Store.dwellUsage host device lo.toInt hi.toInt groupBy =
      Store.query fun db => db.dwell host device lo.toInt hi.toInt |> Database.buckets host group := by
    rw [Store.dwellUsage, hne.2.2]
    rfl
  simp only [Answer.Ends, handleUsage, hget, if_neg hne.1, wp_bind, wp_ensure, hne.2.1, h.parseWindow, h.device, husage]
  refine ⟨fun _ => ?_, fun h => Bool.noConfusion h⟩
  rw [wp_query_quiet hq]
  rfl

theorem Asks.activeRatio (h : Asks device lo hi r) (hq : Store.Quiet w) : ((handleActiveRatio host r).run w).1 =
    writeJSON (.activeRatio (Database.activeRatio (w.db.dwell host device lo.toInt hi.toInt))) := by
  refine Answer.run_iff.2 (?_ : (handleActiveRatio host r).Ends (fun resp _ => resp = _) w)
  simp only [Answer.Ends, handleActiveRatio, wp_bind, h.parseWindow, h.device, Store.activeRatio]
  rw [wp_query_quiet hq]
  rfl

theorem Asks.events (h : Asks device lo hi r) (hlimit : r.get (str "limit") = str "10000") (hq : Store.Quiet w) :
    ((handleEvents host r).run w).1 = writeJSON (.events (w.db.events host device lo.toInt hi.toInt 10000)) := by
  refine Answer.run_iff.2 (?_ : (handleEvents host r).Ends (fun resp _ => resp = _) w)
  have hread : limitParam r = .ok 10000 := by
    have hparse : parseInt64 (str "10000") = some 10000 := by decide
    rw [limitParam, hlimit, if_neg (by decide), hparse]
    rfl
  simp only [Answer.Ends, handleEvents, wp_bind, h.parseWindow, h.device, hread, Store.listEvents, wp_fromExcept]
  refine ⟨fun limit heq => ?_, fun e heq => by cases heq⟩
  cases heq
  rw [wp_query_quiet hq]
  rfl

/-! ## The charts -/

def Chart.handler (host : Host) : Chart → Handler
  | .category => handleUsage host
  | .app => handleUsage host
  | .ratio => handleActiveRatio host
  | .hourly => handleEvents host

theorem Chart.forRoute (chart : Chart) :
    ForRoute host "GET" [.literal chart.route] (chart.handler host) [] (api cookies (chart.call device lo hi)) where
  mem := by cases chart <;> simp [adminRoutes, route, handler]
  known := by simp
  takes := rfl
  nonempty := List.cons_ne_nil _ _
  segments := by
    have hsegs : ∀ chart : Chart, IsSegment chart.route := fun chart => by
      cases chart <;> simp [route, isSegment_names]
    simpa [fill] using hsegs chart
  method := by cases chart <;> rfl
  path := (api_query chart.path_eq).1

theorem Chart.answered (chart : Chart) {values : List (Bytes × Bytes)} (hq : Store.Quiet w) :
    ((chart.handler host { api cookies (chart.call device lo hi) with pathValues := values }).run w).1 =
      writeJSON (chart.report host w.db device lo hi) := by
  have hasks := @Chart.asks device lo hi cookies chart values
  cases chart with
  | category => exact hasks.usage (Chart.get_param .category rfl) (.inl ⟨rfl, rfl⟩) hq
  | app => exact hasks.usage (Chart.get_param .app rfl) (.inr ⟨rfl, rfl⟩) hq
  | ratio => exact hasks.activeRatio hq
  | hourly => exact hasks.events (Chart.get_param .hourly rfl) hq

/-- **A chart's request** is answered with its report. -/
theorem chart_served (chart : Chart) (hsession : HasSession (api cookies (chart.call device lo hi)) w)
    (hq : Store.Quiet w) :
    ((newMux host auth fileServer).serve (api cookies (chart.call device lo hi)) w).1 =
      writeJSON (chart.report host w.db device lo hi) := by
  rw [chart.forRoute.serve hsession]
  exact chart.answered hq

/-- **The dashboards agree.** Whatever device and window are chosen and
whatever the tables are, the four charts show the reports of that device and
window, and the same time: the bars by category, the bars by app and the ring add
up to the same. For one device the hours add up to the ring's two parts, just if
what the limit of the events cuts off is harmless. -/
theorem dashboards_agree (host : Host) (auth : AdminAuth) (fileServer : Request → Nat × Bytes)
    (cookies : List (Bytes × Bytes)) (device : Bytes) (lo hi : Int64) (db : Database) (w : Chart → World)
    (hw : ∀ chart, (w chart).db = db ∧ Store.Quiet (w chart) ∧
      HasSession (api cookies (chart.call device lo hi)) (w chart)) :
    let answer chart := ((newMux host auth fileServer).serve (api cookies (chart.call device lo hi)) (w chart)).1
    let shown chart := (answer chart).body
    (∀ chart, answer chart = writeJSON (chart.report host db device lo hi)) ∧
    ∃ byCategory byApp ratio events,
      shown .category = .usage (str "category") byCategory ∧ shown .app = .usage (str "app") byApp ∧
      shown .ratio = .activeRatio ratio ∧ shown .hourly = .events events ∧
      totalSeconds byCategory = ratio.totalSeconds ∧ totalSeconds byApp = ratio.totalSeconds ∧
      ratio.activeSeconds + ratio.idleSeconds = ratio.totalSeconds ∧
      (device ≠ [] → ((activeTotal (bucketByHour events hi.toInt) = ratio.activeSeconds ∧
        idleTotal (bucketByHour events hi.toInt) = ratio.idleSeconds) ↔
        ∀ e rest, (db.inWindow host device lo.toInt hi.toInt).drop 9999 = e :: rest →
          TailHarmless hi.toInt e rest)) := by
  intro answer shown
  have hanswer : ∀ chart, answer chart = writeJSON (chart.report host db device lo hi) := fun chart => by
    obtain ⟨hdb, hq, hsession⟩ := hw chart
    rw [← hdb]
    exact chart_served chart hsession hq
  have hshown : ∀ chart, shown chart = chart.report host db device lo hi := fun chart =>
    congrArg Response.body (hanswer chart)
  refine ⟨hanswer, _, _, _, _, hshown .category, hshown .app, hshown .ratio, hshown .hourly, ?_, ?_, rfl, fun hd => ?_⟩
  · rw [Database.totalSeconds_buckets, Database.totalSeconds_activeRatio]
  · rw [Database.totalSeconds_buckets, Database.totalSeconds_activeRatio]
  · obtain ⟨events, ratio, hevents, hratio, hactive, hidle, hactive', hidle'⟩ :=
      @totals_eq lo.toInt hi.toInt host db device hd
    have hevents : db.events host device lo.toInt hi.toInt 10000 = events := Except.ok.inj hevents
    have hratio : Database.activeRatio (db.dwell host device lo.toInt hi.toInt) = ratio := Except.ok.inj hratio
    rw [hevents, hratio, hactive, hidle, hactive', hidle']
    exact cut_iff (inOrder_inWindow host) 9999

/-- The hundred heartbeats of one device. -/
theorem dashboards_agree_hundred :
    let cookies := [(sessionCookieName, str "s")]
    let w : World := { db := seconds 100, sessions := [(str "s", 0)], clock := fun _ => .epoch, entropy := fun _ => 0 }
    let shown (chart : Chart) : Body :=
      ((newMux insertionHost ⟨[]⟩ fun _ => (404, [])).serve (api cookies (chart.call (str "d") 0 100)) w).1.body
    ∃ byCategory byApp ratio events, shown .category = .usage (str "category") byCategory ∧
      shown .app = .usage (str "app") byApp ∧ shown .ratio = .activeRatio ratio ∧ shown .hourly = .events events ∧
      totalSeconds byCategory = ratio.totalSeconds ∧ totalSeconds byApp = ratio.totalSeconds ∧
      activeTotal (bucketByHour events 100) = ratio.activeSeconds ∧
      idleTotal (bucketByHour events 100) = ratio.idleSeconds := by
  intro cookies w shown
  have hlength : ((seconds 100).inWindow insertionHost (str "d") 0 100).length ≤ 9999 := by decide +kernel
  obtain ⟨-, byCategory, byApp, ratio, events, hcategory, happ, hratio, hevents, htotal, htotal', -, hhours⟩ :=
    dashboards_agree insertionHost ⟨[]⟩ (fun _ => (404, [])) cookies (str "d") 0 100 (seconds 100) (fun _ => w)
      fun chart => ⟨rfl, rfl, str "s", 0, by cases chart <;> rfl, rfl, by decide⟩
  refine ⟨byCategory, byApp, ratio, events, hcategory, happ, hratio, hevents, htotal, htotal', ?_⟩
  refine (hhours (by decide)).2 fun e rest hcut => ?_
  have hnil := List.drop_of_length_le hlength
  rw [show ((0 : Int64).toInt) = 0 from rfl, show ((100 : Int64).toInt) = 100 from rfl, hnil] at hcut
  cases hcut

end WebUi
end ScrewLogger
