/-
Requests, responses and handlers: what the server's code uses of `net/http`.

A handler's run is a program on the server's world that returns its response,
or stops with one where the source writes an error and returns. `serve` runs a
handler to the response either way, and `serve_iff` reduces what holds of it to
`wp`.
-/
import ScrewLogger.Lib.ServeMux
import ScrewLogger.Server.StoreFacts

namespace ScrewLogger
open Lib Lib.Eff Lib.Json

structure Request where
  method : Bytes
  /-- The path as it was sent, escaped. -/
  path : Bytes
  /-- `r.URL.Query()`. -/
  query : List (Bytes × Bytes) := []
  /-- The `Authorization` header, empty when there is none. -/
  authorization : Bytes := []
  cookies : List (Bytes × Bytes) := []
  body : Reader := { data := [], broken := false }
  /-- The values of the wildcards in the pattern the request matched. -/
  pathValues : List (Bytes × Bytes) := []

namespace Request

/-- `r.URL.Query().Get(key)`. -/
def get (r : Request) (key : Bytes) : Bytes := (r.query.lookup key).getD []

/-- `r.Cookie(name)`. -/
def cookie (r : Request) (name : Bytes) : Option Bytes := r.cookies.lookup name

/-- `r.PathValue(name)`. -/
def pathValue (r : Request) (name : Bytes) : Bytes := (r.pathValues.lookup name).getD []

end Request

structure DeviceResponse where
  id : Bytes
  name : Bytes
  enrolledAt : Int
  lastSeen : Option Int
  revokedAt : Option Int
  status : Bytes
  deriving DecidableEq

structure RuleResponse where
  pattern : Bytes
  category : Bytes
  updatedAt : Int
  deriving DecidableEq

structure ApiKeyResponse where
  label : Bytes
  createdAt : Int
  revokedAt : Option Int
  hashPrefix : Bytes
  deriving DecidableEq

/-- The body of a response, before it is written as JSON. -/
inductive Body
  | empty
  | text (s : Bytes)
  | error (msg : Bytes)
  /-- `{"ok": true}`, with a count of recategorized heartbeats where there is one. -/
  | ok (recategorized : Option Nat := none)
  | ingest (r : IngestResponse)
  | deviceEnroll (deviceID token : Bytes)
  | key (key : Bytes)
  | devices (rows : List DeviceResponse)
  | usage (groupBy : Bytes) (buckets : List Bucket)
  | activeRatio (r : ActiveRatio)
  | events (rows : List EventRow)
  | rules (rows : List RuleResponse)
  | keys (rows : List ApiKeyResponse)
  deriving DecidableEq

/-- The body tells of the tables. -/
def Body.tells : Body → Bool
  | .deviceEnroll .. | .key _ | .devices _ | .usage .. | .activeRatio _ | .events _ | .rules _ | .keys _ => true
  | _ => false

structure Response where
  status : Nat := 200
  headers : List (Bytes × Bytes) := []
  body : Body := .empty
  deriving DecidableEq

def contentJSON : Bytes × Bytes := (str "Content-Type", str "application/json")

def writeErr (code : Nat) (msg : Bytes) : Response where
  status := code
  headers := [contentJSON]
  body := .error msg

def writeJSON (v : Body) : Response where
  headers := [contentJSON]
  body := v

/-- The response is no success and tells of nothing. -/
def Response.Refuses (resp : Response) : Prop := resp.status ≠ 200 ∧ resp.body.tells = false

/-- `http.Error`. -/
def httpError (code : Nat) (s : Bytes) : Response where
  status := code
  headers := [(str "Content-Type", str "text/plain; charset=utf-8"), (str "X-Content-Type-Options", str "nosniff")]
  body := .text s

/-- The answer to an error of the store that no other answer is meant for. -/
def storageError : Response := writeErr 500 (str "storage error")

/-- The answer to a method the handler is not for. -/
def onlyPost : Response :=
  let err := writeErr 405 (str "method not allowed")
  { err with headers := (str "Allow", str "POST") :: err.headers }

/-- The tables are as they were, and the response does not tell of them. -/
structure Silent (w : World) (resp : Response) (w' : World) : Prop where
  db : w'.db = w.db
  body : resp.body.tells = false

/-- The tables are as they were, and the request is refused. -/
structure Refused (w : World) (resp : Response) (w' : World) : Prop where
  db : w'.db = w.db
  refuses : resp.Refuses

/-- What a handler does with a request: an early return is a stop. -/
abbrev Answer : Type := Eff World Response Response

abbrev Handler : Type := Request → Answer

namespace Answer

/-- Headers set before the rest of the answer is written. -/
def withHeaders (headers : List (Bytes × Bytes)) (m : Answer) : Answer :=
  let add (resp : Response) := { resp with headers := headers ++ resp.headers }
  mapError add (add <$> m)

/-- The response and the world it leaves. -/
def run (m : Answer) (w : World) : Response × World :=
  match m w with
  | (.ok resp, w') => (resp, w')
  | (.error resp, w') => (resp, w')

theorem run_snd {m : Answer} {w : World} : (m.run w).2 = (m w).2 := by
  unfold run
  cases m w with
  | mk r w' => cases r <;> rfl

/-- However `m` ends, it ends in `P`. -/
def Ends (P : Response → World → Prop) (m : Answer) (w : World) : Prop := wp m P P w

theorem run_iff {P : Response → World → Prop} {m : Answer} {w : World} :
    P (m.run w).1 (m.run w).2 ↔ m.Ends P w := by
  unfold Ends run wp
  cases m w with
  | mk r w' => cases r <;> rfl

/-- A weaker assertion holds after, too. -/
theorem Ends.mono {P P' : Response → World → Prop} {m : Answer} {w : World} (h : m.Ends P w)
    (hP : ∀ resp w', P resp w' → P' resp w') : m.Ends P' w := wp.mono h hP hP

theorem ends_of_forall {P : Response → World → Prop} {m : Answer} {w : World} (h : ∀ resp w', P resp w') :
    m.Ends P w := run_iff.1 (h _ _)

theorem ends_withHeaders {P : Response → World → Prop} {headers : List (Bytes × Bytes)} {m : Answer} {w : World}
    (hP : ∀ resp w', P resp w' → P { resp with headers := headers ++ resp.headers } w') (h : m.Ends P w) :
    (m.withHeaders headers).Ends P w := by
  simp only [Ends, withHeaders, wp_mapError, wp_map]
  exact wp.mono h hP hP

end Answer

/-- Runs a handler on a request. -/
def Handler.serve (h : Handler) (r : Request) (w : World) : Response × World := (h r).run w

/-- `ServeMux.ServeHTTP`. Where a redirect leads is left out. -/
def serveMux (mux : Mux Handler) : Handler := fun r =>
  if r.path = str "*" then pure { status := 400 }
  else
    match mux.route r.method r.path with
    | .handler h values => h { r with pathValues := values }
    | .redirect _ => pure { status := 301 }
    | .methodNotAllowed allow =>
      let err := httpError 405 (str "Method Not Allowed\n")
      pure { err with headers := (str "Allow", (str ", ").intercalate allow) :: err.headers }
    | .notFound => pure (httpError 404 (str "404 page not found\n"))

/-- The request goes to the handler, with these values of the wildcards. -/
structure Reaches (mux : Mux Handler) (r : Request) (h : Handler) (values : List (Bytes × Bytes)) : Prop where
  path : r.path ≠ str "*"
  route : mux.route r.method r.path = .handler h values

theorem serveMux_reaches {mux : Mux Handler} {r : Request} {h : Handler} {values : List (Bytes × Bytes)}
    (hr : Reaches mux r h values) : serveMux mux r = h { r with pathValues := values } := by
  simp only [serveMux, if_neg hr.path, hr.route]

/-- What holds of every handler the request can reach, and of the answers of
the mux itself, holds of the mux. -/
theorem ends_serveMux {P : Response → World → Prop} {mux : Mux Handler} {r : Request} {w : World}
    (hown : ∀ resp, resp.Refuses → P resp w)
    (h : ∀ p handler values vals, (p, handler) ∈ mux → p.Allows r.method → Matches p.segments (segments r.path) →
      mux.find r.method r.path = some ((p, handler), vals) → Reaches mux r handler values →
      (handler { r with pathValues := values }).Ends P w) :
    (serveMux mux r).Ends P w := by
  unfold serveMux
  split
  · exact hown _ ⟨by decide, rfl⟩
  · next hpath =>
    split
    · next handler values hroute =>
      obtain ⟨p, vals, hmem, hallows, hm, hfind⟩ := Mux.route_sound hroute
      exact h p handler values vals hmem hallows hm hfind ⟨hpath, hroute⟩
    · exact hown _ ⟨by decide, rfl⟩
    · exact hown _ ⟨by simp [httpError], rfl⟩
    · exact hown _ ⟨by simp [httpError], rfl⟩

end ScrewLogger
