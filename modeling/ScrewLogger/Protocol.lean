/-
The wire contract between agent and server (`internal/protocol`), with the
JSON its types are marshalled to and unmarshalled from.

`unmarshal_marshal`: a heartbeat written as a line and read back is itself, its
strings made valid UTF-8. `decodeBatch_marshal` says the same of a batch and
the streaming decoder of the server.
-/
import ScrewLogger.Lib.Json.Torn
import ScrewLogger.Lib.Json.Decode

namespace ScrewLogger
open Lib Lib.Json

/-- The current ingest batch schema. -/
def schemaVersion : Int64 := 1

/-- The dwell cap in seconds: twice the agent's keep-alive. -/
def maxHeartbeatGap : Int := 30

/-- One observed state of a device. `id` is a client UUID and the server's
idempotency key. -/
structure Heartbeat where
  id : Bytes := []
  ts : Int64 := 0
  app : Bytes := []
  category : Bytes := []
  active : Bool := false
  deriving DecidableEq

/-- The body of `POST /v1/ingest`. -/
structure IngestBatch where
  schemaVersion : Int64 := 0
  deviceSentAt : Int64 := 0
  heartbeats : List Heartbeat := []
  deriving DecidableEq

/-- The 200 body of `POST /v1/ingest`. -/
structure IngestResponse where
  accepted : Nat
  deriving DecidableEq

/-! ## JSON -/

namespace Heartbeat

/-- `json.Marshal(h)`. -/
def marshal (h : Heartbeat) : Bytes :=
  writeObject
    [(str "id", quote h.id), (str "ts", formatInt h.ts.toInt), (str "app", quote h.app),
      (str "category", quote h.category), (str "active", writeBool h.active)]

def setField (h : Heartbeat) (k : Bytes) (v : Json) : Option Heartbeat :=
  if isField (str "id") k then (readString h.id v).map fun s => { h with id := s }
  else if isField (str "ts") k then (readInt64 h.ts v).map fun i => { h with ts := i }
  else if isField (str "app") k then (readString h.app v).map fun s => { h with app := s }
  else if isField (str "category") k then (readString h.category v).map fun s => { h with category := s }
  else if isField (str "active") k then (readBool h.active v).map fun b => { h with active := b }
  else some h

def ofJson : Json → Option Heartbeat := readStruct setField {}

/-- `json.Unmarshal(line, &h)`. -/
def unmarshal (line : Bytes) : Option Heartbeat := (Json.unmarshal line).bind ofJson

/-- Every string of the heartbeat is valid UTF-8. -/
def Valid (h : Heartbeat) : Prop :=
  validUtf8 h.id = true ∧ validUtf8 h.app = true ∧ validUtf8 h.category = true

instance (h : Heartbeat) : Decidable h.Valid := inferInstanceAs (Decidable (_ ∧ _ ∧ _))

end Heartbeat

namespace IngestBatch

/-- `json.Marshal(batch)`. No heartbeats are a nil slice. -/
def marshal (b : IngestBatch) : Bytes :=
  writeObject
    [(str "schema_version", formatInt b.schemaVersion.toInt), (str "device_sent_at", formatInt b.deviceSentAt.toInt),
      (str "heartbeats",
        if b.heartbeats = [] then str "null" else writeArray (b.heartbeats.map Heartbeat.marshal))]

def setField (b : IngestBatch) (k : Bytes) (v : Json) : Option IngestBatch :=
  if isField (str "schema_version") k then (readInt64 b.schemaVersion v).map fun i => { b with schemaVersion := i }
  else if isField (str "device_sent_at") k then (readInt64 b.deviceSentAt v).map fun i => { b with deviceSentAt := i }
  else if isField (str "heartbeats") k then (readSlice Heartbeat.ofJson v).map fun hs => { b with heartbeats := hs }
  else some b

def ofJson : Json → Option IngestBatch := readStruct setField {}

/-- `json.NewDecoder(r).Decode(&batch)`. Go decodes the elements of a second
`heartbeats` over those of the first and keeps the fields they leave out; here
they are new. -/
def decode (r : Reader) : Option IngestBatch := (decodeFirst r).bind ofJson

end IngestBatch

/-! ## A heartbeat's line -/

namespace Heartbeat

/-- The heartbeat as it comes back from JSON. -/
def sanitize (h : Heartbeat) : Heartbeat :=
  { h with id := toValid h.id, app := toValid h.app, category := toValid h.category }

theorem sanitize_eq_self {h : Heartbeat} (hv : h.Valid) : h.sanitize = h := by
  obtain ⟨hid, happ, hcat⟩ := hv
  simp [sanitize, toValid_eq_self hid, toValid_eq_self happ, toValid_eq_self hcat]

theorem map_sanitize {l : List Heartbeat} (h : ∀ x ∈ l, x.Valid) : l.map sanitize = l :=
  (List.map_congr_left fun x hx => sanitize_eq_self (h x hx)).trans (List.map_id _)

/-- The members of a line, with the values they are read back as. -/
def members (h : Heartbeat) : List Member :=
  [⟨str "id", quote h.id, .str (toValid h.id)⟩,
   ⟨str "ts", formatInt h.ts.toInt, .num (formatInt h.ts.toInt)⟩,
   ⟨str "app", quote h.app, .str (toValid h.app)⟩,
   ⟨str "category", quote h.category, .str (toValid h.category)⟩,
   ⟨str "active", writeBool h.active, .bool h.active⟩]

theorem marshal_eq (h : Heartbeat) : h.marshal = writeObject (h.members.map fun m => (m.key, m.text)) := rfl

theorem members_delimited (h : Heartbeat) : ∀ m ∈ h.members, Delimited 0 m.text m.value := by
  simp only [members, List.forall_mem_cons]
  exact ⟨(closed_quote _).delimited, delimited_formatInt _, (closed_quote _).delimited,
    (closed_quote _).delimited, (closed_writeBool _).delimited, by simp⟩

/-- The value a line stands for. -/
def json (h : Heartbeat) : Json := .obj (h.members.map fun m => (toValid m.key, m.value))

theorem objectText_marshal (h : Heartbeat) : ObjectText 1 h.marshal h.json := by
  rw [marshal_eq]
  exact objectText_writeObject (by simp [members]) (by simp [maxDepth]) h.members_delimited

@[simp] theorem setField_id (h : Heartbeat) (s) : h.setField (str "id") (.str s) = some { h with id := s } := rfl

@[simp] theorem setField_ts (h : Heartbeat) (lit) :
    h.setField (str "ts") (.num lit) = (parseInt64 lit).map fun i => { h with ts := i } := rfl

@[simp] theorem setField_app (h : Heartbeat) (s) :
    h.setField (str "app") (.str s) = some { h with app := s } := rfl

@[simp] theorem setField_category (h : Heartbeat) (s) :
    h.setField (str "category") (.str s) = some { h with category := s } := rfl

@[simp] theorem setField_active (h : Heartbeat) (b) :
    h.setField (str "active") (.bool b) = some { h with active := b } := rfl

theorem json_eq (h : Heartbeat) : h.json = .obj (h.members.map fun m => (m.key, m.value)) := by
  have key : ∀ k ∈ [str "id", str "ts", str "app", str "category", str "active"], toValid k = k := by decide
  simp only [json]
  refine congrArg _ (List.map_congr_left fun m hm => ?_)
  rw [key m.key]
  exact List.mem_map_of_mem (f := Member.key) hm

theorem ofJson_json (h : Heartbeat) : ofJson h.json = some h.sanitize := by
  rw [json_eq, ofJson, readStruct]
  simp [members, parseInt64_formatInt, sanitize]

/-- **A heartbeat written as JSON and read back** is itself, its strings made
valid. -/
theorem unmarshal_marshal (h : Heartbeat) : unmarshal h.marshal = some h.sanitize := by
  rw [unmarshal, h.objectText_marshal.closed.unmarshal h.objectText_marshal.depth, Option.bind_some, ofJson_json]

/-- A line begins as every heartbeat's does. -/
theorem marshal_head (h : Heartbeat) : ∃ t, h.marshal = 0x7B :: 0x22 :: 0x69 :: t := ⟨_, rfl⟩

/-- Without its first byte a line is no heartbeat's: its text is a string, and more. -/
theorem unmarshal_marshal_tail (h : Heartbeat) : unmarshal h.marshal.tail = none := by
  have htail : ∃ t, h.marshal.tail = 0x22 :: 0x69 :: 0x64 :: 0x22 :: 0x3A :: t := ⟨_, rfl⟩
  obtain ⟨t, ht⟩ := htail
  have hnone : Json.unmarshal h.marshal.tail = none := by
    rw [ht]
    rfl
  rw [unmarshal, hnone]
  rfl

theorem marshal_ne_nil (h : Heartbeat) : h.marshal ≠ [] := by
  obtain ⟨t, ht⟩ := h.marshal_head
  simp [ht]

/-- A line has no control bytes in it: no line break but the one after it. -/
theorem marshal_printable (h : Heartbeat) : ∀ c ∈ h.marshal, 0x20 ≤ c := by
  rw [marshal_eq]
  refine printable_writeObject fun m hm => ?_
  simp only [members, List.map_cons, List.map_nil, List.mem_cons, List.not_mem_nil, or_false] at hm
  rcases hm with rfl | rfl | rfl | rfl | rfl
  · exact printable_quote _
  · exact printable_formatInt _
  · exact printable_quote _
  · exact printable_quote _
  · exact printable_writeBool _

theorem length_marshal (h : Heartbeat) : h.marshal.length =
    (quoteBody h.id).length + (formatInt h.ts.toInt).length + (quoteBody h.app).length + (quoteBody h.category).length +
      (writeBool h.active).length + 48 := by
  have hkeys : (quote (str "id")).length = 4 ∧ (quote (str "ts")).length = 4 ∧ (quote (str "app")).length = 5 ∧
      (quote (str "category")).length = 10 ∧ (quote (str "active")).length = 8 := by decide
  obtain ⟨h₁, h₂, h₃, h₄, h₅⟩ := hkeys
  simp only [marshal, writeObject, List.map_cons, List.map_nil, List.length_cons, List.length_append, List.length_nil,
    length_joinWith, writeMember, List.sum_cons, List.sum_nil, h₁, h₂, h₃, h₄, h₅, length_quote]
  omega

theorem length_marshal_sanitize (h : Heartbeat) : h.sanitize.marshal.length ≤ h.marshal.length := by
  have hid := length_quoteBody_toValid h.id
  have happ := length_quoteBody_toValid h.app
  have hcategory := length_quoteBody_toValid h.category
  rw [length_marshal, length_marshal]
  simp only [sanitize]
  omega

theorem sanitize_sanitize (h : Heartbeat) : h.sanitize.sanitize = h.sanitize :=
  sanitize_eq_self ⟨validUtf8_toValid _, validUtf8_toValid _, validUtf8_toValid _⟩

end Heartbeat

/-! ## A batch's body -/

namespace IngestBatch

def sanitize (b : IngestBatch) : IngestBatch := { b with heartbeats := b.heartbeats.map Heartbeat.sanitize }

/-- The members of a body with heartbeats in it. -/
def members (b : IngestBatch) : List Member :=
  [⟨str "schema_version", formatInt b.schemaVersion.toInt, .num (formatInt b.schemaVersion.toInt)⟩,
   ⟨str "device_sent_at", formatInt b.deviceSentAt.toInt, .num (formatInt b.deviceSentAt.toInt)⟩,
   ⟨str "heartbeats", writeArray (b.heartbeats.map Heartbeat.marshal), .arr (b.heartbeats.map Heartbeat.json)⟩]

def json (b : IngestBatch) : Json := .obj (b.members.map fun m => (toValid m.key, m.value))

theorem members_delimited {b : IngestBatch} (hne : b.heartbeats ≠ []) :
    ∀ m ∈ b.members, Delimited 2 m.text m.value := by
  have hitems : Closed 2 (writeArray (b.heartbeats.map Heartbeat.marshal)) (.arr (b.heartbeats.map Heartbeat.json)) := by
    have h := @closed_writeArray 1 (b.heartbeats.map fun h => (h.marshal, h.json)) (by simpa using hne)
      fun m hm => by
        obtain ⟨x, -, rfl⟩ := List.mem_map.1 hm
        exact x.objectText_marshal.closed.delimited
    simpa [List.map_map, Function.comp_def] using h
  simp only [members, List.forall_mem_cons]
  exact ⟨(delimited_formatInt _).mono (by omega), (delimited_formatInt _).mono (by omega), hitems.delimited,
    by simp⟩

theorem objectText_marshal {b : IngestBatch} (hne : b.heartbeats ≠ []) : ObjectText 3 b.marshal b.json := by
  have h : b.marshal = writeObject (b.members.map fun m => (m.key, m.text)) := by
    simp [marshal, members, hne]
  rw [h]
  exact objectText_writeObject (by simp [members]) (by simp [maxDepth]) (members_delimited hne)

@[simp] theorem setField_schemaVersion (b : IngestBatch) (lit) :
    b.setField (str "schema_version") (.num lit) = (parseInt64 lit).map fun i => { b with schemaVersion := i } := rfl

@[simp] theorem setField_deviceSentAt (b : IngestBatch) (lit) :
    b.setField (str "device_sent_at") (.num lit) = (parseInt64 lit).map fun i => { b with deviceSentAt := i } := rfl

@[simp] theorem setField_heartbeats (b : IngestBatch) (items) :
    b.setField (str "heartbeats") (.arr items) =
      (items.mapM Heartbeat.ofJson).map fun hs => { b with heartbeats := hs } := rfl

theorem json_eq (b : IngestBatch) : b.json = .obj (b.members.map fun m => (m.key, m.value)) := by
  have key : ∀ k ∈ [str "schema_version", str "device_sent_at", str "heartbeats"], toValid k = k := by decide
  simp only [json]
  refine congrArg _ (List.map_congr_left fun m hm => ?_)
  rw [key m.key]
  exact List.mem_map_of_mem (f := Member.key) hm

theorem ofJson_json (b : IngestBatch) : ofJson b.json = some b.sanitize := by
  have hitems : ∀ l : List Heartbeat, (l.map Heartbeat.json).mapM Heartbeat.ofJson =
    some (l.map Heartbeat.sanitize) := by
    intro l
    induction l with
    | nil => rfl
    | cons h l ih => simp [Heartbeat.ofJson_json, ih]
  rw [json_eq, ofJson, readStruct]
  simp [members, parseInt64_formatInt, hitems, sanitize]

theorem length_marshal {b : IngestBatch} (hne : b.heartbeats ≠ []) : b.marshal.length =
    (b.heartbeats.map fun h => h.marshal.length).sum + b.heartbeats.length + (formatInt b.schemaVersion.toInt).length +
      (formatInt b.deviceSentAt.toInt).length + 52 := by
  have hkeys : (quote (str "schema_version")).length = 16 ∧ (quote (str "device_sent_at")).length = 16 ∧
    (quote (str "heartbeats")).length = 12 := by decide
  obtain ⟨h₁, h₂, h₃⟩ := hkeys
  have hitems : b.heartbeats.map Heartbeat.marshal ≠ [] := by simpa using hne
  simp only [marshal, if_neg hne, writeObject, List.map_cons, List.map_nil, List.length_cons, List.length_append,
    List.length_nil, length_joinWith, writeMember, List.sum_cons, List.sum_nil, h₁, h₂, h₃, length_writeArray hitems,
    List.map_map, List.length_map]
  have hcomp : (List.length ∘ Heartbeat.marshal) = fun h => h.marshal.length := rfl
  rw [hcomp]
  omega

/-- **A body as the agent writes it** is decoded as the batch it was written
from, whatever the reader holds after it. -/
theorem decode_marshal {b : IngestBatch} (hne : b.heartbeats ≠ []) (rest : Bytes) (broken : Bool) :
    decode ⟨b.marshal ++ rest, broken⟩ = some b.sanitize := by
  rw [decode, (objectText_marshal hne).decodeFirst, Option.bind_some, ofJson_json]

end IngestBatch

end ScrewLogger
