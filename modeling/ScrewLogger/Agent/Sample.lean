/-
A watcher's sample (`sample.go`), a line of JSON on the pipe.

`decode_encode`: a sample with an app is read back from its line, its name made
valid UTF-8. `length_app_le`: a name that was read is written again in six times
its line's length at most.
-/
import ScrewLogger.Lib.Json.Decode
import ScrewLogger.Lib.Json.Sizes
import ScrewLogger.Lib.Json.Torn
import ScrewLogger.Lib.Lines

namespace ScrewLogger
open Lib Lib.Json

structure Sample where
  app : Bytes := []
  active : Bool := false
  deriving DecidableEq

namespace Sample

/-- `json.Marshal(s)`. -/
def marshal (s : Sample) : Bytes := writeObject [(str "app", quote s.app), (str "active", writeBool s.active)]

def setField (s : Sample) (k : Bytes) (v : Json) : Option Sample :=
  if isField (str "app") k then (readString s.app v).map fun app => { s with app := app }
  else if isField (str "active") k then (readBool s.active v).map fun active => { s with active := active }
  else some s

/-- `json.Unmarshal(line, &s)`. -/
def unmarshal (line : Bytes) : Option Sample := (Json.unmarshal line).bind (readStruct setField {})

/-- A sample's line, with its line break. -/
def encode (s : Sample) : Bytes := s.marshal ++ [newline]

end Sample

inductive SampleError
  | empty
  | malformed
  | noApp
  deriving DecidableEq

/-- `DecodeSample`. -/
def decodeSample (line : Bytes) : Except SampleError Sample :=
  if line = [] then .error .empty
  else
    match Sample.unmarshal line with
    | none => .error .malformed
    | some s => if s.app = [] then .error .noApp else .ok s

/-! ## A sample's line -/

namespace Sample

/-- The sample as it comes back from JSON. -/
def sanitize (s : Sample) : Sample := { s with app := toValid s.app }

/-- The members of a line, with the values they are read back as. -/
def members (s : Sample) : List Member :=
  [⟨str "app", quote s.app, .str (toValid s.app)⟩, ⟨str "active", writeBool s.active, .bool s.active⟩]

theorem objectText_marshal (s : Sample) :
    ObjectText 1 s.marshal (.obj (s.members.map fun m => (toValid m.key, m.value))) := by
  have hmarshal : s.marshal = writeObject (s.members.map fun m => (m.key, m.text)) := rfl
  rw [hmarshal]
  refine objectText_writeObject (by simp [members]) (by simp [maxDepth]) ?_
  simp only [members, List.forall_mem_cons]
  exact ⟨(closed_quote _).delimited, (closed_writeBool _).delimited, by simp⟩

@[simp] theorem setField_app (s : Sample) (app) : s.setField (str "app") (.str app) =
    some { s with app := app } := rfl

@[simp] theorem setField_active (s : Sample) (b) :
    s.setField (str "active") (.bool b) = some { s with active := b } := rfl

theorem unmarshal_marshal (s : Sample) : unmarshal s.marshal = some s.sanitize := by
  have key : ∀ k ∈ [str "app", str "active"], toValid k = k := by decide
  have hmembers : (s.members.map fun m => (toValid m.key, m.value)) = s.members.map fun m => (m.key, m.value) := by
    refine List.map_congr_left fun m hm => ?_
    rw [key m.key]
    exact List.mem_map_of_mem (f := Member.key) hm
  rw [unmarshal, s.objectText_marshal.closed.unmarshal s.objectText_marshal.depth, Option.bind_some, hmembers]
  simp [readStruct, members, sanitize]

theorem marshal_ne_nil (s : Sample) : s.marshal ≠ [] := by simp [marshal, writeObject]

end Sample

/-- **A sample read back.** -/
theorem decode_encode (s : Sample) (h : s.app ≠ []) : decodeSample s.marshal = .ok s.sanitize := by
  have happ : toValid s.app ≠ [] := by
    intro hnil
    have hpos := List.length_pos_iff.2 h
    obtain ⟨a, t, ht⟩ := List.exists_cons_of_ne_nil h
    rw [toValid, ht, runes_cons, List.flatMap_cons, List.append_eq_nil_iff] at hnil
    obtain ⟨r, -, hr, -⟩ := runes_coerce_append (readRune a t) []
    exact r.bytes_ne_nil (hr.trans hnil.1)
  rw [decodeSample, if_neg s.marshal_ne_nil, Sample.unmarshal_marshal]
  exact if_neg happ

/-! ## How long a name is -/

/-- What holds of every string of an object, and of none, holds of the name. -/
theorem app_of_members {P : Bytes → Prop} : ∀ {members : List (Bytes × Json)} {s s' : Sample},
    members.foldlM (fun s m => s.setField m.1 m.2) s = some s' → P s.app →
      (∀ k app, (k, Json.str app) ∈ members → P app) → P s'.app
  | [], _, _, h, hs, _ => by
    cases h
    exact hs
  | (k, v) :: members, s, s', h, hs, hP => by
    rw [List.foldlM_cons] at h
    obtain ⟨s₁, hset, h⟩ := Option.bind_eq_some_iff.1 h
    refine app_of_members h ?_ fun k' app hmem => hP k' app (List.mem_cons_of_mem _ hmem)
    rw [Sample.setField] at hset
    split at hset
    · obtain ⟨app, happ, rfl⟩ := Option.map_eq_some_iff.1 hset
      cases v with
      | str name =>
        cases happ
        exact hP k _ List.mem_cons_self
      | null =>
        cases happ
        exact hs
      | bool | num | arr | obj => cases happ
    · split at hset
      · obtain ⟨active, -, rfl⟩ := Option.map_eq_some_iff.1 hset
        exact hs
      · cases hset
        exact hs

theorem length_app_le {line : Bytes} {s : Sample} (h : decodeSample line = .ok s) :
    (quoteBody s.app).length ≤ 6 * line.length := by
  rw [decodeSample] at h
  split at h
  · cases h
  split at h
  · cases h
  · next s' hread =>
    split at h
    · cases h
    cases h
    obtain ⟨v, hv, hstruct⟩ := Option.bind_eq_some_iff.1 hread
    have hflat := flat_unmarshal hv
    unfold readStruct at hstruct
    split at hstruct
    · exact app_of_members hstruct (Nat.zero_le _) hflat
    · cases hstruct
      exact Nat.zero_le _
    · cases hstruct

end ScrewLogger
