/-
How a token resolves, read off the history of a run.

A device's token resolves to it from the operation that issued it to the next
that revokes it, as revoked from there until the device is deleted, and is
unknown before and after (`resolves_device`). An API key's resolves to its
scopes until it is revoked, by itself or by the prefix it is listed with
(`resolves_key`). `credential_life_cycle` says so of every run whose ids,
tokens and hash prefixes are distinct.
-/
import ScrewLogger.Server.Credentials
import ScrewLogger.Server.Dwell

namespace ScrewLogger
open Lib Lib.Eff

namespace Credentials

variable (host : Host)

/-! ## What a history says of a token -/

/-- The token was issued for the device, which was not revoked since. -/
def Active (events : List Event) (deviceID token : Bytes) : Prop :=
  ∃ before after, events = before ++ .deviceIssued deviceID token :: after ∧ .deviceRevoked deviceID ∉ after

/-- The token was issued for the device, which was revoked since and not deleted. -/
def Revoked (events : List Event) (deviceID token : Bytes) : Prop :=
  ∃ before after, events = before ++ .deviceIssued deviceID token :: after ∧ .deviceRevoked deviceID ∈ after ∧
    .deviceDeleted deviceID ∉ after

/-- The event revokes the key, by its token or by the prefix it is listed with. -/
def RevokesKey (token : Bytes) (e : Event) : Prop := e = .keyRevoked token ∨ e = .prefixRevoked (keyPrefix host token)

/-- The key was issued and not revoked since. -/
def KeyActive (events : List Event) (token : Bytes) : Prop :=
  ∃ before after, events = before ++ .keyIssued token :: after ∧ ∀ e ∈ after, ¬ RevokesKey host token e

/-- The key was issued and revoked since. -/
def KeyRevoked (events : List Event) (token : Bytes) : Prop :=
  ∃ before after, events = before ++ .keyIssued token :: after ∧ ∃ e ∈ after, RevokesKey host token e

def issuedID : Event → Option Bytes
  | .deviceIssued deviceID _ => some deviceID
  | _ => none

/-- The token an event issues, of a device or of a key. -/
def issuedToken : Event → Option Bytes
  | .deviceIssued _ token => some token
  | .keyIssued token => some token
  | _ => none

/-- The token an event is given or gives. -/
def presentedToken : Event → Option Bytes
  | .deviceIssued _ token => some token
  | .keyIssued token => some token
  | .keyRevoked token => some token
  | _ => none

/-- The ids and tokens issued are distinct, and so are the first eight digits
of the hashes of the tokens there are, `token` among them. -/
structure Distinct (events : List Event) (token : Bytes) : Prop where
  ids : (events.filterMap issuedID).Nodup
  tokens : (events.filterMap issuedToken).Nodup
  prefixes : ∀ t ∈ token :: events.filterMap presentedToken, ∀ t' ∈ token :: events.filterMap presentedToken,
    keyPrefix host t = keyPrefix host t' → t = t'

variable {host} {events : List Event} {db : Database} {token : Bytes}

/-- A token that was presented and hashes as `token` does is `token`. -/
theorem Distinct.eq_of_hash (hd : Distinct host events token) {e : Event} {t : Bytes} (he : e ∈ events)
    (ht : presentedToken e = some t) (hhash : Store.hashToken host t = Store.hashToken host token) : t = token := by
  refine hd.prefixes t (List.mem_cons_of_mem _ (List.mem_filterMap.2 ⟨e, he, ht⟩)) token List.mem_cons_self ?_
  rw [keyPrefix, keyPrefix, hhash]

/-- A token is issued once. -/
theorem Distinct.issued_once (hd : Distinct host events token) {before before' after after' : List Event}
    {d d' : Bytes} (h : events = before ++ .deviceIssued d token :: after)
    (h' : events = before' ++ .deviceIssued d' token :: after') :
    d = d' ∧ after = after' := by
  obtain ⟨-, heq, hafter⟩ := Register.split_unique hd.tokens h h' rfl rfl
  cases heq
  exact ⟨rfl, hafter⟩

/-- Only a revoked device is deleted. -/
theorem not_deleted (ht : Tracked host events db) (hd : Distinct host events token) {before after : List Event}
    {d : Bytes}
    (h : events = before ++ .deviceIssued d token :: after) (hrevoked : .deviceRevoked d ∉ after) :
    .deviceDeleted d ∉ after := by
  intro hdeleted
  obtain ⟨mid, rest, rfl⟩ := List.append_of_mem hdeleted
  obtain ⟨t, before', after', hsplit, hmem⟩ := ht.deletes (before ++ .deviceIssued d token :: mid) rest d (by simp [h])
  have h' : events = before' ++ .deviceIssued d t :: (after' ++ .deviceDeleted d :: rest) := by
    rw [h, ← List.cons_append, ← List.append_assoc, hsplit]
    simp
  obtain ⟨-, -, hafter⟩ := Register.split_unique hd.ids h h' rfl rfl
  rw [hafter] at hrevoked
  exact hrevoked (List.mem_append_left _ hmem)

/-! ## Devices -/

theorem answer_deviceIDByToken : Store.answer (Store.deviceIDByToken host token) db =
    match db.devices.rows.find? (·.tokenHash == Store.hashToken host token) with
    | none => .error .unknownToken
    | some d => if d.revokedAt.isSome then .error .revoked else .ok d.id := by
  rw [Store.deviceIDByToken, Store.answer_query_bind]
  cases db.devices.rows.find? (·.tokenHash == Store.hashToken host token) with
  | none => rfl
  | some d =>
    by_cases hrev : d.revokedAt.isSome
    · simp only [hrev, if_true]
      rfl
    · simp only [hrev]
      rfl

theorem answer_resolveAPIKey : Store.answer (Store.resolveAPIKey host token) db =
    match db.apiKeys.rows.find? (·.keyHash == Store.hashToken host token) with
    | none => .error .unknownKey
    | some k => if k.revokedAt.isSome then .error .revoked else .ok k.scopes := by
  rw [Store.resolveAPIKey, Store.answer_query_bind]
  cases db.apiKeys.rows.find? (·.keyHash == Store.hashToken host token) with
  | none => rfl
  | some k =>
    by_cases hrev : k.revokedAt.isSome
    · simp only [hrev, if_true]
      rfl
    · simp only [hrev]
      rfl

/-- A row's place in the history. -/
theorem Tracked.of_device (ht : Tracked host events db) {d : Device} (hd : d ∈ db.devices.rows) :
    ∃ t before after, d.tokenHash = Store.hashToken host t ∧ events = before ++ .deviceIssued d.id t :: after ∧
      .deviceDeleted d.id ∉ after ∧ (d.revokedAt.isSome ↔ .deviceRevoked d.id ∈ after) := by
  have hshape : (d.id, d.tokenHash, d.revokedAt.isSome) ∈ deviceShape db := List.mem_map_of_mem hd
  rw [ht.devices, List.mem_map] at hshape
  obtain ⟨⟨⟨id, t⟩, b⟩, hentry, heq⟩ := hshape
  simp only [Prod.mk.injEq] at heq
  obtain ⟨rfl, hhash, rfl⟩ := heq
  obtain ⟨before, e, after, rfl, hissues, hkept, hany⟩ := Register.mem_entries.1 hentry
  refine ⟨t, before, after, hhash.symm, by rw [issues_device hissues], fun hmem => ?_, ?_⟩
  · have := hkept _ hmem
    simp [deviceRegister] at this
  · rw [hany, List.any_eq_true]
    constructor
    · intro hrevoked
      obtain ⟨e', hmem, he'⟩ := hrevoked
      exact revokes_device he' ▸ hmem
    · intro hmem
      exact ⟨_, hmem, by simp [deviceRegister]⟩

/-- A device that was issued and not deleted has its row. -/
theorem Tracked.device_of (ht : Tracked host events db) {id t : Bytes} {before after : List Event}
    (h : events = before ++ .deviceIssued id t :: after) (hkept : .deviceDeleted id ∉ after) :
    ∃ d ∈ db.devices.rows, d.id = id ∧ d.tokenHash = Store.hashToken host t := by
  have hentry : ((id, t), after.any (deviceRegister.revokes · (id, t))) ∈ deviceRegister.entries events := by
    refine Register.mem_entries.2 ⟨before, _, after, h, rfl, fun e he => ?_, rfl⟩
    by_contra hremoves
    exact hkept (removes_device (Bool.eq_true_of_not_eq_false hremoves) ▸ he)
  have hshape := List.mem_map_of_mem (f := fun x => (x.1.1, Store.hashToken host x.1.2, x.2)) hentry
  rw [← ht.devices, deviceShape, List.mem_map] at hshape
  obtain ⟨d, hd, heq⟩ := hshape
  simp only [Prod.mk.injEq] at heq
  exact ⟨d, hd, heq.1, heq.2.1⟩

/-- **A device's token** resolves as the history says. -/
theorem resolves_device (ht : Tracked host events db) (hd : Distinct host events token) :
    (∀ d, Store.answer (Store.deviceIDByToken host token) db = .ok d ↔ Active events d token) ∧
    (Store.answer (Store.deviceIDByToken host token) db = .error .revoked ↔ ∃ d, Revoked events d token) ∧
    (Store.answer (Store.deviceIDByToken host token) db = .error .unknownToken ↔
      (∀ d, ¬ Active events d token) ∧ ∀ d, ¬ Revoked events d token) := by
  rw [answer_deviceIDByToken]
  cases hfind : db.devices.rows.find? (·.tokenHash == Store.hashToken host token) with
  | none =>
    have hno : ∀ {d before after}, events = before ++ .deviceIssued d token :: after →
      .deviceDeleted d ∉ after → False := by
      intro d before after h hkept
      obtain ⟨row, hrow, -, hhash⟩ := ht.device_of h hkept
      exact absurd (beq_iff_eq.2 hhash) (List.find?_eq_none.1 hfind row hrow)
    have hactive : ∀ d, ¬ Active events d token := fun d ⟨_, _, h, hrev⟩ => hno h (not_deleted ht hd h hrev)
    have hrevoked : ∀ d, ¬ Revoked events d token := fun d ⟨_, _, h, _, hkept⟩ => hno h hkept
    refine ⟨fun d => iff_of_false nofun (hactive d), iff_of_false nofun fun ⟨d, h⟩ => hrevoked d h, ?_⟩
    exact iff_of_true rfl ⟨hactive, hrevoked⟩
  | some row =>
    obtain ⟨t, before, after, hhash, hsplit, hkept, hrevoked⟩ := ht.of_device (List.mem_of_find?_eq_some hfind)
    have hfound := List.find?_some hfind
    rw [beq_iff_eq, hhash] at hfound
    have htoken : t = token := hd.eq_of_hash (by simp [hsplit]) (e := .deviceIssued row.id t) rfl hfound
    subst htoken
    by_cases hrev : row.revokedAt.isSome
    · have hmem := hrevoked.1 hrev
      have hnot : ∀ d, ¬ Active events d t := by
        intro d ⟨before', after', hsplit', hno⟩
        obtain ⟨rfl, rfl⟩ := hd.issued_once hsplit hsplit'
        exact hno hmem
      have hyes : Revoked events row.id t := ⟨before, after, hsplit, hmem, hkept⟩
      simp only [hrev, if_true]
      exact ⟨fun d => iff_of_false nofun (hnot d), iff_of_true trivial ⟨_, hyes⟩,
        iff_of_false nofun fun h => h.2 _ hyes⟩
    · have hmem : .deviceRevoked row.id ∉ after := fun h => hrev (hrevoked.2 h)
      have hyes : Active events row.id t := ⟨before, after, hsplit, hmem⟩
      have hnot : ∀ d, ¬ Revoked events d t := by
        intro d ⟨before', after', hsplit', hyes, _⟩
        obtain ⟨rfl, rfl⟩ := hd.issued_once hsplit hsplit'
        exact hmem hyes
      simp only [hrev]
      refine ⟨fun d => ?_, iff_of_false nofun fun ⟨d, h⟩ => hnot d h, iff_of_false nofun fun h => h.1 _ hyes⟩
      constructor
      · intro h
        cases h
        exact hyes
      · intro ⟨before', after', hsplit', _⟩
        rw [(hd.issued_once hsplit hsplit').1]
        rfl

/-! ## Keys -/

theorem Distinct.key_issued_once (hd : Distinct host events token) {before before' after after' : List Event}
    (h : events = before ++ .keyIssued token :: after) (h' : events = before' ++ .keyIssued token :: after') :
    after = after' := (Register.split_unique hd.tokens h h' rfl rfl).2.2

theorem issues_key {e : Event} {t : Bytes} (h : (keyRegister host).issues e = some t) : e = .keyIssued t := by
  cases e with
  | keyIssued t' =>
    cases h
    rfl
  | deviceIssued | deviceRevoked | deviceDeleted | keyRevoked | prefixRevoked => cases h

/-- The key is revoked by its own token and prefix alone. -/
theorem revokes_key (hd : Distinct host events token) {e : Event} (he : e ∈ events) :
    (keyRegister host).revokes e token = true ↔ RevokesKey host token e := by
  cases e with
  | keyRevoked t =>
    rw [RevokesKey, or_iff_left nofun, Event.keyRevoked.injEq]
    show (Store.hashToken host token == Store.hashToken host t) = true ↔ _
    rw [beq_iff_eq]
    exact ⟨fun h => hd.eq_of_hash he rfl h.symm, fun h => h ▸ rfl⟩
  | prefixRevoked pfx =>
    rw [RevokesKey, or_iff_right nofun, Event.prefixRevoked.injEq]
    show (keyPrefix host token == pfx) = true ↔ _
    rw [beq_iff_eq, eq_comm]
  | deviceIssued | deviceRevoked | deviceDeleted | keyIssued => exact iff_of_false nofun (by simp [RevokesKey])

/-- A row's place in the history. -/
theorem Tracked.of_key (ht : Tracked host events db) {k : ApiKey} (hk : k ∈ db.apiKeys.rows) :
    ∃ t before after, k.keyHash = Store.hashToken host t ∧ k.scopes = str "read" ∧
      events = before ++ .keyIssued t :: after ∧ k.revokedAt.isSome = after.any ((keyRegister host).revokes · t) := by
  have hshape : (k.keyHash, k.scopes, k.revokedAt.isSome) ∈ keyShape db := List.mem_map_of_mem hk
  rw [ht.keys, List.mem_map] at hshape
  obtain ⟨⟨t, b⟩, hentry, heq⟩ := hshape
  simp only [Prod.mk.injEq] at heq
  obtain ⟨hhash, hscopes, rfl⟩ := heq
  obtain ⟨before, e, after, rfl, hissues, -, hany⟩ := Register.mem_entries.1 hentry
  exact ⟨t, before, after, hhash.symm, hscopes.symm, by rw [issues_key hissues], hany⟩

/-- A key that was issued has its row. -/
theorem Tracked.key_of (ht : Tracked host events db) {t : Bytes} {before after : List Event}
    (h : events = before ++ .keyIssued t :: after) : ∃ k ∈ db.apiKeys.rows, k.keyHash = Store.hashToken host t := by
  have hentry : (t, after.any ((keyRegister host).revokes · t)) ∈ (keyRegister host).entries events :=
    Register.mem_entries.2 ⟨before, _, after, h, rfl, fun _ _ => rfl, rfl⟩
  have hshape := List.mem_map_of_mem (f := fun x => (Store.hashToken host x.1, str "read", x.2)) hentry
  rw [← ht.keys, keyShape, List.mem_map] at hshape
  obtain ⟨k, hk, heq⟩ := hshape
  simp only [Prod.mk.injEq] at heq
  exact ⟨k, hk, heq.1⟩

/-- **An API key's token** resolves as the history says. -/
theorem resolves_key (ht : Tracked host events db) (hd : Distinct host events token) :
    (Store.answer (Store.resolveAPIKey host token) db = .ok (str "read") ↔ KeyActive host events token) ∧
    (Store.answer (Store.resolveAPIKey host token) db = .error .revoked ↔ KeyRevoked host events token) ∧
    (Store.answer (Store.resolveAPIKey host token) db = .error .unknownKey ↔
      ¬ KeyActive host events token ∧ ¬ KeyRevoked host events token) := by
  rw [answer_resolveAPIKey]
  cases hfind : db.apiKeys.rows.find? (·.keyHash == Store.hashToken host token) with
  | none =>
    have hno : ∀ {before after}, events = before ++ .keyIssued token :: after → False := by
      intro before after h
      obtain ⟨k, hk, hhash⟩ := ht.key_of h
      exact absurd (beq_iff_eq.2 hhash) (List.find?_eq_none.1 hfind k hk)
    have hactive : ¬ KeyActive host events token := fun ⟨_, _, h, _⟩ => hno h
    have hrevoked : ¬ KeyRevoked host events token := fun ⟨_, _, h, _⟩ => hno h
    exact ⟨iff_of_false nofun hactive, iff_of_false nofun hrevoked, iff_of_true rfl ⟨hactive, hrevoked⟩⟩
  | some k =>
    obtain ⟨t, before, after, hhash, hscopes, hsplit, hany⟩ := ht.of_key (List.mem_of_find?_eq_some hfind)
    have hfound := List.find?_some hfind
    rw [beq_iff_eq, hhash] at hfound
    have htoken : t = token := hd.eq_of_hash (by simp [hsplit]) (e := .keyIssued t) rfl hfound
    subst htoken
    have hrevokes : ∀ e ∈ after, (keyRegister host).revokes e t = true ↔ RevokesKey host t e := fun e he =>
      revokes_key hd (by rw [hsplit]; exact List.mem_append_right _ (List.mem_cons_of_mem _ he))
    by_cases hrev : k.revokedAt.isSome
    · obtain ⟨e, he, hrevoke⟩ := List.any_eq_true.1 (hany.symm.trans hrev)
      have hyes : KeyRevoked host events t := ⟨before, after, hsplit, e, he, (hrevokes e he).1 hrevoke⟩
      have hnot : ¬ KeyActive host events t := by
        intro ⟨before', after', hsplit', hno⟩
        rw [← hd.key_issued_once hsplit hsplit'] at hno
        exact hno e he ((hrevokes e he).1 hrevoke)
      simp only [hrev, if_true]
      exact ⟨iff_of_false nofun hnot, iff_of_true trivial hyes, iff_of_false nofun fun h => h.2 hyes⟩
    · have hkept : ∀ e ∈ after, ¬ RevokesKey host t e := fun e he h =>
        hrev (hany.trans (List.any_eq_true.2 ⟨e, he, (hrevokes e he).2 h⟩))
      have hyes : KeyActive host events t := ⟨before, after, hsplit, hkept⟩
      have hnot : ¬ KeyRevoked host events t := by
        intro ⟨before', after', hsplit', e, he, hrevoke⟩
        rw [← hd.key_issued_once hsplit hsplit'] at he
        exact hkept e he hrevoke
      simp only [hrev, hscopes]
      exact ⟨iff_of_true rfl hyes, iff_of_false nofun hnot, iff_of_false nofun fun h => h.1 hyes⟩

/-! ## What changes nothing -/

variable {w : World} {op : Op} {e : Event} {d : Bytes}

/-- The operation an event is of. -/
def Event.Of (host : Host) (op : Op) (w : World) : Event → Prop
  | .deviceIssued deviceID token => ∃ name, op = .createDevice name ∧
    (Store.createDevice host name w).1 = .ok (deviceID, token)
  | .deviceRevoked deviceID => op = .revokeDevice deviceID
  | .deviceDeleted deviceID => op = .deleteDevice deviceID
  | .keyIssued token => ∃ label, op = .createAPIKey label ∧ (Store.createAPIKey host label w).1 = .ok token
  | .keyRevoked token => op = .revokeAPIKey token
  | .prefixRevoked pfx => op = .revokeAPIKeyByPrefix pfx

theorem toOption_map {α : Type} {r : Except StoreError α} {f : α → Event} (h : r.toOption.map f = some e) :
    ∃ a, r = .ok a ∧ f a = e := by
  cases r with
  | ok a => exact ⟨a, rfl, Option.some.inj h⟩
  | error _ => cases h

theorem event_of (h : event host op w = some e) : e.Of host op w := by
  cases op with
  | createDevice name =>
    obtain ⟨r, hr, rfl⟩ := toOption_map h
    exact ⟨name, rfl, hr⟩
  | createAPIKey label =>
    obtain ⟨r, hr, rfl⟩ := toOption_map h
    exact ⟨label, rfl, hr⟩
  | revokeDevice | deleteDevice | revokeAPIKey | revokeAPIKeyByPrefix =>
    obtain ⟨_, -, rfl⟩ := toOption_map h
    rfl
  | _ => cases h

theorem active_concat : Active (events ++ [e]) d token ↔
    e = .deviceIssued d token ∨ Active events d token ∧ e ≠ .deviceRevoked d := by
  constructor
  · intro ⟨before, after, hsplit, hrev⟩
    obtain ⟨-, heq, -⟩ | ⟨after', rfl, hold⟩ := Register.concat_split.1 hsplit
    · exact .inl heq.symm
    · refine .inr ⟨⟨before, after', hold, fun h => hrev (List.mem_append_left _ h)⟩, ?_⟩
      rintro rfl
      exact hrev (by simp)
  · intro h
    obtain rfl | ⟨⟨before, after, rfl, hrev⟩, hne⟩ := h
    · exact ⟨events, [], rfl, List.not_mem_nil⟩
    · exact ⟨before, after ++ [e], by simp, by simpa [hrev] using hne.symm⟩

theorem revoked_concat (hrevoked : e = .deviceRevoked d → ¬ Active events d token)
    (hdeleted : e = .deviceDeleted d → ¬ Revoked events d token) :
    Revoked (events ++ [e]) d token ↔ Revoked events d token := by
  constructor
  · intro ⟨before, after, hsplit, hmem, hkept⟩
    obtain ⟨-, -, rfl⟩ | ⟨after', rfl, hold⟩ := Register.concat_split.1 hsplit
    · exact absurd hmem List.not_mem_nil
    · have hkept' : .deviceDeleted d ∉ after' := fun h => hkept (List.mem_append_left _ h)
      by_cases hmem' : .deviceRevoked d ∈ after'
      · exact ⟨before, after', hold, hmem', hkept'⟩
      · have heq : .deviceRevoked d = e := by simpa [hmem'] using hmem
        exact absurd ⟨before, after', hold, hmem'⟩ (hrevoked heq.symm)
  · intro h
    obtain ⟨before, after, rfl, hmem, hkept⟩ := h
    refine ⟨before, after ++ [e], by simp, List.mem_append_left _ hmem, fun h => ?_⟩
    obtain h | h := List.mem_append.1 h
    · exact hkept h
    · exact hdeleted (List.mem_singleton.1 h).symm ⟨before, after, rfl, hmem, hkept⟩

theorem keyActive_concat : KeyActive host (events ++ [e]) token ↔
    e = .keyIssued token ∨ KeyActive host events token ∧ ¬ RevokesKey host token e := by
  constructor
  · intro ⟨before, after, hsplit, hkept⟩
    obtain ⟨-, heq, -⟩ | ⟨after', rfl, hold⟩ := Register.concat_split.1 hsplit
    · exact .inl heq.symm
    · exact .inr ⟨⟨before, after', hold, fun e' he' => hkept e' (List.mem_append_left _ he')⟩, hkept e (by simp)⟩
  · intro h
    obtain rfl | ⟨⟨before, after, rfl, hkept⟩, hno⟩ := h
    · exact ⟨events, [], rfl, nofun⟩
    · refine ⟨before, after ++ [e], by simp, fun e' he' => ?_⟩
      obtain he' | he' := List.mem_append.1 he'
      · exact hkept e' he'
      · exact List.mem_singleton.1 he' ▸ hno

theorem keyRevoked_concat (hrevokes : RevokesKey host token e → ¬ KeyActive host events token) :
    KeyRevoked host (events ++ [e]) token ↔ KeyRevoked host events token := by
  constructor
  · intro ⟨before, after, hsplit, e', he', hrevoke⟩
    obtain ⟨-, -, rfl⟩ | ⟨after', rfl, hold⟩ := Register.concat_split.1 hsplit
    · exact absurd he' List.not_mem_nil
    · by_cases hany : ∃ e'' ∈ after', RevokesKey host token e''
      · exact ⟨before, after', hold, hany⟩
      · have hkept : ∀ e'' ∈ after', ¬ RevokesKey host token e'' := fun e'' he'' h => hany ⟨e'', he'', h⟩
        obtain he' | he' := List.mem_append.1 he'
        · exact absurd hrevoke (hkept e' he')
        · rw [List.mem_singleton] at he'
          exact absurd ⟨before, after', hold, hkept⟩ (hrevokes (he' ▸ hrevoke))
  · intro h
    obtain ⟨before, after, rfl, e', he', hrevoke⟩ := h
    exact ⟨before, after ++ [e], by simp, e', List.mem_append_left _ he', hrevoke⟩

/-- The operation is one of those that change how a device's token resolves: it
issues the token, revokes the device it resolves to, or deletes a revoked one. -/
inductive ChangesDevice (host : Host) (w : World) (token : Bytes) : Op → Prop
  | issues (name d : Bytes) (h : (Store.createDevice host name w).1 = .ok (d, token)) :
    ChangesDevice host w token (.createDevice name)
  | revokes (d : Bytes) (h : Store.answer (Store.deviceIDByToken host token) w.db = .ok d) :
    ChangesDevice host w token (.revokeDevice d)
  | deletes (d : Bytes) (h : Store.answer (Store.deviceIDByToken host token) w.db = .error .revoked) :
    ChangesDevice host w token (.deleteDevice d)

/-- The operation is one of those that change how a key resolves: it issues the
key, or revokes it while it resolves to its scopes. -/
inductive ChangesKey (host : Host) (w : World) (token : Bytes) : Op → Prop
  | issues (label : Bytes) (h : (Store.createAPIKey host label w).1 = .ok token) :
    ChangesKey host w token (.createAPIKey label)
  | revokes (h : Store.answer (Store.resolveAPIKey host token) w.db = .ok (str "read")) :
    ChangesKey host w token (.revokeAPIKey token)
  | revokesPrefix (h : Store.answer (Store.resolveAPIKey host token) w.db = .ok (str "read")) :
    ChangesKey host w token (.revokeAPIKeyByPrefix (keyPrefix host token))

theorem Distinct.left {events' : List Event} (hd : Distinct host (events ++ events') token) :
    Distinct host events token := by
  refine ⟨?_, ?_, fun t ht t' ht' => hd.prefixes t ?_ t' ?_⟩
  · have := hd.ids
    rw [List.filterMap_append] at this
    exact (List.nodup_append.1 this).1
  · have := hd.tokens
    rw [List.filterMap_append] at this
    exact (List.nodup_append.1 this).1
  · rw [List.filterMap_append, ← List.cons_append]
    exact List.mem_append_left _ ht
  · rw [List.filterMap_append, ← List.cons_append]
    exact List.mem_append_left _ ht'

/-- No other operation changes how a device's token resolves. -/
theorem device_unchanged (ht : Tracked host events w.db)
    (hd : Distinct host (events ++ (event host op w).toList) token)
    (hno : ¬ ChangesDevice host w token op) :
    Store.answer (Store.deviceIDByToken host token) (op.step host w).db =
      Store.answer (Store.deviceIDByToken host token) w.db := by
  obtain ⟨hok, hrev, hunknown⟩ := resolves_device ht hd.left
  obtain ⟨hok', hrev', hunknown'⟩ := resolves_device (tracked_step op ht) hd
  have hsame : (∀ d, Active (events ++ (event host op w).toList) d token ↔ Active events d token) ∧
      ∀ d, Revoked (events ++ (event host op w).toList) d token ↔ Revoked events d token := by
    cases hevent : event host op w with
    | none => simp
    | some e =>
      have hop := event_of hevent
      have hissued : ∀ d, e ≠ .deviceIssued d token := by
        rintro d rfl
        obtain ⟨name, rfl, hr⟩ := hop
        exact hno (.issues name d hr)
      have hrevoked : ∀ d, e = .deviceRevoked d → ¬ Active events d token := by
        rintro d rfl hactive
        cases hop
        exact hno (.revokes d ((hok d).2 hactive))
      have hdeleted : ∀ d, e = .deviceDeleted d → ¬ Revoked events d token := by
        rintro d rfl hrevoked
        cases hop
        exact hno (.deletes d (hrev.2 ⟨d, hrevoked⟩))
      refine ⟨fun d => ?_, fun d => revoked_concat (hrevoked d) (hdeleted d)⟩
      rw [Option.toList_some, active_concat, or_iff_right (hissued d)]
      exact and_iff_left_of_imp fun hactive heq => hrevoked d heq hactive
  by_cases hactive : ∃ d, Active events d token
  · obtain ⟨d, hactive⟩ := hactive
    rw [(hok d).2 hactive, (hok' d).2 ((hsame.1 d).2 hactive)]
  by_cases hrevoked : ∃ d, Revoked events d token
  · obtain ⟨d, hrevoked⟩ := hrevoked
    rw [hrev.2 ⟨d, hrevoked⟩, hrev'.2 ⟨d, (hsame.2 d).2 hrevoked⟩]
  · rw [hunknown.2 ⟨fun d h => hactive ⟨d, h⟩, fun d h => hrevoked ⟨d, h⟩⟩,
      hunknown'.2 ⟨fun d h => hactive ⟨d, (hsame.1 d).1 h⟩, fun d h => hrevoked ⟨d, (hsame.2 d).1 h⟩⟩]

/-- No other operation changes how a key resolves. -/
theorem key_unchanged (ht : Tracked host events w.db) (hd : Distinct host (events ++ (event host op w).toList) token)
    (hno : ¬ ChangesKey host w token op) :
    Store.answer (Store.resolveAPIKey host token) (op.step host w).db =
      Store.answer (Store.resolveAPIKey host token) w.db := by
  obtain ⟨hok, hrev, hunknown⟩ := resolves_key ht hd.left
  obtain ⟨hok', hrev', hunknown'⟩ := resolves_key (tracked_step op ht) hd
  have hsame : (KeyActive host (events ++ (event host op w).toList) token ↔ KeyActive host events token) ∧
      (KeyRevoked host (events ++ (event host op w).toList) token ↔ KeyRevoked host events token) := by
    cases hevent : event host op w with
    | none => simp
    | some e =>
      have hop := event_of hevent
      have hissued : e ≠ .keyIssued token := by
        rintro rfl
        obtain ⟨label, rfl, hr⟩ := hop
        exact hno (.issues label hr)
      have hrevokes : RevokesKey host token e → ¬ KeyActive host events token := by
        intro hrevokes hactive
        obtain rfl | rfl := hrevokes
        · cases hop
          exact hno (.revokes (hok.2 hactive))
        · cases hop
          exact hno (.revokesPrefix (hok.2 hactive))
      refine ⟨?_, keyRevoked_concat hrevokes⟩
      rw [Option.toList_some, keyActive_concat, or_iff_right hissued]
      exact and_iff_left_of_imp fun hactive h => hrevokes h hactive
  by_cases hactive : KeyActive host events token
  · rw [hok.2 hactive, hok'.2 (hsame.1.2 hactive)]
  by_cases hrevoked : KeyRevoked host events token
  · rw [hrev.2 hrevoked, hrev'.2 (hsame.2.2 hrevoked)]
  · rw [hunknown.2 ⟨hactive, hrevoked⟩, hunknown'.2 ⟨fun h => hactive (hsame.1.1 h), fun h => hrevoked (hsame.2.1 h)⟩]

/-- The keys are listed, each with the prefix that revokes it. -/
theorem listed_keys (ht : Tracked host events db) : ∃ rows, Store.answer (Store.listAPIKeys host) db = .ok rows ∧
    (∀ k ∈ rows, ∃ t, .keyIssued t ∈ events ∧ Store.hashPrefix k = keyPrefix host t) ∧
    ∀ t, .keyIssued t ∈ events → ∃ k ∈ rows, Store.hashPrefix k = keyPrefix host t := by
  refine ⟨(host.orderBy fun k : ApiKey => -k.createdAt).sort db.apiKeys.rows, rfl, fun k hk => ?_, fun t hmem => ?_⟩
  · obtain ⟨t, before, after, hhash, -, hsplit, -⟩ := ht.of_key ((OrderBy.mem_sort _).1 hk)
    exact ⟨t, by simp [hsplit], by rw [Store.hashPrefix, hhash, keyPrefix]⟩
  · obtain ⟨before, after, hsplit⟩ := List.append_of_mem hmem
    obtain ⟨k, hk, hhash⟩ := ht.key_of hsplit
    exact ⟨k, (OrderBy.mem_sort _).2 hk, by rw [Store.hashPrefix, hhash, keyPrefix]⟩

/-- **The life cycle of a credential**, over any run from empty tables. How a
token resolves, as a device's and as a key's, is what the history of the run
says; keys are listed with the prefixes that revoke them; and the next operation
changes how it resolves only by issuing it, by revoking what it resolves to, or
by deleting its revoked device. -/
theorem credential_life_cycle (host : Host) (w : World) (hempty : w.db = {}) (ops : List Op) (token : Bytes)
    (hdistinct : Distinct host (history host ops w) token) :
    let events := history host ops w
    let w' := runOps host ops w
    ((∀ d, Store.answer (Store.deviceIDByToken host token) w'.db = .ok d ↔ Active events d token) ∧
      (Store.answer (Store.deviceIDByToken host token) w'.db = .error .revoked ↔ ∃ d, Revoked events d token) ∧
      (Store.answer (Store.deviceIDByToken host token) w'.db = .error .unknownToken ↔
        (∀ d, ¬ Active events d token) ∧ ∀ d, ¬ Revoked events d token)) ∧
    ((Store.answer (Store.resolveAPIKey host token) w'.db = .ok (str "read") ↔ KeyActive host events token) ∧
      (Store.answer (Store.resolveAPIKey host token) w'.db = .error .revoked ↔ KeyRevoked host events token) ∧
      (Store.answer (Store.resolveAPIKey host token) w'.db = .error .unknownKey ↔
        ¬ KeyActive host events token ∧ ¬ KeyRevoked host events token)) ∧
    (∃ rows, Store.answer (Store.listAPIKeys host) w'.db = .ok rows ∧
      (∀ k ∈ rows, ∃ t, .keyIssued t ∈ events ∧ Store.hashPrefix k = keyPrefix host t) ∧
      ∀ t, .keyIssued t ∈ events → ∃ k ∈ rows, Store.hashPrefix k = keyPrefix host t) ∧
    ∀ op, Distinct host (events ++ (event host op w').toList) token →
      (¬ ChangesDevice host w' token op → Store.answer (Store.deviceIDByToken host token) (op.step host w').db =
        Store.answer (Store.deviceIDByToken host token) w'.db) ∧
      (¬ ChangesKey host w' token op → Store.answer (Store.resolveAPIKey host token) (op.step host w').db =
        Store.answer (Store.resolveAPIKey host token) w'.db) := by
  intro events w'
  have ht : Tracked host events w'.db := tracked_run ops (hempty ▸ tracked_empty)
  exact ⟨resolves_device ht hdistinct, resolves_key ht hdistinct, listed_keys ht, fun op hd =>
    ⟨device_unchanged ht hd, key_unchanged ht hd⟩⟩

/-- A server with empty tables, whose random bytes count up from 0. -/
def counting : World where
  db := {}
  clock := fun _ => .epoch
  entropy := fun n => n.toUInt8

/-- The token of the first device it enrolls. -/
def firstToken : Bytes := Store.newToken (str "sl_") ((List.range 32).map fun n => (n + 8).toUInt8)

/-- The token of the key it creates next. -/
def secondToken : Bytes := Store.newToken (str "ak_") ((List.range 32).map fun n => (n + 40).toUInt8)

/-- A device enrolled, a key created, the device revoked: its token is one of a
revoked device, and unknown as a key. -/
theorem credential_life_cycle_revoked :
    let ops := [.createDevice (str "pc"), .createAPIKey (str "k"), .revokeDevice (str "0001020304050607")]
    let w' := runOps insertionHost ops counting
    Store.answer (Store.deviceIDByToken insertionHost firstToken) w'.db = .error .revoked ∧
      Store.answer (Store.resolveAPIKey insertionHost firstToken) w'.db = .error .unknownKey := by
  intro ops w'
  have hhistory : history insertionHost ops counting = [.deviceIssued (str "0001020304050607") firstToken,
      .keyIssued secondToken, .deviceRevoked (str "0001020304050607")] := by decide +kernel
  have hprefix : keyPrefix insertionHost firstToken ≠ keyPrefix insertionHost secondToken := by decide +kernel
  have hdistinct : Distinct insertionHost (history insertionHost ops counting) firstToken := by
    rw [hhistory]
    refine ⟨List.nodup_singleton _, by decide +kernel, fun t ht t' ht' heq => ?_⟩
    simp only [List.filterMap_cons, List.filterMap_nil, presentedToken, List.mem_cons, List.not_mem_nil, or_false,
      or_self_left] at ht ht'
    obtain rfl | rfl := ht <;> obtain rfl | rfl := ht'
    · rfl
    · exact absurd heq hprefix
    · exact absurd heq.symm hprefix
    · rfl
  obtain ⟨⟨-, hrevoked, -⟩, ⟨-, -, hunknown⟩, -⟩ :=
    credential_life_cycle insertionHost counting rfl ops firstToken hdistinct
  rw [hhistory] at hrevoked hunknown
  have hne : firstToken ≠ secondToken := fun h => hprefix (h ▸ rfl)
  have hnot : ∀ before after, [.deviceIssued (str "0001020304050607") firstToken, .keyIssued secondToken,
      .deviceRevoked (str "0001020304050607")] ≠ before ++ Event.keyIssued firstToken :: after := by
    intro before after hsplit
    have hmem : Event.keyIssued firstToken ∈ before ++ .keyIssued firstToken :: after := by simp
    rw [← hsplit] at hmem
    simp [hne] at hmem
  refine ⟨hrevoked.2 ⟨_, [], _, rfl, by simp, by simp⟩, hunknown.2 ⟨?_, ?_⟩⟩
  · intro ⟨before, after, hsplit, _⟩
    exact hnot before after hsplit
  · intro ⟨before, after, hsplit, _⟩
    exact hnot before after hsplit

end Credentials
end ScrewLogger
