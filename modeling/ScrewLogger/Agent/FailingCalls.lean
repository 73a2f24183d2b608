/-
A call into the file system fails inside a call on the buffer.

Each operation makes its calls in a fixed order. `makes_append` and `makes_ack`:
where one of them fails, other than a read, the operation returns an error; the
buffer is left closed if a rewrite was past the close of the file, and with the
entries of before or after otherwise, but for an entry of which only a part was
written.
-/
import ScrewLogger.Agent.BufferFacts
import ScrewLogger.Lib.Injection

namespace ScrewLogger
open Lib Lib.Eff

/-- A call into the file system. -/
inductive SysCall
  | seek
  | read
  | openTmp
  | writeTmp
  | syncTmp
  | closeTmp
  | close
  | rename
  | reopen
  | write
  | sync
  deriving DecidableEq

namespace Buf

/-- The call changes nothing but the temporary file. -/
def sparesFile : SysCall → Bool
  | .seek | .openTmp | .writeTmp | .syncTmp | .closeTmp => true
  | _ => false

/-- From here on a rewrite has no file open. -/
def pastClose : SysCall → Bool
  | .close | .rename | .reopen => true
  | _ => false

/-- The calls of a rewrite. -/
def rewriteCalls (entries : List Heartbeat) : List SysCall :=
  [.openTmp] ++ entries.map (fun _ => .writeTmp) ++ [.syncTmp, .closeTmp, .close, .rename, .reopen]

/-- The calls of `Append`. -/
def appendCalls (q : List Heartbeat) (m : Machine) : List SysCall :=
  (if overflows m.buf then [.seek, .read] ++ rewriteCalls (youngerHalf (keep q)) else []) ++ [.write, .sync]

/-- The calls of `Ack(count)`. -/
def ackCalls (count : Int) (q : List Heartbeat) (m : Machine) : List SysCall :=
  if count ≤ 0 then []
  else [.seek, .read] ++
    if halfAcked (advanced m (q.take count.toNat)).buf then [.seek, .read] ++ rewriteCalls (keep (q.drop count.toNat))
    else []

/-! ## The failing call -/

/-- The machine, call number `k` from now answered with the fault. -/
def failing (k : Nat) (f : Fault) (m : Machine) : Machine := { m with faults := .replicate k .none ++ [f] }

/-- The machine, at which nothing fails any more. -/
def working (m : Machine) : Machine := { m with faults := [] }

/-- The fault is an error, and not of a read. -/
def Counts (f : Fault) (c : SysCall) : Prop := (f = .error ∨ ∃ n, f = .short n) ∧ c ≠ .read

/-- How much of a write was done. -/
def written : Fault → Nat
  | .short n => n
  | _ => 0

variable {Left : SysCall → Fault → Machine → Prop} {m : Machine} {q : List Heartbeat}

/-- A program's calls, one of which fails. -/
abbrev Calls {ε α : Type} (Left : SysCall → Fault → Machine → Prop) (p : Eff Machine ε α) (m : Machine)
    (calls : List SysCall) (a : α) (m' : Machine) : Prop := Makes failing Counts Left p m calls a m'

/-- A program of one call. -/
theorem calls_one {ε α : Type} {p : Eff Machine ε α} {a : α} {m' : Machine} {c : SysCall}
    (hreturns : ∀ k f, p (failing (k + 1) f m) = (.ok a, failing k f m'))
    (hstops : ∀ f, Counts f c → ∃ e m'', p (failing 0 f m) = (.error e, m'') ∧ Left c f m'') :
    Calls Left p m [c] a m' where
  returns k f hk := by
    cases k with
    | zero => simp at hk
    | succ k => exact hreturns k f
  stops k f c' hc hcounts := by
    cases k with
    | zero =>
      obtain rfl : c = c' := by simpa using hc
      exact hstops f hcounts
    | succ k => simp at hc

theorem calls_sys {g : Machine → Machine} (c : SysCall) (hg : ∀ k f, g (failing k f m) = failing k f (g m))
    (hleft : ∀ f, Left c f (working m)) : Calls Left (sys g) m [c] () (g m) := by
  refine calls_one (fun k f => ?_) fun f hf => ?_
  · show (Except.ok (), g (failing k f m)) = _
    rw [hg]
  · obtain ⟨rfl | ⟨n, rfl⟩, -⟩ := hf
    · exact ⟨.io, _, rfl, hleft _⟩
    · exact ⟨.io, _, rfl, hleft _⟩

theorem calls_write {g : Bytes → Machine → Machine} {data : Bytes} (c : SysCall)
    (hg : ∀ k f, g data (failing k f m) = failing k f (g data m)) (herror : Left c .error (working m))
    (hshort : ∀ n, Left c (.short n) (g (data.take n) (working m))) :
      Calls Left (write g data) m [c] () (g data m) := by
  refine calls_one (fun k f => ?_) fun f hf => ?_
  · show (Except.ok (), g data (failing k f m)) = _
    rw [hg]
  · obtain ⟨rfl | ⟨n, rfl⟩, -⟩ := hf
    · exact ⟨.io, _, rfl, herror⟩
    · exact ⟨.io, _, rfl, hshort n⟩

theorem calls_ensureOpen (hopen : m.buf.isOpen = true) : Calls Left ensureOpen m [] () m :=
  (Makes.read fun _ _ => rfl).bind (Makes.ensure hopen)

/-! ## The operations -/

theorem calls_readUnacked (hopen : m.buf.isOpen = true) (hleft : ∀ f, Left .seek f (working m)) :
    Calls Left readUnacked m [.seek, .read] ⟨m.file.drop m.buf.ackedOff, false⟩ m := by
  have hseek : Calls Left (sys id) m [.seek] () m := calls_sys .seek (fun _ _ => rfl) hleft
  refine (calls_ensureOpen hopen).bind (hseek.bind ((Makes.read fun _ _ => rfl).bind ?_))
  exact calls_one (fun _ _ => rfl) fun f hf => absurd rfl hf.2

theorem calls_unacked {limit : Int} (hpos : 0 < limit) (h : Reading q m) (hshort : q.all short = true)
    (hleft : ∀ f, Left .seek f (working m)) :
    Calls Left (unacked limit) m [.seek, .read] ((q.map Heartbeat.sanitize).take limit.toNat) m := by
  rw [unacked, if_neg (by omega)]
  refine (calls_readUnacked h.isOpen hleft).bind (Makes.fromExcept ?_)
  show readEntries _ (scanLines _).tokens (scanLines _).err = _
  rw [h.scan_all, readEntries_entries, if_pos]
  exact List.all_eq_true.2 fun e he => List.all_eq_true.1 hshort e (List.mem_of_mem_take he)

/-- The machine, but for the temporary file. -/
structure Untouched (m m' : Machine) : Prop where
  file : m'.file = m.file
  buf : m'.buf = m.buf

/-- The machine with a line more in the temporary file. -/
def addTmp (m : Machine) (h : Heartbeat) : Machine := { m with tmp := m.tmp ++ line h }

theorem foldl_addTmp {entries : List Heartbeat} : ∀ {m : Machine},
    entries.foldl addTmp m = { m with tmp := m.tmp ++ encode entries } := by
  induction entries with
  | nil => simp
  | cons h entries ih =>
    intro m
    rw [List.foldl_cons, ih, encode_cons, ← List.append_assoc]
    rfl

theorem foldl_length {entries : List Heartbeat} : ∀ {n : Nat},
    entries.foldl (fun n h => n + (line h).length) n = n + (encode entries).length := by
  induction entries with
  | nil => exact rfl
  | cons h entries ih =>
    intro n
    rw [List.foldl_cons, ih, encode_cons, List.length_append]
    omega

/-- The entries, written to the temporary file one after the other. -/
theorem calls_writeTmp {entries : List Heartbeat} (hleft : ∀ f m', Untouched m m' → Left .writeTmp f (working m')) :
    Calls Left (entries.foldlM (fun n h => do
        write (fun data m => { m with tmp := m.tmp ++ data }) (line h)
        pure (n + (line h).length)) 0) { m with tmp := [] } (entries.map fun _ => .writeTmp) (encode entries).length
      { m with tmp := encode entries } := by
  have hround : ∀ (n : Nat) (m' : Machine) (h : Heartbeat), Untouched m m' → Untouched m (addTmp m' h) ∧
      Calls Left (do
        write (fun data m => { m with tmp := m.tmp ++ data }) (line h)
        pure (n + (line h).length)) m' [.writeTmp] (n + (line h).length) (addTmp m' h) := by
    intro n m' h hm'
    refine ⟨⟨hm'.file, hm'.buf⟩, ?_⟩
    have hwrite : Calls Left (write (fun data m => { m with tmp := m.tmp ++ data }) (line h)) m' [.writeTmp] ()
        (addTmp m' h) := by
      refine calls_write .writeTmp (fun _ _ => rfl) (hleft _ _ hm') fun n => ?_
      exact hleft _ { m' with tmp := m'.tmp ++ (line h).take n } ⟨hm'.file, hm'.buf⟩
    exact hwrite.andThen Makes.pure
  have hloop := Makes.foldlM (l := entries) (b := 0) (Untouched m) hround (s := { m with tmp := [] }) ⟨rfl, rfl⟩
  rw [foldl_addTmp, foldl_length, Nat.zero_add, List.nil_append] at hloop
  exact hloop

/-- **A rewrite.** -/
theorem calls_rewrite {entries : List Heartbeat} (hopen : m.buf.isOpen = true)
    (hbefore : ∀ c f m', sparesFile c = true → Untouched m m' → Left c f (working m'))
    (hafter : ∀ c f m', pastClose c = true → m'.buf.isOpen = false → Left c f (working m')) :
    Calls Left (rewrite entries) m (rewriteCalls entries) () (rewritten m entries) := by
  let full : Machine := { m with tmp := encode entries }
  let shut : Machine := { full with buf := { full.buf with isOpen := false } }
  let moved : Machine := { shut with file := encode entries, tmp := [] }
  have hopenTmp : Calls Left (sys fun m => { m with tmp := [] }) m [.openTmp] () { m with tmp := [] } :=
    calls_sys .openTmp (fun _ _ => rfl) fun f => hbefore .openTmp f m rfl ⟨rfl, rfl⟩
  have hsyncTmp : Calls Left (sys id) full [.syncTmp] () full :=
    calls_sys .syncTmp (fun _ _ => rfl) fun f => hbefore .syncTmp f full rfl ⟨rfl, rfl⟩
  have hcloseTmp : Calls Left (sys id) full [.closeTmp] () full :=
    calls_sys .closeTmp (fun _ _ => rfl) fun f => hbefore .closeTmp f full rfl ⟨rfl, rfl⟩
  have hshut : Calls Left (modify fun m => { m with buf := { m.buf with isOpen := false } } : Buf Unit) full [] () shut :=
    Makes.modify fun _ _ => rfl
  have hclose : Calls Left (sys id) shut [.close] () shut :=
    calls_sys .close (fun _ _ => rfl) fun f => hafter .close f shut rfl rfl
  have hrename : Calls Left (sys fun m => { m with file := m.tmp, tmp := [] }) shut [.rename] () moved :=
    calls_sys .rename (fun _ _ => rfl) fun f => hafter .rename f shut rfl rfl
  have hreopen : Calls Left (sys fun m =>
      { m with buf := { m.buf with isOpen := true, ackedOff := 0, size := (encode entries).length } }) moved
        [.reopen] ()
      (rewritten m entries) :=
    calls_sys .reopen (fun _ _ => rfl) fun f => hafter .reopen f moved rfl rfl
  have hwrites := @calls_writeTmp Left m entries fun f m' hm' => hbefore .writeTmp f m' rfl hm'
  have htail := hsyncTmp.andThen (hcloseTmp.andThen ((calls_ensureOpen (m := full) hopen).andThen
    (hshut.andThen (hclose.andThen (hrename.andThen hreopen)))))
  rw [rewrite, rewriteCalls, List.append_assoc]
  refine hopenTmp.andThen (hwrites.bind ?_)
  exact htail

theorem calls_compact (h : Reading q m) (hshort : q.all short = true)
    (hbefore : ∀ c f m', sparesFile c = true → Untouched m m' → Left c f (working m'))
    (hafter : ∀ c f m', pastClose c = true → m'.buf.isOpen = false → Left c f (working m')) :
    Calls Left compact m ([.seek, .read] ++ rewriteCalls (keep q)) () (rewritten m (keep q)) := by
  refine (calls_unacked (by decide) h hshort fun f => hbefore .seek f m rfl ⟨rfl, rfl⟩).bind ?_
  exact calls_rewrite h.isOpen hbefore hafter

/-- **An ack.** -/
theorem calls_ack (count : Int) (h : Reading q m) (hshort : q.all short = true)
    (hbefore : ∀ c f m', sparesFile c = true → Untouched m m' ∨ Untouched (advanced m (q.take count.toNat)) m' →
      Left c f (working m'))
    (hafter : ∀ c f m', pastClose c = true → m'.buf.isOpen = false → Left c f (working m')) :
    Calls Left (ack count) m (ackCalls count q m) () (ackedTo count q m) := by
  rw [ack, ackCalls, ackedTo]
  by_cases hle : count ≤ 0
  · rw [if_pos hle, if_pos hle, if_pos hle]
    exact Makes.pure
  · rw [if_neg hle, if_neg hle, if_neg hle]
    have hread := calls_readUnacked h.isOpen fun f => hbefore .seek f m rfl (.inl ⟨rfl, rfl⟩)
    refine hread.bind ?_
    have hcount : countBytes count.toNat (scanLines ⟨m.file.drop m.buf.ackedOff, false⟩).tokens
        (scanLines ⟨m.file.drop m.buf.ackedOff, false⟩).err = .ok (encode (q.take count.toNat)).length := by
      rw [h.scan_all, countBytes_entries, if_pos]
      exact List.all_eq_true.2 fun e he => List.all_eq_true.1 hshort e (List.mem_of_mem_take he)
    have hdrop : (q.drop count.toNat).all short = true :=
      List.all_eq_true.2 fun e he => List.all_eq_true.1 hshort e (List.mem_of_mem_drop he)
    have hadvance : Calls Left (modify fun m' => { m' with buf := { m'.buf with
        ackedOff := m'.buf.ackedOff + (encode (q.take count.toNat)).length } } : Buf Unit) m [] ()
        (advanced m (q.take count.toNat)) := Makes.modify fun _ _ => rfl
    have hhalf : Calls Left (read fun m' => halfAcked m'.buf : Buf Bool) (advanced m (q.take count.toNat)) []
        (halfAcked (advanced m (q.take count.toNat)).buf) (advanced m (q.take count.toNat)) :=
          Makes.read fun _ _ => rfl
    by_cases hcompacts : halfAcked (advanced m (q.take count.toNat)).buf = true
    · rw [if_pos hcompacts, if_pos hcompacts]
      refine (Makes.fromExcept hcount).bind (hadvance.andThen (hhalf.bind ?_))
      rw [if_pos hcompacts]
      exact calls_compact (h.advanced count.toNat) hdrop (fun c f m' hc hm' => hbefore c f m' hc (.inr hm')) hafter
    · rw [if_neg hcompacts, if_neg hcompacts]
      refine (Makes.fromExcept hcount).bind (hadvance.andThen (hhalf.bind ?_))
      rw [if_neg hcompacts]
      exact Makes.pure

/-- **An append.** -/
theorem calls_append (e : Heartbeat) (h : Reading q m) (hshort : q.all short = true)
    (hbefore : ∀ c f m', sparesFile c = true → Untouched m m' → Left c f (working m'))
    (hafter : ∀ c f m', pastClose c = true → m'.buf.isOpen = false → Left c f (working m'))
    (hwrite : ∀ f m', m'.file = (rotated q m).file ++ (line e).take (written f) → m'.buf = (rotated q m).buf →
      Left .write f (working m'))
    (hsync : ∀ f, Left .sync f (working (appended e (rotated q m)))) :
    Calls Left (append e) m (appendCalls q m) () (appended e (rotated q m)) := by
  have hrotate : Calls Left rotateIfFull m
      (if overflows m.buf then [.seek, .read] ++ rewriteCalls (youngerHalf (keep q)) else []) () (rotated q m) := by
    have hover : Calls Left (read fun m => overflows m.buf : Buf Bool) m [] (overflows m.buf) m :=
      Makes.read fun _ _ => rfl
    rw [rotated]
    by_cases hoverflows : overflows m.buf = true
    · rw [if_pos hoverflows, if_pos hoverflows]
      refine hover.bind ?_
      rw [if_pos hoverflows]
      refine (calls_unacked (by decide) h hshort fun f => hbefore .seek f m rfl ⟨rfl, rfl⟩).bind ?_
      exact calls_rewrite h.isOpen hbefore hafter
    · rw [if_neg hoverflows, if_neg hoverflows]
      refine hover.bind ?_
      rw [if_neg hoverflows]
      exact Makes.pure
  have hline : Calls Left (write (fun data m => { m with file := m.file ++ data }) (line e)) (rotated q m) [.write] ()
      { rotated q m with file := (rotated q m).file ++ line e } := by
    refine calls_write .write (fun _ _ => rfl) (hwrite .error (rotated q m) ?_ rfl) fun n => ?_
    · simp [written]
    · exact hwrite (.short n) { rotated q m with file := (rotated q m).file ++ (line e).take n } rfl rfl
  have hsize : Calls Left
      (modify fun m => { m with buf := { m.buf with size := m.buf.size + (line e).length } } : Buf Unit)
      { rotated q m with file := (rotated q m).file ++ line e } [] () (appended e (rotated q m)) :=
    Makes.modify fun _ _ => rfl
  have hsynced : Calls Left (sys id) (appended e (rotated q m)) [.sync] () (appended e (rotated q m)) :=
    calls_sys .sync (fun _ _ => rfl) hsync
  have hopen : Calls Left ensureOpen (rotated q m) [] () (rotated q m) := calls_ensureOpen (rotated_isOpen h.isOpen)
  rw [appendCalls]
  exact hrotate.andThen (hopen.andThen (hline.andThen (hsize.andThen hsynced)))

end Buf
end ScrewLogger
