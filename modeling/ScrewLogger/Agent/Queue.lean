/-
The buffer is a queue.

`buffer_is_queue`: calls on a buffer opened on an empty file, none of them met
by an error, are answered as a plain list of heartbeats answers them, which
knows of no file, no offsets and no compaction. It is so as long as a rewrite of
the file keeps every entry: `overfull_compaction` is a run past that limit.
-/
import ScrewLogger.Agent.BufferFacts
import ScrewLogger.Lib.Simulation

namespace ScrewLogger
open Lib Lib.Eff

/-- A call on the buffer. -/
inductive Call
  | append (h : Heartbeat)
  | unacked (limit : Int)
  | ack (count : Int)

/-! ## The two machines -/

namespace Buf

def call : Call → Buf (List Heartbeat)
  | .append h => (fun _ => []) <$> append h
  | .unacked limit => unacked limit
  | .ack count => (fun _ => []) <$> ack count

/-- A call's result, and the machine after it. -/
def step (m : Machine) (c : Call) : Except BufferError (List Heartbeat) × Machine := call c m

/-- The machine once `OpenBuffer` has found a file. -/
def opened (maxBytes : Int) (file : Bytes) : Machine := { file := file, buf := { maxBytes := maxBytes } }

end Buf

namespace Queue

/-- A plain list. When its entries take more than `maxBytes`, an append drops
the older half of them first. -/
def step (maxBytes : Int) (q : List Heartbeat) : Call → Except BufferError (List Heartbeat) × List Heartbeat
  | .append h =>
    let q := if maxBytes < (Buf.encode q).length then q.drop (q.length / 2) else q
    (.ok [], q ++ [h])
  | .unacked limit => (.ok (q.take limit.toNat), q)
  | .ack count => (.ok [], q.drop count.toNat)

end Queue

/-! ## Simulation -/

namespace Buf

/-- A heartbeat that comes back from the file as it is. -/
def Clean (h : Heartbeat) : Prop := h.Valid ∧ short h = true

/-- The machine holds the queue. -/
structure Sim (maxBytes : Int) (m : Machine) (q : List Heartbeat) : Prop where
  holds : ∃ acked, Holds acked q m
  size : m.buf.size = m.file.length
  maxBytes : m.buf.maxBytes = maxBytes
  faults : m.faults = []
  clean : ∀ h ∈ q, Clean h

/-- A rewrite of the file in the call keeps every entry. -/
def Roomy (m : Machine) (q : List Heartbeat) : Call → Prop
  | .append _ => overflows m.buf = true → q.length ≤ allEntries.toNat
  | .unacked _ => True
  | .ack count => 0 < count → halfAcked (advanced m (q.take count.toNat)).buf = true →
      (q.drop count.toNat).length ≤ allEntries.toNat

/-- The heartbeat of an append is clean. -/
def CleanCall : Call → Prop
  | .append h => Clean h
  | _ => True

variable {maxBytes : Int} {m : Machine} {q : List Heartbeat}

theorem valid_of_clean (h : ∀ e ∈ q, Clean e) : ∀ e ∈ q, e.Valid := fun e he => (h e he).1

theorem all_short (h : ∀ e ∈ q, Clean e) : q.all short = true := List.all_eq_true.2 fun e he => (h e he).2

theorem benign_of_nil (h : m.faults = []) : Benign m := by simp [Benign, h]

/-- The unacked bytes are those of the queue. -/
theorem Sim.overflows (h : Sim maxBytes m q) : overflows m.buf = true ↔ maxBytes < (encode q).length := by
  obtain ⟨acked, hholds⟩ := h.holds
  have hsize : (m.buf.size : Int) - m.buf.ackedOff = (encode q).length := by
    rw [h.size, hholds.ackedOff, hholds.file, encode_append, List.length_append]
    omega
  rw [Buf.overflows, hsize, h.maxBytes, decide_eq_true_eq]

theorem sim_rewritten {entries : List Heartbeat} (h : Sim maxBytes m q) (hclean : ∀ e ∈ entries, Clean e) :
    Sim maxBytes (rewritten m entries) entries where
  holds := ⟨[], rfl, rfl, rfl⟩
  size := rfl
  maxBytes := h.maxBytes
  faults := h.faults
  clean := hclean

theorem sim_opened : Sim maxBytes (opened maxBytes []) [] where
  holds := ⟨[], rfl, rfl, rfl⟩
  size := rfl
  maxBytes := rfl
  faults := rfl
  clean := fun _ he => absurd he List.not_mem_nil

theorem sim_rotated (h : Sim maxBytes m q) (hroom : Buf.overflows m.buf = true → q.length ≤ allEntries.toNat) :
    Sim maxBytes (rotated q m) (if maxBytes < (encode q).length then q.drop (q.length / 2) else q) := by
  by_cases hover : Buf.overflows m.buf = true
  · rw [rotated, if_pos hover, if_pos (h.overflows.1 hover), keep_eq (valid_of_clean h.clean) (hroom hover)]
    exact sim_rewritten h fun e he => h.clean e (List.mem_of_mem_drop he)
  · rw [rotated, if_neg hover, if_neg fun hlt => hover (h.overflows.2 hlt)]
    exact h

theorem sim_appended {e : Heartbeat} (h : Sim maxBytes m q) (he : Clean e) :
    Sim maxBytes (appended e m) (q ++ [e]) := by
  obtain ⟨acked, hholds⟩ := h.holds
  refine ⟨⟨acked, ?_, hholds.ackedOff, hholds.isOpen⟩, ?_, h.maxBytes, h.faults, ?_⟩
  · simp [appended, hholds.file]
  · simp [appended, h.size]
  · intro x hx
    rw [List.mem_append, List.mem_singleton] at hx
    obtain hx | rfl := hx
    · exact h.clean x hx
    · exact he

theorem eq_of_suffix {fs : List Fault} (h : fs <:+ m.faults) (hm : m.faults = []) : { m with faults := fs } = m := by
  rw [hm, List.suffix_nil] at h
  rw [h, ← hm]

/-- A call that cannot stop. -/
theorem step_eq {c : Call} {out : List Heartbeat} {m' : Machine}
    (h : wp (call c) (fun out₁ m₁ => out₁ = out ∧ m₁ = m') (fun _ _ => False) m) : step m c = (.ok out, m') := by
  obtain ⟨_, _, hrun, rfl, rfl⟩ := h.returns
  exact hrun

/-! What each call does to a machine that holds `q`, all of it short. -/

theorem Reading.step_unacked (h : Reading q m) (hfaults : m.faults = []) (hshort : q.all short = true) (limit : Int) :
    step m (.unacked limit) = (.ok ((q.map Heartbeat.sanitize).take limit.toNat), m) := by
  refine step_eq (wp_unacked (benign_of_nil hfaults) h (fun fs hfs =>
    ⟨rfl, eq_of_suffix hfs hfaults⟩) fun e fs _ he => ?_)
  obtain ⟨-, hne⟩ | ⟨-, hall⟩ := he
  · exact hne hfaults
  · exact absurd (hshort.symm.trans hall) (by decide)

theorem Reading.step_ack (h : Reading q m) (hfaults : m.faults = []) (hshort : q.all short = true) (count : Int) :
    step m (.ack count) = (.ok [], ackedTo count q m) := by
  refine step_eq ?_
  rw [call, wp_map]
  refine wp_ack (benign_of_nil hfaults) h (fun fs hfs => ⟨rfl, ?_⟩) (fun m' hd => hd.1 hfaults)
    fun _ _ _ _ hall => absurd (hshort.symm.trans hall) (by decide)
  rw [eq_of_suffix hfs hfaults]

theorem Reading.step_append (h : Reading q m) (hfaults : m.faults = []) (hshort : q.all short = true)
    (e : Heartbeat) :
    step m (.append e) = (.ok [], appended e (rotated q m)) := by
  refine step_eq ?_
  rw [call, wp_map]
  refine wp_append (benign_of_nil hfaults) h (fun fs hfs => ⟨rfl, ?_⟩)
    (fun m' hd => hd.elim (·.1 hfaults) (·.1 hfaults)) fun _ _ hall => absurd (hshort.symm.trans hall) (by decide)
  rw [eq_of_suffix hfs hfaults]

theorem step_unacked (h : Sim maxBytes m q) (limit : Int) :
    step m (.unacked limit) = (.ok (q.take limit.toNat), m) := by
  obtain ⟨acked, hholds⟩ := h.holds
  rw [hholds.reading.step_unacked h.faults (all_short h.clean), Heartbeat.map_sanitize (valid_of_clean h.clean)]

theorem step_ack (h : Sim maxBytes m q) (count : Int) : step m (.ack count) = (.ok [], ackedTo count q m) := by
  obtain ⟨acked, hholds⟩ := h.holds
  exact hholds.reading.step_ack h.faults (all_short h.clean) count

theorem step_append (h : Sim maxBytes m q) (e : Heartbeat) :
    step m (.append e) = (.ok [], appended e (rotated q m)) := by
  obtain ⟨acked, hholds⟩ := h.holds
  exact hholds.reading.step_append h.faults (all_short h.clean) e

/-- **One call.** -/
theorem sim_step (m : Machine) (q : List Heartbeat) (c : Call) (h : Sim maxBytes m q)
    (hc : CleanCall c ∧ Roomy m q c) : (step m c).1 = (Queue.step maxBytes q c).1 ∧
      Sim maxBytes (step m c).2 (Queue.step maxBytes q c).2 := by
  obtain ⟨hclean, hroom⟩ := hc
  cases c with
  | unacked limit =>
    rw [step_unacked h]
    exact ⟨rfl, h⟩
  | append e =>
    rw [step_append h]
    exact ⟨rfl, sim_appended (sim_rotated h hroom) hclean⟩
  | ack count =>
    rw [step_ack h, ackedTo]
    refine ⟨rfl, ?_⟩
    show Sim maxBytes _ (q.drop count.toNat)
    have hdrop : ∀ e ∈ q.drop count.toNat, Clean e := fun e he => h.clean e (List.mem_of_mem_drop he)
    by_cases hle : count ≤ 0
    · rw [if_pos hle, Int.toNat_of_nonpos hle]
      exact h
    · rw [if_neg hle]
      by_cases hhalf : halfAcked (advanced m (q.take count.toNat)).buf = true
      · rw [if_pos hhalf, keep_eq (valid_of_clean hdrop) (hroom (by omega) hhalf)]
        exact sim_rewritten h hdrop
      · obtain ⟨acked, hholds⟩ := h.holds
        rw [if_neg hhalf]
        exact ⟨⟨_, hholds.advanced _⟩, h.size, h.maxBytes, h.faults, hdrop⟩

/-- Runs of few calls have room. -/
theorem roomy_of_few : ∀ {calls : List Call} {m : Machine} {q : List Heartbeat},
    q.length + calls.length ≤ allEntries.toNat → Along step (Queue.step maxBytes) Roomy calls m q
  | [], _, _, _ => trivial
  | c :: calls, m, q, h => by
    rw [List.length_cons] at h
    have hroomy : Roomy m q c := by
      cases c with
      | append e => exact fun _ => by omega
      | unacked limit => exact trivial
      | ack count =>
        intro _ _
        rw [List.length_drop]
        omega
    have hlen : (Queue.step maxBytes q c).2.length ≤ q.length + 1 := by
      cases c with
      | append e =>
        simp only [Queue.step]
        split <;> simp
      | unacked limit => exact Nat.le_succ _
      | ack count =>
        simp only [Queue.step, List.length_drop]
        omega
    exact ⟨hroomy, roomy_of_few (by omega)⟩

/-- A heartbeat. -/
def someHeartbeat : Heartbeat where
  id := str "a"
  app := str "a.exe"
  category := str "C"

theorem clean_someHeartbeat : Clean someHeartbeat := ⟨by decide, by decide⟩

end Buf

/-- **The buffer refines the list.** -/
theorem buffer_is_queue (maxBytes : Int) (calls : List Call) (hclean : ∀ c ∈ calls, Buf.CleanCall c)
    (hroom : Along Buf.step (Queue.step maxBytes) Buf.Roomy calls (Buf.opened maxBytes []) []) :
    let results := (runAll Buf.step calls (Buf.opened maxBytes [])).1
    let m := (runAll Buf.step calls (Buf.opened maxBytes [])).2
    let q := (runAll (Queue.step maxBytes) calls []).2
    results = (runAll (Queue.step maxBytes) calls []).1 ∧ m.buf.size = m.file.length ∧
      m.buf.ackedOff ≤ m.file.length ∧
      ∃ acked, m.file = Buf.encode (acked ++ q) ∧ m.buf.ackedOff = (Buf.encode acked).length := by
  intro results m q
  obtain ⟨hresults, hsim⟩ := runAll_simulates Buf.sim_step Buf.sim_opened (hroom.and hclean)
  obtain ⟨acked, hholds⟩ := hsim.holds
  refine ⟨hresults, hsim.size, ?_, acked, hholds.file, hholds.ackedOff⟩
  show m.buf.ackedOff ≤ m.file.length
  rw [hholds.file, hholds.ackedOff, Buf.encode_append, List.length_append]
  omega

/-- Three appends, the third of which overflows, and an ack of one entry. -/
def threeAppends : List Call :=
  [.append Buf.someHeartbeat, .append Buf.someHeartbeat, .append Buf.someHeartbeat, .ack 1, .unacked 5]

theorem buffer_is_queue_three_appends : (runAll Buf.step threeAppends (Buf.opened 100 [])).1 =
    [.ok [], .ok [], .ok [], .ok [], .ok [Buf.someHeartbeat]] := by
  have hclean : ∀ c ∈ threeAppends, Buf.CleanCall c := by
    simp only [threeAppends, List.forall_mem_cons]
    exact ⟨Buf.clean_someHeartbeat, Buf.clean_someHeartbeat, Buf.clean_someHeartbeat, trivial, trivial,
      fun _ h => absurd h List.not_mem_nil⟩
  exact (buffer_is_queue 100 threeAppends hclean (Buf.roomy_of_few (by decide))).1.trans (by decide)

/-! ## Past the limit -/

namespace Buf

variable {maxBytes : Int} {m : Machine} {q : List Heartbeat}

/-- Appends that do not overflow leave the acked offset where it is. -/
theorem appends_replicate {e : Heartbeat} (he : Clean e) : ∀ {n : Nat} {m : Machine} {q : List Heartbeat},
    Sim maxBytes m q → ((encode q).length : Int) + (n * (line e).length : Nat) ≤ maxBytes →
    Sim maxBytes (runAll step (.replicate n (.append e)) m).2 (q ++ .replicate n e) ∧
      (runAll step (.replicate n (.append e)) m).2.buf.ackedOff = m.buf.ackedOff ∧
      (runAll (Queue.step maxBytes) (.replicate n (.append e)) q).2 = q ++ .replicate n e
  | 0, m, q, h, _ => by
    simp only [List.replicate_zero, List.append_nil]
    exact ⟨h, rfl, rfl⟩
  | n + 1, m, q, h, hroom => by
    rw [Nat.succ_mul] at hroom
    have hfits : ((encode q).length : Int) ≤ maxBytes := by omega
    have hqueue : Queue.step maxBytes q (.append e) = (.ok [], q ++ [e]) := by
      simp only [Queue.step, if_neg (Int.not_lt.2 hfits)]
    have hrotated : rotated q m = m := if_neg fun hover => absurd (h.overflows.1 hover) (Int.not_lt.2 hfits)
    have hlen : (encode (q ++ [e])).length = (encode q).length + (line e).length := by simp
    have ih := appends_replicate he (sim_appended h he) (n := n) (by rw [hlen]; omega)
    rw [List.append_assoc, List.singleton_append, ← List.replicate_succ] at ih
    rw [List.replicate_succ]
    simp only [runAll, step_append h, hrotated, hqueue]
    exact ih

theorem length_encode_replicate {n : Nat} {e : Heartbeat} :
    (encode (.replicate n e)).length = n * (line e).length := by
  induction n with
  | zero => simp
  | succ n ih => rw [List.replicate_succ, encode_cons, List.length_append, ih, Nat.succ_mul, Nat.add_comm]

/-- As many heartbeats acked as are left, and more left than a rewrite keeps. -/
def overfull (n : Nat) : List Call :=
  .replicate (n + n) (.append someHeartbeat) ++ [.ack n, .unacked n]

/-- The last call is answered with what a rewrite keeps. -/
theorem overfull_last {n : Nat} (hpos : 0 < n) (hbytes : (n + n) * (line someHeartbeat).length < 0x4000000000000000) :
    (runAll step (overfull n) (opened 0x4000000000000000 [])).1.getLast? =
        some (.ok (.replicate (min allEntries.toNat n) someHeartbeat)) ∧
      (runAll (Queue.step 0x4000000000000000) (overfull n) []).1.getLast? =
        some (.ok (.replicate n someHeartbeat)) := by
  obtain ⟨hsim, hoff, hq⟩ := appends_replicate clean_someHeartbeat (n := n + n)
    (sim_opened : Sim 0x4000000000000000 _ _) (by simp only [encode_nil, List.length_nil]; omega)
  rw [List.nil_append] at hsim hq
  simp only [overfull, runAll_append, hq]
  generalize (runAll step _ _).2 = m at hsim hoff
  -- acking half of the entries rewrites the file
  have htake : (List.replicate (n + n) someHeartbeat).take n = .replicate n someHeartbeat := by simp
  have hdrop : (List.replicate (n + n) someHeartbeat).drop n = .replicate n someHeartbeat := by simp
  have hclean {k : Nat} : ∀ e ∈ List.replicate k someHeartbeat, Clean e := fun e he =>
    List.eq_of_mem_replicate he ▸ clean_someHeartbeat
  have hkeep : keep (.replicate n someHeartbeat) = .replicate (min allEntries.toNat n) someHeartbeat := by
    rw [keep, Heartbeat.map_sanitize (valid_of_clean hclean), List.take_replicate]
  have hhalf : halfAcked (advanced m (.replicate n someHeartbeat)).buf = true := by
    obtain ⟨acked, hholds⟩ := hsim.holds
    have hsize : m.buf.size = (n + n) * (line someHeartbeat).length := by
      rw [hsim.size, hholds.file, encode_append, List.length_append, ← hholds.ackedOff, hoff, length_encode_replicate]
      exact Nat.zero_add _
    have hoff' : (advanced m (.replicate n someHeartbeat)).buf.ackedOff = n * (line someHeartbeat).length := by
      rw [advanced, hoff, length_encode_replicate]
      exact Nat.zero_add _
    have hsize' : (advanced m (.replicate n someHeartbeat)).buf.size = m.buf.size := rfl
    rw [Nat.add_mul] at hbytes hsize
    rw [halfAcked, hoff', hsize', hsize, Int64.toInt_ofNat_of_lt (by omega), decide_eq_true_eq]
    omega
  have hacked : ackedTo n (.replicate (n + n) someHeartbeat) m =
      rewritten m (.replicate (min allEntries.toNat n) someHeartbeat) := by
    rw [ackedTo, if_neg (by omega), Int.toNat_natCast, htake, hdrop, if_pos hhalf, hkeep]
  have hrewritten := sim_rewritten hsim (@hclean (min allEntries.toNat n))
  simp only [runAll, step_ack hsim, hacked, step_unacked hrewritten, Queue.step, Int.toNat_natCast, hdrop]
  simp

/-- **Past the limit the buffer forgets an entry**: one is unacked that the
list still has. -/
theorem overfull_compaction : (∀ c ∈ overfull 0x40000001, CleanCall c) ∧
    (runAll step (overfull 0x40000001) (opened 0x4000000000000000 [])).1 ≠
      (runAll (Queue.step 0x4000000000000000) (overfull 0x40000001) []).1 := by
  refine ⟨fun c hc => ?_, fun heq => ?_⟩
  · rw [overfull, List.mem_append] at hc
    obtain hc | hc := hc
    · rw [List.eq_of_mem_replicate hc]
      exact clean_someHeartbeat
    · simp only [List.mem_cons, List.not_mem_nil, or_false] at hc
      obtain rfl | rfl := hc <;> exact trivial
  · have hlen : (line someHeartbeat).length < 100 := by decide
    obtain ⟨h, h'⟩ := overfull_last (n := 0x40000001) (by omega) (by omega)
    rw [heq, h'] at h
    have hentries := Except.ok.inj (Option.some.inj h)
    have hlength := congrArg List.length hentries
    have hlimit : allEntries.toNat = 0x40000000 := rfl
    rw [List.length_replicate, List.length_replicate, hlimit] at hlength
    omega

end Buf

end ScrewLogger
