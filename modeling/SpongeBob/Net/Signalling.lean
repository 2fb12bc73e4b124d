import SpongeBob.Foundation.Run
import SpongeBob.Net.Batch
import Mathlib.Algebra.GroupWithZero.Nat

/-!
# Selective signalling

Requests complete in the order in which they were posted, and each signalled one
leaves a completion.  A client takes one completion for every 32 requests, so it knows
of the end of a request only when a later signalled one has been taken.
-/

namespace SpongeBob
namespace Net
namespace Batch

open Foundation

/-!
# Calls to one peer
-/

inductive Call where
  | batchSend (sourceBuffer bufferSize : UInt64) (batchSize : BatchSize)
  | batchRead (sourceBuffer desBuffer bufferSize : UInt64) (batchSize : BatchSize)
  | batchWrite (sourceBuffer desBuffer bufferSize : UInt64) (imm : UInt32)
      (batchSize : BatchSize)

def Call.batchSize : Call -> BatchSize
  | batchSend _ _ n => n
  | batchRead _ _ _ n => n
  | batchWrite _ _ _ _ n => n

def Call.verbs (s : Socket) (peer : PeerSockData) : Call -> List Verb × PeerSockData
  | batchSend sourceBuffer bufferSize n => rdmaBatchSend s peer sourceBuffer bufferSize n
  | batchRead sourceBuffer desBuffer bufferSize n =>
      rdmaBatchRead s peer sourceBuffer desBuffer bufferSize n
  | batchWrite sourceBuffer desBuffer bufferSize imm n =>
      rdmaBatchWrite s peer sourceBuffer desBuffer bufferSize imm n

/-- The connection: which of the posted requests are signalled, and the completions taken. -/
structure Connection where
  peer : PeerSockData
  posted : List Bool
  taken : Nat
deriving DecidableEq

/-- A poll waits for a completion that is never there. -/
inductive Stuck where
  | stuck

/--
A poll returns if a signalled request has been posted whose completion was not taken.
Nothing else is posted while it waits.
-/
def Connection.exec (c : Connection) : Verb -> Except Stuck Connection
  | Verb.pollCompletion =>
      if c.taken < c.posted.count true then Except.ok { c with taken := c.taken + 1 }
      else Except.error Stuck.stuck
  | Verb.postSend _ requests =>
      Except.ok { c with posted := c.posted ++ requests.map WorkRequest.signaled }

def Connection.execAll (c : Connection) : List Verb -> Except Stuck Connection
  | [] => Except.ok c
  | verb :: rest => do
      let c ← c.exec verb
      c.execAll rest

def Connection.call (s : Socket) (c : Connection) (call : Call) :
    Except Stuck (Unit × Connection) := do
  let (verbs, peer) := call.verbs s c.peer
  let c ← c.execAll verbs
  pure ((), { c with peer := peer })

/-- The number of requests up to the {lit}`k`-th signalled one. -/
def upToSignal : Nat -> List Bool -> Nat
  | 0, _ => 0
  | _ + 1, [] => 0
  | k + 1, true :: rest => upToSignal k rest + 1
  | k + 1, false :: rest => upToSignal (k + 1) rest + 1

/-- The posted requests that are not known to be complete. -/
def Connection.outstanding (c : Connection) : Nat :=
  c.posted.length - upToSignal c.taken c.posted

/-!
# The pattern of signals
-/

/-- The flags of {lit}`n` requests from the {lit}`i`-th on. -/
def pattern (i n : Nat) : List Bool :=
  (List.range' i n).map (fun j => decide (j % 32 = 0))

theorem pattern_succ (i n : Nat) :
    pattern i (n + 1) = decide (i % 32 = 0) :: pattern (i + 1) n := by
  unfold pattern
  rw [List.range'_succ, List.map_cons]

theorem pattern_append (n m : Nat) : pattern 0 n ++ pattern n m = pattern 0 (n + m) := by
  unfold pattern
  rw [← List.map_append, ← List.range'_append_1, Nat.zero_add]

theorem length_pattern (i n : Nat) : (pattern i n).length = n := by
  unfold pattern
  rw [List.length_map, List.length_range']

/-- The number of signalled requests among {lit}`n` from the {lit}`i`-th on. -/
theorem count_pattern (i n : Nat) :
    (pattern i n).count true + (i + 31) / 32 = (i + n + 31) / 32 := by
  induction n generalizing i with
  | zero =>
      show 0 + (i + 31) / 32 = (i + 31) / 32
      rw [Nat.zero_add]
  | succ n ih =>
      have hrest := ih (i + 1)
      rw [pattern_succ, List.count_cons]
      by_cases hi : i % 32 = 0
      · rw [decide_eq_true hi, if_pos (by rfl)]
        omega
      · rw [decide_eq_false hi, if_neg (by decide)]
        omega

/-- The {lit}`k + 1`-st signalled request comes 32 places after the one before it. -/
theorem upToSignal_pattern (i n k : Nat) (hlast : (i + 31) / 32 * 32 + 32 * k < i + n) :
    upToSignal (k + 1) (pattern i n) + i = (i + 31) / 32 * 32 + 32 * k + 1 := by
  induction n generalizing i k with
  | zero => omega
  | succ n ih =>
      rw [pattern_succ]
      by_cases hi : i % 32 = 0
      · rw [decide_eq_true hi, upToSignal]
        cases k with
        | zero =>
            rw [upToSignal]
            omega
        | succ k =>
            have hrest := ih (i + 1) k (by omega)
            omega
      · rw [decide_eq_false hi, upToSignal]
        have hrest := ih (i + 1) k (by omega)
        omega

theorem signals_ofNat (i : Nat) : signals (UInt64.ofNat i) = decide (i % 32 = 0) := by
  have hand : (UInt64.ofNat i &&& signalBatch).toNat = i % 32 := by
    have hmask : signalBatch.toNat = 2 ^ 5 - 1 := rfl
    rw [UInt64.toNat_and, hmask, Nat.and_two_pow_sub_one_eq_mod, UInt64.toNat_ofNat']
    omega
  unfold signals
  rw [decide_eq_decide, ← UInt64.toNat_inj, hand]
  rfl

theorem polls_ofNat {s : Socket} (hclient : s.isServer = false) (i : Nat) :
    polls s (UInt64.ofNat i) = decide (i % 32 = 0 ∧ i % 2 ^ 64 ≠ 0) := by
  have hpos : decide (0 < UInt64.ofNat i) = decide (i % 2 ^ 64 ≠ 0) := by
    rw [decide_eq_decide, UInt64.lt_iff_toNat_lt, UInt64.toNat_ofNat', UInt64.toNat_zero]
    omega
  unfold polls
  rw [signals_ofNat, hpos, hclient, Bool.not_false, Bool.and_true, Bool.decide_and]

/-!
# One call
-/

/-- The number of completions taken before the {lit}`n`-th request is assembled. -/
def pollsBefore (n : Nat) : Nat :=
  (n + 31) / 32 - (n + (2 ^ 64 - 1)) / 2 ^ 64

/-- A connection after {lit}`n` requests. -/
structure Signalled (c : Connection) (n : Nat) : Prop where
  counter : c.peer.counter = UInt64.ofNat n
  posted : c.posted = pattern 0 n
  taken : c.taken = pollsBefore n

theorem execAll_append (c : Connection) (xs ys : List Verb) :
    c.execAll (xs ++ ys) = c.execAll xs >>= fun c => c.execAll ys := by
  induction xs generalizing c with
  | nil => rfl
  | cons x xs ih =>
      rw [List.cons_append, Connection.execAll, Connection.execAll]
      cases c.exec x with
      | error e => rfl
      | ok c' => exact ih c'

variable {s : Socket}

/--
While a batch is assembled the polls return: the completion of the signalled request
32 places before the present one is there, since the batch is shorter than that.
-/
theorem execAll_assemble (hclient : s.isServer = false) (request : Nat -> Bool -> WorkRequest)
    {c : Connection} {b : Nat} (hposted : c.posted = pattern 0 b) {i n : Nat} (hbegin : b ≤ i)
    (hend : i + n ≤ b + maxPostList) (htaken : c.taken = pollsBefore i) (w : Nat) :
    c.execAll (assemble s request n w (UInt64.ofNat i)).1 =
      Except.ok { c with taken := pollsBefore (i + n) } := by
  unfold maxPostList at hend
  induction n generalizing c i w with
  | zero =>
      rw [Nat.add_zero, ← htaken]
      rfl
  | succ n ih =>
      have hnext : UInt64.ofNat i + 1 = UInt64.ofNat (i + 1) := (UInt64.ofNat_add i 1).symm
      rw [assemble, hnext]
      dsimp only
      rw [polls_ofNat hclient]
      by_cases hpoll : i % 32 = 0 ∧ i % 2 ^ 64 ≠ 0
      · have hcount := count_pattern 0 b
        have hlt : c.taken < c.posted.count true := by
          rw [hposted, htaken]
          unfold pollsBefore
          omega
        have hmore : c.taken + 1 = pollsBefore (i + 1) := by
          rw [htaken]
          unfold pollsBefore
          omega
        have hrest := ih (c := { c with taken := c.taken + 1 }) hposted
          (show b ≤ i + 1 by omega) (by omega) hmore (w + 1)
        rw [decide_eq_true hpoll, if_pos rfl, Connection.execAll, Connection.exec, if_pos hlt,
          ok_bind, hrest, Nat.add_assoc, Nat.add_comm 1 n]
      · have hsame : c.taken = pollsBefore (i + 1) := by
          rw [htaken]
          unfold pollsBefore
          omega
        have hrest := ih hposted (show b ≤ i + 1 by omega) (by omega) hsame (w + 1)
        rw [decide_eq_false hpoll, if_neg Bool.false_ne_true, hrest, Nat.add_assoc,
          Nat.add_comm 1 n]

/-- The flags of an assembled batch follow the pattern. -/
theorem signaled_assemble {request : Nat -> Bool -> WorkRequest}
    (hrequest : forall i signaled, (request i signaled).signaled = signaled) (i n w : Nat) :
    (assemble s request n w (UInt64.ofNat i)).2.map WorkRequest.signaled = pattern i n := by
  induction n generalizing i w with
  | zero => rfl
  | succ n ih =>
      have hnext : UInt64.ofNat i + 1 = UInt64.ofNat (i + 1) := (UInt64.ofNat_add i 1).symm
      rw [assemble, hnext]
      dsimp only
      rw [List.map_cons, hrequest, signals_ofNat, ih, pattern_succ]

/-- Every call is a batch of requests with the flags that the loop gives them. -/
theorem Call.verbs_eq (s : Socket) (peer : PeerSockData) (call : Call) :
    exists request, (forall i signaled, (request i signaled).signaled = signaled) ∧
      call.verbs s peer = rdmaBatch s peer request call.batchSize := by
  cases call with
  | batchSend sourceBuffer bufferSize n => exact ⟨_, fun _ _ => rfl, rfl⟩
  | batchRead sourceBuffer desBuffer bufferSize n => exact ⟨_, fun _ _ => rfl, rfl⟩
  | batchWrite sourceBuffer desBuffer bufferSize imm n => exact ⟨_, fun _ _ => rfl, rfl⟩

theorem Signalled.call {c : Connection} {b : Nat} (h : Signalled c b)
    (hclient : s.isServer = false) (call : Call) :
    exists c', Connection.call s c call = Except.ok ((), c') ∧
      Signalled c' (b + call.batchSize.val) := by
  rcases call.verbs_eq s c.peer with ⟨request, hrequest, hverbs⟩
  have hsize := call.batchSize.le
  have hassemble := execAll_assemble hclient request h.posted (Nat.le_refl b)
    (Nat.add_le_add_left hsize b) h.taken 0
  have hflags := signaled_assemble (s := s) hrequest b call.batchSize.val 0
  exists { peer := { c.peer with
             counter := c.peer.counter + UInt64.ofNat call.batchSize.val }
           posted := c.posted ++ pattern b call.batchSize.val
           taken := pollsBefore (b + call.batchSize.val) }
  constructor
  · unfold Connection.call
    rw [hverbs]
    unfold rdmaBatch
    dsimp only
    rw [execAll_append, h.counter, hassemble, ok_bind, Connection.execAll, Connection.exec,
      hflags]
    rfl
  · constructor
    · show c.peer.counter + UInt64.ofNat call.batchSize.val = _
      rw [h.counter, UInt64.ofNat_add]
    · show c.posted ++ pattern b call.batchSize.val = _
      rw [h.posted, pattern_append]
    · rfl

/-- The number of requests that calls post. -/
def total (calls : List Call) : Nat :=
  (calls.map (fun call => call.batchSize.val)).sum

theorem total_append (xs ys : List Call) : total (xs ++ ys) = total xs + total ys := by
  unfold total
  rw [List.map_append, List.sum_append]

theorem total_replicate (n : Nat) (call : Call) :
    total (List.replicate n call) = n * call.batchSize.val := by
  induction n with
  | zero =>
      rw [Nat.zero_mul]
      rfl
  | succ n ih =>
      show call.batchSize.val + total (List.replicate n call) = _
      rw [ih, Nat.succ_mul, Nat.add_comm]

theorem Signalled.run {c : Connection} {b : Nat} (h : Signalled c b)
    (hclient : s.isServer = false) (calls : List Call) :
    exists outs c', runFrom (Connection.call s) c calls = Except.ok (outs, c') ∧
      Signalled c' (b + total calls) := by
  induction calls generalizing c b with
  | nil => exact ⟨[], c, rfl, h⟩
  | cons call rest ih =>
      rcases h.call hclient call with ⟨c1, hcall, h1⟩
      rcases ih h1 with ⟨outs, c2, hrun, h2⟩
      refine ⟨() :: outs, c2, runFrom_cons.mpr ⟨(), c1, outs, hcall, hrun, rfl⟩, ?_⟩
      rw [Nat.add_assoc] at h2
      exact h2

/-!
# Every sequence of calls
-/

/-- What is outstanding after {lit}`n` requests, of which the counter saw 2^64 at most once. -/
theorem Signalled.outstanding_le_iff {c : Connection} {n : Nat} (h : Signalled c n) :
    c.outstanding ≤ 63 <-> n ≤ 2 ^ 64 := by
  have htaken : pollsBefore n = (n + 31) / 32 - (n + (2 ^ 64 - 1)) / 2 ^ 64 := rfl
  unfold Connection.outstanding
  rw [h.posted, h.taken, length_pattern]
  generalize pollsBefore n = taken at htaken
  cases taken with
  | zero =>
      rw [upToSignal]
      omega
  | succ k =>
      have hlast := upToSignal_pattern 0 n k (by omega)
      omega

/-- The connection when nothing has been posted. -/
def Connection.fresh (registeredMemory : UInt64) (rkey : UInt32) : Connection where
  peer := { counter := 0, registeredMemory := registeredMemory, rkey := rkey }
  posted := []
  taken := 0

theorem signalled_fresh (registeredMemory : UInt64) (rkey : UInt32) :
    Signalled (Connection.fresh registeredMemory rkey) 0 where
  counter := rfl
  posted := rfl
  taken := rfl

/--
On a client no poll of a batch waits for ever, whatever the calls.  After each call at
most 63 requests, fewer than a queue pair holds, are not known to be complete, exactly
as long as no more than 2^64 have been posted.
-/
theorem outstanding_le_iff_total {s : Socket} (hclient : s.isServer = false)
    (registeredMemory : UInt64) (rkey : UInt32) (calls : List Call) :
    exists outs c,
      runFrom (Connection.call s) (Connection.fresh registeredMemory rkey) calls =
        Except.ok (outs, c) ∧
      (c.outstanding ≤ 63 <-> total calls ≤ 2 ^ 64) ∧ 63 < qpsMaxDepth := by
  rcases (signalled_fresh registeredMemory rkey).run hclient calls with
    ⟨outs, c, hrun, hsignalled⟩
  rw [Nat.zero_add] at hsignalled
  exact ⟨outs, c, hrun, hsignalled.outstanding_le_iff, by decide⟩

/-- Three calls that post 68 requests. -/
def threeCalls : List Call :=
  [Call.batchWrite 0 0 8 0 ⟨20, by decide, by decide⟩,
   Call.batchRead 0 0 8 ⟨24, by decide, by decide⟩,
   Call.batchSend 0 8 ⟨24, by decide, by decide⟩]

theorem outstanding_le_three :
    exists outs c,
      runFrom (Connection.call ⟨false, 4, 0⟩) (Connection.fresh 0 0) threeCalls =
        Except.ok (outs, c) ∧ c.outstanding ≤ 63 := by
  rcases outstanding_le_iff_total (s := ⟨false, 4, 0⟩) rfl 0 0 threeCalls with
    ⟨outs, c, hrun, hiff, _⟩
  exact ⟨outs, c, hrun, hiff.mpr (by decide)⟩

def sendOf (batchSize : BatchSize) : Call :=
  Call.batchSend 0 8 batchSize

/--
The counter returns to zero after 2^64 requests, and the poll before the next one is
left out: 64 requests are outstanding.
-/
theorem outstanding_after_wrap :
    exists outs c,
      runFrom (Connection.call ⟨false, 4, 0⟩) (Connection.fresh 0 0)
        (List.replicate (2 ^ 60) (sendOf ⟨16, by decide, by decide⟩) ++
          [sendOf ⟨1, by decide, by decide⟩]) = Except.ok (outs, c) ∧
      63 < c.outstanding := by
  rcases (signalled_fresh 0 0).run (s := ⟨false, 4, 0⟩) rfl
    (List.replicate (2 ^ 60) (sendOf ⟨16, by decide, by decide⟩) ++
      [sendOf ⟨1, by decide, by decide⟩]) with ⟨outs, c, hrun, hsignalled⟩
  refine ⟨outs, c, hrun, ?_⟩
  have htotal : total (List.replicate (2 ^ 60) (sendOf ⟨16, by decide, by decide⟩) ++
      [sendOf ⟨1, by decide, by decide⟩]) = 2 ^ 60 * 16 + 1 := by
    rw [total_append, total_replicate]
    rfl
  rw [htotal] at hsignalled
  rw [← Nat.not_le, hsignalled.outstanding_le_iff]
  omega

end Batch
end Net
end SpongeBob
