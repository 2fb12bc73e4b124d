import SpongeBob.Client.Client
import SpongeBob.Net.Transfer

/-!
# Errors of transfers

The card may refuse an operation, and its completion may carry an error.  What the
transfers return does not depend on either, and neither does what the client returns.
-/

namespace SpongeBob
namespace Client
namespace TransferErrors

open Foundation
open Metadata
open Net
open Net.Completion
open Net.Transfer
open Net.Shares

/-!
# The client

The transfers of the extents that the metadata server has replied with.
-/

/-- Transfer the extents until a transfer reports an error. -/
def transferBlocks (transfer : Extent -> Machine -> Option (Bool × Machine)) :
    List Extent -> Machine -> Option (Bool × Machine)
  | [], m => some (true, m)
  | block :: rest, m =>
      (transfer block m).bind (fun (ret, m) =>
        if ret then transferBlocks transfer rest m else some (false, m))

/-- The result is the number of bytes of the reply, or -1 after an error. -/
def transferReply (transfer : Extent -> Machine -> Option (Bool × Machine)) (reply : Reply)
    (m : Machine) : Option (Int × Machine) :=
  let (blocks, bytes) := blockInfoList reply
  (transferBlocks transfer blocks m).map (fun (ret, m) =>
    (if ret then Word.toInt bytes else -1, m))

def read (s : Socket) (device : Device) (userBuf : UInt64) (reply : Reply) (m : Machine) :
    Option (Int × Machine) :=
  transferReply (fun block =>
    Transfer.remoteRead s device userBuf block.serverid.toUInt16 block.memOffset block.length)
    reply m

def write (s : Socket) (device : Device) (userBuf : UInt64) (reply : Reply) (m : Machine) :
    Option (Int × Machine) :=
  transferReply (fun block =>
    Transfer.remoteWrite s device userBuf block.serverid.toUInt16 block.memOffset block.length)
    reply m

/-!
# What is expected
-/

/-- The operation is accepted, and {lit}`PollCompletion` reports success. -/
def Fine (outcome : Transfer.Outcome) : Prop :=
  outcome.posted = true ∧ exists value, outcome.reported = some value ∧ 0 ≤ value

/-- All operations that a call has added are fine. -/
def AllFine (device : Device) (m m' : Machine) : Prop :=
  forall q k, (m.requests q).length ≤ k -> k < (m'.requests q).length -> Fine (device q k)

/-- A transfer returns true only if all its operations are fine. -/
def TellsErrors (device : Device) (m : Machine) (result : Option (Bool × Machine)) : Prop :=
  forall m', result = some (true, m') -> AllFine device m m'

/-- The client returns a byte count only if all operations are fine. -/
def CountTellsErrors (device : Device) (m : Machine) (result : Option (Int × Machine)) :
    Prop :=
  forall value m', result = some (value, m') -> 0 ≤ value -> AllFine device m m'

/-- A number for each queue pair. -/
abbrev Count := QueuePair -> Nat

/-- One queue pair is used, and a number of times. -/
def single (q : QueuePair) (n : Nat) : Count :=
  fun q' => if q' = q then n else 0

/-- The pieces of a number of bytes. -/
def pieces (bytes : Nat) : Nat :=
  (bytes + (1024 * 1024 - 1)) / (1024 * 1024)

/-- The operations for some tasks. -/
def taskCount (nodeID : UInt16) : List (Nat × TransferTask) -> Count
  | [] => 0
  | (id, task) :: rest =>
      single (nodeID, id + 1) (pieces task.size.toNat) + taskCount nodeID rest

def readCount (bufferSend : UInt64) (nodeID : UInt16) (bufferReceive size : UInt64) : Count :=
  taskCount nodeID (remoteReadTasks bufferSend bufferReceive size)

def writeCount (bufferSend : UInt64) (nodeID : UInt16) (bufferReceive size : UInt64) : Count :=
  taskCount nodeID (remoteWriteTasks bufferSend bufferReceive size)

/-- The operations for some extents. -/
def blockCount (count : Extent -> Count) : List Extent -> Count
  | [] => 0
  | block :: rest => count block + blockCount count rest

/-- One of the next operations never gets an entry. -/
def Blocked (device : Device) (count : Count) (m : Machine) : Prop :=
  exists q k, (m.requests q).length ≤ k ∧ k < (m.requests q).length + count q ∧
    (device q k).reported = none

/-- All of the next operations are fine, or one of them never gets an entry. -/
def Harmless (device : Device) (count : Count) (m : Machine) : Prop :=
  (forall q k, (m.requests q).length ≤ k -> k < (m.requests q).length + count q ->
    Fine (device q k)) ∨ Blocked device count m

/-!
# Counting operations
-/

section Counting

variable {s : Socket} {device : Device} {taskID : Nat} {nodeID : UInt16} {l : Loop}
  {count count' : Count} {f g : Machine -> Option Machine} {m m' : Machine} {q : QueuePair}

/-- The call waits for ever for an operation without entry; else it does all of them. -/
structure Uses (device : Device) (count : Count) (f : Machine -> Option Machine) : Prop where
  waits : forall m, Blocked device count m -> f m = none
  returns : forall m, ¬ Blocked device count m ->
    exists m', f m = some m' ∧
      forall q, (m'.requests q).length = (m.requests q).length + count q

theorem uses_some : Uses device 0 some := by
  constructor
  · rintro m ⟨q, k, hlow, hhigh, _⟩
    exact absurd hhigh (Nat.not_lt_of_le hlow)
  · intro m _
    exact ⟨m, rfl, fun _ => rfl⟩

theorem Blocked.left (h : Blocked device count m) : Blocked device (count + count') m := by
  rcases h with ⟨q, k, hlow, hhigh, hnone⟩
  exact ⟨q, k, hlow, Nat.lt_of_lt_of_le hhigh (Nat.add_le_add_left (Nat.le_add_right _ _) _), hnone⟩

/-- What is not blocked now may be later. -/
theorem blocked_add_iff
    (hadds : forall q, (m'.requests q).length = (m.requests q).length + count q) :
    Blocked device (count + count') m <-> Blocked device count m ∨ Blocked device count' m' := by
  constructor
  · rintro ⟨q, k, hlow, hhigh, hnone⟩
    have hsum : k < (m.requests q).length + (count q + count' q) := hhigh
    have hq := hadds q
    cases Nat.lt_or_ge k ((m.requests q).length + count q) with
    | inl hfirst => exact Or.inl ⟨q, k, hlow, hfirst, hnone⟩
    | inr hsecond => exact Or.inr ⟨q, k, by omega, by omega, hnone⟩
  · rintro (hfirst | ⟨q, k, hlow, hhigh, hnone⟩)
    · exact hfirst.left
    · have hq := hadds q
      refine ⟨q, k, by omega, ?_, hnone⟩
      show k < (m.requests q).length + (count q + count' q)
      omega

theorem Uses.bind (h : Uses device count f) (h' : Uses device count' g) :
    Uses device (count + count') (fun m => (f m).bind g) := by
  constructor
  · intro m hblocked
    by_cases hfirst : Blocked device count m
    · show (f m).bind g = none
      rw [h.waits m hfirst]
      rfl
    · rcases h.returns m hfirst with ⟨m1, hf, hadds⟩
      show (f m).bind g = none
      rw [hf]
      exact h'.waits m1 (((blocked_add_iff hadds).mp hblocked).resolve_left hfirst)
  · intro m hfree
    rcases h.returns m (fun hfirst => hfree hfirst.left) with ⟨m1, hf, hadds⟩
    rcases h'.returns m1 (fun hsecond => hfree ((blocked_add_iff hadds).mpr (Or.inr hsecond)))
      with ⟨m2, hg, hadds'⟩
    exists m2
    constructor
    · show (f m).bind g = some m2
      rw [hf]
      exact hg
    · intro q
      rw [hadds' q, hadds q, Nat.add_assoc]
      rfl

theorem single_add (n k : Nat) : single q n + single q k = single q (n + k) := by
  funext q'
  show single q n q' + single q k q' = single q (n + k) q'
  unfold single
  split
  · rfl
  · rfl

theorem single_zero : single q 0 = 0 := by
  funext q'
  exact ite_self 0

theorem requests_carryOut (r : WorkRequest) :
    (m.carryOut nodeID r).requests = m.requests := by
  unfold Machine.carryOut
  cases r.opcode with
  | rdmaRead => rfl
  | rdmaWrite => rfl

/-- An operation that is refused counts as well. -/
theorem requests_postSend (r : WorkRequest) :
    (m.postSend device q r).2.requests =
      Function.update m.requests q (m.requests q ++ [r]) := by
  simp only [Machine.postSend]
  split
  · simp only [Machine.record, requests_carryOut]
  · rfl

theorem pollCompletion_postSend (r : WorkRequest) :
    pollCompletion device q (m.postSend device q r).2 =
      (device q (m.requests q).length).reported := by
  unfold pollCompletion
  rw [requests_postSend, Function.update_self, List.length_append]
  rfl

theorem blocked_single_iff :
    Blocked device (single q 1) m <-> (device q (m.requests q).length).reported = none := by
  constructor
  · rintro ⟨q', k, hlow, hhigh, hnone⟩
    unfold single at hhigh
    split at hhigh
    · rename_i heq
      have hk : k = (m.requests q).length := by
        rw [heq] at hlow hhigh
        omega
      rw [← hk, ← heq]
      exact hnone
    · omega
  · intro hnone
    exists q, (m.requests q).length
    constructor
    · exact Nat.le_refl _
    constructor
    · show _ < _ + single q 1 q
      rw [single, if_pos rfl]
      exact Nat.lt_succ_self _
    · exact hnone

/-- One operation and the polling for it, with work before and after. -/
theorem uses_operation (r : WorkRequest) (before after : Machine -> Machine)
    (hbefore : forall m, (before m).requests = m.requests)
    (hafter : forall m, (after m).requests = m.requests)
    (hf : forall m, f m = (pollCompletion device q ((before m).postSend device q r).2).map
      (fun _ => after ((before m).postSend device q r).2)) :
    Uses device (single q 1) f := by
  constructor
  · intro m hblocked
    rw [hf, pollCompletion_postSend, hbefore, blocked_single_iff.mp hblocked]
    rfl
  · intro m hfree
    cases hreported : (device q (m.requests q).length).reported with
    | none => exact absurd (blocked_single_iff.mpr hreported) hfree
    | some value =>
        exists after ((before m).postSend device q r).2
        constructor
        · rw [hf, pollCompletion_postSend, hbefore, hreported]
          rfl
        · intro q'
          rw [hafter, requests_postSend, hbefore]
          by_cases heq : q' = q
          · rw [heq, Function.update_self, List.length_append, single, if_pos rfl]
            rfl
          · rw [Function.update_of_ne heq, single, if_neg heq]
            rfl

theorem uses_inboundPiece :
    Uses device (single (nodeID, taskID + 1) 1) (inboundPiece s device taskID nodeID l) := by
  apply uses_operation (pieceRequest s taskID nodeID l Opcode.rdmaRead) id
    (Machine.memcpy (l.task.bufferSend + l.totalSizeSend) (sendPoolAddr s.mm taskID) l.sendSize)
  · intro m
    rfl
  · intro m
    rfl
  · intro m
    rfl

theorem uses_outboundPiece :
    Uses device (single (nodeID, taskID + 1) 1) (outboundPiece s device taskID nodeID l) := by
  apply uses_operation (pieceRequest s taskID nodeID l Opcode.rdmaWrite)
    (Machine.memcpy (sendPoolAddr s.mm taskID) (l.task.bufferSend + l.totalSizeSend)
      l.sendSize) id
  · intro m
    rfl
  · intro m
    rfl
  · intro m
    rw [Option.map_eq_bind]
    rfl

/-- A loop does an operation for each piece. -/
theorem uses_hamal {piece : Loop -> Machine -> Option Machine}
    (hpiece : forall l, Uses device (single q 1) (piece l)) (l : Loop) :
    Uses device (single q (pieces (left l))) (hamal piece l) := by
  induction l using loop_induction with
  | finished l h =>
      have heq : hamal piece l = some := by
        funext m
        exact hamal_of_finished h
      have hzero : pieces (left l) = 0 := by
        rw [left_of_finished h]
        rfl
      rw [heq, hzero, single_zero]
      exact uses_some
  | unfinished l h ih =>
      have heq : hamal piece l = fun m => (piece l m).bind (hamal piece l.next) := by
        funext m
        rw [hamal, dif_pos h]
      have hmore : pieces (left l) = 1 + pieces (left l.next) := by
        have hsend := toNat_sendSize h
        have hlt := left_next_lt h
        rw [left_next h] at hlt ⊢
        unfold pieces
        omega
      rw [heq, hmore, ← single_add]
      exact (hpiece l).bind ih

/-- The call waits, or does its operations and returns true. -/
def Always (device : Device) (count : Count) (transfer : Machine -> Option (Bool × Machine)) :
    Prop :=
  exists f, Uses device count f ∧ forall m, transfer m = (f m).map (fun m => (true, m))

theorem always_worker (task : TransferTask) :
    Always device (single (nodeID, taskID + 1) (pieces task.size.toNat))
      (dataTransferWorker s device nodeID taskID task) := by
  unfold dataTransferWorker
  split
  · exact ⟨_, uses_hamal (fun _ => uses_outboundPiece) ⟨task, 0⟩, fun _ => rfl⟩
  · exact ⟨_, uses_hamal (fun _ => uses_inboundPiece) ⟨task, 0⟩, fun _ => rfl⟩

theorem uses_runTasks (jobs : List (Nat × TransferTask)) :
    Uses device (taskCount nodeID jobs) (runTasks s device nodeID jobs) := by
  induction jobs with
  | nil => exact uses_some
  | cons job rest ih =>
      have halways : Always device (single (nodeID, job.1 + 1) (pieces job.2.size.toNat))
          (dataTransferWorker s device nodeID job.1 job.2) := always_worker job.2
      rcases halways with ⟨f, hf, hworker⟩
      have heq : runTasks s device nodeID (job :: rest) =
          fun m => (f m).bind (runTasks s device nodeID rest) := by
        funext m
        rw [runTasks, hworker]
        cases f m with
        | none => rfl
        | some m' => rfl
      rw [heq]
      exact hf.bind ih

theorem always_remoteRead (bufferSend : UInt64) (nodeID : UInt16) (bufferReceive size : UInt64) :
    Always device (readCount bufferSend nodeID bufferReceive size)
      (Transfer.remoteRead s device bufferSend nodeID bufferReceive size) :=
  ⟨_, uses_runTasks _, fun _ => rfl⟩

theorem always_remoteWrite (bufferSend : UInt64) (nodeID : UInt16)
    (bufferReceive size : UInt64) :
    Always device (writeCount bufferSend nodeID bufferReceive size)
      (Transfer.remoteWrite s device bufferSend nodeID bufferReceive size) :=
  ⟨_, uses_runTasks _, fun _ => rfl⟩

/-- The client never sees a transfer fail. -/
theorem always_transferBlocks {transfer : Extent -> Machine -> Option (Bool × Machine)}
    {count : Extent -> Count} (h : forall block, Always device (count block) (transfer block))
    (blocks : List Extent) :
    Always device (blockCount count blocks) (transferBlocks transfer blocks) := by
  induction blocks with
  | nil => exact ⟨some, uses_some, fun _ => rfl⟩
  | cons block rest ih =>
      rcases h block with ⟨f, hf, hblock⟩
      rcases ih with ⟨g, hg, hrest⟩
      refine ⟨_, hf.bind hg, ?_⟩
      intro m
      rw [transferBlocks, hblock]
      cases f m with
      | none => rfl
      | some m' => exact hrest m'

/-!
# What the callers are told
-/

/-- A call that does not wait has done the operations that were to come. -/
theorem allFine_iff (hadds : forall q, (m'.requests q).length = (m.requests q).length + count q) :
    AllFine device m m' <->
      forall q k, (m.requests q).length ≤ k -> k < (m.requests q).length + count q ->
        Fine (device q k) := by
  constructor
  · intro h q k hlow hhigh
    exact h q k hlow (by rw [hadds]; exact hhigh)
  · intro h q k hlow hhigh
    exact h q k hlow (by rw [← hadds]; exact hhigh)

theorem tellsErrors_iff {transfer : Machine -> Option (Bool × Machine)}
    (h : Always device count transfer) :
    TellsErrors device m (transfer m) <-> Harmless device count m := by
  rcases h with ⟨f, hf, htransfer⟩
  by_cases hblocked : Blocked device count m
  · rw [htransfer, hf.waits m hblocked]
    apply iff_of_true
    · intro m' heq
      cases heq
    · exact Or.inr hblocked
  · rcases hf.returns m hblocked with ⟨m', hm', hadds⟩
    rw [htransfer, hm']
    constructor
    · intro htells
      exact Or.inl ((allFine_iff hadds).mp (htells m' rfl))
    · intro hharmless m1 heq
      cases heq
      exact (allFine_iff hadds).mpr (hharmless.resolve_right hblocked)

theorem countTellsErrors_map (bytes : Int) (f : Machine -> Option Machine) (m : Machine) :
    CountTellsErrors device m ((f m).map (fun m => (bytes, m))) <->
      bytes < 0 ∨ TellsErrors device m ((f m).map (fun m => (true, m))) := by
  cases f m with
  | none =>
      apply iff_of_true
      · intro value m' heq
        cases heq
      · apply Or.inr
        intro m' heq
        cases heq
  | some m1 =>
      constructor
      · intro hcount
        by_cases hneg : bytes < 0
        · exact Or.inl hneg
        · apply Or.inr
          intro m' heq
          cases heq
          exact hcount _ m1 rfl (Int.not_lt.mp hneg)
      · intro htells value m' heq hvalue
        cases heq
        exact htells.resolve_left (Int.not_lt.mpr hvalue) m1 rfl

/-- If no transfer fails, the result is the number of bytes. -/
theorem map_result (bytes : Int) (result : Option Machine) :
    (result.map (fun m => (true, m))).map
        (fun (ret, m) => (if ret then bytes else -1, m)) =
      result.map (fun m => (bytes, m)) := by
  cases result with
  | none => rfl
  | some m => rfl

theorem countTellsErrors_iff {transfer : Extent -> Machine -> Option (Bool × Machine)}
    {count : Extent -> Count} (h : forall block, Always device (count block) (transfer block))
    (reply : Reply) :
    CountTellsErrors device m (transferReply transfer reply m) <->
      Word.toInt (blockInfoList reply).2 < 0 ∨
        Harmless device (blockCount count (blockInfoList reply).1) m := by
  unfold transferReply
  rcases blockInfoList reply with ⟨blocks, bytes⟩
  have halways := always_transferBlocks h blocks
  rw [← tellsErrors_iff halways]
  rcases halways with ⟨f, _, htransfer⟩
  simp only [htransfer, map_result]
  exact countTellsErrors_map _ f m

end Counting

/--
For every size, all addresses and everything the card can do, {lit}`RemoteRead`,
{lit}`RemoteWrite` and the two calls of the client pass every error on exactly when there
is none to pass on, or they never return; or, for the client, when the byte count of the
reply is no count as an {lit}`int`.
-/
theorem errors_told_iff (s : Socket) (device : Device) (m : Machine) :
    (forall (bufferSend : UInt64) (nodeID : UInt16) (bufferReceive size : UInt64),
      TellsErrors device m
          (Transfer.remoteRead s device bufferSend nodeID bufferReceive size m) <->
        Harmless device (readCount bufferSend nodeID bufferReceive size) m) ∧
    (forall (bufferSend : UInt64) (nodeID : UInt16) (bufferReceive size : UInt64),
      TellsErrors device m
          (Transfer.remoteWrite s device bufferSend nodeID bufferReceive size m) <->
        Harmless device (writeCount bufferSend nodeID bufferReceive size) m) ∧
    (forall (userBuf : UInt64) (reply : Reply),
      CountTellsErrors device m (read s device userBuf reply m) <->
        Word.toInt (blockInfoList reply).2 < 0 ∨
          Harmless device (blockCount (fun block => readCount userBuf block.serverid.toUInt16
            block.memOffset block.length) (blockInfoList reply).1) m) ∧
    (forall (userBuf : UInt64) (reply : Reply),
      CountTellsErrors device m (write s device userBuf reply m) <->
        Word.toInt (blockInfoList reply).2 < 0 ∨
          Harmless device (blockCount (fun block => writeCount userBuf block.serverid.toUInt16
            block.memOffset block.length) (blockInfoList reply).1) m) := by
  constructor
  · intro bufferSend nodeID bufferReceive size
    exact tellsErrors_iff (always_remoteRead bufferSend nodeID bufferReceive size)
  constructor
  · intro bufferSend nodeID bufferReceive size
    exact tellsErrors_iff (always_remoteWrite bufferSend nodeID bufferReceive size)
  constructor
  · intro userBuf reply
    exact countTellsErrors_iff (fun block => always_remoteRead userBuf _ _ _) reply
  · intro userBuf reply
    exact countTellsErrors_iff (fun block => always_remoteWrite userBuf _ _ _) reply

/-- The card refuses everything, and there is always an entry that tells of a failure. -/
def broken : Device := fun _ _ => ⟨false, false, [Polling.Poll.completion ⟨0, 12⟩]⟩

/-- A read of one byte returns true although its operation is refused. -/
theorem not_tellsErrors_refused :
    ¬ forall (s : Socket) (device : Device) (m : Machine) (bufferSend : UInt64)
      (nodeID : UInt16) (bufferReceive size : UInt64),
      TellsErrors device m
        (Transfer.remoteRead s device bufferSend nodeID bufferReceive size m) := by
  intro h
  have hharmless := (tellsErrors_iff (always_remoteRead 0 1 0 1)).mp
    (h ⟨0, fun _ => 0⟩ broken ⟨fun _ => 0, fun _ _ => 0, fun _ => []⟩ 0 1 0 1)
  rcases hharmless with hfine | ⟨q, k, _, _, hnone⟩
  · cases (hfine (1, 1) 0 (by decide) (by decide)).1
  · cases hnone

end TransferErrors
end Client
end SpongeBob
