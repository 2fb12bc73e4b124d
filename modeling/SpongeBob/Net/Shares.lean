import Mathlib.Data.Set.Lattice
import Mathlib.Order.CompletePartialOrder
import SpongeBob.Foundation.Word
import SpongeBob.Net.Completion

/-!
# Shares of a transfer

{lit}`RemoteRead` and {lit}`RemoteWrite` leave a small transfer to the caller and divide
a large one between the workers.  The shares are rounded down to pages, in an
{lit}`int`, and the share with index 3 is to take what remains.
-/

namespace SpongeBob
namespace Net
namespace Shares

open Foundation
open Completion

/-!
# The tasks
-/

/-- Below this size the caller transfers everything itself. -/
def smallSize : UInt64 := 4 * 1024 * 1024

def shipSize (size : UInt64) : Int :=
  Word.toInt (size / UInt64.ofNat workerNumber) >>> (12 : Nat) <<< (12 : Nat)

/-- The task of worker {lit}`i` in a large transfer. -/
def share (opType : Bool) (bufferSend bufferReceive size : UInt64) (i : Nat) : TransferTask where
  opType := opType
  size :=
    if i < 3 then UInt64.ofInt (shipSize size)
    else size - UInt64.ofInt (3 * shipSize size)
  bufferSend := bufferSend + UInt64.ofInt (i * shipSize size)
  bufferReceive := bufferReceive + UInt64.ofInt (i * shipSize size)

/-- What each worker has to do; a small transfer is done under the number 0. -/
def tasks (opType : Bool) (bufferSend bufferReceive size : UInt64) :
    List (Nat × TransferTask) :=
  if size < smallSize then
    [(0, { opType := opType
           size := size
           bufferSend := bufferSend
           bufferReceive := bufferReceive })]
  else
    (List.range workerNumber).map (fun i => (i, share opType bufferSend bufferReceive size i))

def remoteReadTasks (bufferSend bufferReceive size : UInt64) : List (Nat × TransferTask) :=
  tasks false bufferSend bufferReceive size

def remoteWriteTasks (bufferSend bufferReceive size : UInt64) : List (Nat × TransferTask) :=
  tasks true bufferSend bufferReceive size

/-!
# What is expected
-/

/-- The bytes that a task moves, as offsets from the local start of the transfer. -/
def offsets (bufferSend : UInt64) (task : TransferTask) : Set Nat :=
  fun k => (task.bufferSend - bufferSend).toNat ≤ k ∧
    k < (task.bufferSend - bufferSend).toNat + task.size.toNat

/--
The tasks have no byte in common and together all bytes of the transfer, and each one is
at the same offset on both sides.
-/
structure Partitions (bufferSend bufferReceive size : UInt64) (jobs : List TransferTask) :
    Prop where
  disjoint : jobs.Pairwise (fun job job' =>
    Disjoint (offsets bufferSend job) (offsets bufferSend job'))
  union : forall k, k < size.toNat <-> exists job, job ∈ jobs ∧ k ∈ offsets bufferSend job
  paired : forall job, job ∈ jobs ->
    job.bufferReceive - bufferReceive = job.bufferSend - bufferSend

/-- The transfer is small, or it consists of two equal shares of whole pages. -/
def EvenShares (size : UInt64) : Prop :=
  size.toNat < 4 * 1024 * 1024 ∨ (2 * 4096 ∣ size.toNat ∧ size.toNat < 2 ^ 32)

/-!
# The partition
-/

section Partition

variable {opType : Bool} {bufferSend bufferReceive size : UInt64}

theorem small_iff : size < smallSize <-> size.toNat < 4 * 1024 * 1024 :=
  UInt64.lt_iff_toNat_lt

theorem partitions_single :
    Partitions bufferSend bufferReceive size
      [⟨opType, size, bufferSend, bufferReceive⟩] := by
  constructor
  · exact List.pairwise_singleton _ _
  · intro k
    simp only [List.mem_singleton, exists_eq_left]
    show k < size.toNat <-> (bufferSend - bufferSend).toNat ≤ k ∧
      k < (bufferSend - bufferSend).toNat + size.toNat
    rw [UInt64.sub_self]
    simp
  · intro job hjob
    cases List.mem_singleton.mp hjob
    rw [UInt64.sub_self, UInt64.sub_self]

/-- The distance of an address from one that it is reached from. -/
theorem add_sub_start (start offset : UInt64) : start + offset - start = offset := by
  rw [UInt64.add_comm, UInt64.add_sub_cancel]

/-- The share of a worker, as a number of bytes. -/
def shareBytes (size : UInt64) : Nat :=
  (UInt64.ofInt (shipSize size)).toNat

theorem mem_offsets_first {k : Nat} :
    k ∈ offsets bufferSend (share opType bufferSend bufferReceive size 0) <->
      k < shareBytes size := by
  show (bufferSend + UInt64.ofInt ((0 : Nat) * shipSize size) - bufferSend).toNat ≤ k ∧
    k < (bufferSend + UInt64.ofInt ((0 : Nat) * shipSize size) - bufferSend).toNat +
      shareBytes size <-> _
  rw [add_sub_start, Int.natCast_zero, Int.zero_mul, show (UInt64.ofInt 0).toNat = 0 from rfl]
  omega

theorem mem_offsets_second {k : Nat} :
    k ∈ offsets bufferSend (share opType bufferSend bufferReceive size 1) <->
      shareBytes size ≤ k ∧ k < shareBytes size + shareBytes size := by
  show (bufferSend + UInt64.ofInt ((1 : Nat) * shipSize size) - bufferSend).toNat ≤ k ∧
    k < (bufferSend + UInt64.ofInt ((1 : Nat) * shipSize size) - bufferSend).toNat +
      shareBytes size <-> _
  rw [add_sub_start, Int.natCast_one, Int.one_mul]
  rfl

/-- The shares of two workers cover twice the share of one. -/
theorem partitions_shares_iff :
    Partitions bufferSend bufferReceive size
        [share opType bufferSend bufferReceive size 0,
          share opType bufferSend bufferReceive size 1] <->
      2 * shareBytes size = size.toNat := by
  have hunion : forall k, (exists job,
      job ∈ [share opType bufferSend bufferReceive size 0,
        share opType bufferSend bufferReceive size 1] ∧ k ∈ offsets bufferSend job) <->
      k < 2 * shareBytes size := by
    intro k
    simp only [List.mem_cons, List.not_mem_nil, or_false, exists_eq_or_imp, exists_eq_left,
      mem_offsets_first, mem_offsets_second]
    omega
  constructor
  · intro h
    have hlow := (h.union (2 * shareBytes size)).trans (hunion _)
    have hhigh := (h.union size.toNat).trans (hunion _)
    omega
  · intro heq
    constructor
    · rw [List.pairwise_pair]
      apply Set.disjoint_left.mpr
      intro k hfirst hsecond
      have hlt := mem_offsets_first.mp hfirst
      have hle := mem_offsets_second.mp hsecond
      omega
    · intro k
      rw [hunion, heq]
    · intro job hjob
      have hshare : exists i, job = share opType bufferSend bufferReceive size i := by
        cases List.mem_cons.mp hjob with
        | inl hfirst => exact ⟨0, hfirst⟩
        | inr hsecond => exact ⟨1, List.mem_singleton.mp hsecond⟩
      rcases hshare with ⟨i, rfl⟩
      exact (add_sub_start _ _).trans (add_sub_start _ _).symm

theorem shipSize_eq :
    shipSize size = Word.toInt (size / UInt64.ofNat workerNumber) / 2 ^ 12 * 2 ^ 12 := by
  unfold shipSize
  generalize Word.toInt (size / UInt64.ofNat workerNumber) = half
  rw [Int.shiftLeft_eq, Int.shiftRight_eq_div_pow]
  norm_cast

/-- Two shares make up the transfer if it has an even number of pages and fits an int. -/
theorem two_shares_iff (hlarge : 4 * 1024 * 1024 ≤ size.toNat) :
    2 * shareBytes size = size.toNat <->
      2 * 4096 ∣ size.toNat ∧ size.toNat < 2 ^ 32 := by
  have hlt := size.toNat_lt
  have htwo : (UInt64.ofNat workerNumber).toNat = 2 := by
    decide
  have hhalf := Word.toInt_cases (size / UInt64.ofNat workerNumber)
  rw [UInt64.toNat_div, htwo] at hhalf
  unfold shareBytes
  rw [Word.toNat_ofInt, shipSize_eq]
  -- a half from 2^31 on is a negative int
  rcases hhalf with ⟨hsmall, heq⟩ | ⟨hbig, heq⟩
  · omega
  · omega

theorem map_snd_tasks_large (hlarge : ¬ size < smallSize) :
    (tasks opType bufferSend bufferReceive size).map Prod.snd =
      [share opType bufferSend bufferReceive size 0,
        share opType bufferSend bufferReceive size 1] := by
  unfold tasks
  rw [if_neg hlarge]
  rfl

theorem tasks_partition_iff :
    Partitions bufferSend bufferReceive size
        ((tasks opType bufferSend bufferReceive size).map Prod.snd) <->
      EvenShares size := by
  by_cases hsmall : size < smallSize
  · unfold tasks
    rw [if_pos hsmall]
    exact iff_of_true partitions_single (Or.inl (small_iff.mp hsmall))
  · have hlarge := Nat.le_of_not_lt (fun h => hsmall (small_iff.mpr h))
    rw [map_snd_tasks_large hsmall, partitions_shares_iff, two_shares_iff hlarge]
    exact (or_iff_right (Nat.not_lt_of_le hlarge)).symm

end Partition

/--
For every size and all addresses, the tasks of a read, and those of a write, divide the
range exactly when the transfer is small or consists of two equal shares.
-/
theorem partitions_iff_evenShares (bufferSend bufferReceive size : UInt64) :
    (Partitions bufferSend bufferReceive size
        ((remoteReadTasks bufferSend bufferReceive size).map Prod.snd) <->
      EvenShares size) ∧
    (Partitions bufferSend bufferReceive size
        ((remoteWriteTasks bufferSend bufferReceive size).map Prod.snd) <->
      EvenShares size) :=
  ⟨tasks_partition_iff, tasks_partition_iff⟩

/-- The last byte of a transfer of 4 MiB and one byte is not moved. -/
theorem not_partitions_oddByte :
    ¬ Partitions 0 0 4194305 ((remoteReadTasks 0 0 4194305).map Prod.snd) := by
  intro h
  have heven := tasks_partition_iff.mp h
  exact absurd heven (by unfold EvenShares; decide)

end Shares
end Net
end SpongeBob
