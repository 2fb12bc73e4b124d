import Mathlib.Order.Bounds.Defs
import SpongeBob.Foundation.Run
import SpongeBob.Fs.InodeTable

/-!
# Runs of the inode table

A table of size {lit}`n` numbers its inodes from 0 to {lit}`n`, one more than it lets
its callers allocate.  Whatever they delete, the root included, a call that is let
through therefore finds a number in the free list.
-/

namespace SpongeBob
namespace Fs

open Foundation

namespace InodeTable

/-!
# Calls on the table
-/

inductive Op where
  | allocateFileInode
  | allocateDirInode
  | deleteInode (inum : UInt64)
deriving DecidableEq, Repr

inductive Result where
  | allocated (inum : UInt64)
  | deleted (success : Bool)
deriving DecidableEq, Repr

/-- One call on the table. -/
def perform (t : InodeTable) : Op -> Except Fault (Result × InodeTable)
  | Op.allocateFileInode => do
      let (inum, t) ← t.allocateFileInode
      pure (Result.allocated inum, t)
  | Op.allocateDirInode => do
      let (inum, t) ← t.allocateDirInode
      pure (Result.allocated inum, t)
  | Op.deleteInode inum => do
      let (success, t) ← t.deleteInode inum
      pure (Result.deleted success, t)

/--
{lit}`AllocateFreeInode` completes.  It gives out the least number that is not in the
table, or the number after the last with the table unchanged when {lit}`size` inodes
are present.
-/
def AllocatesLeast (size : UInt64) (t : InodeTable) : Prop :=
  forall type, exists inum t', t.allocateFreeInode type = Except.ok (inum, t') ∧
    (inum = size + 1 ∧ t' = t <-> t.table.size = size.toNat) ∧
    (t.table.size ≠ size.toNat ->
      IsLeast { i | i ∉ t.table } inum ∧ t' = t.allocated type inum)

/-- {lit}`DeleteInode` completes, and takes back exactly the numbers in the table. -/
def DeletesPresent (t : InodeTable) : Prop :=
  forall inum, exists success t', t.deleteInode inum = Except.ok (success, t') ∧
    (success = true <-> inum ∈ t.table) ∧ (success = false -> t' = t) ∧
    (success = true -> t' = t.deleted inum)

/-!
# One call
-/

section Calls

variable {size : UInt64} {t t' : InodeTable}

/-- A table in balance whose lock is free. -/
structure Ready (size : UInt64) (t : InodeTable) : Prop where
  unlocked : t.tableLock = false
  balanced : t.Balanced size.toNat

theorem ready_make (hsize : 1 ≤ size.toNat) : Ready size (make size) where
  unlocked := rfl
  balanced := balanced_make size hsize

/-- The counter stands at the size of the table exactly if that many inodes are present. -/
theorem Ready.full_iff (h : Ready size t) :
    t.curSize = t.totalSize <-> t.table.size = size.toNat := by
  rw [← UInt64.toNat_inj, h.balanced.curSize, h.balanced.totalSize]

/-- The top of the free list is the least number that is not in the table. -/
theorem Ready.isLeast (h : Ready size t) {inum : UInt64}
    (htop : t.freeList.top? = some inum) : IsLeast { i | i ∉ t.table } inum := by
  have hmem := MinHeap.top?_mem htop
  constructor
  · exact h.balanced.freeFresh inum hmem
  · intro i hi
    by_cases hle : i.toNat ≤ size.toNat
    · have hfree := ((h.balanced.cover i).mpr hle).resolve_left hi
      exact MinHeap.top?_le htop hfree
    · -- A number beyond the size is above all numbers of the free list.
      have hlow := (h.balanced.cover inum).mp (Or.inr hmem)
      exact UInt64.le_iff_toNat_le.mpr (by omega)

theorem Ready.allocatesLeast (h : Ready size t) : AllocatesLeast size t := by
  intro type
  have htotal : t.totalSize = size := UInt64.toNat_inj.mp h.balanced.totalSize
  rw [allocateFreeInode_eq h.unlocked]
  by_cases hfull : t.curSize = t.totalSize
  · have hcard := h.full_iff.mp hfull
    rw [if_pos hfull]
    exists t.totalSize + 1, t
    constructor
    · rfl
    constructor
    · rw [htotal]
      simp [hcard]
    · intro hne
      exact absurd hcard hne
  · have hcard := mt h.full_iff.mpr hfull
    rcases h.balanced.exists_top hfull with ⟨inum, htop⟩
    have hleast := h.isLeast htop
    rw [if_neg hfull, top_eq_ok.mpr htop]
    exists inum, t.allocated type inum
    constructor
    · rfl
    constructor
    · constructor
      · -- The new number is in the table afterwards and was not before.
        rintro ⟨_, hsame⟩
        have hnew : inum ∈ (t.allocated type inum).table := Std.ExtTreeMap.mem_insert_self
        rw [hsame] at hnew
        exact absurd hnew hleast.left
      · intro heq
        exact absurd heq hcard
    · intro _
      exact ⟨hleast, rfl⟩

theorem Ready.deletesPresent (h : Ready size t) : DeletesPresent t := by
  intro inum
  cases hinum : t.table[inum]? with
  | some inode =>
      have hmem : inum ∈ t.table :=
        Std.ExtTreeMap.mem_iff_isSome_getElem?.mpr (Option.isSome_of_eq_some hinum)
      exists true, t.deleted inum
      constructor
      · exact deleteInode_of_some h.unlocked hinum
      · simp [hmem]
  | none =>
      have hmem : inum ∉ t.table := by
        rw [Std.ExtTreeMap.mem_iff_isSome_getElem?, hinum]
        exact Bool.false_ne_true
      exists false, t
      constructor
      · exact deleteInode_of_none h.unlocked hinum
      · simp [hmem]

theorem Ready.allocateFreeInode (h : Ready size t) {type : FileType} {inum : UInt64}
    (halloc : t.allocateFreeInode type = Except.ok (inum, t')) : Ready size t' := by
  rw [allocateFreeInode_eq h.unlocked] at halloc
  split at halloc
  · cases halloc
    exact h
  · rename_i hroom
    rcases bind_eq_ok.mp halloc with ⟨i, htop, hpure⟩
    cases hpure
    constructor
    · exact h.unlocked
    · exact h.balanced.allocated hroom (top_eq_ok.mp htop) type

theorem Ready.perform (h : Ready size t) {op : Op} {result : Result}
    (hperform : t.perform op = Except.ok (result, t')) : Ready size t' := by
  cases op with
  | allocateFileInode =>
      rcases bind_eq_ok.mp hperform with ⟨⟨inum, t1⟩, halloc, hpure⟩
      cases hpure
      exact h.allocateFreeInode halloc
  | allocateDirInode =>
      rcases bind_eq_ok.mp hperform with ⟨⟨inum, t1⟩, halloc, hpure⟩
      cases hpure
      exact h.allocateFreeInode halloc
  | deleteInode inum =>
      rcases bind_eq_ok.mp hperform with ⟨⟨success, t1⟩, hdelete, hpure⟩
      cases hpure
      rcases h.deletesPresent inum with ⟨success', t2, hdelete', hmem, hfailed, hdeleted⟩
      rw [hdelete] at hdelete'
      cases hdelete'
      cases success with
      | false =>
          rw [hfailed rfl]
          exact h
      | true =>
          rw [hdeleted rfl]
          constructor
          · exact h.unlocked
          · exact h.balanced.deleted (hmem.mp rfl)

theorem Ready.exists_perform (h : Ready size t) (op : Op) :
    exists result t', t.perform op = Except.ok (result, t') := by
  cases op with
  | allocateFileInode =>
      rcases h.allocatesLeast FileType.regFile with ⟨inum, t1, halloc, _⟩
      exact ⟨_, t1, bind_eq_ok.mpr ⟨(inum, t1), halloc, rfl⟩⟩
  | allocateDirInode =>
      rcases h.allocatesLeast FileType.dir with ⟨inum, t1, halloc, _⟩
      exact ⟨_, t1, bind_eq_ok.mpr ⟨(inum, t1), halloc, rfl⟩⟩
  | deleteInode inum =>
      rcases h.deletesPresent inum with ⟨success, t1, hdelete, _⟩
      exact ⟨_, t1, bind_eq_ok.mpr ⟨(success, t1), hdelete, rfl⟩⟩

end Calls

/-!
# Runs of calls
-/

/--
Any sequence of allocations and deletions on a new table completes.  In the table it
leads to the numbers up to the size are divided between the table and its free list,
the counter is the number of inodes, an allocation gives out the least number that is
not in the table, or refuses when {lit}`size` inodes are present, and a deletion takes
back exactly the numbers in the table.
-/
theorem numbers_divided (size : UInt64) (hsize : 1 ≤ size.toNat) (ops : List Op) :
    exists results t, runFrom perform (make size) ops = Except.ok (results, t) ∧
      t.Balanced size.toNat ∧ AllocatesLeast size t ∧ DeletesPresent t := by
  have hkeep : forall t op result t', Ready size t ->
      t.perform op = Except.ok (result, t') -> Ready size t' :=
    fun _ _ _ _ h hperform => h.perform hperform
  rcases exists_run (Ready size) hkeep (fun _ op h => h.exists_perform op)
    (ready_make hsize) ops with ⟨results, t, hrun⟩
  have hready := run_invariant (ready_make hsize) hkeep hrun
  exact ⟨results, t, hrun, hready.balanced, hready.allocatesLeast, hready.deletesPresent⟩

/-- Two inodes fill a table of size 3; then the root is deleted, and its number comes back. -/
def rootCalls : List Op :=
  [Op.allocateFileInode, Op.allocateDirInode, Op.allocateFileInode, Op.deleteInode 0,
    Op.allocateFileInode]

theorem numbers_divided_root :
    exists t, runFrom perform (make 3) rootCalls = Except.ok
        ([Result.allocated 1, Result.allocated 2, Result.allocated 4, Result.deleted true,
          Result.allocated 0], t) ∧
      t.Balanced 3 ∧ AllocatesLeast 3 t ∧ DeletesPresent t := by
  rcases numbers_divided 3 (by decide) rootCalls with ⟨results, t, hrun, hrest⟩
  have hpass : passes (runFrom perform (make 3) rootCalls) (fun outcome =>
      decide (outcome.1 = [Result.allocated 1, Result.allocated 2, Result.allocated 4,
        Result.deleted true, Result.allocated 0])) = true := by
    decide +kernel
  rw [hrun] at hpass
  have hresults : results = _ := of_decide_eq_true hpass
  rw [hresults] at hrun
  exact ⟨t, hrun, hrest⟩

end InodeTable
end Fs
end SpongeBob
