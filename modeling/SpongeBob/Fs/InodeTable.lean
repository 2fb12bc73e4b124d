import SpongeBob.Foundation.TreeMap
import SpongeBob.Fs.File

/-!
# The inode table

What the operations of the table do when they get its lock, and the balance they
keep: between calls every number up to the table's size is either in use, that is
a key of the table, or waiting in the free list, and the counter agrees with the
table.
-/

namespace SpongeBob
namespace Fs

open Foundation

namespace InodeTable

/-!
# Effects
-/

/-- The table with the top of the free list, which is {lit}`inum`, in use. -/
def allocated (t : InodeTable) (type : FileType) (inum : UInt64) : InodeTable :=
  { t with
    freeList := t.freeList.pop
    curSize := t.curSize + 1
    table := t.table.insert inum (Inode.make type inum) }

/-- The table with {lit}`inum` given back. -/
def deleted (t : InodeTable) (inum : UInt64) : InodeTable :=
  { t with
    table := t.table.erase inum
    freeList := t.freeList.push inum
    curSize := t.curSize - 1 }

theorem unlock_eq {t : InodeTable} (h : t.tableLock = false) :
    { t with tableLock := false } = t := by
  cases t
  cases h
  rfl

theorem getInode_of_some {t : InodeTable} (h : t.tableLock = false) {i : UInt64}
    {inode : Inode} (hi : t.table[i]? = some inode) :
    t.getInode i = Except.ok (some inode, t) := by
  unfold getInode
  rw [lock_of_free h, hi]
  show Except.ok (some inode, { t with tableLock := false }) = _
  rw [unlock_eq h]

/-- A lookup that finds nothing comes back with the lock held. -/
theorem getInode_of_none {t : InodeTable} (h : t.tableLock = false) {i : UInt64}
    (hi : t.table[i]? = none) :
    t.getInode i = Except.ok (none, { t with tableLock := true }) := by
  unfold getInode
  rw [lock_of_free h, hi]
  rfl

theorem allocateFreeInode_eq {t : InodeTable} (h : t.tableLock = false) (type : FileType) :
    t.allocateFreeInode type =
      if t.curSize = t.totalSize then Except.ok (t.totalSize + 1, t)
      else top t.freeList >>= fun inum => Except.ok (inum, t.allocated type inum) := by
  cases t
  cases h
  rfl

theorem deleteInode_of_some {t : InodeTable} (h : t.tableLock = false) {i : UInt64}
    {inode : Inode} (hi : t.table[i]? = some inode) :
    t.deleteInode i = Except.ok (true, t.deleted i) := by
  unfold deleteInode
  rw [lock_of_free h, hi]
  cases t
  cases h
  rfl

theorem deleteInode_of_none {t : InodeTable} (h : t.tableLock = false) {i : UInt64}
    (hi : t.table[i]? = none) : t.deleteInode i = Except.ok (false, t) := by
  unfold deleteInode
  rw [lock_of_free h, hi]
  show Except.ok (false, { t with tableLock := false }) = _
  rw [unlock_eq h]

/-!
# Balance
-/

/-- The numbers up to {lit}`n` are divided between the table and its free list. -/
structure Balanced (n : Nat) (t : InodeTable) : Prop where
  totalSize : t.totalSize.toNat = n
  freeNodup : t.freeList.elems.Nodup
  freeFresh : forall i, i ∈ t.freeList -> i ∉ t.table
  cover : forall i, i ∈ t.table ∨ i ∈ t.freeList <-> i.toNat ≤ n
  curSize : t.curSize.toNat = t.table.size
  capacity : t.table.size + t.freeList.elems.length = n + 1
  bounded : t.table.size ≤ n

theorem one_add_toNat_le (size : UInt64) : 1 + size.toNat ≤ 2 ^ 64 := by
  have hsize := size.toNat_lt
  omega

theorem balanced_make (size : UInt64) (hpos : 1 ≤ size.toNat) :
    Balanced size.toNat (make size) where
  totalSize := rfl
  freeNodup := by
    show (MinHeap.ofList _).elems.Nodup
    rw [(MinHeap.ofList_perm _).nodup_iff]
    exact Word.nodup_iota (one_add_toNat_le size)
  freeFresh := by
    intro i hi
    have hi' : i ∈ Word.iota size.toNat 1 := MinHeap.mem_ofList.mp hi
    have hone := ((Word.mem_iota (one_add_toNat_le size)).mp hi').left
    simp only [make, createRootDir, putInode, Std.ExtTreeMap.mem_insert]
    rintro (hcmp | hempty)
    · rw [Std.compare_eq_iff_eq] at hcmp
      subst hcmp
      simp at hone
    · simp at hempty
  cover := by
    intro i
    have hfree : i ∈ (make size).freeList <-> 1 ≤ i.toNat ∧ i.toNat < 1 + size.toNat :=
      MinHeap.mem_ofList.trans (Word.mem_iota (one_add_toNat_le size))
    have htable : i ∈ (make size).table <-> i.toNat = 0 := by
      simp only [make, createRootDir, putInode, Std.ExtTreeMap.mem_insert,
        Std.compare_eq_iff_eq, Std.ExtTreeMap.not_mem_empty, or_false]
      rw [← UInt64.toNat_inj]
      exact eq_comm
    rw [hfree, htable]
    omega
  curSize := by
    simp [make, createRootDir, putInode, Std.ExtTreeMap.size_insert]
  capacity := by
    have hlen := (MinHeap.ofList_perm (Word.iota size.toNat 1)).length_eq
    rw [Word.length_iota] at hlen
    have hsize' : (make size).table.size = 1 := by
      simp [make, createRootDir, putInode, Std.ExtTreeMap.size_insert]
    have hfree : (make size).freeList.elems.length = size.toNat := hlen
    omega
  bounded := by
    simpa [make, createRootDir, putInode, Std.ExtTreeMap.size_insert] using hpos

variable {n : Nat} {t : InodeTable}

theorem Balanced.putInode (hb : Balanced n t) {i : UInt64} (hi : i ∈ t.table)
    (inode : Inode) : Balanced n (t.putInode i inode) := by
  have hmem : forall j, j ∈ (t.putInode i inode).table <-> j ∈ t.table := by
    intro j
    simp only [InodeTable.putInode, Std.ExtTreeMap.mem_insert, Std.compare_eq_iff_eq]
    constructor
    · rintro (rfl | hj)
      · exact hi
      · exact hj
    · exact Or.inr
  have hsize : (t.putInode i inode).table.size = t.table.size :=
    TreeMap.size_insert_of_mem hi
  refine ⟨hb.totalSize, hb.freeNodup, ?_, ?_, ?_, ?_, ?_⟩
  · intro j hj htable
    exact hb.freeFresh j hj ((hmem j).mp htable)
  · intro j
    rw [hmem j]
    exact hb.cover j
  · rw [hsize]
    exact hb.curSize
  · rw [hsize]
    exact hb.capacity
  · rw [hsize]
    exact hb.bounded

/-- A table whose counter has not reached its size holds fewer inodes than that. -/
theorem Balanced.size_lt (hb : Balanced n t) (hroom : t.curSize ≠ t.totalSize) :
    t.table.size < n := by
  refine lt_of_le_of_ne hb.bounded ?_
  intro heq
  apply hroom
  apply UInt64.toNat_inj.mp
  rw [hb.curSize, hb.totalSize, heq]

/-- A table that is not full has a free number. -/
theorem Balanced.exists_top (hb : Balanced n t) (hroom : t.curSize ≠ t.totalSize) :
    exists i, t.freeList.top? = some i := by
  have hlt := hb.size_lt hroom
  have hcapacity := hb.capacity
  cases htop : t.freeList.top? with
  | some i => exact ⟨i, rfl⟩
  | none =>
      rw [MinHeap.top?_eq_none.mp htop] at hcapacity
      simp at hcapacity
      omega

theorem Balanced.allocated (hb : Balanced n t) {i : UInt64}
    (hroom : t.curSize ≠ t.totalSize) (htop : t.freeList.top? = some i)
    (type : FileType) : Balanced n (t.allocated type i) := by
  have hmem : i ∈ t.freeList := MinHeap.top?_mem htop
  have hfresh : i ∉ t.table := hb.freeFresh i hmem
  have hlen : t.freeList.elems.length = t.freeList.pop.elems.length + 1 := by
    rw [MinHeap.elems_of_top? htop]
    rfl
  have hpop := fun j => MinHeap.mem_pop_iff (y := j) htop hb.freeNodup
  have hcapacity := hb.capacity
  have hsize : (t.allocated type i).table.size = t.table.size + 1 :=
    TreeMap.size_insert_of_not_mem hfresh
  have hlt := hb.size_lt hroom
  refine ⟨hb.totalSize, MinHeap.nodup_pop hb.freeNodup, ?_, ?_, ?_, ?_, ?_⟩
  · intro j hj hmem'
    rcases (hpop j).mp hj with ⟨hfree, hne⟩
    simp only [InodeTable.allocated, Std.ExtTreeMap.mem_insert,
      Std.compare_eq_iff_eq] at hmem'
    rcases hmem' with rfl | hmem'
    · exact hne rfl
    · exact hb.freeFresh j hfree hmem'
  · intro j
    rw [← hb.cover j]
    simp only [InodeTable.allocated, Std.ExtTreeMap.mem_insert, Std.compare_eq_iff_eq, hpop]
    by_cases hj : i = j
    · subst hj
      simp [hmem]
    · simp [hj, Ne.symm hj]
  · have htotal := hb.totalSize
    have hword := t.totalSize.toNat_lt
    show (t.curSize + 1).toNat = (t.allocated type i).table.size
    rw [hsize, UInt64.toNat_add, hb.curSize]
    show (_ + 1) % 2 ^ 64 = _
    omega
  · show (t.allocated type i).table.size + t.freeList.pop.elems.length = n + 1
    omega
  · show (t.allocated type i).table.size ≤ n
    omega

theorem Balanced.deleted (hb : Balanced n t) {i : UInt64} (hi : i ∈ t.table) :
    Balanced n (t.deleted i) := by
  have hnotfree : i ∉ t.freeList := fun hfree => hb.freeFresh i hfree hi
  have hcapacity := hb.capacity
  have herase : (t.table.erase i).size + 1 = t.table.size := TreeMap.size_erase_of_mem hi
  have hbounded := hb.bounded
  refine ⟨hb.totalSize, MinHeap.nodup_push hb.freeNodup hnotfree, ?_, ?_, ?_, ?_, ?_⟩
  · intro j hj hmem
    simp only [InodeTable.deleted, Std.ExtTreeMap.mem_erase, ne_eq,
      Std.compare_eq_iff_eq] at hmem
    rcases MinHeap.mem_push.mp hj with rfl | hfree
    · exact hmem.left rfl
    · exact hb.freeFresh j hfree hmem.right
  · intro j
    rw [← hb.cover j]
    simp only [InodeTable.deleted, Std.ExtTreeMap.mem_erase, ne_eq,
      Std.compare_eq_iff_eq, MinHeap.mem_push]
    by_cases hj : i = j
    · subst hj
      simp [hi]
    · simp [hj, Ne.symm hj]
  · have hcur := hb.curSize
    have hone : (1 : UInt64) ≤ t.curSize := by
      rw [UInt64.le_iff_toNat_le]
      show 1 ≤ _
      omega
    show (t.curSize - 1).toNat = (t.table.erase i).size
    rw [UInt64.toNat_sub_of_le _ _ hone, hcur, ← herase]
    rfl
  · show (t.table.erase i).size + (t.freeList.push i).elems.length = n + 1
    rw [MinHeap.length_push]
    omega
  · show (t.table.erase i).size ≤ n
    omega

end InodeTable
end Fs
end SpongeBob
