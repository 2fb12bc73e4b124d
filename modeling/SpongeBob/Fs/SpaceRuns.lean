import SpongeBob.Foundation.Run
import SpongeBob.Fs.SpaceManager
import Mathlib.Algebra.Group.Nat.Defs
import Mathlib.Data.Finset.Card

/-!
# Runs of a space manager

{lit}`AllocateSpace` compares the number of blocks it needs with a difference of two
counters and then takes blocks from the free list without looking whether one is left.
That the counters and the free list agree is an invariant of the calls a manager has
seen since it was constructed.
-/

namespace SpongeBob
namespace Fs

open Foundation

namespace SpaceManager

/-!
# Calls
-/

inductive Call where
  | allocateSpace (length : UInt64)
  | allocateOneBlock
  | reclaimSpace (blockList : List UInt64)
  | reclaimInodeSpace (inode : Option Inode)

inductive Result where
  | blocks (res : List UInt64)
  | block (blockNr : UInt64)
  | success (success : Bool)
deriving DecidableEq

def perform (sm : SpaceManager) : Call -> Except Fault (Result × SpaceManager)
  | Call.allocateSpace length => do
      let (res, sm) ← sm.allocateSpace length
      pure (Result.blocks res, sm)
  | Call.allocateOneBlock => do
      let (blockNr, sm) ← sm.allocateOneBlock
      pure (Result.block blockNr, sm)
  | Call.reclaimSpace blockList => do
      let (success, sm) ← sm.reclaimSpace blockList
      pure (Result.success success, sm)
  | Call.reclaimInodeSpace inode => do
      let (success, sm) ← sm.reclaimInodeSpace inode
      pure (Result.success success, sm)

/-- The numbers of the blocks of a block list that this manager's node holds. -/
def ownBlocks (sm : SpaceManager) (blocks : List FileBlockInfo) : List UInt64 :=
  (blocks.filter (fun info => info.serverId = sm.serverId)).map FileBlockInfo.blockNr

/-- The blocks are in use, and each is listed once. -/
structure InUse (sm : SpaceManager) (blockList : List UInt64) : Prop where
  nodup : blockList.Nodup
  used : forall n, n ∈ blockList -> n ∈ sm.inusedBlocks

/--
A single block is asked for only while one is free, and only blocks in use are given
back.  {lit}`AllocateSpace` may be called at any time.
-/
def Permitted (sm : SpaceManager) : Call -> Prop
  | Call.allocateSpace _ => True
  | Call.allocateOneBlock => sm.freeList.elems ≠ []
  | Call.reclaimSpace blockList => sm.InUse blockList
  | Call.reclaimInodeSpace inode =>
      exists file, inode = some file ∧ sm.InUse (sm.ownBlocks file.blockInfoList)

instance (sm : SpaceManager) (blockList : List UInt64) : Decidable (sm.InUse blockList) :=
  decidable_of_iff
    (blockList.Nodup ∧ blockList.all (fun n => decide (n ∈ sm.inusedBlocks)) = true)
    ⟨fun h => ⟨h.left, fun n hn => of_decide_eq_true (List.all_eq_true.mp h.right n hn)⟩,
      fun h => ⟨h.nodup, List.all_eq_true.mpr (fun n hn => decide_eq_true (h.used n hn))⟩⟩

instance (sm : SpaceManager) (call : Call) : Decidable (Permitted sm call) :=
  match call with
  | Call.allocateSpace _ => inferInstanceAs (Decidable True)
  | Call.allocateOneBlock => inferInstanceAs (Decidable (sm.freeList.elems ≠ []))
  | Call.reclaimSpace blockList => inferInstanceAs (Decidable (sm.InUse blockList))
  | Call.reclaimInodeSpace none =>
      isFalse (by
        rintro ⟨file, hnone, _⟩
        cases hnone)
  | Call.reclaimInodeSpace (some file) =>
      decidable_of_iff (sm.InUse (sm.ownBlocks file.blockInfoList))
        ⟨fun h => ⟨file, rfl, h⟩, fun ⟨_, hsome, h⟩ => Option.some.inj hsome ▸ h⟩

theorem returnBlocks_eq_foldl (sm : SpaceManager) (blocks : List FileBlockInfo) :
    sm.returnBlocks blocks = (sm.ownBlocks blocks).foldl returnBlock sm := by
  induction blocks generalizing sm with
  | nil => rfl
  | cons info blocks ih =>
      rw [returnBlocks_cons]
      by_cases hserver : info.serverId = sm.serverId
      · rw [if_neg (not_not.mpr hserver), ih, ownBlocks, ownBlocks, List.filter_cons_of_pos]
        · rfl
        · exact decide_eq_true hserver
      · rw [if_pos hserver, ih, ownBlocks, ownBlocks, List.filter_cons_of_neg]
        simpa using hserver

/-!
# The books
-/

/-- The free list, the set of blocks in use and the counters agree. -/
structure Booked (sm : SpaceManager) : Prop where
  freeNodup : sm.freeList.elems.Nodup
  apart : forall n, n ∈ sm.inusedBlocks -> n ∉ sm.freeList
  count : sm.freeList.elems.length + sm.inusedBlocks.card = sm.totalBlocks.toNat
  curBlocks : sm.curBlocks.toNat = sm.inusedBlocks.card
  totalBlocks : sm.totalBlocks = sm.totalBytes / sm.blockSize
  unlocked : sm.spaceLock = false

variable {sm sm' : SpaceManager} {blockNr : UInt64}

theorem booked_make (spaceStart spaceEnd blockSize serverId : UInt64) :
    Booked (make spaceStart spaceEnd blockSize serverId) where
  freeNodup := (MinHeap.ofList_perm _).nodup_iff.mpr (Word.nodup_iota (by
    rw [Nat.zero_add]
    exact Nat.le_of_lt (UInt64.toNat_lt _)))
  apart := by
    intro n hn
    cases hn
  count := by
    show (MinHeap.ofList _).elems.length + 0 = _
    rw [(MinHeap.ofList_perm _).length_eq, Word.length_iota]
    rfl
  curBlocks := rfl
  totalBlocks := rfl
  unlocked := rfl

theorem Booked.useBlock (h : Booked sm) (htop : sm.freeList.top? = some blockNr) :
    Booked (sm.useBlock blockNr) := by
  have helems := MinHeap.elems_of_top? htop
  have hunused : blockNr ∉ sm.inusedBlocks :=
    fun hused => h.apart blockNr hused (MinHeap.top?_mem htop)
  have hcard : (insert blockNr sm.inusedBlocks).card = sm.inusedBlocks.card + 1 :=
    Finset.card_insert_of_notMem hunused
  have hcount := h.count
  rw [helems, List.length_cons] at hcount
  constructor
  · exact MinHeap.nodup_pop h.freeNodup
  · intro n hn hfree
    rcases (MinHeap.mem_pop_iff htop h.freeNodup).mp hfree with ⟨hfree, hne⟩
    cases Finset.mem_insert.mp hn with
    | inl heq => exact hne heq
    | inr hused => exact h.apart n hused hfree
  · show sm.freeList.pop.elems.length + (insert blockNr sm.inusedBlocks).card =
      sm.totalBlocks.toNat
    omega
  · show (sm.curBlocks + 1).toNat = (insert blockNr sm.inusedBlocks).card
    have hlt := sm.totalBlocks.toNat_lt
    rw [hcard, UInt64.toNat_add, h.curBlocks, UInt64.toNat_one]
    omega
  · exact h.totalBlocks
  · exact h.unlocked

theorem Booked.returnBlock (h : Booked sm) (hused : blockNr ∈ sm.inusedBlocks) :
    Booked (sm.returnBlock blockNr) := by
  have hcard : (sm.inusedBlocks.erase blockNr).card + 1 = sm.inusedBlocks.card :=
    Finset.card_erase_add_one hused
  constructor
  · exact MinHeap.nodup_push h.freeNodup (h.apart blockNr hused)
  · intro n hn hfree
    rcases Finset.mem_erase.mp hn with ⟨hne, hn⟩
    cases MinHeap.mem_push.mp hfree with
    | inl heq => exact hne heq
    | inr hmem => exact h.apart n hn hmem
  · show (sm.freeList.push blockNr).elems.length + (sm.inusedBlocks.erase blockNr).card = _
    have hcount := h.count
    rw [MinHeap.length_push]
    show _ = sm.totalBlocks.toNat
    omega
  · show (sm.curBlocks - 1).toNat = (sm.inusedBlocks.erase blockNr).card
    have hone : (1 : UInt64) ≤ sm.curBlocks := by
      rw [UInt64.le_iff_toNat_le, h.curBlocks, UInt64.toNat_one]
      omega
    rw [UInt64.toNat_sub_of_le _ _ hone, h.curBlocks, UInt64.toNat_one]
    omega
  · exact h.totalBlocks
  · exact h.unlocked

theorem Booked.returnBlocks (h : Booked sm) {blockList : List UInt64}
    (hused : sm.InUse blockList) : Booked (blockList.foldl SpaceManager.returnBlock sm) := by
  induction blockList generalizing sm with
  | nil => exact h
  | cons n rest ih =>
      rcases List.nodup_cons.mp hused.nodup with ⟨hn, hrest⟩
      apply ih (h.returnBlock (hused.used n List.mem_cons_self))
      constructor
      · exact hrest
      · intro m hm
        apply Finset.mem_erase.mpr
        constructor
        · intro heq
          exact hn (heq ▸ hm)
        · exact hused.used m (List.mem_cons_of_mem n hm)

/-!
# Taking blocks
-/

/--
The blocks {lit}`res` are the smallest free blocks of {lit}`sm`, in increasing order, and
{lit}`sm'` differs from {lit}`sm` in that exactly these went from free to in use.
-/
structure TakesSmallest (sm : SpaceManager) (res : List UInt64) (sm' : SpaceManager) :
    Prop where
  increasing : res.Pairwise (fun n m => n < m)
  smallest : forall n m, n ∈ res -> m ∈ sm'.freeList -> n < m
  free : sm.freeList.elems.Perm (res ++ sm'.freeList.elems)
  unused : forall n, n ∈ res -> n ∉ sm.inusedBlocks
  rest : sm' = { sm with
    freeList := sm'.freeList
    inusedBlocks := sm.inusedBlocks ∪ res.toFinset
    curBlocks := sm.curBlocks + UInt64.ofNat res.length }

theorem TakesSmallest.refl (sm : SpaceManager) : TakesSmallest sm [] sm where
  increasing := List.Pairwise.nil
  smallest := by
    intro n m hn
    cases hn
  free := List.Perm.refl _
  unused := by
    intro n hn
    cases hn
  rest := by
    show _ = { sm with
      inusedBlocks := sm.inusedBlocks ∪ ∅
      curBlocks := sm.curBlocks + 0 }
    rw [Finset.union_empty, UInt64.add_zero]

theorem TakesSmallest.cons (h : Booked sm) (htop : sm.freeList.top? = some blockNr)
    {res : List UInt64} (hrest : TakesSmallest (sm.useBlock blockNr) res sm') :
    TakesSmallest sm (blockNr :: res) sm' := by
  have helems := MinHeap.elems_of_top? htop
  have hmem : forall m, m ∈ res ∨ m ∈ sm'.freeList -> m ∈ sm.freeList.pop := by
    intro m hm
    apply hrest.free.mem_iff.mpr
    exact List.mem_append.mpr hm
  have hlt : forall m, m ∈ sm.freeList.pop -> blockNr < m := by
    intro m hm
    rcases (MinHeap.mem_pop_iff htop h.freeNodup).mp hm with ⟨hfree, hne⟩
    exact UInt64.lt_of_le_of_ne (MinHeap.top?_le htop hfree) (Ne.symm hne)
  constructor
  · apply List.Pairwise.cons
    · intro m hm
      exact hlt m (hmem m (Or.inl hm))
    · exact hrest.increasing
  · intro n m hn hm
    cases List.mem_cons.mp hn with
    | inl heq =>
        rw [heq]
        exact hlt m (hmem m (Or.inr hm))
    | inr hn => exact hrest.smallest n m hn hm
  · rw [helems]
    exact hrest.free.cons blockNr
  · intro n hn hused
    cases List.mem_cons.mp hn with
    | inl heq => exact h.apart n hused (heq ▸ MinHeap.top?_mem htop)
    | inr hn => exact hrest.unused n hn (Finset.mem_insert_of_mem hused)
  · have hset : insert blockNr sm.inusedBlocks ∪ res.toFinset =
        sm.inusedBlocks ∪ (blockNr :: res).toFinset := by
      rw [List.toFinset_cons, Finset.insert_union, Finset.union_insert]
    have hcur : sm.curBlocks + 1 + UInt64.ofNat res.length =
        sm.curBlocks + UInt64.ofNat (blockNr :: res).length := by
      rw [List.length_cons, UInt64.ofNat_add, UInt64.add_assoc,
        UInt64.add_comm 1]
      rfl
    rw [← hset, ← hcur]
    exact hrest.rest

instance : RightCommutative returnBlock where
  right_comm := returnBlock_comm

theorem takeBlock_of_top (htop : sm.freeList.top? = some blockNr) :
    sm.takeBlock = Except.ok (blockNr, sm.useBlock blockNr) := by
  unfold takeBlock
  rw [top_eq_ok.mpr htop]
  rfl

/-- While enough blocks are free the loop takes the smallest, and they can be given back. -/
theorem Booked.takeBlocks {n : Nat} (h : Booked sm) (hn : n ≤ sm.freeList.elems.length) :
    exists res sm', takeBlocks n sm = Except.ok (res, sm') ∧ res.length = n ∧
      TakesSmallest sm res sm' ∧ Booked sm' ∧ res.foldl SpaceManager.returnBlock sm' = sm := by
  induction n generalizing sm with
  | zero => exact ⟨[], sm, rfl, rfl, TakesSmallest.refl sm, h, rfl⟩
  | succ n ih =>
      cases htop : sm.freeList.top? with
      | none =>
          rw [MinHeap.top?_eq_none.mp htop] at hn
          cases hn
      | some blockNr =>
          have hunused : blockNr ∉ sm.inusedBlocks :=
            fun hused => h.apart blockNr hused (MinHeap.top?_mem htop)
          have hlength : n ≤ (sm.useBlock blockNr).freeList.elems.length := by
            rw [MinHeap.elems_of_top? htop, List.length_cons] at hn
            exact Nat.le_of_succ_le_succ hn
          rcases ih (h.useBlock htop) hlength with
            ⟨res, sm', hloop, hres, htakes, hbooked, hback⟩
          refine ⟨blockNr :: res, sm', ?_, ?_, htakes.cons h htop, hbooked, ?_⟩
          · rw [SpaceManager.takeBlocks, takeBlock_of_top htop, ok_bind]
            dsimp only
            rw [hloop]
            rfl
          · rw [List.length_cons, hres]
          · -- The block taken first may as well be given back last.
            have hperm : (blockNr :: res).Perm (res ++ [blockNr]) :=
              (List.perm_append_singleton blockNr res).symm
            rw [hperm.foldl_eq, List.foldl_append, hback]
            exact returnBlock_useBlock htop hunused

/-!
# How many blocks are needed
-/

/-- The number of blocks that hold {lit}`length` bytes. -/
def blocksNeeded (length blockSize : UInt64) : Nat :=
  (length.toNat + blockSize.toNat - 1) / blockSize.toNat

theorem blocksNeeded_eq_zero {length blockSize : UInt64} (hsize : 0 < blockSize.toNat) :
    blocksNeeded length blockSize = 0 <-> length = 0 := by
  unfold blocksNeeded
  rw [Nat.div_eq_zero_iff, ← UInt64.toNat_inj, UInt64.toNat_zero]
  omega

/--
The guard's word is the number of blocks needed, unless rounding up wraps around.  Then
the word is 0, and the blocks needed would cover the whole address space.
-/
theorem toAllocate_cases (length : UInt64) {blockSize : UInt64}
    (hsize : 0 < blockSize.toNat) :
    ((length + blockSize - 1) / blockSize).toNat = blocksNeeded length blockSize ∨
      ((length + blockSize - 1) / blockSize).toNat = 0 ∧
        2 ^ 64 / blockSize.toNat ≤ blocksNeeded length blockSize := by
  have hlength := length.toNat_lt
  have hblock := blockSize.toNat_lt
  have hround : (length + blockSize - 1).toNat =
      (length.toNat + blockSize.toNat - 1) % 2 ^ 64 := by
    rw [UInt64.toNat_sub, UInt64.toNat_add, UInt64.toNat_one]
    omega
  rw [UInt64.toNat_div, hround]
  by_cases hwrap : length.toNat + blockSize.toNat - 1 < 2 ^ 64
  · apply Or.inl
    rw [Nat.mod_eq_of_lt hwrap]
    rfl
  · apply Or.inr
    constructor
    · apply Nat.div_eq_of_lt
      omega
    · apply Nat.div_le_div_right
      omega

/-- A region never has as many blocks as the whole address space. -/
theorem Booked.totalBlocks_lt (h : Booked sm) {k : Nat} (hpower : sm.blockSize.toNat = 2 ^ k) :
    sm.totalBlocks.toNat < 2 ^ 64 / sm.blockSize.toNat := by
  have hk : k < 64 := by
    apply (Nat.pow_lt_pow_iff_right (show 1 < 2 by decide)).mp
    rw [← hpower]
    exact sm.blockSize.toNat_lt
  have hdvd : sm.blockSize.toNat ∣ 2 ^ 64 := by
    rw [hpower]
    exact Nat.pow_dvd_pow 2 (Nat.le_of_lt hk)
  rw [h.totalBlocks, UInt64.toNat_div]
  exact Nat.div_lt_div_of_lt_of_dvd hdvd sm.totalBytes.toNat_lt

/-!
# Whole runs
-/

theorem Booked.released (h : Booked sm) : { sm with spaceLock := false } = sm := by
  rw [← h.unlocked]

theorem Booked.reclaimSpace (h : Booked sm) {blockList : List UInt64}
    (hused : sm.InUse blockList) :
    sm.reclaimSpace blockList =
      Except.ok (true, blockList.foldl SpaceManager.returnBlock sm) := by
  unfold SpaceManager.reclaimSpace
  rw [lock_of_free h.unlocked, ok_bind]
  exact congrArg (fun sm => Except.ok (true, sm)) (h.returnBlocks hused).released

theorem Booked.reclaimInodeSpace (h : Booked sm) {file : Inode}
    (hused : sm.InUse (sm.ownBlocks file.blockInfoList)) :
    sm.reclaimInodeSpace (some file) =
      Except.ok (true, (sm.ownBlocks file.blockInfoList).foldl SpaceManager.returnBlock sm) := by
  unfold SpaceManager.reclaimInodeSpace
  rw [lock_of_free h.unlocked, ok_bind]
  show Except.ok (true, { sm.returnBlocks file.blockInfoList with spaceLock := false }) = _
  rw [returnBlocks_eq_foldl]
  exact congrArg (fun sm => Except.ok (true, sm)) (h.returnBlocks hused).released

theorem Booked.allocateOneBlock (h : Booked sm) (htop : sm.freeList.top? = some blockNr) :
    sm.allocateOneBlock = Except.ok (blockNr, sm.useBlock blockNr) := by
  unfold SpaceManager.allocateOneBlock
  rw [lock_of_free h.unlocked, ok_bind, takeBlock_of_top htop]
  exact congrArg (fun sm => Except.ok (blockNr, sm)) (h.useBlock htop).released

/-- How an {lit}`AllocateSpace` that needs {lit}`needed` blocks ends. -/
structure AllocatesSpace (sm : SpaceManager) (needed : Nat) (res : List UInt64)
    (sm' : SpaceManager) : Prop where
  cases : res = [] ∧ sm' = sm ∨ res.length = needed ∧ TakesSmallest sm res sm'
  refused : res = [] -> needed = 0 ∨ sm.freeList.elems.length < needed

/-- The blocks that the guard counts as spare are those of the free list. -/
theorem Booked.toNat_spare (h : Booked sm) :
    (sm.totalBlocks - sm.curBlocks).toNat = sm.freeList.elems.length := by
  have hcount := h.count
  rw [UInt64.toNat_sub_of_le, h.curBlocks]
  · omega
  · rw [UInt64.le_iff_toNat_le, h.curBlocks]
    omega

theorem divide_of_pos {x y : UInt64} (hpos : 0 < y.toNat) :
    divide x y = Except.ok (x / y) := by
  apply if_neg
  intro hzero
  rw [hzero] at hpos
  exact Nat.lt_irrefl 0 hpos

theorem AllocatesSpace.refuses {needed : Nat}
    (hneeded : sm.freeList.elems.length < needed) : AllocatesSpace sm needed [] sm where
  cases := Or.inl ⟨rfl, rfl⟩
  refused := fun _ => Or.inr hneeded

/-- Whatever the length, the loop takes no more blocks than are free. -/
theorem Booked.allocateSpace (h : Booked sm) {k : Nat}
    (hpower : sm.blockSize.toNat = 2 ^ k) (length : UInt64) :
    exists res sm', sm.allocateSpace length = Except.ok (res, sm') ∧
      AllocatesSpace sm (blocksNeeded length sm.blockSize) res sm' ∧ Booked sm' ∧
      res.foldl SpaceManager.returnBlock sm' = sm := by
  have hsize : 0 < sm.blockSize.toNat := by
    rw [hpower]
    exact Nat.two_pow_pos k
  have hcount := h.count
  have hcases := toAllocate_cases length hsize
  have hspace := h.totalBlocks_lt hpower
  unfold SpaceManager.allocateSpace
  rw [lock_of_free h.unlocked, ok_bind, divide_of_pos hsize, ok_bind]
  generalize (length + sm.blockSize - 1) / sm.blockSize = toAllocate at hcases
  by_cases hguard : toAllocate > sm.totalBlocks - sm.curBlocks
  · rw [if_pos hguard]
    rw [gt_iff_lt, UInt64.lt_iff_toNat_lt, h.toNat_spare] at hguard
    refine ⟨[], sm, ?_, AllocatesSpace.refuses (by omega), h, rfl⟩
    rw [h.released]
    rfl
  · rw [if_neg hguard]
    rw [gt_iff_lt, UInt64.lt_iff_toNat_lt, h.toNat_spare, not_lt] at hguard
    rcases h.takeBlocks hguard with ⟨res, sm', hloop, hres, htakes, hbooked, hback⟩
    refine ⟨res, sm', ?_, ?_, hbooked, hback⟩
    · rw [hloop, ok_bind]
      exact congrArg (fun sm => Except.ok (res, sm)) hbooked.released
    · cases hcases with
      | inl hneeded =>
          constructor
          · exact Or.inr ⟨hres.trans hneeded, htakes⟩
          · intro hnil
            apply Or.inl
            rw [← hneeded, ← hres, hnil]
            rfl
      | inr hwrap =>
          -- Rounding up wrapped around: nothing is taken, and nothing would have sufficed.
          rw [hwrap.left] at hres
          have hnil := List.length_eq_zero_iff.mp hres
          rw [hnil] at hback ⊢
          rw [show sm' = sm from hback]
          exact AllocatesSpace.refuses (by omega)

theorem TakesSmallest.inUse (h : TakesSmallest sm res sm') : sm'.InUse res where
  nodup := h.increasing.imp (fun hlt => UInt64.ne_of_lt hlt)
  used := by
    intro n hn
    rw [h.rest]
    exact Finset.mem_union_right _ (List.mem_toFinset.mpr hn)

/-!
## What every call leaves
-/

/-- The lock is free, and the size of a block and the node's number are as before. -/
structure Leaves (sm sm' : SpaceManager) : Prop where
  unlocked : sm'.spaceLock = false
  blockSize : sm'.blockSize = sm.blockSize
  serverId : sm'.serverId = sm.serverId

theorem Leaves.trans {sm'' : SpaceManager} (h : Leaves sm sm') (h' : Leaves sm' sm'') :
    Leaves sm sm'' where
  unlocked := h'.unlocked
  blockSize := h'.blockSize.trans h.blockSize
  serverId := h'.serverId.trans h.serverId

/-- Releasing the lock completes what a call leaves. -/
theorem leaves_released (hsize : sm'.blockSize = sm.blockSize)
    (hserver : sm'.serverId = sm.serverId) : Leaves sm { sm' with spaceLock := false } where
  unlocked := rfl
  blockSize := hsize
  serverId := hserver

theorem takeBlock_cases {result : UInt64 × SpaceManager}
    (htake : sm.takeBlock = Except.ok result) : result.2 = sm.useBlock result.1 := by
  rcases bind_eq_ok.mp htake with ⟨blockNr, _, hpure⟩
  cases hpure
  rfl

theorem takeBlocks_fields {n : Nat} {result : List UInt64 × SpaceManager}
    (hloop : takeBlocks n sm = Except.ok result) :
    result.2.blockSize = sm.blockSize ∧ result.2.serverId = sm.serverId := by
  induction n generalizing sm result with
  | zero =>
      cases hloop
      exact ⟨rfl, rfl⟩
  | succ n ih =>
      rcases bind_eq_ok.mp hloop with ⟨first, htake, hrest⟩
      rcases bind_eq_ok.mp hrest with ⟨rest, htail, hpure⟩
      cases hpure
      have hfields := ih htail
      rw [takeBlock_cases htake] at hfields
      exact hfields

theorem returnBlocks_fields (sm : SpaceManager) (blockList : List UInt64) :
    (blockList.foldl returnBlock sm).blockSize = sm.blockSize ∧
      (blockList.foldl returnBlock sm).serverId = sm.serverId := by
  induction blockList generalizing sm with
  | nil => exact ⟨rfl, rfl⟩
  | cons n rest ih => exact ih (sm.returnBlock n)

theorem leaves_perform {call : Call} {result : Result}
    (hperform : perform sm call = Except.ok (result, sm')) : Leaves sm sm' := by
  cases call with
  | allocateSpace length =>
      rcases bind_eq_ok.mp hperform with ⟨⟨res, sm1⟩, hcall, hpure⟩
      cases hpure
      rcases bind_eq_ok.mp hcall with ⟨_, _, hcall⟩
      rcases bind_eq_ok.mp hcall with ⟨toAllocate, _, hcall⟩
      split at hcall
      · cases hcall
        exact leaves_released rfl rfl
      · rcases bind_eq_ok.mp hcall with ⟨taken, hloop, hpure⟩
        cases hpure
        have hfields := takeBlocks_fields hloop
        exact leaves_released hfields.left hfields.right
  | allocateOneBlock =>
      rcases bind_eq_ok.mp hperform with ⟨⟨blockNr, sm1⟩, hcall, hpure⟩
      cases hpure
      rcases bind_eq_ok.mp hcall with ⟨_, _, hcall⟩
      rcases bind_eq_ok.mp hcall with ⟨taken, htake, hpure⟩
      cases hpure
      rw [takeBlock_cases htake]
      exact leaves_released rfl rfl
  | reclaimSpace blockList =>
      rcases bind_eq_ok.mp hperform with ⟨⟨success, sm1⟩, hcall, hpure⟩
      cases hpure
      rcases bind_eq_ok.mp hcall with ⟨_, _, hpure⟩
      cases hpure
      have hfields := returnBlocks_fields sm blockList
      exact leaves_released hfields.left hfields.right
  | reclaimInodeSpace inode =>
      rcases bind_eq_ok.mp hperform with ⟨⟨success, sm1⟩, hcall, hpure⟩
      cases hpure
      rcases bind_eq_ok.mp hcall with ⟨_, _, hcall⟩
      rcases bind_eq_ok.mp hcall with ⟨file, _, hpure⟩
      cases hpure
      have hfields := returnBlocks_fields sm (sm.ownBlocks file.blockInfoList)
      rw [← returnBlocks_eq_foldl] at hfields
      exact leaves_released hfields.left hfields.right

/-- A manager after a run still has its number and its size of a block. -/
theorem leaves_run {start : SpaceManager} (hstart : start.spaceLock = false)
    {calls : List Call} {results : List Result}
    (hrun : runFrom perform start calls = Except.ok (results, sm)) : Leaves start sm := by
  have hleaves : Leaves start start := ⟨hstart, rfl, rfl⟩
  exact run_invariant hleaves (fun _ _ _ _ h hperform => h.trans (leaves_perform hperform)) hrun

/-!
## The books along a run
-/

theorem Booked.perform (h : Booked sm) {k : Nat} (hpower : sm.blockSize.toNat = 2 ^ k)
    {call : Call} (hpermitted : Permitted sm call) {result : Result}
    (hperform : perform sm call = Except.ok (result, sm')) : Booked sm' := by
  cases call with
  | allocateSpace length =>
      rcases h.allocateSpace hpower length with ⟨res, sm1, hcall, _, hbooked, _⟩
      rcases bind_eq_ok.mp hperform with ⟨taken, hcall', hpure⟩
      cases hcall.symm.trans hcall'
      cases hpure
      exact hbooked
  | allocateOneBlock =>
      cases htop : sm.freeList.top? with
      | none => exact absurd (MinHeap.top?_eq_none.mp htop) hpermitted
      | some blockNr =>
          rcases bind_eq_ok.mp hperform with ⟨taken, hcall, hpure⟩
          cases (h.allocateOneBlock htop).symm.trans hcall
          cases hpure
          exact h.useBlock htop
  | reclaimSpace blockList =>
      rcases bind_eq_ok.mp hperform with ⟨reclaimed, hcall, hpure⟩
      cases (h.reclaimSpace hpermitted).symm.trans hcall
      cases hpure
      exact h.returnBlocks hpermitted
  | reclaimInodeSpace inode =>
      rcases hpermitted with ⟨file, rfl, hused⟩
      rcases bind_eq_ok.mp hperform with ⟨reclaimed, hcall, hpure⟩
      cases (h.reclaimInodeSpace hused).symm.trans hcall
      cases hpure
      exact h.returnBlocks hused

theorem booked_run {start : SpaceManager} (hstart : Booked start) {k : Nat}
    (hpower : start.blockSize.toNat = 2 ^ k) {calls : List Call} {results : List Result}
    (hpermitted : EveryStep perform start calls Permitted)
    (hrun : runFrom perform start calls = Except.ok (results, sm)) : Booked sm := by
  have keep : forall sm call result sm', Booked sm ∧ Leaves start sm -> Permitted sm call ->
      perform sm call = Except.ok (result, sm') -> Booked sm' ∧ Leaves start sm' := by
    intro sm call result sm' h hcall hperform
    have hpower' : sm.blockSize.toNat = 2 ^ k := by
      rw [h.right.blockSize]
      exact hpower
    constructor
    · exact h.left.perform hpower' hcall hperform
    · exact h.right.trans (leaves_perform hperform)
  have hall := hpermitted.everyState (by exact ⟨hstart, hstart.unlocked, rfl, rfl⟩) keep
  exact (hall.last hrun).left

/--
After any permitted calls on a manager whose blocks have a power of two as their size,
{lit}`AllocateSpace` of any length refuses and changes nothing, or moves as many of the
smallest free blocks as are needed from free to in use.  It refuses only if no block is
needed or more than are free, and giving back what it returned restores the manager.
-/
theorem allocateSpace_reclaimSpace {spaceStart spaceEnd blockSize serverId : UInt64}
    (hpower : exists k, blockSize.toNat = 2 ^ k) {calls : List Call}
    (hpermitted : EveryStep perform (make spaceStart spaceEnd blockSize serverId) calls
      Permitted)
    {results : List Result}
    (hrun : runFrom perform (make spaceStart spaceEnd blockSize serverId) calls =
      Except.ok (results, sm)) (length : UInt64) :
    exists res sm', sm.allocateSpace length = Except.ok (res, sm') ∧
      (res = [] ∧ sm' = sm ∨
        res.length = blocksNeeded length blockSize ∧ TakesSmallest sm res sm') ∧
      (res = [] -> length = 0 ∨ sm.freeList.elems.length < blocksNeeded length blockSize) ∧
      sm'.reclaimSpace res = Except.ok (true, sm) := by
  rcases hpower with ⟨k, hpower⟩
  have hbooked := booked_run (booked_make spaceStart spaceEnd blockSize serverId) hpower
    hpermitted hrun
  have hsize : sm.blockSize = blockSize := (leaves_run rfl hrun).blockSize
  have hpos : 0 < blockSize.toNat := by
    rw [hpower]
    exact Nat.two_pow_pos k
  rcases hbooked.allocateSpace (hsize ▸ hpower) length with
    ⟨res, sm', hcall, hallocates, hbooked', hback⟩
  rw [hsize] at hallocates
  refine ⟨res, sm', hcall, hallocates.cases, ?_, ?_⟩
  · intro hnil
    cases hallocates.refused hnil with
    | inl hzero => exact Or.inl ((blocksNeeded_eq_zero hpos).mp hzero)
    | inr hmany => exact Or.inr hmany
  · have hused : sm'.InUse res := by
      cases hallocates.cases with
      | inl hrefused =>
          rw [hrefused.left]
          constructor
          · exact List.nodup_nil
          · intro n hn
            cases hn
      | inr htaken => exact htaken.right.inUse
    rw [hbooked'.reclaimSpace hused, hback]

/-- Eight blocks; five are taken, and two of them are given back. -/
def reusedCalls : List Call :=
  [Call.allocateSpace 3145729, Call.allocateOneBlock, Call.reclaimSpace [2, 1]]

theorem allocateSpace_reclaimSpace_reused :
    exists results sm res sm',
      runFrom perform (make 0 8388607 1048576 1) reusedCalls = Except.ok (results, sm) ∧
      sm.allocateSpace 2097153 = Except.ok (res, sm') ∧ res = [1, 2, 5] ∧
      TakesSmallest sm res sm' ∧ sm'.reclaimSpace res = Except.ok (true, sm) := by
  have hpass : passes (runFrom perform (make 0 8388607 1048576 1) reusedCalls)
      (fun run => passes (run.2.allocateSpace 2097153)
        (fun taken => decide (taken.1 = [1, 2, 5]))) = true := by
    decide +kernel
  rcases exists_of_passes hpass with ⟨⟨results, sm⟩, hrun, htest⟩
  rcases exists_of_passes htest with ⟨⟨res, sm1⟩, hcall, hres⟩
  have hres : res = [1, 2, 5] := of_decide_eq_true hres
  have hpermitted : EveryStep perform (make 0 8388607 1048576 1) reusedCalls Permitted :=
    everyStep_of_stepsMeet (by decide +kernel)
  rcases allocateSpace_reclaimSpace ⟨20, rfl⟩ hpermitted hrun 2097153 with
    ⟨res', sm', hcall', hcases, _, hback⟩
  cases hcall.symm.trans hcall'
  refine ⟨results, sm, res, sm1, hrun, hcall, hres, ?_, hback⟩
  cases hcases with
  | inl hrefused => cases hres.symm.trans hrefused.left
  | inr htaken => exact htaken.right

end SpaceManager
end Fs
end SpongeBob
