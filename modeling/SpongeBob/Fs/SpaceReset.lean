import SpongeBob.Fs.SpaceRuns

/-!
# Resetting a space manager

{lit}`ResetSpaceRange` repeats the work of the constructor on a manager that has a
history.  It leaves out the set of blocks in use and their count.  The set is written
only, but the count is one side of the guard of {lit}`AllocateSpace`.
-/

namespace SpongeBob
namespace Fs

open Foundation

namespace SpaceManager

/-- The manager that would be constructed for the same range, in place of a reset. -/
def rebuilt (sm : SpaceManager) (startAddr length : UInt64) : SpaceManager :=
  make startAddr (startAddr + length - 1) sm.blockSize sm.serverId

variable {sm s t : SpaceManager}

/-- A reset differs from a new manager in the set and the count, and in nothing else. -/
theorem resetSpaceRange_eq (h : sm.spaceLock = false) (startAddr length : UInt64) :
    sm.resetSpaceRange startAddr length =
      { sm.rebuilt startAddr length with
        inusedBlocks := sm.inusedBlocks
        curBlocks := sm.curBlocks } := by
  cases sm with
  | mk inusedBlocks freeList spaceLock _ _ _ _ _ _ _ =>
      cases h
      rfl

theorem resetSpaceRange_eq_rebuilt_iff (h : sm.spaceLock = false)
    (startAddr length : UInt64) :
    sm.resetSpaceRange startAddr length = sm.rebuilt startAddr length <->
      sm.inusedBlocks = ∅ ∧ sm.curBlocks = 0 := by
  constructor
  · intro heq
    constructor
    · exact congrArg inusedBlocks heq
    · exact congrArg curBlocks heq
  · rintro ⟨hused, hcur⟩
    rw [resetSpaceRange_eq h, hused, hcur]
    rfl

/-!
# The set of blocks in use

No result depends on it.
-/

/-- The managers differ at most in the set of blocks in use. -/
def SameButUsed (s t : SpaceManager) : Prop :=
  t = { s with inusedBlocks := t.inusedBlocks }

theorem SameButUsed.useBlock (h : SameButUsed s t) (blockNr : UInt64) :
    SameButUsed (s.useBlock blockNr) (t.useBlock blockNr) := by
  unfold SameButUsed at h
  rw [h]
  rfl

theorem SameButUsed.returnBlock (h : SameButUsed s t) (blockNr : UInt64) :
    SameButUsed (s.returnBlock blockNr) (t.returnBlock blockNr) := by
  unfold SameButUsed at h
  rw [h]
  rfl

theorem SameButUsed.released (h : SameButUsed s t) :
    SameButUsed { s with spaceLock := false } { t with spaceLock := false } := by
  unfold SameButUsed at h
  rw [h]
  rfl

theorem SameButUsed.returnBlocks (h : SameButUsed s t) (blockList : List UInt64) :
    SameButUsed (blockList.foldl SpaceManager.returnBlock s)
      (blockList.foldl SpaceManager.returnBlock t) := by
  induction blockList generalizing s t with
  | nil => exact h
  | cons n rest ih => exact ih (h.returnBlock n)

theorem SameButUsed.freeList (h : SameButUsed s t) : t.freeList = s.freeList := by
  rw [h]

theorem SameButUsed.takeBlock (h : SameButUsed s t) :
    Alike SameButUsed s.takeBlock t.takeBlock := by
  unfold SpaceManager.takeBlock
  rw [h.freeList]
  cases top s.freeList with
  | error e => exact Alike.fault e
  | ok blockNr => exact Alike.ok blockNr (h.useBlock blockNr)

theorem SameButUsed.takeBlocks (h : SameButUsed s t) (n : Nat) :
    Alike SameButUsed (takeBlocks n s) (takeBlocks n t) := by
  induction n generalizing s t with
  | zero => exact Alike.ok [] h
  | succ n ih =>
      apply h.takeBlock.bind
      intro blockNr s t h
      apply (ih h).bind
      intro res s t h
      exact Alike.ok (blockNr :: res) h

theorem SameButUsed.allocateSpace (h : SameButUsed s t) (length : UInt64) :
    Alike SameButUsed (s.allocateSpace length) (t.allocateSpace length) := by
  have hspare : t.totalBlocks - t.curBlocks = s.totalBlocks - s.curBlocks := by rw [h]
  unfold SpaceManager.allocateSpace
  apply alike_bind
  · rw [h]
  intro _
  apply alike_bind
  · rw [h]
  intro toAllocate
  by_cases hguard : toAllocate > s.totalBlocks - s.curBlocks
  · rw [if_pos hguard, if_pos (hspare ▸ hguard)]
    exact Alike.ok [] h.released
  · rw [if_neg hguard, if_neg (hspare ▸ hguard)]
    apply (h.takeBlocks toAllocate.toNat).bind
    intro res s t h
    exact Alike.ok res h.released

theorem SameButUsed.allocateOneBlock (h : SameButUsed s t) :
    Alike SameButUsed s.allocateOneBlock t.allocateOneBlock := by
  unfold SpaceManager.allocateOneBlock
  apply alike_bind
  · rw [h]
  intro _
  apply h.takeBlock.bind
  intro blockNr s t h
  exact Alike.ok blockNr h.released

theorem SameButUsed.reclaimSpace (h : SameButUsed s t) (blockList : List UInt64) :
    Alike SameButUsed (s.reclaimSpace blockList) (t.reclaimSpace blockList) := by
  unfold SpaceManager.reclaimSpace
  apply alike_bind
  · rw [h]
  intro _
  exact Alike.ok true (h.returnBlocks blockList).released

theorem SameButUsed.reclaimInodeSpace (h : SameButUsed s t) (inode : Option Inode) :
    Alike SameButUsed (s.reclaimInodeSpace inode) (t.reclaimInodeSpace inode) := by
  have hserver : t.serverId = s.serverId := by rw [h]
  unfold SpaceManager.reclaimInodeSpace
  apply alike_bind
  · rw [h]
  intro _
  apply alike_bind rfl
  intro file
  simp only [returnBlocks_eq_foldl, ownBlocks, hserver]
  exact Alike.ok true (h.returnBlocks _).released

theorem SameButUsed.perform (h : SameButUsed s t) (call : Call) :
    Alike SameButUsed (perform s call) (perform t call) := by
  cases call with
  | allocateSpace length =>
      apply (h.allocateSpace length).bind
      intro res s t h
      exact Alike.ok (Result.blocks res) h
  | allocateOneBlock =>
      apply h.allocateOneBlock.bind
      intro blockNr s t h
      exact Alike.ok (Result.block blockNr) h
  | reclaimSpace blockList =>
      apply (h.reclaimSpace blockList).bind
      intro success s t h
      exact Alike.ok (Result.success success) h
  | reclaimInodeSpace inode =>
      apply (h.reclaimInodeSpace inode).bind
      intro success s t h
      exact Alike.ok (Result.success success) h

/-!
# The count

A stale count shows as soon as enough single blocks are asked for: the guard refuses
one too early, or lets the loop take one from an empty free list.
-/

/-- Asking for one byte asks for one block. -/
def oneByte : Call := Call.allocateSpace 1

theorem oneByte_needs {blockSize : UInt64} (hsize : blockSize ≠ 0) :
    divide (1 + blockSize - 1) blockSize = Except.ok 1 := by
  have hpos : 0 < blockSize.toNat := by
    apply Nat.pos_of_ne_zero
    intro hzero
    exact hsize (UInt64.toNat_inj.mp hzero)
  have hquot : blockSize / blockSize = 1 := by
    apply UInt64.toNat_inj.mp
    rw [UInt64.toNat_div, Nat.div_self hpos]
    rfl
  rw [UInt64.add_comm, UInt64.add_sub_cancel, divide, if_neg hsize, hquot]

theorem one_le_sub_iff {total cur : UInt64} : ¬ 1 > total - cur <-> cur ≠ total := by
  have htotal := total.toNat_lt
  have hcur := cur.toNat_lt
  rw [gt_iff_lt, UInt64.lt_iff_toNat_lt, UInt64.toNat_sub, UInt64.toNat_one, ne_eq,
    ← UInt64.toNat_inj]
  omega

theorem perform_oneByte_of_full (hlock : sm.spaceLock = false) (hsize : sm.blockSize ≠ 0)
    (hfull : sm.curBlocks = sm.totalBlocks) :
    perform sm oneByte = Except.ok (Result.blocks [], sm) := by
  have hguard : 1 > sm.totalBlocks - sm.curBlocks := by
    rw [← not_not (a := 1 > sm.totalBlocks - sm.curBlocks), one_le_sub_iff]
    exact not_not.mpr hfull
  have hreleased : { sm with spaceLock := false } = sm := by rw [← hlock]
  unfold oneByte perform SpaceManager.allocateSpace
  simp only [lock_of_free hlock, oneByte_needs hsize, ok_bind, if_pos hguard, hreleased]
  rfl

theorem perform_oneByte_of_room (hlock : sm.spaceLock = false) (hsize : sm.blockSize ≠ 0)
    (hroom : sm.curBlocks ≠ sm.totalBlocks) :
    perform sm oneByte =
      (top sm.freeList).map (fun blockNr => (Result.blocks [blockNr], sm.useBlock blockNr)) := by
  have hguard := one_le_sub_iff.mpr hroom
  unfold oneByte perform SpaceManager.allocateSpace
  simp only [lock_of_free hlock, oneByte_needs hsize, ok_bind, if_neg hguard]
  show ((takeBlocks 1 sm >>= _) >>= _) = _
  unfold SpaceManager.takeBlocks SpaceManager.takeBlock
  cases top sm.freeList with
  | error e => rfl
  | ok blockNr =>
      have hreleased : { sm.useBlock blockNr with spaceLock := false } = sm.useBlock blockNr := by
        rw [← hlock]
        rfl
      exact congrArg (fun sm => Except.ok (Result.blocks [blockNr], sm)) hreleased

/-- The same blocks are free in both; the count of {lit}`t` is right, that of {lit}`s` is not. -/
structure Stale (s t : SpaceManager) : Prop where
  unlocked : s.spaceLock = false
  unlocked' : t.spaceLock = false
  blockSize : s.blockSize ≠ 0
  blockSize' : t.blockSize ≠ 0
  totalBlocks : s.totalBlocks = t.totalBlocks
  freeList : s.freeList = t.freeList
  count : t.curBlocks.toNat + t.freeList.elems.length = t.totalBlocks.toNat
  curBlocks : s.curBlocks ≠ t.curBlocks

theorem Stale.useBlock (h : Stale s t) {blockNr : UInt64}
    (htop : t.freeList.top? = some blockNr) :
    Stale (s.useBlock blockNr) (t.useBlock blockNr) where
  unlocked := h.unlocked
  unlocked' := h.unlocked'
  blockSize := h.blockSize
  blockSize' := h.blockSize'
  totalBlocks := h.totalBlocks
  freeList := congrArg MinHeap.pop h.freeList
  count := by
    show (t.curBlocks + 1).toNat + t.freeList.pop.elems.length = t.totalBlocks.toNat
    have hcount := h.count
    have hlt := t.totalBlocks.toNat_lt
    rw [MinHeap.elems_of_top? htop, List.length_cons] at hcount
    rw [UInt64.toNat_add, UInt64.toNat_one]
    omega
  curBlocks := fun heq => h.curBlocks ((UInt64.add_left_inj 1).mp heq)

/-- When no block is free the right count refuses, and the stale one runs into the heap. -/
theorem Stale.differ_empty (h : Stale s t) (hfree : t.freeList.elems = []) :
    outputs perform s [oneByte] ≠ outputs perform t [oneByte] := by
  have hcount := h.count
  rw [hfree, List.length_nil, Nat.add_zero] at hcount
  have hfull : t.curBlocks = t.totalBlocks := UInt64.toNat_inj.mp hcount
  have hroom : s.curBlocks ≠ s.totalBlocks := by
    rw [h.totalBlocks, ← hfull]
    exact h.curBlocks
  have hempty : top s.freeList = Except.error Fault.emptyHeap := by
    unfold top
    rw [h.freeList, MinHeap.top?_eq_none.mpr hfree]
  have hs := perform_oneByte_of_room h.unlocked h.blockSize hroom
  rw [hempty] at hs
  have ht := perform_oneByte_of_full h.unlocked' h.blockSize' hfull
  rw [outputs_cons_of_fault hs, outputs_cons ht]
  intro heq
  cases heq

/-- When a block is free the right count gives it. -/
theorem Stale.gives (h : Stale s t) {blockNr : UInt64}
    (htop : t.freeList.top? = some blockNr) :
    perform t oneByte = Except.ok (Result.blocks [blockNr], t.useBlock blockNr) := by
  have hcount := h.count
  rw [MinHeap.elems_of_top? htop, List.length_cons] at hcount
  have hroom : t.curBlocks ≠ t.totalBlocks := by
    intro heq
    rw [heq] at hcount
    omega
  rw [perform_oneByte_of_room h.unlocked' h.blockSize' hroom, top_eq_ok.mpr htop]
  rfl

/-- Some number of single blocks tells the two apart. -/
theorem Stale.differ (h : Stale s t) : exists n,
    outputs perform s (List.replicate n oneByte) ≠
      outputs perform t (List.replicate n oneByte) := by
  generalize hfree : t.freeList.elems = free
  induction free generalizing s t with
  | nil =>
      exists 1
      exact h.differ_empty hfree
  | cons blockNr rest ih =>
      have htop : t.freeList.top? = some blockNr := by
        unfold MinHeap.top?
        rw [hfree]
        rfl
      have ht := h.gives htop
      by_cases hfull : s.curBlocks = s.totalBlocks
      · exists 1
        rw [List.replicate_one,
          outputs_cons (perform_oneByte_of_full h.unlocked h.blockSize hfull), outputs_cons ht]
        intro heq
        cases heq
      · have hs := perform_oneByte_of_room h.unlocked h.blockSize hfull
        rw [h.freeList, top_eq_ok.mpr htop] at hs
        have hrest : (t.useBlock blockNr).freeList.elems = rest := by
          show t.freeList.elems.tail = rest
          rw [hfree]
          rfl
        rcases ih (h.useBlock htop) hrest with ⟨n, hn⟩
        exists n + 1
        rw [List.replicate_succ]
        intro heq
        -- Both runs begin with the same block, so they differ after it.
        exact hn (outputs_rest hs ht heq)

/-!
# Every reset
-/

/-- A reset manager answers like a new one exactly if its count is zero. -/
theorem outputs_reset_iff (hlock : sm.spaceLock = false) (hsize : sm.blockSize ≠ 0)
    (startAddr length : UInt64) :
    (forall later, outputs perform (sm.resetSpaceRange startAddr length) later =
      outputs perform (sm.rebuilt startAddr length) later) <-> sm.curBlocks = 0 := by
  rw [resetSpaceRange_eq hlock]
  constructor
  · intro hsame
    by_cases hcur : sm.curBlocks = 0
    · exact hcur
    · have hbooked : Booked (sm.rebuilt startAddr length) := booked_make _ _ _ _
      have hstale : Stale { sm.rebuilt startAddr length with
          inusedBlocks := sm.inusedBlocks
          curBlocks := sm.curBlocks } (sm.rebuilt startAddr length) := by
        constructor
        · rfl
        · rfl
        · exact hsize
        · exact hsize
        · rfl
        · rfl
        · rw [hbooked.curBlocks, ← hbooked.count]
          exact Nat.add_comm _ _
        · exact hcur
      rcases hstale.differ with ⟨n, hn⟩
      exact absurd (hsame _) hn
  · intro hcur later
    apply (outputs_eq_of_alike (fun s t call h => SameButUsed.perform h call) _ later).symm
    show SameButUsed (sm.rebuilt startAddr length) _
    unfold SameButUsed
    rw [hcur]
    rfl

/--
After any calls on a manager, a reset to any range leaves it as a new manager for the
range, which answers all later calls alike, exactly if no block was in use and the
count was zero.  The answers alone are alike exactly if the count was.
-/
theorem resetSpaceRange_iff {spaceStart spaceEnd blockSize serverId : UInt64}
    (hsize : blockSize ≠ 0) {calls : List Call} {results : List Result}
    (hrun : runFrom perform (make spaceStart spaceEnd blockSize serverId) calls =
      Except.ok (results, sm)) (startAddr length : UInt64) :
    ((sm.resetSpaceRange startAddr length =
          make startAddr (startAddr + length - 1) blockSize serverId ∧
        forall later, outputs perform (sm.resetSpaceRange startAddr length) later =
          outputs perform (make startAddr (startAddr + length - 1) blockSize serverId)
            later) <->
      sm.inusedBlocks = ∅ ∧ sm.curBlocks = 0) ∧
    ((forall later, outputs perform (sm.resetSpaceRange startAddr length) later =
        outputs perform (make startAddr (startAddr + length - 1) blockSize serverId)
          later) <->
      sm.curBlocks = 0) := by
  have hleaves := leaves_run rfl hrun
  have hsize' : sm.blockSize = blockSize := hleaves.blockSize
  have hserver' : sm.serverId = serverId := hleaves.serverId
  have hmake : make startAddr (startAddr + length - 1) blockSize serverId =
      sm.rebuilt startAddr length := by
    rw [← hsize', ← hserver']
    rfl
  rw [hmake]
  have hiff := resetSpaceRange_eq_rebuilt_iff hleaves.unlocked startAddr length
  constructor
  · constructor
    · intro hboth
      exact hiff.mp hboth.left
    · intro hclear
      have heq := hiff.mpr hclear
      constructor
      · exact heq
      · intro later
        rw [heq]
  · exact outputs_reset_iff hleaves.unlocked (hsize'.symm ▸ hsize) startAddr length

/-- After one block was taken, a reset manager of four blocks refuses to give four. -/
theorem resetSpaceRange_refuses :
    exists results sm,
      runFrom perform (make 0 4194303 1048576 1) [Call.allocateOneBlock] =
        Except.ok (results, sm) ∧
      outputs perform (sm.resetSpaceRange 0 4194304) [Call.allocateSpace 4194304] =
        Except.ok [Result.blocks []] ∧
      outputs perform (make 0 4194303 1048576 1) [Call.allocateSpace 4194304] =
        Except.ok [Result.blocks [0, 1, 2, 3]] ∧
      sm.resetSpaceRange 0 4194304 ≠ make 0 (0 + 4194304 - 1) 1048576 1 := by
  have hpass : passes (runFrom perform (make 0 4194303 1048576 1) [Call.allocateOneBlock])
      (fun run =>
        passes (outputs perform (run.2.resetSpaceRange 0 4194304) [Call.allocateSpace 4194304])
          (fun outs => decide (outs = [Result.blocks []])) &&
        decide ((run.2.resetSpaceRange 0 4194304).curBlocks = 1)) = true := by
    decide +kernel
  rcases exists_of_passes hpass with ⟨⟨results, sm⟩, hrun, htest⟩
  rw [Bool.and_eq_true] at htest
  rcases exists_of_passes htest.left with ⟨outs, houts, hrefused⟩
  have hcur : (sm.resetSpaceRange 0 4194304).curBlocks = 1 := of_decide_eq_true htest.right
  have hfresh : passes
      (outputs perform (make 0 4194303 1048576 1) [Call.allocateSpace 4194304])
      (fun outs => decide (outs = [Result.blocks [0, 1, 2, 3]])) = true := by
    decide +kernel
  rcases exists_of_passes hfresh with ⟨outs', houts', hgiven⟩
  refine ⟨results, sm, hrun, ?_, ?_, ?_⟩
  · rw [houts, of_decide_eq_true hrefused]
  · rw [houts', of_decide_eq_true hgiven]
  · intro heq
    rw [heq] at hcur
    cases hcur

theorem resetSpaceRange_iff_given_back :
    exists results sm,
      runFrom perform (make 0 4194303 1048576 1)
        [Call.allocateSpace 2097152, Call.reclaimSpace [0, 1]] = Except.ok (results, sm) ∧
      sm.resetSpaceRange 8388608 2097152 = make 8388608 (8388608 + 2097152 - 1) 1048576 1 := by
  have hpass : passes (runFrom perform (make 0 4194303 1048576 1)
      [Call.allocateSpace 2097152, Call.reclaimSpace [0, 1]])
      (fun run => decide (run.2.inusedBlocks = ∅ ∧ run.2.curBlocks = 0)) = true := by
    decide +kernel
  rcases exists_of_passes hpass with ⟨⟨results, sm⟩, hrun, htest⟩
  have hiff := resetSpaceRange_iff (by decide) hrun 8388608 2097152
  exact ⟨results, sm, hrun, (hiff.left.mpr (of_decide_eq_true htest)).left⟩

end SpaceManager
end Fs
end SpongeBob
