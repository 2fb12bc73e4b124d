import SpongeBob.Metadata.Addressing
import SpongeBob.Metadata.Ranges

/-!
# When a write completes

Two of the faults of a write mean that the nodes have no block left: a node's free
list is empty, or no node is registered.  Short of these, whether a write completes
depends on three things: an inode for the name, an end of the range that survives
rounding up, and a number of new blocks that fits an {lit}`int`.
-/

namespace SpongeBob
namespace Metadata

open Foundation
open Fs
open MetadataServiceImpl

variable {hash : String -> UInt64} {s s' : MetadataServiceImpl}

/-- The computation does not stop for lack of free blocks. -/
def FindsBlocks {alpha : Type} (x : Except Fault alpha) : Prop :=
  x ≠ Except.error Fault.emptyHeap ∧ x ≠ Except.error Fault.divisionByZero

theorem findsBlocks_ok {alpha : Type} (a : alpha) :
    FindsBlocks (Except.ok a : Except Fault alpha) := by
  constructor
  · intro h
    cases h
  · intro h
    cases h

theorem ne_error_of_bind {alpha beta : Type} {x : Except Fault alpha}
    {f : alpha -> Except Fault beta} {e : Fault} (h : (x >>= f) ≠ Except.error e) :
    x ≠ Except.error e := by
  rintro rfl
  exact h rfl

theorem FindsBlocks.of_bind {alpha beta : Type} {x : Except Fault alpha}
    {f : alpha -> Except Fault beta} (h : FindsBlocks (x >>= f)) : FindsBlocks x :=
  ⟨ne_error_of_bind h.left, ne_error_of_bind h.right⟩

/-!
# The allocation loop
-/

/-- A random index lies within the table of managers. -/
theorem randInt_lt {n rand r : Nat} (hrand : randInt n rand = Except.ok r) : r < n := by
  unfold randInt at hrand
  dsimp only at hrand
  split at hrand
  · cases hrand
  · rename_i hne
    cases hrand
    have hpos : 0 < (Word.toInt (UInt64.ofNat n)).natAbs := Int.natAbs_pos.mpr hne
    have hlt := Nat.mod_lt rand hpos
    refine Nat.lt_of_lt_of_le hlt ?_
    have hmod : (UInt64.ofNat n).toNat ≤ n := by
      rw [UInt64.toNat_ofNat']
      exact Nat.mod_le _ _
    refine le_trans ?_ hmod
    unfold Word.toInt
    rw [Int.bmod_def]
    split <;> omega

/-- The number of registered nodes, as an {lit}`int`, can be divided by. -/
def HasNodes (s : MetadataServiceImpl) : Prop :=
  Word.toInt (UInt64.ofNat s.spaceManager.size) ≠ 0

instance (s : MetadataServiceImpl) : Decidable (HasNodes s) :=
  inferInstanceAs (Decidable (_ ≠ _))

/-- The node that the allocation loop draws. -/
def drawn (s : MetadataServiceImpl) (rand : Nat) : Int :=
  s.spaceManager.keys[rand % (Word.toInt (UInt64.ofNat s.spaceManager.size)).natAbs]?.getD (-1)

theorem randInt_eq (hnodes : HasNodes s) (rand : Nat) :
    randInt s.spaceManager.size rand =
      Except.ok (rand % (Word.toInt (UInt64.ofNat s.spaceManager.size)).natAbs) := by
  unfold randInt
  dsimp only
  rw [if_neg hnodes]

/-- With nodes to draw from, a node is drawn. -/
theorem manager?_drawn (hnodes : HasNodes s) (rand : Nat) :
    exists sm, s.manager? (drawn s rand) = some sm := by
  have hlt : rand % (Word.toInt (UInt64.ofNat s.spaceManager.size)).natAbs <
      s.spaceManager.keys.length := by
    rw [Std.ExtTreeMap.length_keys]
    exact randInt_lt (randInt_eq hnodes rand)
  have hkey : drawn s rand ∈ s.spaceManager := by
    unfold drawn
    rw [List.getElem?_eq_getElem hlt]
    exact Std.ExtTreeMap.mem_keys.mp (List.getElem_mem hlt)
  exact Option.isSome_iff_exists.mp (Std.ExtTreeMap.mem_iff_isSome_getElem?.mp hkey)

/-- A round of the loop takes the top of the free list of the node that is drawn. -/
theorem appendBlock_eq (hu : Unlocked s) (hnodes : HasNodes s) {inum : UInt64}
    {rand : Nat} {file : Inode} {sm : SpaceManager} {blockNr : UInt64}
    (hsm : s.manager? (drawn s rand) = some sm)
    (htop : sm.freeList.top? = some blockNr) (hfile : s.inode? inum = some file) :
    s.appendBlock inum rand = Except.ok (s.appended (drawn s rand) sm inum file blockNr) := by
  unfold appendBlock
  rw [randInt_eq hnodes, ok_bind]
  dsimp only
  have hlock := hu.managers _ sm hsm
  refine bind_eq_ok.mpr ⟨sm, deref_eq_ok.mpr hsm, ?_⟩
  rw [(allocateOneBlock_eq_ok hlock).mpr ⟨htop, rfl⟩, ok_bind]
  exact bind_eq_ok.mpr ⟨file, deref_eq_ok.mpr hfile, rfl⟩

/-- A round of the loop that is not stopped by a division found a node. -/
theorem hasNodes_of_appendBlock {inum : UInt64} {rand : Nat}
    (h : s.appendBlock inum rand ≠ Except.error Fault.divisionByZero) : HasNodes s := by
  intro hzero
  apply h
  unfold appendBlock randInt
  dsimp only
  rw [if_pos hzero]
  rfl

theorem hasNodes_of_appendBlocks {inum : UInt64} {n : Nat} {rands : Nat -> Nat}
    (h : appendBlocks inum n rands s ≠ Except.error Fault.divisionByZero) :
    n = 0 ∨ HasNodes s := by
  cases n with
  | zero => exact Or.inl rfl
  | succ n =>
      rw [appendBlocks] at h
      exact Or.inr (hasNodes_of_appendBlock (ne_error_of_bind h))

theorem appendBlock_complete (hu : Unlocked s) {inum : UInt64} {rand : Nat} {file : Inode}
    (hfile : s.inode? inum = some file) (hnodes : HasNodes s)
    (hfinds : s.appendBlock inum rand ≠ Except.error Fault.emptyHeap) :
    exists s', s.appendBlock inum rand = Except.ok s' := by
  rcases manager?_drawn hnodes rand with ⟨sm, hsm⟩
  cases htop : sm.freeList.top? with
  | some blockNr => exact ⟨_, appendBlock_eq hu hnodes hsm htop hfile⟩
  | none =>
      have hempty : sm.allocateOneBlock = Except.error Fault.emptyHeap := by
        unfold SpaceManager.allocateOneBlock SpaceManager.takeBlock top
        rw [lock_of_free (hu.managers _ sm hsm), htop]
        rfl
      have hderef : deref s.spaceManager[drawn s rand]? = Except.ok sm := deref_eq_ok.mpr hsm
      apply absurd _ hfinds
      unfold appendBlock
      rw [randInt_eq hnodes, ok_bind]
      dsimp only
      unfold drawn at hderef
      rw [hderef, ok_bind, hempty]
      rfl

/-- Taking a block from a node does not change how many nodes there are. -/
theorem hasNodes_appended {key : Int} {sm : SpaceManager} (hsm : s.manager? key = some sm)
    (inum : UInt64) (file : Inode) (blockNr : UInt64) (hnodes : HasNodes s) :
    HasNodes (s.appended key sm inum file blockNr) := by
  have hmem : key ∈ s.spaceManager :=
    Std.ExtTreeMap.mem_iff_isSome_getElem?.mpr (Option.isSome_of_eq_some hsm)
  unfold HasNodes
  rw [show (s.appended key sm inum file blockNr).spaceManager =
    s.spaceManager.insert key (sm.useBlock blockNr) from rfl, TreeMap.size_insert_of_mem hmem]
  exact hnodes

theorem appendBlocks_complete (n : Nat) {inum : UInt64} {rands : Nat -> Nat} {file : Inode}
    (hwf : WellFormed hash s) (hfile : s.inode? inum = some file)
    (hroom : file.blockInfoList.length + n < 2 ^ 44) (hnodes : n = 0 ∨ HasNodes s)
    (hfinds : appendBlocks inum n rands s ≠ Except.error Fault.emptyHeap) :
    exists s', appendBlocks inum n rands s = Except.ok s' := by
  induction n generalizing s rands file with
  | zero => exact ⟨s, rfl⟩
  | succ n ih =>
      have hnodes : HasNodes s := hnodes.resolve_left (Nat.succ_ne_zero n)
      unfold appendBlocks at hfinds ⊢
      rcases appendBlock_complete hwf.unlocked hfile hnodes (ne_error_of_bind hfinds) with
        ⟨s1, hone⟩
      rw [hone, ok_bind] at hfinds ⊢
      rcases appendBlock_acts hash hwf.unlocked hfile (by omega) hone with
        ⟨key, sm, blockNr, hsm, rfl, hact, hfile1⟩
      apply ih (hact.wellFormed hwf) hfile1 _
        (Or.inr (hasNodes_appended hsm inum file blockNr hnodes)) hfinds
      rw [length_appendFileBlockInfo]
      omega

/-!
# An inode for the name
-/

/-- The name has an inode, or it is absent and an inode is free. -/
def HasInode (hash : String -> UInt64) (s : MetadataServiceImpl) (name : String) : Prop :=
  match s.child? (hash name) with
  | some d => exists file, s.inode? d.inum = some file
  | none => s.inodeTable.curSize ≠ s.inodeTable.totalSize

/-- The number of blocks that the file of a name has; none if there is no such file. -/
def blockCount (hash : String -> UInt64) (s : MetadataServiceImpl) (name : String) : Nat :=
  match (s.child? (hash name)).bind (fun d => s.inode? d.inum) with
  | some file => file.blockInfoList.length
  | none => 0

/-- Making a file for a name does not touch the nodes. -/
theorem Ensured.hasNodes_iff {name : String} (h : Ensured hash name s s') :
    HasNodes s' <-> HasNodes s := by
  cases h with
  | present hold => rfl
  | created hold hact =>
      cases hact
      rfl
  | full hold hact =>
      cases hact
      rfl

theorem enterInode_complete (name : String) (type : FileType) (hwf : WellFormed hash s)
    (hfree : s.inodeTable.curSize ≠ s.inodeTable.totalSize) :
    exists inum s', s.enterInode hash name type = Except.ok (inum, s') := by
  rcases hwf.directory.root with ⟨root, hroot⟩
  rcases hwf.balanced.exists_top hfree with ⟨inum, htop⟩
  have hne := (free_ne hwf.balanced hwf.directory.root (MinHeap.top?_mem htop)).left
  have hroot' : (s.allocated type inum).inode? rootInum = some root := by
    rw [inode?_allocated, if_neg hne, hroot]
  unfold enterInode
  rw [InodeTable.allocateFreeInode_eq hwf.unlocked.table, if_neg hfree,
    top_eq_ok.mpr htop, ok_bind, ok_bind]
  exact ⟨_, _, bind_eq_ok.mpr ⟨root, deref_eq_ok.mpr hroot', rfl⟩⟩

/-- With an inode for the name, the first part of a write finds or makes the file. -/
theorem ensureFile_complete (hwf : WellFormed hash s) {name : String} {root : Inode}
    (hroot : s.inode? rootInum = some root) (hinode : HasInode hash s name) :
    exists s1 d file, s.ensureFile hash root name = Except.ok s1 ∧
      s1.child? (hash name) = some d ∧ s1.inode? d.inum = some file ∧
      file.blockInfoList.length = blockCount hash s name := by
  have hentry : s.child? (hash name) = root.getDentry hash name := child?_of_root hroot _
  unfold HasInode at hinode
  unfold ensureFile blockCount
  cases hd : root.getDentry hash name with
  | some d =>
      rw [hentry, hd] at hinode ⊢
      rcases hinode with ⟨file, hfile⟩
      exact ⟨s, d, file, rfl, hentry.trans hd, hfile, by simp [hfile]⟩
  | none =>
      rw [hentry, hd] at hinode ⊢
      have habsent := hentry.trans hd
      rcases enterInode_complete name FileType.regFile hwf hinode with
        ⟨inum, s1, henter⟩
      have hcreate : s.createFile_ hash name false = Except.ok (inum, s1) := by
        unfold createFile_
        rw [getInode_of_some hwf.unlocked hroot, ok_bind]
        exact henter
      have hact : Acts hash s (Action.create name FileType.regFile inum) s1 := by
        rcases enterInode_acts hwf habsent henter with hact | ⟨_, hfull⟩
        · exact hact
        · cases hfull with
          | createFull _ _ hfull => exact absurd hfull hinode
      refine ⟨s1, ⟨name, hash name, inum⟩, Inode.make FileType.regFile inum, ?_, ?_, ?_, rfl⟩
      · exact bind_eq_ok.mpr ⟨(inum, s1), hcreate, rfl⟩
      · cases hact with
        | create hroot' _ _ _ => rw [child?_entered, if_pos rfl]
      · cases hact with
        | create hroot' _ _ htop =>
            have hne :=
              (free_ne hwf.balanced hwf.directory.root (MinHeap.top?_mem htop)).left
            rw [inode?_entered, if_neg (Ne.symm hne), inode?_allocated, if_pos rfl]

/-- The file of the name, found or made, and the loop that is run for it. -/
theorem allocationStep_eq (hwf : WellFormed hash s) (rands : Nat -> Nat)
    (offset length : UInt64) {name : String} {root : Inode}
    (hroot : s.inode? rootInum = some root) (hinode : HasInode hash s name) :
    exists s1 d file, s.ensureFile hash root name = Except.ok s1 ∧
      Ensured hash name s s1 ∧ s1.child? (hash name) = some d ∧
      s1.inode? d.inum = some file ∧ file.blockInfoList.length = blockCount hash s name ∧
      allocationStep hash rands s root name offset length =
        (appendBlocks d.inum (newBlocksNum file.getBlockNum (blocksNeeded offset length))
          rands s1 >>= fun s2 => pure (d.inum, s2)) := by
  rcases ensureFile_complete hwf hroot hinode with
    ⟨s1, d, file, hensure, hentry, hfile, hlength⟩
  have hensured := ensureFile_cases hwf hroot hensure
  have hwf1 := hensured.wellFormed hwf
  rcases hwf1.directory.root with ⟨root1, hroot1⟩
  have hdentry : root1.getDentry hash name = some d :=
    (child?_of_root hroot1 _).symm.trans hentry
  refine ⟨s1, d, file, hensure, hensured, hentry, hfile, hlength, ?_⟩
  unfold allocationStep
  rw [hensure, ok_bind, deref_eq_ok.mpr hroot1, ok_bind, deref_eq_ok.mpr hdentry, ok_bind,
    getInode_of_some hwf1.unlocked hfile, ok_bind]
  dsimp only
  rw [deref_eq_ok.mpr rfl, ok_bind]

/-- With an inode for the name, the allocation step of a write comes down to its loop. -/
theorem allocationStep_of_hasInode (hwf : WellFormed hash s) (rands : Nat -> Nat)
    (offset length : UInt64) {name : String} {root : Inode}
    (hroot : s.inode? rootInum = some root) (hinode : HasInode hash s name) :
    exists (s1 : MetadataServiceImpl) (d : Dentry) (file : Inode),
      Ensured hash name s s1 ∧ s1.inode? d.inum = some file ∧
      file.blockInfoList.length = blockCount hash s name ∧
      allocationStep hash rands s root name offset length =
        (appendBlocks d.inum (newBlocksNum file.getBlockNum (blocksNeeded offset length))
          rands s1 >>= fun s2 => pure (d.inum, s2)) := by
  rcases allocationStep_eq hwf rands offset length hroot hinode with
    ⟨s1, d, file, _, hensured, _, hfile, hlength, heq⟩
  exact ⟨s1, d, file, hensured, hfile, hlength, heq⟩

theorem Wrote.hasInode {name : String} {offset length : UInt64}
    {s1 s2 : MetadataServiceImpl} {d : Dentry} {file grown written : Inode}
    {extents : List Extent} (hwf : WellFormed hash s)
    (h : Wrote hash name offset length s s1 s2 s' d file grown written extents) :
    HasInode hash s name ∧ file.blockInfoList.length = blockCount hash s name := by
  unfold HasInode blockCount
  rcases h.ensured.of_inode hwf h.entry h.inode with rfl | hact
  · rw [h.entry]
    exact ⟨⟨file, h.inode⟩, by simp [h.inode]⟩
  · have hfile := h.inode
    cases hact with
    | create hroot habsent hfree htop =>
        have hne := (free_ne hwf.balanced hwf.directory.root (MinHeap.top?_mem htop)).left
        rw [inode?_entered, if_neg (Ne.symm hne), inode?_allocated, if_pos rfl] at hfile
        cases hfile
        rw [(child?_of_root hroot _).trans habsent]
        exact ⟨hfree, rfl⟩

/-!
# The number of new blocks
-/

/-- The end of the range can be rounded up, and the new blocks can be counted. -/
def Countable (count : Nat) (offset length : UInt64) : Prop :=
  offset.toNat + length.toNat + 2 ^ 20 ≤ 2 ^ 64 ∧
    blocksUpTo offset length < count + 2 ^ 31

theorem blocksNeeded_of_le {offset length : UInt64}
    (hend : offset.toNat + length.toNat + 2 ^ 20 ≤ 2 ^ 64) :
    (blocksNeeded offset length).toNat = blocksUpTo offset length := by
  have hsum : (offset + length).toNat = offset.toNat + length.toNat :=
    toNat_add_of_lt (by omega)
  have hround : (offset + length + fileBlockSize - 1).toNat =
      offset.toNat + length.toNat + (2 ^ 20 - 1) := by
    rw [UInt64.toNat_sub, UInt64.toNat_add, hsum, fileBlockSize_toNat]
    show (2 ^ 64 - 1 + (offset.toNat + length.toNat + 2 ^ 20) % 2 ^ 64) % 2 ^ 64 = _
    omega
  rw [blocksNeeded, UInt64.toNat_div, hround, fileBlockSize_toNat, blocksUpTo]

/-- No round runs for a range that the file covers already. -/
theorem newBlocksNum_of_le {file : Inode} (hroom : file.blockInfoList.length < 2 ^ 44)
    {offset length : UInt64} (hend : offset.toNat + length.toNat + 2 ^ 20 ≤ 2 ^ 64)
    (hle : blocksUpTo offset length ≤ file.blockInfoList.length) :
    newBlocksNum file.getBlockNum (blocksNeeded offset length) = 0 := by
  unfold newBlocksNum
  rw [if_neg]
  rw [UInt64.lt_iff_toNat_lt, blocksNeeded_of_le hend, toNat_getBlockNum hroom]
  omega

/-- The number that the bound of the loop is made from, where it is not cut off. -/
theorem toNat_lacking {file : Inode} (hroom : file.blockInfoList.length < 2 ^ 44)
    {offset length : UInt64} (hend : offset.toNat + length.toNat + 2 ^ 20 ≤ 2 ^ 64)
    (hlt : file.getBlockNum < blocksNeeded offset length) :
    (blocksNeeded offset length - file.getBlockNum).toNat =
      blocksUpTo offset length - file.blockInfoList.length := by
  have hle := UInt64.le_iff_toNat_le.mpr (Nat.le_of_lt (UInt64.lt_iff_toNat_lt.mp hlt))
  rw [UInt64.toNat_sub_of_le _ _ hle, toNat_getBlockNum hroom, blocksNeeded_of_le hend]

/-- The allocation loop brings the file up to the end of the range exactly if it can count. -/
theorem covers_iff_countable {file : Inode} (hroom : file.blockInfoList.length < 2 ^ 44)
    (offset length : UInt64) :
    blocksUpTo offset length ≤ file.blockInfoList.length +
        newBlocksNum file.getBlockNum (blocksNeeded offset length) <->
      Countable file.blockInfoList.length offset length := by
  have hnum := toNat_getBlockNum hroom
  unfold Countable
  by_cases hsum : offset.toNat + length.toNat + 2 ^ 20 ≤ 2 ^ 64
  · have hneeded := blocksNeeded_of_le hsum
    unfold newBlocksNum
    split
    · rename_i hlt
      have hdiff := toNat_lacking hroom hsum hlt
      unfold Word.toInt
      rw [hdiff, Int.bmod_def]
      split <;> omega
    · rename_i hge
      rw [UInt64.lt_iff_toNat_lt] at hge
      omega
  · -- A range that reaches this far needs more blocks than any list has.
    have hall : 2 ^ 44 ≤ blocksUpTo offset length := by
      unfold blocksUpTo
      omega
    have hmost := newBlocksNum_room hroom offset length
    constructor
    · intro hle
      exact absurd (le_trans hall hle) (Nat.not_le.mpr hmost)
    · intro hcount
      exact absurd hcount.left hsum

/-!
# The whole write
-/

/-- The allocation step completes if it can count, finds nodes and finds free blocks. -/
theorem allocationStep_complete (hwf : WellFormed hash s) {rands : Nat -> Nat}
    {name : String} {offset length : UInt64} {root : Inode}
    (hroot : s.inode? rootInum = some root) (hinode : HasInode hash s name)
    (hcount : Countable (blockCount hash s name) offset length)
    (hnodes : blocksUpTo offset length ≤ blockCount hash s name ∨ HasNodes s)
    (hfinds : allocationStep hash rands s root name offset length ≠
      Except.error Fault.emptyHeap) :
    exists inum s2 grown,
      allocationStep hash rands s root name offset length = Except.ok (inum, s2) ∧
      s2.inode? inum = some grown ∧ Covers grown.blockInfoList offset length := by
  rcases allocationStep_of_hasInode hwf rands offset length hroot hinode with
    ⟨s1, d, file, hensured, hfile, hlength, heq⟩
  have hwf1 := hensured.wellFormed hwf
  have hroom := hwf1.blocks.room _ _ hfile
  have hend : offset.toNat + length.toNat < 2 ^ 64 := by
    have := hcount.left
    omega
  have hcovers := (covers_iff_countable hroom offset length).mpr (hlength.symm ▸ hcount)
  have hroom' := newBlocksNum_room hroom offset length
  have hloop : newBlocksNum file.getBlockNum (blocksNeeded offset length) = 0 ∨
      HasNodes s1 := by
    rcases hnodes with hle | hnodes
    · left
      rw [← hlength] at hle
      exact newBlocksNum_of_le hroom hcount.left hle
    · exact Or.inr (hensured.hasNodes_iff.mpr hnodes)
  rw [heq] at hfinds
  rcases appendBlocks_complete _ hwf1 hfile hroom' hloop (ne_error_of_bind hfinds) with
    ⟨s2, happend⟩
  rcases appendBlocks_trace hash _ hwf1.unlocked hfile hroom' happend with
    ⟨_, grown, hgrown, hgrows⟩
  have hcover : blocksUpTo offset length ≤ grown.blockInfoList.length := by
    rw [hgrows.length]
    exact hcovers
  refine ⟨d.inum, s2, grown, ?_, hgrown, hend, hcover, ?_⟩
  · rw [heq, happend]
    rfl
  · intro hunaligned
    unfold blocksUpTo at hcover
    omega

/-- A write that does not run out of free blocks completes if it can. -/
theorem writeFile_complete (hwf : WellFormed hash s) {rands : Nat -> Nat} {name : String}
    {offset length : UInt64} (hinode : HasInode hash s name)
    (hcount : Countable (blockCount hash s name) offset length)
    (hfinds : FindsBlocks (s.writeFile hash rands name offset length)) :
    exists reply s', s.writeFile hash rands name offset length = Except.ok (reply, s') := by
  rcases hwf.directory.root with ⟨root, hroot⟩
  have heq := writeFile_eq hash rands name offset length hwf.unlocked.table hroot
  rw [heq] at hfinds
  rcases allocationStep_of_hasInode hwf rands offset length hroot hinode with
    ⟨s1, d, file, hensured, hfile, hlength, hstep⟩
  have hfinds' := hfinds.of_bind
  have hnodes : blocksUpTo offset length ≤ blockCount hash s name ∨ HasNodes s := by
    rw [hstep] at hfinds'
    rw [← hlength, ← hensured.hasNodes_iff]
    have hroom := (hensured.wellFormed hwf).blocks.room _ _ hfile
    rcases hasNodes_of_appendBlocks hfinds'.of_bind.right with hzero | hnodes
    · left
      have hcovers := (covers_iff_countable hroom offset length).mpr
        (hlength.symm ▸ hcount)
      rw [hzero] at hcovers
      exact hcovers
    · exact Or.inr hnodes
  rcases allocationStep_complete hwf hroot hinode hcount hnodes hfinds'.left with
    ⟨inum, s2, grown, halloc, hgrown, hcovers⟩
  rcases writeFile_of_covers hwf.unlocked.table hroot halloc hgrown hcovers with
    ⟨r, written, _, _, hwrite, _⟩
  exact ⟨_, _, hwrite⟩

/-- What a completed write of at least one byte shows about its start. -/
theorem countable_of_writeFile (hwf : WellFormed hash s) {rands : Nat -> Nat}
    {name : String} {offset length : UInt64} {reply : Reply} (hpos : 1 ≤ length.toNat)
    (hwrite : s.writeFile hash rands name offset length = Except.ok (reply, s')) :
    HasInode hash s name ∧ Countable (blockCount hash s name) offset length := by
  rcases writeFile_cases hwf hwrite with
    ⟨s1, s2, d, file, grown, written, extents, hwrote, _⟩
  rcases hwrote.hasInode hwf with ⟨hinode, hlength⟩
  have hwf1 := hwrote.ensured.wellFormed hwf
  have hroom := hwf1.blocks.room _ _ hwrote.inode
  refine ⟨hinode, ?_⟩
  rw [← hlength]
  refine (covers_iff_countable hroom offset length).mp ?_
  rw [← hwrote.grows.length]
  rcases hwrote.reads with ⟨r, hread, _⟩
  -- The last byte of the range lies in a block.
  rcases (readExtents_tiles hread).right.exists_block (k := length.toNat - 1) (by omega) with
    ⟨info, hinfo⟩
  have hlast := (List.getElem?_eq_some_iff.mp hinfo).choose
  unfold blocksUpTo
  omega

end Metadata
end SpongeBob
