import SpongeBob.Foundation.TreeMap
import SpongeBob.Metadata.Consistency
import SpongeBob.Metadata.OutOfSpace
import SpongeBob.Metadata.Undo

/-!
# Which calls are answered

A call that stops with a fault takes the whole service down.  Which calls do so can be
read off the state before the call: creations, openings and closings never do; the other
calls do when they meet an entry without an inode, leave a block list, or find no node or
no free block.  So the service lasts through a list of calls exactly if each of them is
answered in its turn.
-/

namespace SpongeBob
namespace Metadata

open Foundation
open Fs
open MetadataServiceImpl

variable {hash : String -> UInt64} {s s' : MetadataServiceImpl}

/-!
# The condition
-/

/-- The phases of a transfer find every block that they look up. -/
def InBlocks (count : Nat) (offset length : UInt64) : Prop :=
  (length = 0 ∧ offset.toNat % 2 ^ 20 = 0) ∨ blocksUpTo offset length ≤ count

/-- The rounds that the allocation loop of a write runs. -/
def rounds (hash : String -> UInt64) (s : MetadataServiceImpl) (name : String)
    (offset length : UInt64) : Nat :=
  newBlocksNum (UInt64.ofNat (blockCount hash s name)) (blocksNeeded offset length)

/-- Every node that is drawn has a block on its free list for each draw. -/
def Supplies (s : MetadataServiceImpl) (rands : Nat -> Nat) (n : Nat) : Prop :=
  (n = 0 ∨ HasNodes s) ∧ forall key sm, s.manager? key = some sm ->
    draws s rands n key ≤ sm.freeList.elems.length

/-- The request is answered in a state. -/
def Answerable (hash : String -> UInt64) (s : MetadataServiceImpl) (call : Call) : Prop :=
  match call.request with
  | Request.readFile name offset length =>
      exists d file, s.child? (hash name) = some d ∧ s.inode? d.inum = some file ∧
        InBlocks file.blockInfoList.length offset (clipLength file.size offset length)
  | Request.writeFile name offset length =>
      HasInode hash s name ∧ Supplies s call.rands (rounds hash s name offset length) ∧
        InBlocks (blockCount hash s name + rounds hash s name offset length) offset length
  | Request.removeFile name =>
      forall d, s.child? (hash name) = some d ->
        d.inum ≠ noInum ∨ forall key, s.manager? key = none
  | Request.readDirectory _ => NoneDangling s
  | _ => True

/-!
# Blocks
-/

/-- The phases complete exactly if they do not leave the block list. -/
theorem readExtents_iff (file : Inode) (offset length : UInt64) :
    (exists c, readExtents file offset length = Except.ok c) <->
      InBlocks file.blockInfoList.length offset length := by
  constructor
  · rintro ⟨c, hread⟩
    by_cases hzero : length = 0
    · by_cases haligned : offset.toNat % 2 ^ 20 = 0
      · exact Or.inl ⟨hzero, haligned⟩
      · right
        unfold readExtents readHead at hread
        rcases bind_eq_ok.mp hread with ⟨c1, hhead, _⟩
        split at hhead
        · rcases bind_eq_ok.mp hhead with ⟨info, hinfo, _⟩
          have hblock := getBlockInfo_eq_ok.mp hinfo
          have hlt := (List.getElem?_eq_some_iff.mp hblock).choose
          have hstart : (Cursor.start offset length).startBlock.toNat =
              offset.toNat / 2 ^ 20 := toNat_div_fileBlockSize offset
          rw [hstart] at hlt
          unfold blocksUpTo
          rw [hzero, UInt64.toNat_zero]
          omega
        · rename_i hcond
          exact absurd (aligned_of_mask hcond) haligned
    · right
      have hpos := toNat_pos hzero
      rcases (readExtents_tiles hread).right.exists_block (k := length.toNat - 1) (by omega) with
        ⟨info, hinfo⟩
      have hlast := (List.getElem?_eq_some_iff.mp hinfo).choose
      unfold blocksUpTo
      omega
  · rintro (⟨rfl, haligned⟩ | hcover)
    · have hcond : ¬ offset &&& fileBlockMask ≠ 0 := fun h =>
        Nat.ne_of_gt (unaligned_of_mask h) haligned
      unfold readExtents readHead
      rw [if_neg hcond]
      have hoffset := offset.toNat_lt
      apply blocks_tail_complete
      · show (offset / fileBlockSize).toNat + 0 / 2 ^ 20 + 1 < 2 ^ 64
        rw [toNat_div_fileBlockSize]
        omega
      · intro hpos
        cases hpos
    · exact readExtents_complete hcover

/-!
# The allocation loop
-/

section Loop

variable {inum : UInt64} {rands : Nat -> Nat} {n : Nat} {file : Inode}

/-- A round that completes has found a block on the free list of the node drawn. -/
theorem top_of_appendBlock (hu : Unlocked s) (hnodes : HasNodes s) {rand : Nat}
    {sm : SpaceManager} (hsm : s.manager? (drawn s rand) = some sm)
    (hone : s.appendBlock inum rand = Except.ok s') :
    exists blockNr, sm.freeList.top? = some blockNr := by
  unfold appendBlock at hone
  rw [randInt_eq hnodes, ok_bind] at hone
  rcases bind_eq_ok.mp hone with ⟨sm', hsm', hone⟩
  cases hsm.symm.trans (deref_eq_ok.mp hsm')
  rcases bind_eq_ok.mp hone with ⟨⟨blockNr, sm1⟩, halloc, _⟩
  exact ⟨blockNr, ((allocateOneBlock_eq_ok (hu.managers _ sm hsm)).mp halloc).left⟩

/-- After the first round, every node has to supply what is left of its draws. -/
theorem supplies_succ (hnodes : HasNodes s) {s1 : MetadataServiceImpl} (hnodes1 : HasNodes s1)
    {sm0 : SpaceManager} {blockNr : UInt64}
    (hsm0 : s.manager? (drawn s (rands 0)) = some sm0)
    (htop : sm0.freeList.top? = some blockNr)
    (hmanagers : forall k, s1.manager? k =
      if drawn s (rands 0) = k then some (sm0.useBlock blockNr) else s.manager? k)
    (hdraws : forall rands n k, draws s1 rands n k = draws s rands n k) :
    Supplies s rands (n + 1) <-> Supplies s1 (fun i => rands (i + 1)) n := by
  have hlength : sm0.freeList.elems.length =
      (sm0.useBlock blockNr).freeList.elems.length + 1 :=
    congrArg List.length (MinHeap.elems_of_top? htop)
  constructor
  · rintro ⟨_, hgives⟩
    refine ⟨Or.inr hnodes1, ?_⟩
    intro key sm hsm
    rw [hmanagers] at hsm
    rw [hdraws]
    split at hsm
    · rename_i hkey
      subst hkey
      cases hsm
      have hgive := hgives _ sm0 hsm0
      rw [draws_succ, if_pos rfl, hlength] at hgive
      exact Nat.le_of_succ_le_succ hgive
    · rename_i hkey
      have hgive := hgives key sm hsm
      rw [draws_succ, if_neg hkey] at hgive
      exact hgive
  · rintro ⟨_, hgives⟩
    refine ⟨Or.inr hnodes, ?_⟩
    intro key sm hsm
    rw [draws_succ, ← hdraws]
    by_cases hkey : drawn s (rands 0) = key
    · subst hkey
      cases hsm0.symm.trans hsm
      rw [if_pos rfl, hlength]
      exact Nat.succ_le_succ (hgives _ _ ((hmanagers _).trans (if_pos rfl)))
    · rw [if_neg hkey]
      exact hgives key sm ((hmanagers key).trans ((if_neg hkey).trans hsm))

/-- The loop completes exactly if no node is drawn more often than it has free blocks. -/
theorem appendBlocks_iff_supplies (hu : Unlocked s) (hfile : s.inode? inum = some file) :
    (exists s', appendBlocks inum n rands s = Except.ok s') <-> Supplies s rands n := by
  induction n generalizing s rands file with
  | zero =>
      apply iff_of_true
      · exact ⟨s, rfl⟩
      · exact ⟨Or.inl rfl, fun key sm _ => Nat.zero_le _⟩
  | succ n ih =>
      by_cases hnodes : HasNodes s
      · rcases manager?_drawn hnodes (rands 0) with ⟨sm0, hsm0⟩
        cases htop : sm0.freeList.top? with
        | none =>
            apply iff_of_false
            · rintro ⟨s', hloop⟩
              rcases bind_eq_ok.mp hloop with ⟨s1, hone, _⟩
              rcases top_of_appendBlock hu hnodes hsm0 hone with ⟨blockNr, hsome⟩
              cases htop.symm.trans hsome
            · rintro ⟨_, hgives⟩
              have hgive := hgives _ sm0 hsm0
              rw [draws_succ, if_pos rfl, MinHeap.top?_eq_none.mp htop] at hgive
              cases hgive
        | some blockNr =>
            rcases firstRound hu hnodes hfile hsm0 htop with
              ⟨s1, file1, hone, hu1, hnodes1, hfile1, hmanagers, hdraws⟩
            rw [supplies_succ hnodes hnodes1 hsm0 htop hmanagers hdraws, ← ih hu1 hfile1,
              appendBlocks, hone, ok_bind]
      · apply iff_of_false
        · rintro ⟨s', hloop⟩
          have hfault : appendBlocks inum (n + 1) rands s ≠
              Except.error Fault.divisionByZero := by
            rw [hloop]
            exact fun h => by cases h
          exact hnodes ((hasNodes_of_appendBlocks hfault).resolve_left (Nat.succ_ne_zero n))
        · rintro ⟨hzero | hyes, _⟩
          · cases hzero
          · exact hnodes hyes

end Loop

/-!
# Each call
-/

section Calls

variable {name : String} {offset length : UInt64}

/-- An inode is entered or, if none is free, the number for "no inode". -/
theorem enterInode_answers (hwf : WellFormed hash s) (name : String) (type : FileType) :
    exists inum s', s.enterInode hash name type = Except.ok (inum, s') := by
  by_cases hfull : s.inodeTable.curSize = s.inodeTable.totalSize
  · rcases hwf.directory.root with ⟨root, hroot⟩
    unfold enterInode
    rw [InodeTable.allocateFreeInode_eq hwf.unlocked.table, if_pos hfull, ok_bind]
    exact ⟨_, _, bind_eq_ok.mpr ⟨root, deref_eq_ok.mpr hroot, rfl⟩⟩
  · exact enterInode_complete name type hwf hfull

theorem createFile_answers (hwf : WellFormed hash s) (name : String) (isDir : Bool) :
    exists reply s', s.createFile hash name isDir = Except.ok (reply, s') := by
  rcases hwf.directory.root with ⟨root, hroot⟩
  unfold createFile
  rw [getInode_of_some hwf.unlocked hroot, ok_bind]
  dsimp only
  cases root.getDentry hash name with
  | some d => exact ⟨_, _, rfl⟩
  | none =>
      rcases enterInode_answers hwf name (if isDir then FileType.dir else FileType.regFile)
        with ⟨inum, s1, henter⟩
      exact ⟨_, _, bind_eq_ok.mpr ⟨(inum, s1), henter, rfl⟩⟩

theorem ensureFile_answers (hwf : WellFormed hash s) {root : Inode}
    (hroot : s.inode? rootInum = some root) (name : String) :
    exists s1, s.ensureFile hash root name = Except.ok s1 := by
  unfold ensureFile
  cases root.getDentry hash name with
  | some d => exact ⟨s, rfl⟩
  | none =>
      rcases enterInode_answers hwf name FileType.regFile with ⟨inum, s1, henter⟩
      have hcreate : s.createFile_ hash name false = Except.ok (inum, s1) := by
        unfold createFile_
        rw [getInode_of_some hwf.unlocked hroot, ok_bind]
        exact henter
      exact ⟨s1, bind_eq_ok.mpr ⟨(inum, s1), hcreate, rfl⟩⟩

theorem allocateFD_answers {m : FileMap} (hlock : m.fileMapLock = false) :
    exists fd m', m.allocateFD = Except.ok (fd, m') := by
  unfold FileMap.allocateFD
  rw [lock_of_free hlock, ok_bind]
  cases m.fdFreeList.top? with
  | none => exact ⟨_, _, rfl⟩
  | some newFd => exact ⟨_, _, rfl⟩

theorem openFile_answers (hwf : WellFormed hash s) (name : String) :
    exists reply s', s.openFile hash name = Except.ok (reply, s') := by
  rcases hwf.directory.root with ⟨root, hroot⟩
  rcases ensureFile_answers hwf hroot name with ⟨s1, hensure⟩
  have hwf1 := (ensureFile_cases hwf hroot hensure).wellFormed hwf
  rcases allocateFD_answers hwf1.unlocked.descriptors with ⟨fd, fileMap, halloc⟩
  unfold openFile
  rw [getInode_of_some hwf.unlocked hroot, ok_bind]
  exact ⟨_, _, bind_eq_ok.mpr ⟨s1, hensure, bind_eq_ok.mpr ⟨(fd, fileMap), halloc, rfl⟩⟩⟩

theorem closeFile_answers (hwf : WellFormed hash s) (fd : Int64) :
    exists reply s', s.closeFile fd = Except.ok (reply, s') := by
  unfold closeFile FileMap.reclaimFD
  rw [lock_of_free hwf.unlocked.descriptors, ok_bind]
  split
  · exact ⟨_, _, rfl⟩
  · exact ⟨_, _, rfl⟩

theorem readFile_answers_iff (hwf : WellFormed hash s) :
    (exists reply s', s.readFile hash name offset length = Except.ok (reply, s')) <->
      exists d file, s.child? (hash name) = some d ∧ s.inode? d.inum = some file ∧
        InBlocks file.blockInfoList.length offset (clipLength file.size offset length) := by
  constructor
  · rintro ⟨reply, s', hread⟩
    rcases readFile_cases hwf hread with ⟨d, file, c, hentry, hfile, hextents, _, _⟩
    exact ⟨d, file, hentry, hfile, (readExtents_iff _ _ _).mp ⟨c, hextents⟩⟩
  · rintro ⟨d, file, hentry, hfile, hblocks⟩
    rcases (readExtents_iff _ _ _).mpr hblocks with ⟨c, hextents⟩
    exact ⟨_, _, readFile_of_extents hwf hentry hfile hextents⟩

/-- An entry has an inode unless it was entered without one. -/
theorem inode?_of_ne (hwf : WellFormed hash s) {key : UInt64} {d : Dentry}
    (hd : s.child? key = some d) :
    d.inum ≠ noInum <-> exists file, s.inode? d.inum = some file := by
  constructor
  · intro hne
    exact (hwf.directory.target key d hd).resolve_left hne
  · rintro ⟨file, hfile⟩ hgone
    rw [hgone, inode?_noInum hwf.balanced] at hfile
    cases hfile

theorem readDentries_answers (hu : Unlocked s) {dentries : List Dentry}
    (hfiles : forall d, d ∈ dentries -> exists file, s.inode? d.inum = some file) :
    exists infos, s.readDentries dentries = Except.ok (infos, s) := by
  induction dentries with
  | nil => exact ⟨[], rfl⟩
  | cons d rest ih =>
      rcases hfiles d List.mem_cons_self with ⟨file, hfile⟩
      rcases ih (fun d' hd' => hfiles d' (List.mem_cons_of_mem d hd')) with ⟨infos, hrest⟩
      unfold readDentries
      rw [getInode_of_some hu hfile, ok_bind]
      exact ⟨_, bind_eq_ok.mpr ⟨file, rfl, bind_eq_ok.mpr ⟨(infos, s), hrest, rfl⟩⟩⟩

theorem readDirectory_answers_iff (hwf : WellFormed hash s) (path : String) :
    (exists reply s', s.readDirectory path = Except.ok (reply, s')) <-> NoneDangling s := by
  constructor
  · rintro ⟨reply, s', hread⟩ key d hd
    rcases readDirectory_cases path hwf hread with ⟨root, infos, hroot, hlists, _, _⟩
    have hmem : d ∈ root.getDentryMap := by
      rw [Inode.getDentryMap, TreeMap.mem_values]
      exact ⟨key, (child?_of_root hroot key).symm.trans hd⟩
    rcases List.mem_iff_getElem.mp hmem with ⟨i, hi, rfl⟩
    rcases (List.forall₂_iff_get.mp hlists).right i hi
      ((List.Forall₂.length_eq hlists) ▸ hi) with ⟨file, hfile, _⟩
    exact (inode?_of_ne hwf hd).mpr ⟨file, hfile⟩
  · intro hnone
    rcases hwf.directory.root with ⟨root, hroot⟩
    have hfiles : forall d, d ∈ root.getDentryMap -> exists file, s.inode? d.inum = some file := by
      intro d hmem
      rw [Inode.getDentryMap, TreeMap.mem_values] at hmem
      rcases hmem with ⟨key, hd⟩
      have hentry := (child?_of_root hroot key).trans hd
      exact (inode?_of_ne hwf hentry).mp (hnone key d hentry)
    rcases readDentries_answers hwf.unlocked hfiles with ⟨infos, hdentries⟩
    unfold readDirectory
    rw [getInode_of_some hwf.unlocked hroot, ok_bind]
    exact ⟨_, _, bind_eq_ok.mpr ⟨(infos, s), hdentries, rfl⟩⟩

/-- Without an inode, the first manager stops the removal. -/
theorem manager?_of_reclaimFrom (hu : Unlocked s) {inum : UInt64} (hfile : s.inode? inum = none)
    (hreclaim : reclaimFrom inum s.spaceManager.keys s = Except.ok s') (key : Int) :
    s.manager? key = none := by
  cases hkeys : s.spaceManager.keys with
  | nil =>
      apply Std.ExtTreeMap.getElem?_eq_none
      intro hmem
      have hkey := Std.ExtTreeMap.mem_keys.mpr hmem
      rw [hkeys] at hkey
      cases hkey
  | cons first keys =>
      rw [hkeys] at hreclaim
      unfold reclaimFrom at hreclaim
      rw [getInode_of_none hu hfile, ok_bind] at hreclaim
      rcases bind_eq_ok.mp hreclaim with ⟨sm, hsm, hreclaim⟩
      have hlock : lock sm.spaceLock = Except.ok true :=
        lock_of_free (hu.managers first sm (deref_eq_ok.mp hsm))
      unfold SpaceManager.reclaimInodeSpace at hreclaim
      rw [hlock] at hreclaim
      cases hreclaim

theorem keys_eq_nil (hnone : forall key, s.manager? key = none) : s.spaceManager.keys = [] := by
  apply List.eq_nil_iff_forall_not_mem.mpr
  intro key hkey
  have hsome := Std.ExtTreeMap.mem_iff_isSome_getElem?.mp (Std.ExtTreeMap.mem_keys.mp hkey)
  have hkey : s.spaceManager[key]? = none := hnone key
  rw [hkey] at hsome
  cases hsome

theorem removeFile_answers_iff (hwf : WellFormed hash s) :
    (exists reply s', s.removeFile hash name = Except.ok (reply, s')) <->
      forall d, s.child? (hash name) = some d ->
        d.inum ≠ noInum ∨ forall key, s.manager? key = none := by
  rcases hwf.directory.root with ⟨root, hroot⟩
  have hentry : s.child? (hash name) = root.getDentry hash name := child?_of_root hroot _
  cases hdentry : root.getDentry hash name with
  | none =>
      apply iff_of_true
      · unfold removeFile
        rw [getInode_of_some hwf.unlocked hroot, ok_bind]
        dsimp only
        rw [hdentry]
        exact ⟨_, _, rfl⟩
      · intro d hd
        cases (hentry.trans hdentry).symm.trans hd
  | some d =>
      have hd := hentry.trans hdentry
      have hne := hwf.directory.notRoot _ _ hd
      cases hfile : s.inode? d.inum with
      | some file =>
          apply iff_of_true
          · exact removeFile_complete hwf hroot hdentry hfile
          · intro d' hd'
            cases hd.symm.trans hd'
            exact Or.inl ((inode?_of_ne hwf hd).mpr ⟨file, hfile⟩)
      | none =>
          have hu := hwf.unlocked.unlinked root (hash name)
          have hgone : (s.unlinked root (hash name)).inode? d.inum = none := by
            rw [inode?_unlinked, if_neg (Ne.symm hne), hfile]
          rw [removeFile_eq hwf.unlocked hroot hdentry]
          constructor
          · rintro ⟨reply, s', hremove⟩ d' _
            rcases bind_eq_ok.mp hremove with ⟨s1, hreclaim, _⟩
            exact Or.inr (manager?_of_reclaimFrom (s := s.unlinked root (hash name)) hu hgone
              hreclaim)
          · intro hcond
            have hnone : forall key, s.manager? key = none := by
              apply (hcond d hd).resolve_left
              intro hreal
              rcases (inode?_of_ne hwf hd).mp hreal with ⟨file, hsome⟩
              cases hfile.symm.trans hsome
            rw [keys_eq_nil hnone]
            have hdelete := InodeTable.deleteInode_of_none hu.table hgone
            exact ⟨_, _, bind_eq_ok.mpr ⟨s.unlinked root (hash name), rfl,
              bind_eq_ok.mpr ⟨_, hdelete, rfl⟩⟩⟩

theorem rounds_eq {file : Inode} (hlength : file.blockInfoList.length = blockCount hash s name) :
    rounds hash s name offset length =
      newBlocksNum file.getBlockNum (blocksNeeded offset length) := by
  unfold rounds Inode.getBlockNum
  rw [hlength]

theorem Ensured.supplies_iff {s1 : MetadataServiceImpl} (h : Ensured hash name s s1)
    (rands : Nat -> Nat) (n : Nat) : Supplies s1 rands n <-> Supplies s rands n := by
  unfold Supplies HasNodes draws drawn MetadataServiceImpl.manager?
  rw [h.spaceManager_eq]

theorem writeFile_answers_iff (hwf : WellFormed hash s) {rands : Nat -> Nat} :
    (exists reply s', s.writeFile hash rands name offset length = Except.ok (reply, s')) <->
      HasInode hash s name ∧ Supplies s rands (rounds hash s name offset length) ∧
        InBlocks (blockCount hash s name + rounds hash s name offset length) offset length := by
  rcases hwf.directory.root with ⟨root, hroot⟩
  constructor
  · rintro ⟨reply, s', hwrite⟩
    rcases writeFile_cases hwf hwrite with
      ⟨_, _, _, file0, grown, written, extents, hwrote, _⟩
    rcases hwrote.hasInode hwf with ⟨hinode, hlength0⟩
    rcases allocationStep_eq hwf rands offset length hroot hinode with
      ⟨s1, d, file, _, hensured, _, hfile, hlength, heq⟩
    rw [writeFile_eq hash rands name offset length hwf.unlocked.table hroot, heq] at hwrite
    rcases bind_eq_ok.mp hwrite with ⟨_, halloc, _⟩
    rcases bind_eq_ok.mp halloc with ⟨s2, hloop, _⟩
    refine ⟨hinode, ?_, ?_⟩
    · rw [← hensured.supplies_iff, rounds_eq hlength]
      exact (appendBlocks_iff_supplies (hensured.wellFormed hwf).unlocked hfile).mp ⟨s2, hloop⟩
    · rcases hwrote.reads with ⟨r, hread, _⟩
      rw [← hlength0, rounds_eq hlength0, ← hwrote.grows.length]
      exact (readExtents_iff _ _ _).mp ⟨r, hread⟩
  · rintro ⟨hinode, hsupplies, hblocks⟩
    rcases allocationStep_eq hwf rands offset length hroot hinode with
      ⟨s1, d, file, _, hensured, _, hfile, hlength, heq⟩
    have hwf1 := hensured.wellFormed hwf
    rw [← hensured.supplies_iff, rounds_eq hlength] at hsupplies
    rcases (appendBlocks_iff_supplies hwf1.unlocked hfile).mpr hsupplies with ⟨s2, hloop⟩
    have hroom := newBlocksNum_room (hwf1.blocks.room _ _ hfile) offset length
    rcases appendBlocks_trace hash _ hwf1.unlocked hfile hroom hloop with
      ⟨_, grown, hgrown, hgrows⟩
    rw [← hlength, rounds_eq hlength, ← hgrows.length] at hblocks
    rcases (readExtents_iff _ _ _).mpr hblocks with ⟨c, hread⟩
    rcases writeExtents_of_read hread with ⟨written, c', hwrite⟩
    rw [writeFile_eq hash rands name offset length hwf.unlocked.table hroot, heq, hloop]
    exact ⟨_, _, bind_eq_ok.mpr ⟨(d.inum, s2), rfl, bind_eq_ok.mpr
      ⟨grown, deref_eq_ok.mpr hgrown, bind_eq_ok.mpr ⟨(written, c'), hwrite, rfl⟩⟩⟩⟩

/-- The service answers a call exactly if the condition holds. -/
theorem serve_answers_iff (hwf : WellFormed hash s) (call : Call) :
    (exists reply s', serve hash s call = Except.ok (reply, s')) <-> Answerable hash s call := by
  rcases call with ⟨request, rands⟩
  cases request with
  | readFile name offset length => exact readFile_answers_iff hwf
  | writeFile name offset length => exact writeFile_answers_iff hwf
  | createFile name isDir => exact iff_of_true (createFile_answers hwf name isDir) True.intro
  | openFile name => exact iff_of_true (openFile_answers hwf name) True.intro
  | closeFile fd => exact iff_of_true (closeFile_answers hwf fd) True.intro
  | removeFile name => exact removeFile_answers_iff hwf
  | readDirectory path => exact readDirectory_answers_iff hwf path
  | registerMemoryRegion nodeid addr length =>
      exact iff_of_true ⟨_, _, rfl⟩ True.intro

end Calls

/-!
# Runs
-/

/-- The handler of the request needs the inode of the entry under a hash. -/
def Request.Meets (hash : String -> UInt64) (key : UInt64) : Request -> Prop
  | Request.readFile name _ _ => hash name = key
  | Request.writeFile name _ _ => hash name = key
  | Request.removeFile name => hash name = key
  | Request.readDirectory _ => True
  | _ => False

/-- There is an entry without an inode under the hash, and a node is registered. -/
def Stranded (key : UInt64) (s : MetadataServiceImpl) : Prop :=
  (exists d, s.child? key = some d ∧ d.inum = noInum) ∧ exists k sm, s.manager? k = some sm

section Stranded

variable {key : UInt64} {call : Call} {reply : Reply}

theorem Stranded.not_answerable (h : Stranded key s) (hwf : WellFormed hash s)
    (hmeets : call.request.Meets hash key) : ¬ Answerable hash s call := by
  rcases h with ⟨⟨d, hd, hinum⟩, k, sm, hsm⟩
  have hgone : s.inode? d.inum = none := by
    rw [hinum]
    exact inode?_noInum hwf.balanced
  rcases call with ⟨request, rands⟩
  cases request with
  | readFile name offset length =>
      cases hmeets
      rintro ⟨d', file, hd', hfile, _⟩
      cases hd.symm.trans hd'
      cases hgone.symm.trans hfile
  | writeFile name offset length =>
      cases hmeets
      rintro ⟨hinode, _⟩
      unfold HasInode at hinode
      rw [hd] at hinode
      rcases hinode with ⟨file, hfile⟩
      cases hgone.symm.trans hfile
  | removeFile name =>
      cases hmeets
      intro hanswer
      rcases hanswer d hd with hne | hnone
      · exact hne hinum
      · cases (hnone k).symm.trans hsm
  | readDirectory path =>
      intro hnone
      exact hnone key d hd hinum
  | _ => exact absurd hmeets id

/-- The entry stays, since the call that would remove it is not answered. -/
theorem Stranded.serve (h : Stranded key s) (hwf : WellFormed hash s)
    (hserve : Metadata.serve hash s call = Except.ok (reply, s')) : Stranded key s' := by
  have hanswer : Answerable hash s call := (serve_answers_iff hwf call).mp ⟨reply, s', hserve⟩
  have hnot : forall m, call.request = Request.removeFile m -> hash m ≠ key := by
    intro m hrequest hkey
    apply h.not_answerable hwf ?_ hanswer
    rw [hrequest]
    exact hkey
  rcases h with ⟨⟨d, hd, hinum⟩, k, sm, hsm⟩
  constructor
  · exact ⟨d, serve_child?_kept hwf hserve hd hnot, hinum⟩
  · refine ⟨k, serve_keeps (fun s => exists sm, s.manager? k = some sm) ?_ hwf ⟨sm, hsm⟩ hserve⟩
    rintro s1 a s2 _ ⟨sm1, hsm1⟩ _ hact
    exact hact.manager?_isSome k sm1 hsm1

/-- A creation that finds no inode enters the name all the same. -/
theorem stranded_of_create (hwf : WellFormed hash s) {name : String}
    (hnodes : exists k sm, s.manager? k = some sm)
    (hfull : s.inodeTable.curSize = s.inodeTable.totalSize)
    (hcreates : call.request.creates? = some name) (habsent : s.child? (hash name) = none)
    (hserve : Metadata.serve hash s call = Except.ok (reply, s')) :
    Stranded (hash name) s' := by
  constructor
  · rcases call with ⟨request, rands⟩
    cases request with
    | createFile name' isDir =>
        cases hcreates
        rcases createFile_cases hwf hserve with ⟨d, hd, _⟩ | ⟨_, inum, _, hact | ⟨_, hact⟩⟩
        · cases habsent.symm.trans hd
        · exact absurd hfull hact.create_free
        · exact ⟨_, (child?_createFull hwf.balanced hact _).trans (if_pos rfl), rfl⟩
    | openFile name' =>
        cases hcreates
        rcases openFile_cases hwf hserve with ⟨s1, fd, fileMap, hensured, _, _, rfl⟩
        cases hensured with
        | present hd => cases habsent.symm.trans hd
        | created hd hact => exact absurd hfull hact.create_free
        | full hd hact =>
            exact ⟨_, (child?_createFull hwf.balanced hact _).trans (if_pos rfl), rfl⟩
    | writeFile name' offset length =>
        cases hcreates
        have hanswer := (serve_answers_iff hwf _).mp ⟨reply, s', hserve⟩
        have hinode : HasInode hash s name := hanswer.left
        unfold HasInode at hinode
        rw [habsent] at hinode
        exact absurd hfull hinode
    | _ => cases hcreates
  · rcases hnodes with ⟨k, sm, hsm⟩
    refine ⟨k, serve_keeps (fun s => exists sm, s.manager? k = some sm) ?_ hwf ⟨sm, hsm⟩ hserve⟩
    rintro s1 a s2 _ ⟨sm1, hsm1⟩ _ hact
    exact hact.manager?_isSome k sm1 hsm1

end Stranded

/--
Once a creation has found no inode while a node is registered, the service never answers
again a listing of the directory, or a read, a write or a removal of the name.
-/
theorem stranded_for_good (hash : String -> UInt64) {calls rest : List Call}
    {call later : Call} {name : String} {s s1 s2 : MetadataServiceImpl} {reply : Reply}
    {replies : List Reply} (hreach : Reaches hash calls s)
    (hnodes : exists k sm, s.manager? k = some sm)
    (hfull : s.inodeTable.curSize = s.inodeTable.totalSize)
    (hcreates : call.request.creates? = some name) (habsent : s.child? (hash name) = none)
    (hserve : serve hash s call = Except.ok (reply, s1))
    (hrun : runFrom (serve hash) s1 rest = Except.ok (replies, s2))
    (hmeets : later.request.Meets hash (hash name)) :
    ¬ exists reply s3, serve hash s2 later = Except.ok (reply, s3) := by
  have hwf1 := serve_wellFormed hreach.wellFormed hserve
  have hstranded := stranded_of_create hreach.wellFormed hnodes hfull hcreates habsent hserve
  have hboth : WellFormed hash s2 ∧ Stranded (hash name) s2 := by
    refine run_induction (motive := fun _ _ s => WellFormed hash s ∧ Stranded (hash name) s)
      ⟨hwf1, hstranded⟩ ?_ hrun
    rintro before replies s call reply s' _ ⟨hwf, hkept⟩ hstep
    exact ⟨serve_wellFormed hwf hstep, hkept.serve hwf hstep⟩
  rw [serve_answers_iff hboth.left]
  exact hboth.right.not_answerable hboth.left hmeets

/-- A node is registered, and all inodes but the root's belong to files. -/
def filledCalls : List Call :=
  (Request.registerMemoryRegion 1 0 1048576).call :: fillCalls.take 99

/-- The name that comes after those of the files. -/
def strandedCall : Call :=
  (Request.createFile (String.singleton (Char.ofNat 132)) false).call

/-- A file is removed, so that an inode is free again. -/
def roomCalls : List Call :=
  [(Request.removeFile "a").call]

theorem stranded_for_good_filled : exists s s1 s2 reply replies,
    Reaches byCodes filledCalls s ∧ serve byCodes s strandedCall = Except.ok (reply, s1) ∧
    runFrom (serve byCodes) s1 roomCalls = Except.ok (replies, s2) ∧
    ¬ exists reply s3, serve byCodes s2 (Request.readDirectory "/").call =
      Except.ok (reply, s3) := by
  have hpass : runPasses byCodes filledCalls (fun s =>
      decide (s.inodeTable.curSize = s.inodeTable.totalSize) &&
      (s.child? (byCodes (String.singleton (Char.ofNat 132)))).isNone &&
      (s.manager? 1).isSome &&
      passes (serve byCodes s strandedCall) (fun answer =>
        passes (runFrom (serve byCodes) answer.2 roomCalls) (fun _ => true))) = true := by
    decide +kernel
  rcases reaches_of_runPasses hpass with ⟨s, hreach, htest⟩
  simp only [Bool.and_eq_true, decide_eq_true_iff, Option.isNone_iff_eq_none,
    Option.isSome_iff_exists] at htest
  rcases htest with ⟨⟨⟨hfull, habsent⟩, hnodes⟩, hserves⟩
  rcases exists_of_passes hserves with ⟨⟨reply, s1⟩, hserve, hruns⟩
  rcases exists_of_passes hruns with ⟨⟨replies, s2⟩, hrun, _⟩
  exact ⟨s, s1, s2, reply, replies, hreach, hserve, hrun,
    stranded_for_good byCodes hreach ⟨1, hnodes⟩ hfull rfl habsent hserve hrun True.intro⟩

end Metadata
end SpongeBob
