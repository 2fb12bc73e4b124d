import SpongeBob.Metadata.Bounds

/-!
# Running out of space

A write draws a node at random for each new block and takes the top of its free list,
whether there is one or not.  So it does not depend on the free blocks of all nodes
whether a write completes, but on those of the nodes that are drawn.
-/

namespace SpongeBob
namespace Metadata

open Foundation
open Fs
open MetadataServiceImpl

variable {hash : String -> UInt64} {s s' : MetadataServiceImpl}

/-!
# What is expected
-/

/-- The free blocks of all managers together. -/
def freeBlocks (s : MetadataServiceImpl) : Nat :=
  TreeMap.sumValues (fun sm => sm.freeList.elems.length) s.spaceManager

/-- The number of blocks that the file of a name lacks for a range. -/
def newBlocks (hash : String -> UInt64) (s : MetadataServiceImpl) (name : String)
    (offset length : UInt64) : Nat :=
  blocksUpTo offset length - blockCount hash s name

/-- The manager gives out a block of its region that is not in use. -/
def GivesFree (sm : SpaceManager) : Prop :=
  exists blockNr sm', sm.allocateOneBlock = Except.ok (blockNr, sm') ∧
    blockNr < sm.totalBlocks ∧ blockNr ∉ sm.inusedBlocks

/-- Every round of the allocation loop finds a manager that gives out a free block. -/
def AllocatesFree (inum : UInt64) (n : Nat) (rands : Nat -> Nat) (s : MetadataServiceImpl) :
    Prop :=
  forall k s1 sm, k < n -> appendBlocks inum k rands s = Except.ok s1 ->
    s1.manager? (drawn s1 (rands k)) = some sm -> GivesFree sm

/-- The write succeeds, and the file has got the blocks that it lacked. -/
def Completes (hash : String -> UInt64) (rands : Nat -> Nat) (s : MetadataServiceImpl)
    (name : String) (offset length : UInt64) : Prop :=
  exists extents bytes s', s.writeFile hash rands name offset length =
      Except.ok (Reply.writeFile Status.ok extents bytes, s') ∧
    blockCount hash s' name = blockCount hash s name + newBlocks hash s name offset length

/-- The write reports a failure and leaves the directory, the inodes and the managers alone. -/
def ReportsFailure (hash : String -> UInt64) (rands : Nat -> Nat) (s : MetadataServiceImpl)
    (name : String) (offset length : UInt64) : Prop :=
  exists reply s', s.writeFile hash rands name offset length = Except.ok (reply, s') ∧
    (forall extents bytes, reply ≠ Reply.writeFile Status.ok extents bytes) ∧
    s'.inodeTable = s.inodeTable ∧ s'.spaceManager = s.spaceManager

/--
The write completes exactly if there are enough free blocks, reports a failure
otherwise, and allocates only blocks that are free.
-/
structure SpaceSound (hash : String -> UInt64) (rands : Nat -> Nat) (s : MetadataServiceImpl)
    (name : String) (offset length : UInt64) : Prop where
  completes_iff : Completes hash rands s name offset length <->
    newBlocks hash s name offset length ≤ freeBlocks s
  fails : ¬ Completes hash rands s name offset length ->
    ReportsFailure hash rands s name offset length
  allocates : forall root s1 d file, s.inode? rootInum = some root ->
    s.ensureFile hash root name = Except.ok s1 -> s1.child? (hash name) = some d ->
    s1.inode? d.inum = some file ->
    AllocatesFree d.inum (newBlocksNum file.getBlockNum (blocksNeeded offset length)) rands s1

/-- How many of the first {lit}`n` rounds draw a node. -/
def draws (s : MetadataServiceImpl) (rands : Nat -> Nat) (n : Nat) (key : Int) : Nat :=
  (List.range n).countP (fun i => decide (drawn s (rands i) = key))

/-- The first blocks of the free list are of the region, not in use, and different. -/
structure CanGive (sm : SpaceManager) (count : Nat) : Prop where
  enough : count ≤ sm.freeList.elems.length
  distinct : (sm.freeList.elems.take count).Nodup
  valid : forall blockNr, blockNr ∈ sm.freeList.elems.take count ->
    blockNr < sm.totalBlocks ∧ blockNr ∉ sm.inusedBlocks

/--
The name has an inode, the new blocks can be counted, there is a node to draw if there
are any, and every node can give as many blocks as it is drawn for.
-/
structure HasSpace (hash : String -> UInt64) (rands : Nat -> Nat) (s : MetadataServiceImpl)
    (name : String) (offset length : UInt64) : Prop where
  inode : HasInode hash s name
  countable : Countable (blockCount hash s name) offset length
  nodes : newBlocks hash s name offset length = 0 ∨ HasNodes s
  gives : forall key sm, s.manager? key = some sm ->
    CanGive sm (draws s rands (newBlocks hash s name offset length) key)

/-!
# One manager
-/

section Manager

variable {sm : SpaceManager} {blockNr : UInt64} {count : Nat}

theorem givesFree_iff (hlock : sm.spaceLock = false) :
    GivesFree sm <-> exists blockNr, sm.freeList.top? = some blockNr ∧
      blockNr < sm.totalBlocks ∧ blockNr ∉ sm.inusedBlocks := by
  constructor
  · rintro ⟨blockNr, sm', halloc, hvalid⟩
    exact ⟨blockNr, ((allocateOneBlock_eq_ok hlock).mp halloc).left, hvalid⟩
  · rintro ⟨blockNr, htop, hvalid⟩
    exact ⟨blockNr, _, (allocateOneBlock_eq_ok hlock).mpr ⟨htop, rfl⟩, hvalid⟩

theorem canGive_zero : CanGive sm 0 := by
  constructor
  · exact Nat.zero_le _
  · exact List.nodup_nil
  · intro blockNr hmem
    cases hmem

/-- A manager can give one block more if it can after giving the first one. -/
theorem canGive_succ (htop : sm.freeList.top? = some blockNr) :
    CanGive sm (count + 1) <->
      (blockNr < sm.totalBlocks ∧ blockNr ∉ sm.inusedBlocks) ∧
        CanGive (sm.useBlock blockNr) count := by
  have helems := MinHeap.elems_of_top? htop
  have hfree : (sm.useBlock blockNr).freeList.elems = sm.freeList.pop.elems := rfl
  have hinused : (sm.useBlock blockNr).inusedBlocks = insert blockNr sm.inusedBlocks := rfl
  have htake : sm.freeList.elems.take (count + 1) =
      blockNr :: sm.freeList.pop.elems.take count := by
    rw [helems]
    rfl
  constructor
  · intro h
    have hdistinct := h.distinct
    rw [htake] at hdistinct
    constructor
    · apply h.valid
      rw [htake]
      exact List.mem_cons_self
    constructor
    · have henough := h.enough
      rw [helems, List.length_cons] at henough
      exact Nat.le_of_succ_le_succ henough
    · exact (List.nodup_cons.mp hdistinct).right
    · intro other hother
      have hvalid := h.valid other (by
        rw [htake]
        exact List.mem_cons_of_mem _ hother)
      constructor
      · exact hvalid.left
      · rw [hinused, Finset.mem_insert]
        rintro (rfl | hused)
        · exact (List.nodup_cons.mp hdistinct).left hother
        · exact hvalid.right hused
  · rintro ⟨hfirst, h⟩
    constructor
    · rw [helems, List.length_cons]
      exact Nat.succ_le_succ h.enough
    · rw [htake]
      apply List.nodup_cons.mpr
      constructor
      · intro hmem
        exact (h.valid blockNr hmem).right (Finset.mem_insert_self _ _)
      · exact h.distinct
    · intro other hother
      rw [htake] at hother
      cases List.mem_cons.mp hother with
      | inl heq =>
          rw [heq]
          exact hfirst
      | inr hrest =>
          have hvalid := h.valid other hrest
          exact ⟨hvalid.left, fun hused => hvalid.right (Finset.mem_insert_of_mem hused)⟩

theorem CanGive.mono {more : Nat} (h : CanGive sm more) (hle : count ≤ more) :
    CanGive sm count := by
  have hshorter : sm.freeList.elems.take count <+: sm.freeList.elems.take more :=
    List.take_prefix_take_left hle
  constructor
  · exact Nat.le_trans hle h.enough
  · exact h.distinct.sublist hshorter.sublist
  · intro blockNr hmem
    exact h.valid blockNr (hshorter.subset hmem)

theorem top_of_canGive (h : CanGive sm (count + 1)) :
    exists blockNr, sm.freeList.top? = some blockNr := by
  cases htop : sm.freeList.top? with
  | some blockNr => exact ⟨blockNr, rfl⟩
  | none =>
      have henough := h.enough
      rw [MinHeap.top?_eq_none.mp htop] at henough
      cases henough

end Manager

/-!
# The allocation loop
-/

section Loop

variable {inum : UInt64} {n : Nat} {rands : Nat -> Nat} {rand : Nat} {file : Inode}

theorem drawn_of_appendBlock {key : Int} {sm : SpaceManager} {blockNr : UInt64}
    (hsm : s.manager? key = some sm) (rand : Nat) :
    drawn (s.appended key sm inum file blockNr) rand = drawn s rand := by
  have hmem : key ∈ s.spaceManager :=
    Std.ExtTreeMap.mem_iff_isSome_getElem?.mpr (Option.isSome_of_eq_some hsm)
  have hmap : (s.appended key sm inum file blockNr).spaceManager =
      s.spaceManager.insert key (sm.useBlock blockNr) := rfl
  unfold drawn
  rw [hmap, TreeMap.keys_insert_of_mem hmem, TreeMap.size_insert_of_mem hmem]

theorem draws_of_appendBlock {key : Int} {sm : SpaceManager} {blockNr : UInt64}
    (hsm : s.manager? key = some sm) (k : Int) :
    draws (s.appended key sm inum file blockNr) rands n k = draws s rands n k := by
  unfold draws
  congr 1
  funext i
  rw [drawn_of_appendBlock hsm]

/-- The first round, and the others. -/
theorem draws_succ (key : Int) :
    draws s rands (n + 1) key =
      draws s (fun i => rands (i + 1)) n key + if drawn s (rands 0) = key then 1 else 0 := by
  unfold draws
  rw [List.range_succ_eq_map, List.countP_cons, List.countP_map]
  congr 1
  by_cases hkey : drawn s (rands 0) = key
  · simp [hkey]
  · simp [hkey]

theorem allocatesFree_succ :
    AllocatesFree inum (n + 1) rands s <->
      (forall sm, s.manager? (drawn s (rands 0)) = some sm -> GivesFree sm) ∧
      forall s1, s.appendBlock inum (rands 0) = Except.ok s1 ->
        AllocatesFree inum n (fun i => rands (i + 1)) s1 := by
  constructor
  · intro h
    constructor
    · intro sm hsm
      exact h 0 s sm (Nat.succ_pos n) rfl hsm
    · intro s1 hone k s2 sm hk hrest hsm
      apply h (k + 1) s2 sm (Nat.succ_lt_succ hk) ?_ hsm
      exact bind_eq_ok.mpr ⟨s1, hone, hrest⟩
  · rintro ⟨hfirst, hrest⟩ k s2 sm hk hrounds hsm
    cases k with
    | zero =>
        cases hrounds
        exact hfirst sm hsm
    | succ k =>
        rcases bind_eq_ok.mp hrounds with ⟨s1, hone, hmore⟩
        exact hrest s1 hone k s2 sm (Nat.lt_of_succ_lt_succ hk) hmore hsm

/-- The node that is drawn first gives a block to the file. -/
theorem firstRound (hu : Unlocked s) (hnodes : HasNodes s) (hfile : s.inode? inum = some file)
    {sm : SpaceManager} {blockNr : UInt64} (hsm : s.manager? (drawn s rand) = some sm)
    (htop : sm.freeList.top? = some blockNr) :
    exists s1 file1, s.appendBlock inum rand = Except.ok s1 ∧ Unlocked s1 ∧ HasNodes s1 ∧
      s1.inode? inum = some file1 ∧
      (forall k, s1.manager? k =
        if drawn s rand = k then some (sm.useBlock blockNr) else s.manager? k) ∧
      (forall rands n k, draws s1 rands n k = draws s rands n k) := by
  have hfile1 := inode?_appended (s := s) (drawn s rand) sm inum inum file blockNr
  rw [if_pos rfl] at hfile1
  refine ⟨_, _, appendBlock_eq hu hnodes hsm htop hfile, hu.appended hsm inum file blockNr,
    hasNodes_appended hsm inum file blockNr hnodes, hfile1, manager?_appended, ?_⟩
  intro rands n k
  exact draws_of_appendBlock hsm k

/-- The loop goes well exactly if every node can give as many blocks as it is drawn for. -/
theorem appendBlocks_iff_canGive (hu : Unlocked s) (hfile : s.inode? inum = some file)
    (hnodes : n = 0 ∨ HasNodes s) :
    ((exists s', appendBlocks inum n rands s = Except.ok s') ∧ AllocatesFree inum n rands s) <->
      forall key sm, s.manager? key = some sm -> CanGive sm (draws s rands n key) := by
  induction n generalizing s rands file with
  | zero =>
      apply iff_of_true
      · constructor
        · exact ⟨s, rfl⟩
        · intro k s1 sm hk
          cases hk
      · intro key sm _
        exact canGive_zero
  | succ n ih =>
      have hnodes : HasNodes s := hnodes.resolve_left (Nat.succ_ne_zero n)
      rcases manager?_drawn hnodes (rands 0) with ⟨sm0, hsm0⟩
      have hlock := hu.managers _ sm0 hsm0
      constructor
      · rintro ⟨⟨s', hloop⟩, hallocates⟩
        rcases allocatesFree_succ.mp hallocates with ⟨hfirst, hrest⟩
        rcases (givesFree_iff hlock).mp (hfirst sm0 hsm0) with ⟨blockNr, htop, hvalid⟩
        rcases firstRound hu hnodes hfile hsm0 htop with
          ⟨s1, file1, hone, hu1, hnodes1, hfile1, hmanagers, hdraws⟩
        rcases bind_eq_ok.mp hloop with ⟨s1', hone', hmore⟩
        rw [hone] at hone'
        cases hone'
        have hgives := (ih hu1 hfile1 (Or.inr hnodes1)).mp ⟨⟨s', hmore⟩, hrest s1 hone⟩
        intro key sm hsm
        rw [draws_succ]
        by_cases hkey : drawn s (rands 0) = key
        · subst hkey
          rw [hsm0] at hsm
          cases hsm
          rw [if_pos rfl]
          apply (canGive_succ htop).mpr
          constructor
          · exact hvalid
          · rw [← hdraws]
            exact hgives _ _ (by rw [hmanagers, if_pos rfl])
        · rw [if_neg hkey, Nat.add_zero, ← hdraws]
          exact hgives key sm (by rw [hmanagers, if_neg hkey]; exact hsm)
      · intro hgives
        have hgive0 := hgives _ sm0 hsm0
        rw [draws_succ, if_pos rfl] at hgive0
        rcases top_of_canGive hgive0 with ⟨blockNr, htop⟩
        rcases (canGive_succ htop).mp hgive0 with ⟨hvalid, hgive1⟩
        rcases firstRound hu hnodes hfile hsm0 htop with
          ⟨s1, file1, hone, hu1, hnodes1, hfile1, hmanagers, hdraws⟩
        have hgives1 : forall key sm, s1.manager? key = some sm ->
            CanGive sm (draws s1 (fun i => rands (i + 1)) n key) := by
          intro key sm hsm
          rw [hmanagers] at hsm
          rw [hdraws]
          split at hsm
          · rename_i hkey
            subst hkey
            cases hsm
            exact hgive1
          · rename_i hkey
            have hgive := hgives key sm hsm
            rw [draws_succ, if_neg hkey] at hgive
            exact hgive
        rcases (ih hu1 hfile1 (Or.inr hnodes1)).mpr hgives1 with ⟨⟨s', hmore⟩, hallocates⟩
        constructor
        · exact ⟨s', bind_eq_ok.mpr ⟨s1, hone, hmore⟩⟩
        · apply allocatesFree_succ.mpr
          constructor
          · intro sm hsm
            rw [hsm0] at hsm
            cases hsm
            exact (givesFree_iff hlock).mpr ⟨blockNr, htop, hvalid⟩
          · intro s1' hone'
            rw [hone] at hone'
            cases hone'
            exact hallocates

/-- Every round takes one free block. -/
theorem freeBlocks_of_appendBlocks (hu : Unlocked s)
    (hloop : appendBlocks inum n rands s = Except.ok s') : freeBlocks s' + n = freeBlocks s := by
  induction n generalizing s rands with
  | zero =>
      cases hloop
      rfl
  | succ n ih =>
      rcases bind_eq_ok.mp hloop with ⟨s1, hone, hmore⟩
      rcases appendBlock_cases hu hone with ⟨key, sm, file, blockNr, hsm, htop, hfile, rfl⟩
      have hrest := ih (hu.appended hsm inum file blockNr) hmore
      have hsum := TreeMap.sumValues_insert (fun sm => sm.freeList.elems.length)
        (sm.useBlock blockNr) hsm
      have hlength : sm.freeList.elems.length = (sm.useBlock blockNr).freeList.elems.length + 1 :=
        congrArg List.length (MinHeap.elems_of_top? htop)
      have hfirst : freeBlocks (s.appended key sm inum file blockNr) + 1 = freeBlocks s := by
        show TreeMap.sumValues _ (s.spaceManager.insert key (sm.useBlock blockNr)) + 1 =
          TreeMap.sumValues _ s.spaceManager
        omega
      omega

end Loop

/-!
# The whole write
-/

section Write

variable {rands : Nat -> Nat} {name : String} {offset length : UInt64}

theorem Ensured.spaceManager_eq (h : Ensured hash name s s') :
    s'.spaceManager = s.spaceManager := by
  cases h with
  | present hold => rfl
  | created hold hact =>
      cases hact
      rfl
  | full hold hact =>
      cases hact
      rfl

/-- If it can count, the loop runs once for each block that is lacking. -/
theorem newBlocksNum_of_countable {file : Inode}
    (hroom : file.blockInfoList.length < 2 ^ 44)
    (hcount : Countable file.blockInfoList.length offset length) :
    newBlocksNum file.getBlockNum (blocksNeeded offset length) =
      blocksUpTo offset length - file.blockInfoList.length := by
  have hnum := toNat_getBlockNum hroom
  have hneeded := blocksNeeded_of_le hcount.left
  have hfew := hcount.right
  unfold newBlocksNum
  split
  · rename_i hlt
    have hdiff := toNat_lacking hroom hcount.left hlt
    rw [Word.toInt_of_lt (by omega), hdiff]
    exact Int.toNat_natCast _
  · rename_i hge
    rw [UInt64.lt_iff_toNat_lt] at hge
    omega

/-- A completed write has added the blocks of its loop. -/
theorem blockCount_of_writeFile (hwf : WellFormed hash s) {reply : Reply}
    (hwrite : s.writeFile hash rands name offset length = Except.ok (reply, s')) :
    HasInode hash s name ∧ exists num : UInt64,
      num = UInt64.ofNat (blockCount hash s name) ∧
      blockCount hash s' name =
        blockCount hash s name + newBlocksNum num (blocksNeeded offset length) := by
  rcases writeFile_cases hwf hwrite with ⟨s1, s2, d, file, grown, written, _, hwrote, _⟩
  rcases hwrote.hasInode hwf with ⟨hinode, hlength⟩
  refine ⟨hinode, file.getBlockNum, ?_, ?_⟩
  · rw [← hlength]
    rfl
  · have hentry := (hwrote.child?_eq (hash name)).trans hwrote.entry
    have hfile := hwrote.inode?_eq d.inum
    rw [if_pos rfl] at hfile
    have hsame : written.blockInfoList.length = grown.blockInfoList.length := by
      simpa using congrArg List.length hwrote.rewrites.places
    unfold blockCount at hlength ⊢
    rw [hentry, Option.bind_some, hfile, ← hlength, ← hwrote.grows.length]
    exact hsame

/-- No write reports a failure. -/
theorem not_reportsFailure (hwf : WellFormed hash s) :
    ¬ ReportsFailure hash rands s name offset length := by
  rintro ⟨reply, s', hwrite, hreply, _⟩
  rcases writeFile_cases hwf hwrite with ⟨_, _, _, _, _, _, extents, _, heq⟩
  exact hreply extents length heq

theorem hasSpace_of_spaceSound (hwf : WellFormed hash s)
    (h : SpaceSound hash rands s name offset length) :
    HasSpace hash rands s name offset length := by
  have hcompletes : Completes hash rands s name offset length := by
    apply Classical.byContradiction
    intro hnot
    exact not_reportsFailure hwf (h.fails hnot)
  rcases hcompletes with ⟨extents, bytes, s', hwrite, hblocks⟩
  rcases blockCount_of_writeFile hwf hwrite with ⟨hinode, num, hnum, hgrown⟩
  rcases hwf.directory.root with ⟨root, hroot⟩
  rcases allocationStep_eq hwf rands offset length hroot hinode with
    ⟨s1, d, file, hensure, hensured, hentry, hfile, hlength, heq⟩
  have hwf1 := hensured.wellFormed hwf
  have hroom := hwf1.blocks.room _ _ hfile
  have hnum : num = file.getBlockNum := by
    rw [hnum, ← hlength]
    rfl
  have hrounds : newBlocksNum file.getBlockNum (blocksNeeded offset length) =
      newBlocks hash s name offset length := by
    rw [← hnum]
    omega
  have hcount : Countable (blockCount hash s name) offset length := by
    rw [← hlength]
    apply (covers_iff_countable hroom offset length).mp
    rw [hrounds, hlength]
    unfold newBlocks
    omega
  rw [writeFile_eq hash rands name offset length hwf.unlocked.table hroot, heq] at hwrite
  rcases bind_eq_ok.mp hwrite with ⟨_, halloc, _⟩
  rcases bind_eq_ok.mp halloc with ⟨s2, hloop, _⟩
  rw [hrounds] at hloop
  have hne : appendBlocks d.inum (newBlocks hash s name offset length) rands s1 ≠
      Except.error Fault.divisionByZero := by
    rw [hloop]
    intro herror
    cases herror
  have hnodes1 := hasNodes_of_appendBlocks hne
  have hallocates := h.allocates root s1 d file hroot hensure hentry hfile
  rw [hrounds] at hallocates
  have hgives := (appendBlocks_iff_canGive hwf1.unlocked hfile hnodes1).mp
    ⟨⟨s2, hloop⟩, hallocates⟩
  constructor
  · exact hinode
  · exact hcount
  · rw [← hensured.hasNodes_iff]
    exact hnodes1
  · intro key sm hsm
    have hsame := hensured.spaceManager_eq
    have hgive := hgives key sm (by
      unfold MetadataServiceImpl.manager?
      rw [hsame]
      exact hsm)
    unfold draws drawn at hgive ⊢
    rw [hsame] at hgive
    exact hgive

theorem spaceSound_of_hasSpace (hwf : WellFormed hash s)
    (h : HasSpace hash rands s name offset length) :
    SpaceSound hash rands s name offset length := by
  rcases hwf.directory.root with ⟨root, hroot⟩
  rcases allocationStep_eq hwf rands offset length hroot h.inode with
    ⟨s1, d, file, hensure, hensured, hentry, hfile, hlength, heq⟩
  have hwf1 := hensured.wellFormed hwf
  have hroom := hwf1.blocks.room _ _ hfile
  have hcount : Countable file.blockInfoList.length offset length := by
    rw [hlength]
    exact h.countable
  have hrounds : newBlocksNum file.getBlockNum (blocksNeeded offset length) =
      newBlocks hash s name offset length := by
    rw [newBlocksNum_of_countable hroom hcount, hlength]
    rfl
  have hsame := hensured.spaceManager_eq
  have hnodes1 : newBlocks hash s name offset length = 0 ∨ HasNodes s1 := by
    rw [hensured.hasNodes_iff]
    exact h.nodes
  have hgives : forall key sm, s1.manager? key = some sm ->
      CanGive sm (draws s1 rands (newBlocks hash s name offset length) key) := by
    unfold MetadataServiceImpl.manager? draws drawn
    rw [hsame]
    exact h.gives
  rcases (appendBlocks_iff_canGive hwf1.unlocked hfile hnodes1).mpr hgives with
    ⟨⟨s2, hloop⟩, hallocates⟩
  have hgrown := newBlocksNum_room hroom offset length
  rw [hrounds] at heq hgrown
  rw [hloop] at heq
  rcases appendBlocks_trace hash _ hwf1.unlocked hfile hgrown hloop with
    ⟨_, grown, hgrownInode, hgrows⟩
  have hcovers : Covers grown.blockInfoList offset length := by
    have hend := h.countable.left
    have hupTo : blocksUpTo offset length ≤ grown.blockInfoList.length := by
      rw [hgrows.length, hlength]
      unfold newBlocks
      omega
    refine ⟨by omega, hupTo, ?_⟩
    intro hunaligned
    unfold blocksUpTo at hupTo
    omega
  rcases writeFile_of_covers hwf.unlocked.table hroot heq hgrownInode hcovers with
    ⟨r, written, _, _, hwrite, _⟩
  rcases blockCount_of_writeFile hwf hwrite with ⟨_, num, hnum, hblocks⟩
  have hnum : num = file.getBlockNum := by
    rw [hnum, ← hlength]
    rfl
  rw [hnum, hrounds] at hblocks
  have hcompletes : Completes hash rands s name offset length :=
    ⟨_, _, _, hwrite, hblocks⟩
  constructor
  · apply iff_of_true hcompletes
    have hfree := freeBlocks_of_appendBlocks hwf1.unlocked hloop
    have hstart : freeBlocks s1 = freeBlocks s := by
      unfold freeBlocks
      rw [hsame]
    omega
  · intro hnot
    exact absurd hcompletes hnot
  · intro root' s1' d' file' hroot' hensure' hentry' hfile'
    rw [hroot] at hroot'
    cases hroot'
    rw [hensure] at hensure'
    cases hensure'
    rw [hentry] at hentry'
    cases hentry'
    rw [hfile] at hfile'
    cases hfile'
    rw [hrounds]
    exact hallocates

end Write

/--
In every reachable state and for all random choices, a write completes exactly when there
is enough space, fails cleanly otherwise and takes only free blocks, if and only if the
name has an inode, the new blocks can be counted, there is a node to draw if there are
any, and every node has enough good blocks for the rounds that draw it.
-/
theorem spaceSound_iff_hasSpace {calls : List Call} (hreach : Reaches hash calls s)
    (rands : Nat -> Nat) (name : String) (offset length : UInt64) :
    SpaceSound hash rands s name offset length <-> HasSpace hash rands s name offset length := by
  have hwf := hreach.wellFormed
  constructor
  · exact hasSpace_of_spaceSound hwf
  · exact spaceSound_of_hasSpace hwf

/-- One node with one block. -/
def oneBlockCalls : List Call :=
  [(Request.registerMemoryRegion 1 0 1048576).call]

/-- The managers all have the one block 0, and it is free. -/
def oneFree (s : MetadataServiceImpl) : Bool :=
  s.spaceManager.toList.all (fun entry =>
    decide (entry.2.freeList.elems = [0] ∧ entry.2.totalBlocks = 1 ∧ entry.2.inusedBlocks = ∅))

theorem canGive_of_oneFree (h : oneFree s = true) {key : Int} {sm : SpaceManager}
    (hsm : s.manager? key = some sm) : CanGive sm 1 := by
  have hall := List.all_eq_true.mp h (key, sm)
    (Std.ExtTreeMap.mem_toList_iff_getElem?_eq_some.mpr hsm)
  rcases of_decide_eq_true hall with ⟨hfree, htotal, hinused⟩
  constructor
  · rw [hfree]
    exact Nat.le_refl 1
  · rw [hfree]
    exact List.nodup_singleton 0
  · intro blockNr hmem
    rw [hfree] at hmem
    cases List.mem_singleton.mp hmem
    rw [htotal, hinused]
    decide

/-- A write of one block to a node with one block. -/
theorem spaceSound_iff_hasSpace_oneBlock :
    exists s, Reaches byCodes oneBlockCalls s ∧
      SpaceSound byCodes (fun _ => 0) s "f" 0 1000 := by
  have hpass : runPasses byCodes oneBlockCalls (fun s =>
      decide (s.child? (byCodes "f") = none) &&
        (decide (s.inodeTable.curSize ≠ s.inodeTable.totalSize) &&
          (decide (HasNodes s) && oneFree s))) = true := by
    decide +kernel
  rcases reaches_of_runPasses hpass with ⟨s, hreach, htest⟩
  simp only [Bool.and_eq_true, decide_eq_true_eq] at htest
  rcases htest with ⟨habsent, hroom, hnodes, hfree⟩
  have hnone : blockCount byCodes s "f" = 0 := by
    unfold blockCount
    rw [habsent]
    rfl
  have hlacks : newBlocks byCodes s "f" 0 1000 = 1 := by
    unfold newBlocks
    rw [hnone]
    decide
  refine ⟨s, hreach, (spaceSound_iff_hasSpace hreach (fun _ => 0) "f" 0 1000).mpr ?_⟩
  constructor
  · unfold HasInode
    rw [habsent]
    exact hroom
  · rw [hnone]
    exact ⟨by decide, by decide⟩
  · exact Or.inr hnodes
  · intro key sm hsm
    apply (canGive_of_oneFree hfree hsm).mono
    rw [hlacks]
    exact List.countP_le_length

/-- The second block of a write is taken from an empty free list. -/
theorem not_spaceSound_twoBlocks :
    ¬ forall (hash : String -> UInt64) (calls : List Call) (s : MetadataServiceImpl)
      (rands : Nat -> Nat) (name : String) (offset length : UInt64), Reaches hash calls s ->
      SpaceSound hash rands s name offset length := by
  intro h
  have hpass : runPasses byCodes oneBlockCalls (fun s =>
      !passes (s.writeFile byCodes (fun _ => 0) "f" 0 2097152) (fun _ => true)) = true := by
    decide +kernel
  rcases reaches_of_runPasses hpass with ⟨s, hreach, hfails⟩
  have hsound := h byCodes oneBlockCalls s (fun _ => 0) "f" 0 2097152 hreach
  have hnot : ¬ Completes byCodes (fun _ => 0) s "f" 0 2097152 := by
    rintro ⟨extents, bytes, s', hwrite, _⟩
    rw [hwrite] at hfails
    cases hfails
  exact not_reportsFailure hreach.wellFormed (hsound.fails hnot)

end Metadata
end SpongeBob
