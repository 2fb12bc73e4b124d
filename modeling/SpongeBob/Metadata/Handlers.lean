import SpongeBob.Metadata.WellFormed

/-!
# The handlers as sequences of actions

For each handler: what a call that completes has done, from a well-formed state.
A caller of these lemmas never unfolds a handler.
-/

namespace SpongeBob
namespace Metadata

open Foundation
open Fs
open MetadataServiceImpl

variable {hash : String -> UInt64} {s s' : MetadataServiceImpl}

/-!
# Looking up inodes
-/

theorem getInode_of_some (hu : Unlocked s) {i : UInt64} {file : Inode}
    (hfile : s.inode? i = some file) : s.getInode i = Except.ok (some file, s) := by
  unfold MetadataServiceImpl.getInode
  rw [InodeTable.getInode_of_some hu.table hfile]
  rfl

theorem getInode_of_none (hu : Unlocked s) {i : UInt64} (hfile : s.inode? i = none) :
    s.getInode i = Except.ok (none,
      { s with inodeTable := { s.inodeTable with tableLock := true } }) := by
  unfold MetadataServiceImpl.getInode
  rw [InodeTable.getInode_of_none hu.table hfile]
  rfl

theorem deref_eq_ok {alpha : Type} {p : Option alpha} {a : alpha} :
    deref p = Except.ok a <-> p = some a := by
  cases p with
  | none => simp [deref]
  | some b => simp [deref]

/-!
# Creation
-/

theorem enterInode_acts (hwf : WellFormed hash s) {name : String} {type : FileType}
    {inum : UInt64} (habsent : s.child? (hash name) = none)
    (henter : s.enterInode hash name type = Except.ok (inum, s')) :
    Acts hash s (Action.create name type inum) s' ∨
      (inum = noInum ∧ Acts hash s (Action.createFull name) s') := by
  rcases hwf.directory.root with ⟨root, hroot⟩
  have hdentry : root.getDentry hash name = none :=
    (child?_of_root hroot _).symm.trans habsent
  have hadd : forall n, root.addDentry hash name n =
      (true, { root with children :=
        root.children.insert (hash name) ⟨name, hash name, n⟩ }) := by
    intro n
    have hchildren : root.children[hash name]? = none := hdentry
    rw [Inode.addDentry, hchildren]
  unfold enterInode at henter
  rcases bind_eq_ok.mp henter with ⟨⟨newInum, t⟩, halloc, hrest⟩
  rw [InodeTable.allocateFreeInode_eq hwf.unlocked.table] at halloc
  split at halloc
  · rename_i hfull
    cases halloc
    rcases bind_eq_ok.mp hrest with ⟨root', hroot', hpure⟩
    have hsame : s.inode? rootInum = some root' := deref_eq_ok.mp hroot'
    rw [hroot] at hsame
    cases hsame
    rw [hadd] at hpure
    cases hpure
    exact Or.inr ⟨totalSize_eq hwf.balanced, Acts.createFull hroot hdentry hfull⟩
  · rename_i hfree
    rcases bind_eq_ok.mp halloc with ⟨i, htop, hpure⟩
    cases hpure
    have htop' := top_eq_ok.mp htop
    have hne := (free_ne hwf.balanced hwf.directory.root (MinHeap.top?_mem htop')).left
    rcases bind_eq_ok.mp hrest with ⟨root', hroot', hpure⟩
    have hsame : (s.allocated type newInum).inode? rootInum = some root' :=
      deref_eq_ok.mp hroot'
    rw [inode?_allocated, if_neg hne, hroot] at hsame
    cases hsame
    rw [hadd] at hpure
    cases hpure
    exact Or.inl (Acts.create hroot hdentry hfree htop')

/-- A call of {lit}`CreateFile` finds the name or enters it. -/
theorem createFile_cases (hwf : WellFormed hash s) {name : String} {isDir : Bool}
    {reply : Reply} (hcreate : s.createFile hash name isDir = Except.ok (reply, s')) :
    (exists d, s.child? (hash name) = some d ∧ reply = Reply.createFile Status.ok d.inum ∧
      s' = s) ∨
    (s.child? (hash name) = none ∧ exists inum,
      reply = Reply.createFile Status.ok inum ∧
      (Acts hash s (Action.create name (if isDir then FileType.dir else FileType.regFile)
          inum) s' ∨
        (inum = noInum ∧ Acts hash s (Action.createFull name) s'))) := by
  rcases hwf.directory.root with ⟨root, hroot⟩
  have hentry : s.child? (hash name) = root.getDentry hash name := child?_of_root hroot _
  unfold createFile at hcreate
  rw [getInode_of_some hwf.unlocked hroot, ok_bind] at hcreate
  dsimp only at hcreate
  cases hdentry : root.getDentry hash name with
  | some d =>
      rw [hdentry] at hcreate
      cases hcreate
      exact Or.inl ⟨d, hentry.trans hdentry, rfl, rfl⟩
  | none =>
      rw [hdentry] at hcreate
      rcases bind_eq_ok.mp hcreate with ⟨⟨inum, s1⟩, henter, hpure⟩
      cases hpure
      exact Or.inr ⟨hentry.trans hdentry, inum, rfl,
        enterInode_acts hwf (hentry.trans hdentry) henter⟩

/-- What {lit}`OpenFile` and {lit}`WriteFile` do first: the name has an entry afterwards. -/
inductive Ensured (hash : String -> UInt64) (name : String) (s : MetadataServiceImpl) :
    MetadataServiceImpl -> Prop where
  | present {d : Dentry} (hentry : s.child? (hash name) = some d) : Ensured hash name s s
  | created {inum : UInt64} {s1 : MetadataServiceImpl}
      (hentry : s.child? (hash name) = none)
      (hact : Acts hash s (Action.create name FileType.regFile inum) s1) :
      Ensured hash name s s1
  | full {s1 : MetadataServiceImpl} (hentry : s.child? (hash name) = none)
      (hact : Acts hash s (Action.createFull name) s1) : Ensured hash name s s1

theorem ensureFile_cases (hwf : WellFormed hash s) {name : String} {root : Inode}
    (hroot : s.inode? rootInum = some root)
    (hensure : s.ensureFile hash root name = Except.ok s') :
    Ensured hash name s s' := by
  unfold ensureFile at hensure
  have hentry : s.child? (hash name) = root.getDentry hash name := child?_of_root hroot _
  cases hdentry : root.getDentry hash name with
  | some d =>
      rw [hdentry] at hensure
      cases hensure
      exact Ensured.present (hentry.trans hdentry)
  | none =>
      rw [hdentry] at hensure
      rcases bind_eq_ok.mp hensure with ⟨⟨inum, s1⟩, hcreate, hpure⟩
      cases hpure
      unfold createFile_ at hcreate
      rw [getInode_of_some hwf.unlocked hroot, ok_bind] at hcreate
      have habsent := hentry.trans hdentry
      rcases enterInode_acts hwf habsent hcreate with hact | ⟨_, hact⟩
      · exact Ensured.created habsent hact
      · exact Ensured.full habsent hact

theorem Ensured.wellFormed {name : String} (h : Ensured hash name s s')
    (hwf : WellFormed hash s) : WellFormed hash s' := by
  cases h with
  | present hentry => exact hwf
  | created hentry hact => exact hact.wellFormed hwf
  | full hentry hact => exact hact.wellFormed hwf

/-!
# Descriptors
-/

theorem allocateFD_unlocked {m m' : FileMap} {fd : Int} (h : m.fileMapLock = false)
    (halloc : m.allocateFD = Except.ok (fd, m')) : m'.fileMapLock = false := by
  unfold FileMap.allocateFD at halloc
  rw [lock_of_free h, ok_bind] at halloc
  cases htop : m.fdFreeList.top? with
  | none =>
      rw [htop] at halloc
      rw [← (Prod.mk.inj (Except.ok.inj halloc)).right]
  | some newFd =>
      rw [htop] at halloc
      rw [← (Prod.mk.inj (Except.ok.inj halloc)).right]

theorem reclaimFD_unlocked {m m' : FileMap} {fd : UInt64} {success : Bool}
    (h : m.fileMapLock = false) (hreclaim : m.reclaimFD fd = Except.ok (success, m')) :
    m'.fileMapLock = false := by
  unfold FileMap.reclaimFD at hreclaim
  rw [lock_of_free h, ok_bind] at hreclaim
  by_cases hused : fd ∈ m.fdUsedSet
  · simp only [hused, if_true] at hreclaim
    rw [← (Prod.mk.inj (Except.ok.inj hreclaim)).right]
  · simp only [hused, if_false] at hreclaim
    rw [← (Prod.mk.inj (Except.ok.inj hreclaim)).right]

theorem openFile_cases (hwf : WellFormed hash s) {name : String} {reply : Reply}
    (hopen : s.openFile hash name = Except.ok (reply, s')) :
    exists s1 fd fileMap, Ensured hash name s s1 ∧
      s1.fileMap.allocateFD = Except.ok (fd, fileMap) ∧
      reply = Reply.openFile Status.ok fd ∧ s' = { s1 with fileMap := fileMap } := by
  rcases hwf.directory.root with ⟨root, hroot⟩
  unfold openFile at hopen
  rw [getInode_of_some hwf.unlocked hroot, ok_bind] at hopen
  rcases bind_eq_ok.mp hopen with ⟨s1, hensure, hrest⟩
  rcases bind_eq_ok.mp hrest with ⟨⟨fd, fileMap⟩, halloc, hpure⟩
  cases hpure
  exact ⟨s1, fd, fileMap, ensureFile_cases hwf hroot hensure, halloc, rfl, rfl⟩

theorem closeFile_cases {fd : Int64} {reply : Reply}
    (hclose : s.closeFile fd = Except.ok (reply, s')) :
    exists success fileMap, s.fileMap.reclaimFD fd.toUInt64 = Except.ok (success, fileMap) ∧
      reply = Reply.closeFile Status.ok success ∧ s' = { s with fileMap := fileMap } := by
  unfold closeFile at hclose
  rcases bind_eq_ok.mp hclose with ⟨⟨success, fileMap⟩, hreclaim, hpure⟩
  cases hpure
  exact ⟨success, fileMap, hreclaim, rfl, rfl⟩

/-!
# Reading
-/

theorem readFile_cases (hwf : WellFormed hash s) {name : String} {offset length : UInt64}
    {reply : Reply} (hread : s.readFile hash name offset length = Except.ok (reply, s')) :
    exists d file c, s.child? (hash name) = some d ∧ s.inode? d.inum = some file ∧
      readExtents file offset (clipLength file.size offset length) = Except.ok c ∧
      reply = Reply.readFile Status.ok c.reply
        (clipLength file.size offset length - c.toTransfer) ∧ s' = s := by
  rcases hwf.directory.root with ⟨root, hroot⟩
  unfold readFile at hread
  rw [getInode_of_some hwf.unlocked hroot, ok_bind] at hread
  rcases bind_eq_ok.mp hread with ⟨d, hd, hrest⟩
  have hentry : s.child? (hash name) = some d :=
    (child?_of_root hroot _).trans (deref_eq_ok.mp hd)
  cases hfile : s.inode? d.inum with
  | none =>
      rw [getInode_of_none hwf.unlocked hfile] at hrest
      cases hrest
  | some file =>
      rw [getInode_of_some hwf.unlocked hfile, ok_bind] at hrest
      rcases bind_eq_ok.mp hrest with ⟨c, hextents, hpure⟩
      cases hpure
      exact ⟨d, file, c, hentry, hfile, hextents, rfl, rfl⟩

/-- The converse: what makes a read complete. -/
theorem readFile_of_extents (hwf : WellFormed hash s) {name : String}
    {offset length : UInt64} {d : Dentry} {file : Inode} {c : Cursor}
    (hentry : s.child? (hash name) = some d) (hfile : s.inode? d.inum = some file)
    (hextents : readExtents file offset (clipLength file.size offset length) =
      Except.ok c) :
    s.readFile hash name offset length = Except.ok
      (Reply.readFile Status.ok c.reply
        (clipLength file.size offset length - c.toTransfer), s) := by
  rcases hwf.directory.root with ⟨root, hroot⟩
  have hdentry : root.getDentry hash name = some d :=
    (child?_of_root hroot _).symm.trans hentry
  unfold readFile
  rw [getInode_of_some hwf.unlocked hroot, ok_bind]
  refine bind_eq_ok.mpr ⟨d, deref_eq_ok.mpr hdentry, ?_⟩
  rw [getInode_of_some hwf.unlocked hfile, ok_bind]
  exact bind_eq_ok.mpr ⟨c, hextents, rfl⟩

/-- What a directory listing says about an entry. -/
def Lists (s : MetadataServiceImpl) (d : Dentry) (info : DentryInfo) : Prop :=
  exists file, s.inode? d.inum = some file ∧
    info = { name := d.name, isDir := file.isDir, inum := d.inum, size := file.size }

theorem readDentries_cases (hu : Unlocked s) {dentries : List Dentry}
    {infos : List DentryInfo}
    (hread : s.readDentries dentries = Except.ok (infos, s')) :
    s' = s ∧ List.Forall₂ (Lists s) dentries infos := by
  induction dentries generalizing infos with
  | nil =>
      cases hread
      exact ⟨rfl, List.Forall₂.nil⟩
  | cons d rest ih =>
      unfold readDentries at hread
      cases hfile : s.inode? d.inum with
      | none =>
          rw [getInode_of_none hu hfile] at hread
          cases hread
      | some file =>
          rw [getInode_of_some hu hfile, ok_bind] at hread
          rcases bind_eq_ok.mp hread with ⟨file', hderef, hread⟩
          cases deref_eq_ok.mp hderef
          rcases bind_eq_ok.mp hread with ⟨⟨infos', s1⟩, hrest, hpure⟩
          cases hpure
          rcases ih hrest with ⟨hsame, hall⟩
          exact ⟨hsame, List.Forall₂.cons ⟨file, hfile, rfl⟩ hall⟩

theorem readDirectory_cases (path : String) (hwf : WellFormed hash s) {reply : Reply}
    (hread : s.readDirectory path = Except.ok (reply, s')) :
    exists root infos, s.inode? rootInum = some root ∧
      List.Forall₂ (Lists s) root.getDentryMap infos ∧
      reply = Reply.readDirectory Status.ok (dotEntries ++ infos) ∧ s' = s := by
  rcases hwf.directory.root with ⟨root, hroot⟩
  unfold readDirectory at hread
  rw [getInode_of_some hwf.unlocked hroot, ok_bind] at hread
  rcases bind_eq_ok.mp hread with ⟨⟨infos, s1⟩, hdentries, hpure⟩
  cases hpure
  rcases readDentries_cases hwf.unlocked hdentries with ⟨rfl, hall⟩
  exact ⟨root, infos, hroot, hall, rfl, rfl⟩

/-!
# Writing
-/

theorem allocateOneBlock_eq_ok {sm sm' : SpaceManager} {blockNr : UInt64}
    (hlock : sm.spaceLock = false) :
    sm.allocateOneBlock = Except.ok (blockNr, sm') <->
      sm.freeList.top? = some blockNr ∧ sm' = sm.useBlock blockNr := by
  have hunlock : forall n, { sm.useBlock n with spaceLock := false } = sm.useBlock n := by
    intro n
    simp only [SpaceManager.useBlock, hlock]
  unfold SpaceManager.allocateOneBlock SpaceManager.takeBlock
  rw [lock_of_free hlock, ok_bind]
  constructor
  · intro halloc
    rcases bind_eq_ok.mp halloc with ⟨⟨n, sm1⟩, htake, hpure⟩
    rcases bind_eq_ok.mp htake with ⟨n', htop, hpure'⟩
    cases hpure'
    cases hpure
    exact ⟨top_eq_ok.mp htop, hunlock blockNr⟩
  · rintro ⟨htop, rfl⟩
    rw [top_eq_ok.mpr htop, ok_bind]
    show Except.ok (blockNr, { sm.useBlock blockNr with spaceLock := false }) = _
    rw [hunlock]

/-- One round of the allocation loop appends one block. -/
theorem appendBlock_cases (hu : Unlocked s) {inum : UInt64} {rand : Nat}
    (happend : s.appendBlock inum rand = Except.ok s') :
    exists key sm file blockNr, s.manager? key = some sm ∧
      sm.freeList.top? = some blockNr ∧ s.inode? inum = some file ∧
      s' = s.appended key sm inum file blockNr := by
  unfold appendBlock at happend
  rcases bind_eq_ok.mp happend with ⟨r, _, happend⟩
  rcases bind_eq_ok.mp happend with ⟨sm, hsm, happend⟩
  rcases bind_eq_ok.mp happend with ⟨⟨blockNr, sm'⟩, halloc, happend⟩
  have hsm := deref_eq_ok.mp hsm
  rcases (allocateOneBlock_eq_ok (hu.managers _ sm hsm)).mp halloc with ⟨htop, rfl⟩
  rcases bind_eq_ok.mp happend with ⟨file, hfile, hpure⟩
  cases hpure
  exact ⟨_, sm, file, blockNr, hsm, htop, deref_eq_ok.mp hfile, rfl⟩

/-- The second inode is the first one with {lit}`n` more blocks. -/
def Grown (n : Nat) (file file' : Inode) : Prop :=
  exists new, new.length = n ∧
    file' = { file with blockInfoList := file.blockInfoList ++ new }

theorem Grown.length {n : Nat} {file file' : Inode} (h : Grown n file file') :
    file'.blockInfoList.length = file.blockInfoList.length + n := by
  rcases h with ⟨new, rfl, rfl⟩
  exact List.length_append

theorem Grown.continues {n : Nat} {file file' : Inode} (h : Grown n file file') :
    Continues file file' := by
  rcases h with ⟨new, _, rfl⟩
  rw [Continues, List.map_append]
  exact List.prefix_append _ _

theorem Grown.of_append {n : Nat} {file file' : Inode}
    {serverId startAddr length blockNr : UInt64}
    (h : Grown n (file.appendFileBlockInfo serverId startAddr length blockNr) file') :
    Grown (n + 1) file file' := by
  rcases h with ⟨new, rfl, rfl⟩
  refine ⟨⟨serverId, startAddr, length, blockNr⟩ :: new, List.length_cons, ?_⟩
  simp only [Inode.appendFileBlockInfo, List.append_assoc, List.singleton_append]

theorem length_appendFileBlockInfo (file : Inode)
    (serverId startAddr length blockNr : UInt64) :
    (file.appendFileBlockInfo serverId startAddr length blockNr).blockInfoList.length =
      file.blockInfoList.length + 1 := by
  simp only [Inode.appendFileBlockInfo, List.length_append, List.length_singleton]

/-- A round of the loop for a file is an action that puts a block at the end of its list. -/
theorem appendBlock_acts (hash : String -> UInt64) (hu : Unlocked s) {inum : UInt64}
    {rand : Nat} {file : Inode} (hfile : s.inode? inum = some file)
    (hroom : file.blockInfoList.length + 1 < 2 ^ 44)
    (happend : s.appendBlock inum rand = Except.ok s') :
    exists key sm blockNr, s.manager? key = some sm ∧
      s' = s.appended key sm inum file blockNr ∧ Acts hash s (Action.append inum) s' ∧
      s'.inode? inum = some
        (file.appendFileBlockInfo (UInt64.ofInt key) (blockNr * fileBlockSize) 0 blockNr) := by
  rcases appendBlock_cases hu happend with ⟨key, sm, file0, blockNr, hsm, htop, hfile0, rfl⟩
  cases hfile.symm.trans hfile0
  refine ⟨key, sm, blockNr, hsm, rfl, Acts.append hsm htop hfile hroom, ?_⟩
  rw [inode?_appended, if_pos rfl]

theorem appendBlocks_trace (hash : String -> UInt64) (n : Nat) {inum : UInt64}
    {rands : Nat -> Nat} {file : Inode} (hu : Unlocked s) (hfile : s.inode? inum = some file)
    (hroom : file.blockInfoList.length + n < 2 ^ 44)
    (happend : appendBlocks inum n rands s = Except.ok s') :
    Trace hash s (List.replicate n (Action.append inum)) s' ∧
      exists file', s'.inode? inum = some file' ∧ Grown n file file' := by
  induction n generalizing s rands file with
  | zero =>
      cases happend
      exact ⟨Trace.nil _, file, hfile, [], rfl, by simp⟩
  | succ n ih =>
      unfold appendBlocks at happend
      rcases bind_eq_ok.mp happend with ⟨s1, hone, hrest⟩
      rcases appendBlock_acts hash hu hfile (by omega) hone with
        ⟨key, sm, blockNr, _, _, hact, hfile1⟩
      rcases ih (hact.unlocked hu) hfile1
        (by rw [length_appendFileBlockInfo]; omega) hrest with ⟨htrace, file', hfile', hgrown⟩
      exact ⟨Trace.cons hact htrace, file', hfile', hgrown.of_append⟩

theorem toNat_getBlockNum {file : Inode} (hroom : file.blockInfoList.length < 2 ^ 44) :
    file.getBlockNum.toNat = file.blockInfoList.length :=
  UInt64.toNat_ofNat_of_lt' (show _ < 2 ^ 64 by omega)

/-- The allocation loop never takes a file past the number of blocks in 64 bits. -/
theorem newBlocksNum_room {file : Inode} (hroom : file.blockInfoList.length < 2 ^ 44)
    (offset length : UInt64) :
    file.blockInfoList.length +
      newBlocksNum file.getBlockNum (blocksNeeded offset length) < 2 ^ 44 := by
  have hneeded : (blocksNeeded offset length).toNat < 2 ^ 44 := by
    have hlt := (offset + length + fileBlockSize - 1).toNat_lt
    rw [blocksNeeded, UInt64.toNat_div, fileBlockSize_toNat]
    omega
  have hnum := toNat_getBlockNum hroom
  unfold newBlocksNum
  split
  · rename_i hlt
    have hle := Word.toNat_toInt_le (blocksNeeded offset length - file.getBlockNum)
    have hlt := UInt64.lt_iff_toNat_lt.mp hlt
    rw [UInt64.toNat_sub_of_le _ _ (UInt64.le_iff_toNat_le.mpr (by omega)), hnum] at hle
    omega
  · omega

/-- What a completed write has done, step by step. -/
structure Wrote (hash : String -> UInt64) (name : String) (offset length : UInt64)
    (s s1 s2 s' : MetadataServiceImpl) (d : Dentry) (file grown written : Inode)
    (extents : List Extent) : Prop where
  ensured : Ensured hash name s s1
  entry : s1.child? (hash name) = some d
  inode : s1.inode? d.inum = some file
  appends : Trace hash s1 (List.replicate
    (newBlocksNum file.getBlockNum (blocksNeeded offset length)) (Action.append d.inum)) s2
  grownInode : s2.inode? d.inum = some grown
  grows : Grown (newBlocksNum file.getBlockNum (blocksNeeded offset length)) file grown
  reads : exists r, readExtents grown offset length = Except.ok r ∧ r.reply = extents
  rewrites : SameBlocks grown written
  next : s' = s2.putInode d.inum (written.setSize (offset + length))

/-- The phases of a completed write, with the cursor it ends with. -/
theorem writeFile_phases (hwf : WellFormed hash s) {rands : Nat -> Nat} {name : String}
    {offset length : UInt64} {reply : Reply}
    (hwrite : s.writeFile hash rands name offset length = Except.ok (reply, s')) :
    exists s1 s2 d file grown written c,
      Wrote hash name offset length s s1 s2 s' d file grown written c.reply ∧
      writeExtents grown offset length = Except.ok (written, c) ∧
      reply = Reply.writeFile Status.ok c.reply length := by
  rcases hwf.directory.root with ⟨root, hroot⟩
  unfold writeFile at hwrite
  rw [getInode_of_some hwf.unlocked hroot, ok_bind] at hwrite
  rcases bind_eq_ok.mp hwrite with ⟨s1, hensure, hwrite⟩
  have hensured := ensureFile_cases hwf hroot hensure
  have hwf1 := hensured.wellFormed hwf
  rcases bind_eq_ok.mp hwrite with ⟨root1, hroot1, hwrite⟩
  rcases bind_eq_ok.mp hwrite with ⟨d, hd, hwrite⟩
  have hentry : s1.child? (hash name) = some d :=
    (child?_of_root (deref_eq_ok.mp hroot1) _).trans (deref_eq_ok.mp hd)
  cases hfile : s1.inode? d.inum with
  | none =>
      rw [getInode_of_none hwf1.unlocked hfile] at hwrite
      cases hwrite
  | some file =>
      rw [getInode_of_some hwf1.unlocked hfile, ok_bind] at hwrite
      rcases bind_eq_ok.mp hwrite with ⟨file', hderef, hwrite⟩
      cases deref_eq_ok.mp hderef
      rcases bind_eq_ok.mp hwrite with ⟨s2, happend, hwrite⟩
      have hroom := newBlocksNum_room (hwf1.blocks.room _ _ hfile) offset length
      rcases appendBlocks_trace hash _ hwf1.unlocked hfile hroom happend with
        ⟨htrace, grown, hgrown, hgrows⟩
      rcases bind_eq_ok.mp hwrite with ⟨grown', hgrown', hwrite⟩
      have hsame := deref_eq_ok.mp hgrown'
      rw [hgrown] at hsame
      cases hsame
      rcases bind_eq_ok.mp hwrite with ⟨⟨written, c⟩, hextents, hpure⟩
      rcases writeExtents_spec hextents with ⟨⟨r, hr, hreply, hleft⟩, hsame⟩
      have hzero : c.toTransfer = 0 := hleft.symm.trans (readExtents_tiles hr).left
      simp only [hzero, UInt64.sub_zero] at hpure
      cases hpure
      exact ⟨s1, s2, d, file, grown, written, c,
        ⟨hensured, hentry, hfile, htrace, hgrown, hgrows, ⟨r, hr, hreply⟩, hsame, rfl⟩,
        hextents, rfl⟩

theorem writeFile_cases (hwf : WellFormed hash s) {rands : Nat -> Nat} {name : String}
    {offset length : UInt64} {reply : Reply}
    (hwrite : s.writeFile hash rands name offset length = Except.ok (reply, s')) :
    exists s1 s2 d file grown written extents,
      Wrote hash name offset length s s1 s2 s' d file grown written extents ∧
      reply = Reply.writeFile Status.ok extents length := by
  rcases writeFile_phases hwf hwrite with
    ⟨s1, s2, d, file, grown, written, c, hwrote, _, hreply⟩
  exact ⟨s1, s2, d, file, grown, written, c.reply, hwrote, hreply⟩

/-!
# Removal
-/

theorem reclaimInodeSpace_of_free {sm : SpaceManager} (hlock : sm.spaceLock = false)
    (file : Inode) :
    sm.reclaimInodeSpace (some file) =
      Except.ok (true, sm.returnBlocks file.blockInfoList) := by
  have hunlock : { sm.returnBlocks file.blockInfoList with spaceLock := false } =
      sm.returnBlocks file.blockInfoList := by
    rw [← hlock, ← spaceLock_returnBlocks sm file.blockInfoList]
  unfold SpaceManager.reclaimInodeSpace
  rw [lock_of_free hlock, ok_bind]
  show Except.ok (true, { sm.returnBlocks file.blockInfoList with spaceLock := false }) = _
  rw [hunlock]

/-- The state with one manager replaced. -/
def withManager (s : MetadataServiceImpl) (key : Int) (sm : SpaceManager) :
    MetadataServiceImpl :=
  { s with spaceManager := s.spaceManager.insert key sm }

theorem manager?_withManager (key : Int) (sm : SpaceManager) (k : Int) :
    (withManager s key sm).manager? k =
      if key = k then some sm else s.manager? k := by
  simp [withManager, manager?, Std.ExtTreeMap.getElem?_insert]

theorem Unlocked.withManager (hu : Unlocked s) {key : Int} {sm : SpaceManager}
    (hlock : sm.spaceLock = false) : Unlocked (withManager s key sm) := by
  refine ⟨hu.table, ?_, hu.descriptors⟩
  intro k sm' hsm'
  rw [manager?_withManager] at hsm'
  split at hsm'
  · cases hsm'
    exact hlock
  · exact hu.managers k sm' hsm'

/-- The loop over the managers gives the blocks back to each of the listed nodes. -/
theorem reclaimFrom_cases (hu : Unlocked s) {inum : UInt64} {file : Inode}
    (hfile : s.inode? inum = some file) {keys : List Int} (hnodup : keys.Nodup)
    (hreclaim : reclaimFrom inum keys s = Except.ok s') :
    s'.inodeTable = s.inodeTable ∧ s'.fileMap = s.fileMap ∧
      forall key, s'.manager? key =
        if key ∈ keys then
          (s.manager? key).map (fun sm => sm.returnBlocks file.blockInfoList)
        else s.manager? key := by
  induction keys generalizing s with
  | nil =>
      cases hreclaim
      exact ⟨rfl, rfl, fun key => by simp⟩
  | cons key keys ih =>
      unfold reclaimFrom at hreclaim
      rw [getInode_of_some hu hfile, ok_bind] at hreclaim
      rcases bind_eq_ok.mp hreclaim with ⟨sm, hsm, hreclaim⟩
      have hsm : s.manager? key = some sm := deref_eq_ok.mp hsm
      rw [reclaimInodeSpace_of_free (hu.managers key sm hsm), ok_bind] at hreclaim
      have hlock := (spaceLock_returnBlocks sm file.blockInfoList).trans
        (hu.managers key sm hsm)
      rcases ih (hu.withManager hlock) hfile (List.nodup_cons.mp hnodup).right hreclaim with
        ⟨htable, hmap, hrest⟩
      refine ⟨htable, hmap, ?_⟩
      intro k
      rw [hrest, manager?_withManager]
      by_cases hk : key = k
      · subst hk
        rw [if_neg (List.nodup_cons.mp hnodup).left, if_pos rfl, if_pos List.mem_cons_self,
          hsm]
        rfl
      · simp [hk, Ne.symm hk]

theorem reclaimFrom_keys (hu : Unlocked s) {inum : UInt64} {file : Inode}
    (hfile : s.inode? inum = some file)
    (hreclaim : reclaimFrom inum s.spaceManager.keys s = Except.ok s') :
    s' = { s with
      spaceManager :=
        s.spaceManager.map (fun _ sm => sm.returnBlocks file.blockInfoList) } := by
  have hnodup : s.spaceManager.keys.Nodup := Std.ExtTreeMap.nodup_keys
  rcases reclaimFrom_cases hu hfile hnodup hreclaim with ⟨htable, hmap, hmanager⟩
  have hspace : s'.spaceManager =
      s.spaceManager.map (fun _ sm => sm.returnBlocks file.blockInfoList) := by
    apply Std.ExtTreeMap.ext_getElem?
    intro key
    rw [Std.ExtTreeMap.getElem?_map]
    refine (hmanager key).trans ?_
    split
    · rfl
    · -- A key that is not listed has no manager.
      rename_i hkey
      rw [Std.ExtTreeMap.mem_keys] at hkey
      rw [manager?, Std.ExtTreeMap.getElem?_eq_none hkey]
      rfl
  cases s'
  cases htable
  cases hmap
  cases hspace
  rfl

theorem reclaimFrom_none (hu : Unlocked s) {inum : UInt64}
    (hfile : s.inode? inum = none) {keys : List Int}
    (hreclaim : reclaimFrom inum keys s = Except.ok s') : s' = s := by
  cases keys with
  | nil =>
      cases hreclaim
      rfl
  | cons key keys =>
      unfold reclaimFrom at hreclaim
      rw [getInode_of_none hu hfile, ok_bind] at hreclaim
      rcases bind_eq_ok.mp hreclaim with ⟨sm, hsm, hreclaim⟩
      have hlock : lock sm.spaceLock = Except.ok true :=
        lock_of_free (hu.managers key sm (deref_eq_ok.mp hsm))
      unfold SpaceManager.reclaimInodeSpace at hreclaim
      rw [hlock] at hreclaim
      cases hreclaim

theorem deleteDentry_of_some {root : Inode} {name : String} {d : Dentry}
    (hdentry : root.getDentry hash name = some d) :
    root.deleteDentry hash name =
      (true, { root with children := root.children.erase (hash name) }) := by
  have hchildren : root.children[hash name]? = some d := hdentry
  rw [Inode.deleteDentry, hchildren]

theorem Unlocked.unlinked (hu : Unlocked s) (root : Inode) (key : UInt64) :
    Unlocked (s.unlinked root key) :=
  ⟨hu.table, hu.managers, hu.descriptors⟩

/-- What is left of the removal of a name that has an entry. -/
theorem removeFile_eq (hu : Unlocked s) {name : String} {root : Inode} {d : Dentry}
    (hroot : s.inode? rootInum = some root) (hdentry : root.getDentry hash name = some d) :
    s.removeFile hash name = (do
      let s1 ← reclaimFrom d.inum s.spaceManager.keys (s.unlinked root (hash name))
      let (_, t) ← s1.inodeTable.deleteInode d.inum
      pure (Reply.removeFile Status.ok true, { s1 with inodeTable := t })) := by
  unfold removeFile
  rw [getInode_of_some hu hroot, ok_bind]
  dsimp only
  rw [hdentry, deleteDentry_of_some hdentry]
  rfl

theorem removeFile_cases (hwf : WellFormed hash s) {name : String} {reply : Reply}
    (hremove : s.removeFile hash name = Except.ok (reply, s')) :
    (s.child? (hash name) = none ∧ reply = Reply.removeFile Status.ok false ∧ s' = s) ∨
    (exists d, s.child? (hash name) = some d ∧ reply = Reply.removeFile Status.ok true ∧
      Acts hash s (Action.remove name) s') := by
  rcases hwf.directory.root with ⟨root, hroot⟩
  have hentry : s.child? (hash name) = root.getDentry hash name := child?_of_root hroot _
  cases hdentry : root.getDentry hash name with
  | none =>
      unfold removeFile at hremove
      rw [getInode_of_some hwf.unlocked hroot, ok_bind] at hremove
      dsimp only at hremove
      rw [hdentry] at hremove
      cases hremove
      exact Or.inl ⟨hentry.trans hdentry, rfl, rfl⟩
  | some d =>
      have hd := hentry.trans hdentry
      have hne := hwf.directory.notRoot _ _ hd
      rw [removeFile_eq hwf.unlocked hroot hdentry] at hremove
      rcases bind_eq_ok.mp hremove with ⟨s1, hreclaim, hremove⟩
      rcases bind_eq_ok.mp hremove with ⟨⟨_, t⟩, hdelete, hpure⟩
      cases hpure
      refine Or.inr ⟨d, hd, rfl, ?_⟩
      have hu := hwf.unlocked.unlinked root (hash name)
      have hinode : (s.unlinked root (hash name)).inode? d.inum = s.inode? d.inum := by
        rw [inode?_unlinked, if_neg (Ne.symm hne)]
      cases hfile : s.inode? d.inum with
      | some file =>
          rw [reclaimFrom_keys hu (hinode.trans hfile) hreclaim] at hdelete ⊢
          rw [InodeTable.deleteInode_of_some hu.table (hinode.trans hfile)] at hdelete
          cases hdelete
          exact Acts.remove hroot hdentry hfile
      | none =>
          rw [reclaimFrom_none hu (hinode.trans hfile) hreclaim] at hdelete ⊢
          rw [InodeTable.deleteInode_of_none hu.table (hinode.trans hfile)] at hdelete
          cases hdelete
          exact Acts.unlink hroot hdentry hfile

end Metadata
end SpongeBob
