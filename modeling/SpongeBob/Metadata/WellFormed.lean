import SpongeBob.Metadata.Actions

/-!
# Well-formed states

What holds of the server's state after every completed call, whatever the hash
function and whatever was registered: all mutexes are free, the inode table is in
balance, the root directory and the table describe the same files, and each block
of a file carries the address that its number stands for.
-/

namespace SpongeBob
namespace Metadata

open Foundation
open Fs
open MetadataServiceImpl

/-- The number {lit}`AllocateFreeInode` reports when no inode is free. -/
def noInum : UInt64 := 101

structure Unlocked (s : MetadataServiceImpl) : Prop where
  table : s.inodeTable.tableLock = false
  managers : forall key sm, s.manager? key = some sm -> sm.spaceLock = false
  descriptors : s.fileMap.fileMapLock = false

/-- The root directory and the inode table describe the same files. -/
structure Directory (hash : String -> UInt64) (s : MetadataServiceImpl) : Prop where
  root : exists root, s.inode? rootInum = some root
  key : forall key d, s.child? key = some d -> d.hash = key ∧ hash d.name = key
  notRoot : forall key d, s.child? key = some d -> d.inum ≠ rootInum
  target : forall key d, s.child? key = some d ->
    d.inum = noInum ∨ exists file, s.inode? d.inum = some file
  injective : forall key d key' d', s.child? key = some d -> s.child? key' = some d' ->
    d.inum = d'.inum -> d.inum ≠ noInum -> key = key'
  named : forall i file, s.inode? i = some file -> i ≠ rootInum ->
    exists key d, s.child? key = some d ∧ d.inum = i

/-- A block of a file lies on a registered node, at the address its number gives. -/
structure BlockOk (s : MetadataServiceImpl) (info : FileBlockInfo) : Prop where
  startAddr : info.startAddr = info.blockNr * fileBlockSize
  serverId : UInt64.ofInt (Word.toInt info.serverId) = info.serverId
  registered : exists sm, s.manager? (Word.toInt info.serverId) = some sm

structure Blocks (s : MetadataServiceImpl) : Prop where
  block : forall i file info, s.inode? i = some file -> info ∈ file.blockInfoList ->
    BlockOk s info
  room : forall i file, s.inode? i = some file -> file.blockInfoList.length < 2 ^ 44
  managerKey : forall key sm, s.manager? key = some sm ->
    Word.toInt sm.serverId = key

structure WellFormed (hash : String -> UInt64) (s : MetadataServiceImpl) : Prop where
  unlocked : Unlocked s
  balanced : s.inodeTable.Balanced 100
  directory : Directory hash s
  blocks : Blocks s

/-!
# Facts about well-formed states
-/

variable {hash : String -> UInt64} {s s' : MetadataServiceImpl}

theorem mem_table_iff {i : UInt64} :
    i ∈ s.inodeTable.table <-> exists file, s.inode? i = some file := by
  rw [Std.ExtTreeMap.mem_iff_isSome_getElem?, Option.isSome_iff_exists]
  rfl

theorem inode?_eq_none_of_free (hb : s.inodeTable.Balanced 100) {i : UInt64}
    (hi : i ∈ s.inodeTable.freeList) : s.inode? i = none := by
  cases hfile : s.inode? i with
  | none => rfl
  | some file => exact absurd (mem_table_iff.mpr ⟨file, hfile⟩) (hb.freeFresh i hi)

/-- The number for "no inode" is not a number of the table. -/
theorem inode?_noInum (hb : s.inodeTable.Balanced 100) : s.inode? noInum = none := by
  cases hfile : s.inode? noInum with
  | none => rfl
  | some file =>
      have hle := (hb.cover noInum).mp (Or.inl (mem_table_iff.mpr ⟨file, hfile⟩))
      exact absurd hle (by decide)

theorem totalSize_eq (hb : s.inodeTable.Balanced 100) :
    s.inodeTable.totalSize + 1 = noInum := by
  have htotal : s.inodeTable.totalSize = 100 := UInt64.toNat_inj.mp hb.totalSize
  rw [htotal]
  rfl

/-- A free number is neither the root's nor the one for "no inode". -/
theorem free_ne (hb : s.inodeTable.Balanced 100)
    (hroot : exists root, s.inode? rootInum = some root) {i : UInt64}
    (hi : i ∈ s.inodeTable.freeList) : i ≠ rootInum ∧ i ≠ noInum := by
  constructor
  · rintro rfl
    exact hb.freeFresh rootInum hi (mem_table_iff.mpr hroot)
  · rintro rfl
    exact absurd ((hb.cover noInum).mp (Or.inr hi)) (by decide)

/-!
# Mutexes
-/

@[simp] theorem serverId_returnBlocks (sm : SpaceManager) (blocks : List FileBlockInfo) :
    (sm.returnBlocks blocks).serverId = sm.serverId := by
  induction blocks generalizing sm with
  | nil => rfl
  | cons info rest ih =>
      show (SpaceManager.returnBlocks (if _ then _ else _) rest).serverId = _
      rw [ih]
      split <;> rfl

@[simp] theorem spaceLock_returnBlocks (sm : SpaceManager) (blocks : List FileBlockInfo) :
    (sm.returnBlocks blocks).spaceLock = sm.spaceLock := by
  induction blocks generalizing sm with
  | nil => rfl
  | cons info rest ih =>
      show (SpaceManager.returnBlocks (if _ then _ else _) rest).spaceLock = _
      rw [ih]
      split <;> rfl

theorem Unlocked.appended (h : Unlocked s) {key : Int} {sm : SpaceManager}
    (hsm : s.manager? key = some sm) (inum : UInt64) (file : Inode) (blockNr : UInt64) :
    Unlocked (s.appended key sm inum file blockNr) := by
  refine ⟨h.table, ?_, h.descriptors⟩
  intro k sm' hsm'
  rw [manager?_appended] at hsm'
  split at hsm'
  · cases hsm'
    exact h.managers _ sm hsm
  · exact h.managers _ _ hsm'

theorem Acts.unlocked {a : Action} (hact : Acts hash s a s') (h : Unlocked s) :
    Unlocked s' := by
  cases hact with
  | create hroot habsent hfree htop => exact ⟨h.table, h.managers, h.descriptors⟩
  | createFull hroot habsent hfull => exact ⟨h.table, h.managers, h.descriptors⟩
  | append hsm htop hfile hroom => exact h.appended hsm _ _ _
  | rewrite hfile hsame => exact ⟨h.table, h.managers, h.descriptors⟩
  | remove hroot hdentry hfile =>
      refine ⟨h.table, ?_, h.descriptors⟩
      intro k sm' hsm'
      rw [manager?_removed] at hsm'
      rcases Option.map_eq_some_iff.mp hsm' with ⟨sm, hsm, rfl⟩
      rw [spaceLock_returnBlocks]
      exact h.managers _ _ hsm
  | unlink hroot hdentry hgone => exact ⟨h.table, h.managers, h.descriptors⟩
  | register =>
      refine ⟨h.table, ?_, h.descriptors⟩
      intro k sm' hsm'
      rw [manager?_register] at hsm'
      split at hsm'
      · cases hsm'
        rfl
      · exact h.managers _ _ hsm'
  | descriptors hunlocked => exact ⟨h.table, h.managers, hunlocked⟩

/-!
# The inode table
-/

theorem Acts.balanced {a : Action} (hact : Acts hash s a s')
    (hb : s.inodeTable.Balanced 100) (hexists : exists root, s.inode? rootInum = some root) :
    s'.inodeTable.Balanced 100 := by
  have hrootMem := mem_table_iff.mpr hexists
  cases hact with
  | create hroot habsent hfree htop =>
      refine InodeTable.Balanced.putInode
        (hb.allocated hfree htop _) ?_ _
      exact Std.ExtTreeMap.mem_insert.mpr (Or.inr hrootMem)
  | createFull hroot habsent hfull => exact hb.putInode hrootMem _
  | append hsm htop hfile hroom => exact hb.putInode (mem_table_iff.mpr ⟨_, hfile⟩) _
  | rewrite hfile hsame => exact hb.putInode (mem_table_iff.mpr ⟨_, hfile⟩) _
  | remove hroot hdentry hfile =>
      refine InodeTable.Balanced.deleted (hb.putInode hrootMem _) ?_
      exact Std.ExtTreeMap.mem_insert.mpr (Or.inr (mem_table_iff.mpr ⟨_, hfile⟩))
  | unlink hroot hdentry hgone => exact hb.putInode hrootMem _
  | register => exact hb
  | descriptors hunlocked => exact hb

/-!
# The directory
-/

/-- Changing an inode in place keeps the directory. -/
theorem Directory.of_same {hash : String -> UInt64} (hd : Directory hash s)
    (hentry : forall key, s'.child? key = s.child? key)
    (hinode : forall i, (s'.inode? i).isSome = (s.inode? i).isSome) :
    Directory hash s' := by
  have hsome : forall i, (exists file, s'.inode? i = some file) <->
      exists file, s.inode? i = some file := by
    intro i
    rw [← Option.isSome_iff_exists, ← Option.isSome_iff_exists, hinode]
  refine ⟨(hsome _).mpr hd.root, ?_, ?_, ?_, ?_, ?_⟩
  · intro key d h
    exact hd.key key d (hentry key ▸ h)
  · intro key d h
    exact hd.notRoot key d (hentry key ▸ h)
  · intro key d h
    rw [hsome]
    exact hd.target key d (hentry key ▸ h)
  · intro key d key' d' h h'
    exact hd.injective key d key' d' (hentry key ▸ h) (hentry key' ▸ h')
  · intro i file hfile hne
    rcases (hsome i).mp ⟨file, hfile⟩ with ⟨file', hfile'⟩
    rcases hd.named i file' hfile' hne with ⟨key, d, hkey, hinum⟩
    exact ⟨key, d, (hentry key).trans hkey, hinum⟩

/-- Adding an entry, together with an inode unless its number is the one of none. -/
theorem Directory.enter {name : String} {inum : UInt64} (hd : Directory hash s)
    (habsent : s.child? (hash name) = none) (hfresh : s.inode? inum = none)
    (hentry : forall key, s'.child? key =
      if hash name = key then some ⟨name, hash name, inum⟩ else s.child? key)
    (hinode : forall i, (exists file, s'.inode? i = some file) <->
      (i = inum ∧ inum ≠ noInum) ∨ exists file, s.inode? i = some file) :
    Directory hash s' := by
  have hback : forall key d, s'.child? key = some d ->
      (hash name = key ∧ d = ⟨name, hash name, inum⟩) ∨ s.child? key = some d := by
    intro key d h
    rw [hentry] at h
    split at h
    · rename_i hkey
      cases h
      exact Or.inl ⟨hkey, rfl⟩
    · exact Or.inr h
  -- An old entry cannot carry the new number, which was not in the table.
  have hother : forall key d, s.child? key = some d -> d.inum = inum -> inum = noInum := by
    intro key d h heq
    rcases hd.target key d h with hno | ⟨file, hfile⟩
    · exact heq.symm.trans hno
    · rw [heq, hfresh] at hfile
      cases hfile
  refine ⟨(hinode _).mpr (Or.inr hd.root), ?_, ?_, ?_, ?_, ?_⟩
  · intro key d h
    rcases hback key d h with ⟨hkey, rfl⟩ | hold
    · exact ⟨hkey, hkey⟩
    · exact hd.key key d hold
  · intro key d h
    rcases hback key d h with ⟨hkey, rfl⟩ | hold
    · rintro rfl
      rcases hd.root with ⟨root, hroot⟩
      rw [hroot] at hfresh
      cases hfresh
    · exact hd.notRoot key d hold
  · intro key d h
    rcases hback key d h with ⟨hkey, rfl⟩ | hold
    · by_cases hno : inum = noInum
      · exact Or.inl hno
      · exact Or.inr ((hinode inum).mpr (Or.inl ⟨rfl, hno⟩))
    · rcases hd.target key d hold with hno | hfile
      · exact Or.inl hno
      · exact Or.inr ((hinode d.inum).mpr (Or.inr hfile))
  · intro key d key' d' h h' hinum hno
    rcases hback key d h with ⟨hkey, rfl⟩ | hold
    · rcases hback key' d' h' with ⟨hkey', rfl⟩ | hold'
      · exact hkey.symm.trans hkey'
      · exact absurd (hother key' d' hold' hinum.symm) hno
    · rcases hback key' d' h' with ⟨hkey', rfl⟩ | hold'
      · exact absurd (hinum.trans (hother key d hold hinum)) hno
      · exact hd.injective key d key' d' hold hold' hinum hno
  · intro i file hfile hi
    rcases (hinode i).mp ⟨file, hfile⟩ with ⟨rfl, hno⟩ | ⟨file', hfile'⟩
    · exact ⟨hash name, _, (hentry _).trans (if_pos rfl), rfl⟩
    · rcases hd.named i file' hfile' hi with ⟨key, d, hkey, hinum⟩
      refine ⟨key, d, ?_, hinum⟩
      rw [hentry, if_neg, hkey]
      rintro rfl
      rw [habsent] at hkey
      cases hkey

/-- Deleting an entry, together with its inode if there is one. -/
theorem Directory.erase {key : UInt64} {dentry : Dentry} (hd : Directory hash s)
    (hdentry : s.child? key = some dentry)
    (hentry : forall key', s'.child? key' = if key = key' then none else s.child? key')
    (hinode : forall i, (exists file, s'.inode? i = some file) <->
      i ≠ dentry.inum ∧ exists file, s.inode? i = some file) :
    Directory hash s' := by
  have hback : forall key' d, s'.child? key' = some d ->
      key ≠ key' ∧ s.child? key' = some d := by
    intro key' d h
    rw [hentry] at h
    split at h
    · cases h
    · rename_i hne
      exact ⟨hne, h⟩
  refine ⟨?_, ?_, ?_, ?_, ?_, ?_⟩
  · exact (hinode _).mpr ⟨Ne.symm (hd.notRoot key dentry hdentry), hd.root⟩
  · intro key' d h
    exact hd.key key' d (hback key' d h).right
  · intro key' d h
    exact hd.notRoot key' d (hback key' d h).right
  · intro key' d h
    rcases hback key' d h with ⟨hne, hold⟩
    by_cases hno : d.inum = noInum
    · exact Or.inl hno
    · right
      refine (hinode _).mpr ⟨?_, (hd.target key' d hold).resolve_left hno⟩
      intro heq
      exact hne (hd.injective key' d key dentry hold hdentry heq hno).symm
  · intro key1 d1 key2 d2 h1 h2
    exact hd.injective key1 d1 key2 d2 (hback key1 d1 h1).right (hback key2 d2 h2).right
  · intro i file hfile hi
    rcases (hinode i).mp ⟨file, hfile⟩ with ⟨hne, file', hfile'⟩
    rcases hd.named i file' hfile' hi with ⟨key', d, hkey, hinum⟩
    refine ⟨key', d, ?_, hinum⟩
    rw [hentry, if_neg, hkey]
    rintro rfl
    rw [hdentry] at hkey
    cases hkey
    exact hne hinum.symm

theorem Acts.directory {a : Action} (hact : Acts hash s a s')
    (hd : Directory hash s) (hb : s.inodeTable.Balanced 100) : Directory hash s' := by
  cases hact with
  | @create name type inum root hroot habsent hfree htop =>
      have hmem := MinHeap.top?_mem htop
      have hne := free_ne hb hd.root hmem
      refine hd.enter ((child?_of_root hroot _).trans habsent)
        (inode?_eq_none_of_free hb hmem) ?_ ?_
      · intro key
        rw [child?_entered, child?_of_root hroot]
      · intro i
        rw [inode?_entered, inode?_allocated]
        by_cases hri : rootInum = i
        · subst hri
          simp [hroot]
        · by_cases hi : i = inum
          · subst hi
            simp [hri, hne.right]
          · simp [hri, hi, Ne.symm hi]
  | createFull hroot habsent hfull =>
      rw [totalSize_eq hb]
      refine hd.enter ((child?_of_root hroot _).trans habsent) (inode?_noInum hb) ?_ ?_
      · intro key
        rw [child?_entered, child?_of_root hroot]
      · intro i
        rw [inode?_entered]
        by_cases hri : rootInum = i
        · subst hri
          simp [hroot]
        · simp [hri]
  | append hsm htop hfile hroom =>
      refine hd.of_same (child?_appended hfile) ?_
      intro i
      rw [inode?_appended]
      split
      · rename_i heq
        rw [← heq, hfile]
        rfl
      · rfl
  | rewrite hfile hsame =>
      refine hd.of_same (child?_putInode hfile hsame.children) ?_
      intro i
      rw [inode?_putInode]
      split
      · rename_i heq
        rw [← heq, hfile]
        rfl
      · rfl
  | @remove name root file dentry hroot hdentry hfile =>
      have hkey : s.child? (hash name) = some dentry :=
        (child?_of_root hroot _).trans hdentry
      have hne := hd.notRoot _ _ hkey
      refine hd.erase hkey ?_ ?_
      · intro key'
        rw [child?_removed hne, child?_of_root hroot]
      · intro i
        rw [inode?_removed]
        by_cases hi : dentry.inum = i
        · simp [hi]
        · by_cases hri : rootInum = i
          · subst hri
            simp [hi, Ne.symm hi, hroot]
          · simp [hi, Ne.symm hi, hri]
  | @unlink name root dentry hroot hdentry hgone =>
      have hkey : s.child? (hash name) = some dentry :=
        (child?_of_root hroot _).trans hdentry
      have hne := hd.notRoot _ _ hkey
      refine hd.erase hkey ?_ ?_
      · intro key'
        rw [child?_unlinked, child?_of_root hroot]
      · intro i
        rw [inode?_unlinked]
        by_cases hri : rootInum = i
        · subst hri
          simp [Ne.symm hne, hroot]
        · by_cases hi : i = dentry.inum
          · simp [hi, hgone, Ne.symm hne]
          · simp [hi, hri]
  | register => exact hd.of_same (fun _ => rfl) (fun _ => rfl)
  | descriptors hunlocked => exact hd.of_same (fun _ => rfl) (fun _ => rfl)

/-!
# Blocks
-/

theorem BlockOk.of_place {info info' : FileBlockInfo} (h : BlockOk s info)
    (hplace : place info = place info')
    (hmanager : forall key sm, s.manager? key = some sm ->
      exists sm', s'.manager? key = some sm') :
    BlockOk s' info' := by
  simp only [place, Prod.mk.injEq] at hplace
  rcases hplace with ⟨hserver, haddr, hnr⟩
  rcases h.registered with ⟨sm, hsm⟩
  refine ⟨?_, ?_, ?_⟩
  · rw [← haddr, ← hnr]
    exact h.startAddr
  · rw [← hserver]
    exact h.serverId
  · rw [← hserver]
    exact hmanager _ sm hsm

/-- No action takes a node's manager away. -/
theorem Acts.manager?_isSome {a : Action} (hact : Acts hash s a s') (key : Int)
    (sm : SpaceManager) (hsm : s.manager? key = some sm) :
    exists sm', s'.manager? key = some sm' := by
  cases hact with
  | append hsm' htop hfile hroom =>
      rw [manager?_appended]
      split
      · exact ⟨_, rfl⟩
      · exact ⟨sm, hsm⟩
  | remove hroot hdentry hfile =>
      rw [manager?_removed, hsm]
      exact ⟨_, rfl⟩
  | register =>
      rw [manager?_register]
      split
      · exact ⟨_, rfl⟩
      · exact ⟨sm, hsm⟩
  | _ => exact ⟨sm, hsm⟩

/-- The blocks of an inode after an action were there before, or one was appended. -/
theorem Acts.inode?_cases {a : Action} (hact : Acts hash s a s') {i : UInt64}
    {file' : Inode} (hfile' : s'.inode? i = some file') :
    file'.blockInfoList = [] ∨
    (exists file, s.inode? i = some file ∧
      file'.blockInfoList.map place = file.blockInfoList.map place) ∨
    (exists file key sm blockNr, s.inode? i = some file ∧
      s.manager? key = some sm ∧ sm.freeList.top? = some blockNr ∧
      s'.manager? key = some (sm.useBlock blockNr) ∧
      file.blockInfoList.length + 1 < 2 ^ 44 ∧
      file' = file.appendFileBlockInfo (UInt64.ofInt key) (blockNr * fileBlockSize)
        0 blockNr) := by
  cases hact with
  | create hroot habsent hfree htop =>
      rw [inode?_entered, inode?_allocated] at hfile'
      split at hfile'
      · rename_i heq
        cases hfile'
        exact Or.inr (Or.inl ⟨_, heq ▸ hroot, by rfl⟩)
      · split at hfile'
        · cases hfile'
          exact Or.inl rfl
        · exact Or.inr (Or.inl ⟨file', hfile', rfl⟩)
  | createFull hroot habsent hfull =>
      rw [inode?_entered] at hfile'
      split at hfile'
      · rename_i heq
        cases hfile'
        exact Or.inr (Or.inl ⟨_, heq ▸ hroot, by rfl⟩)
      · exact Or.inr (Or.inl ⟨file', hfile', rfl⟩)
  | append hsm htop hfile hroom =>
      rw [inode?_appended] at hfile'
      split at hfile'
      · rename_i heq
        cases hfile'
        refine Or.inr (Or.inr ⟨_, _, _, _, heq ▸ hfile, hsm, htop, ?_, hroom, rfl⟩)
        rw [manager?_appended, if_pos rfl]
      · exact Or.inr (Or.inl ⟨file', hfile', rfl⟩)
  | rewrite hfile hsame =>
      rw [inode?_putInode] at hfile'
      split at hfile'
      · rename_i heq
        cases hfile'
        exact Or.inr (Or.inl ⟨_, heq ▸ hfile, hsame.places⟩)
      · exact Or.inr (Or.inl ⟨file', hfile', rfl⟩)
  | remove hroot hdentry hfile =>
      rw [inode?_removed] at hfile'
      split at hfile'
      · cases hfile'
      · split at hfile'
        · rename_i heq
          cases hfile'
          exact Or.inr (Or.inl ⟨_, heq ▸ hroot, by rfl⟩)
        · exact Or.inr (Or.inl ⟨file', hfile', rfl⟩)
  | unlink hroot hdentry hgone =>
      rw [inode?_unlinked] at hfile'
      split at hfile'
      · rename_i heq
        cases hfile'
        exact Or.inr (Or.inl ⟨_, heq ▸ hroot, by rfl⟩)
      · exact Or.inr (Or.inl ⟨file', hfile', rfl⟩)
  | register => exact Or.inr (Or.inl ⟨file', hfile', rfl⟩)
  | descriptors hunlocked => exact Or.inr (Or.inl ⟨file', hfile', rfl⟩)

/-- Every manager is filed under its own node's key, so appended blocks name that key. -/
theorem blockOk_appended {key : Int} {sm : SpaceManager} {blockNr : UInt64}
    (hkey : Word.toInt sm.serverId = key)
    (hsm' : s'.manager? key = some (sm.useBlock blockNr)) :
    BlockOk s'
      { serverId := UInt64.ofInt key, startAddr := blockNr * fileBlockSize,
        length := 0, blockNr := blockNr } := by
  have hround : Word.toInt (UInt64.ofInt key) = key := by
    rw [← hkey]
    exact Word.toInt_ofInt_toInt sm.serverId
  refine ⟨rfl, ?_, ?_⟩
  · rw [hround]
  · rw [hround]
    exact ⟨_, hsm'⟩

theorem Acts.blocks {a : Action} (hact : Acts hash s a s') (h : Blocks s) :
    Blocks s' := by
  refine ⟨?_, ?_, ?_⟩
  · intro i file' info hfile' hinfo
    rcases hact.inode?_cases hfile' with hnil | ⟨file, hfile, hplaces⟩ |
      ⟨file, key, sm, blockNr, hfile, hsm, htop, hsm', _, rfl⟩
    · rw [hnil] at hinfo
      cases hinfo
    · have hmem : place info ∈ file'.blockInfoList.map place := List.mem_map_of_mem hinfo
      rw [hplaces] at hmem
      rcases List.mem_map.mp hmem with ⟨old, hold, hplace⟩
      exact (h.block i file old hfile hold).of_place hplace hact.manager?_isSome
    · rcases List.mem_append.mp hinfo with hold | hnew
      · exact (h.block i file info hfile hold).of_place rfl hact.manager?_isSome
      · rw [List.mem_singleton.mp hnew]
        exact blockOk_appended (h.managerKey key sm hsm) hsm'
  · intro i file' hfile'
    rcases hact.inode?_cases hfile' with hnil | ⟨file, hfile, hplaces⟩ |
      ⟨file, key, sm, blockNr, hfile, hsm, htop, hsm', hroom, rfl⟩
    · rw [hnil]
      decide
    · have hlen := congrArg List.length hplaces
      rw [List.length_map, List.length_map] at hlen
      rw [hlen]
      exact h.room i file hfile
    · simpa [Inode.appendFileBlockInfo] using hroom
  · intro key sm' hsm'
    cases hact with
    | append hsm htop hfile hroom =>
        rw [manager?_appended] at hsm'
        split at hsm'
        · rename_i heq
          cases hsm'
          exact (h.managerKey _ _ hsm).trans heq
        · exact h.managerKey key sm' hsm'
    | remove hroot hdentry hfile =>
        rw [manager?_removed] at hsm'
        rcases Option.map_eq_some_iff.mp hsm' with ⟨sm, hsm, rfl⟩
        rw [serverId_returnBlocks]
        exact h.managerKey key sm hsm
    | register =>
        rw [manager?_register] at hsm'
        split at hsm'
        · rename_i heq
          cases hsm'
          exact heq
        · exact h.managerKey key sm' hsm'
    | _ => exact h.managerKey key sm' hsm'

/-!
# Whole traces
-/

theorem Acts.wellFormed {a : Action} (hact : Acts hash s a s') (h : WellFormed hash s) :
    WellFormed hash s' where
  unlocked := hact.unlocked h.unlocked
  balanced := hact.balanced h.balanced h.directory.root
  directory := hact.directory h.directory h.balanced
  blocks := hact.blocks h.blocks

theorem Trace.wellFormed {acts : List Action} (htrace : Trace hash s acts s')
    (h : WellFormed hash s) : WellFormed hash s' := by
  induction htrace with
  | nil s => exact h
  | cons hact _ ih => exact ih (hact.wellFormed h)

theorem inode?_init (i : UInt64) :
    MetadataServiceImpl.init.inode? i =
      if rootInum = i then some (Inode.make FileType.dir 0) else none := by
  by_cases hi : rootInum = i
  · subst hi
    rfl
  · have hzero : (0 : UInt64) ≠ i := hi
    simp [inode?, MetadataServiceImpl.init, InodeTable.make, InodeTable.createRootDir,
      InodeTable.putInode, hi, hzero]

theorem child?_init (key : UInt64) : MetadataServiceImpl.init.child? key = none := by
  simp [child?, inode?_init, Inode.make]

theorem manager?_init (key : Int) : MetadataServiceImpl.init.manager? key = none := by
  simp [manager?, MetadataServiceImpl.init]

theorem wellFormed_init : WellFormed hash MetadataServiceImpl.init where
  unlocked := by
    refine ⟨rfl, ?_, rfl⟩
    intro key sm hsm
    rw [manager?_init] at hsm
    cases hsm
  balanced := InodeTable.balanced_make 100 (by decide)
  directory := by
    refine ⟨⟨_, by rw [inode?_init, if_pos rfl]⟩, ?_, ?_, ?_, ?_, ?_⟩
    · intro key d h
      rw [child?_init] at h
      cases h
    · intro key d h
      rw [child?_init] at h
      cases h
    · intro key d h
      rw [child?_init] at h
      cases h
    · intro key d key' d' h
      rw [child?_init] at h
      cases h
    · intro i file hfile hi
      rw [inode?_init, if_neg (Ne.symm hi)] at hfile
      cases hfile
  blocks := by
    have hempty : forall i file, MetadataServiceImpl.init.inode? i = some file ->
        file.blockInfoList = [] := by
      intro i file hfile
      rw [inode?_init] at hfile
      split at hfile
      · cases hfile
        rfl
      · cases hfile
    refine ⟨?_, ?_, ?_⟩
    · intro i file info hfile hinfo
      rw [hempty i file hfile] at hinfo
      cases hinfo
    · intro i file hfile
      rw [hempty i file hfile]
      decide
    · intro key sm hsm
      rw [manager?_init] at hsm
      cases hsm

end Metadata
end SpongeBob
