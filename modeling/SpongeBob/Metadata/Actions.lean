import SpongeBob.Fs.InodeTable
import SpongeBob.Metadata.Server
import SpongeBob.Metadata.Tiling

/-!
# What a handler can do to the state

Every handler that completes changes the state by a sequence of a few actions:
an entry is made, a block is appended, an inode's sizes are rewritten, a file is
removed, a node is registered, a descriptor is taken or given back.  This module
says once what each action does and once which actions each handler performs, so
that an invariant of the service is proved action by action.
-/

namespace SpongeBob
namespace Metadata

open Foundation
open Fs

namespace MetadataServiceImpl

/-!
# Observations
-/

/-- The entry of the root directory stored under a hash. -/
def child? (s : MetadataServiceImpl) (key : UInt64) : Option Dentry :=
  (s.inode? rootInum).bind (fun root => root.children[key]?)

/-- The space manager of a node. -/
def manager? (s : MetadataServiceImpl) (key : Int) : Option SpaceManager :=
  s.spaceManager[key]?

theorem child?_of_root {s : MetadataServiceImpl} {root : Inode}
    (hroot : s.inode? rootInum = some root) (key : UInt64) :
    s.child? key = root.children[key]? := by
  simp [child?, hroot]

@[simp] theorem inode?_putInode (s : MetadataServiceImpl) (inum i : UInt64)
    (inode : Inode) :
    (s.putInode inum inode).inode? i =
      if inum = i then some inode else s.inode? i := by
  simp [inode?, putInode, InodeTable.putInode, Std.ExtTreeMap.getElem?_insert]

/-!
# Effects

The state after each action, as a function of the state before it.
-/

/-- The state once an inode of the free list is in the table. -/
def allocated (s : MetadataServiceImpl) (type : FileType) (inum : UInt64) :
    MetadataServiceImpl :=
  { s with inodeTable := s.inodeTable.allocated type inum }

/-- The state once the root directory, which is {lit}`root`, has a further entry. -/
def entered (s : MetadataServiceImpl) (root : Inode) (dentry : Dentry) :
    MetadataServiceImpl :=
  s.putInode rootInum
    { root with children := root.children.insert dentry.hash dentry }

/-- The state once a node's smallest free block belongs to a file. -/
def appended (s : MetadataServiceImpl) (key : Int) (sm : SpaceManager)
    (inum : UInt64) (file : Inode) (blockNr : UInt64) : MetadataServiceImpl :=
  { s with
    spaceManager := s.spaceManager.insert key (sm.useBlock blockNr) }.putInode inum
    (file.appendFileBlockInfo (UInt64.ofInt key) (blockNr * fileBlockSize) 0 blockNr)

/-- The state once an entry, its inode and the inode's blocks are given back. -/
def removed (s : MetadataServiceImpl) (root : Inode) (key inum : UInt64) (file : Inode) :
    MetadataServiceImpl :=
  { s with
    inodeTable := (s.inodeTable.putInode rootInum
      { root with children := root.children.erase key }).deleted inum
    spaceManager :=
      s.spaceManager.map (fun _ sm => sm.returnBlocks file.blockInfoList) }

/-- The state once an entry is deleted that no inode stands behind. -/
def unlinked (s : MetadataServiceImpl) (root : Inode) (key : UInt64) :
    MetadataServiceImpl :=
  s.putInode rootInum { root with children := root.children.erase key }

end MetadataServiceImpl

/-!
# Actions
-/

inductive Action where
  | create (name : String) (type : FileType) (inum : UInt64)
  | createFull (name : String)
  | append (inum : UInt64)
  | rewrite (inum : UInt64)
  | remove (name : String)
  | register (nodeid addr length : UInt64)
  | descriptors

open MetadataServiceImpl in
/-- What each action does, and when it can be done. -/
inductive Acts (hash : String -> UInt64) (s : MetadataServiceImpl) :
    Action -> MetadataServiceImpl -> Prop where
  | create {name : String} {type : FileType} {inum : UInt64} {root : Inode}
      (hroot : s.inode? rootInum = some root)
      (habsent : root.getDentry hash name = none)
      (hfree : s.inodeTable.curSize ≠ s.inodeTable.totalSize)
      (htop : s.inodeTable.freeList.top? = some inum) :
      Acts hash s (Action.create name type inum)
        ((s.allocated type inum).entered root ⟨name, hash name, inum⟩)
  | createFull {name : String} {root : Inode}
      (hroot : s.inode? rootInum = some root)
      (habsent : root.getDentry hash name = none)
      (hfull : s.inodeTable.curSize = s.inodeTable.totalSize) :
      Acts hash s (Action.createFull name)
        (s.entered root ⟨name, hash name, s.inodeTable.totalSize + 1⟩)
  | append {inum : UInt64} {key : Int} {sm : SpaceManager} {file : Inode}
      {blockNr : UInt64}
      (hsm : s.manager? key = some sm)
      (htop : sm.freeList.top? = some blockNr)
      (hfile : s.inode? inum = some file)
      (hroom : file.blockInfoList.length + 1 < 2 ^ 44) :
      Acts hash s (Action.append inum) (s.appended key sm inum file blockNr)
  | rewrite {inum : UInt64} {file file' : Inode}
      (hfile : s.inode? inum = some file)
      (hsame : SameBlocks file file') :
      Acts hash s (Action.rewrite inum) (s.putInode inum file')
  | remove {name : String} {root file : Inode} {dentry : Dentry}
      (hroot : s.inode? rootInum = some root)
      (hdentry : root.getDentry hash name = some dentry)
      (hfile : s.inode? dentry.inum = some file) :
      Acts hash s (Action.remove name) (s.removed root (hash name) dentry.inum file)
  | unlink {name : String} {root : Inode} {dentry : Dentry}
      (hroot : s.inode? rootInum = some root)
      (hdentry : root.getDentry hash name = some dentry)
      (hgone : s.inode? dentry.inum = none) :
      Acts hash s (Action.remove name) (s.unlinked root (hash name))
  | register {nodeid addr length : UInt64} :
      Acts hash s (Action.register nodeid addr length)
        (s.registerMemoryRegion nodeid addr length).2
  | descriptors {fileMap : FileMap} (hunlocked : fileMap.fileMapLock = false) :
      Acts hash s Action.descriptors { s with fileMap := fileMap }

/-!
# The state after an action, observed
-/

section Observed

variable {s : MetadataServiceImpl}

open MetadataServiceImpl

@[simp] theorem inode?_allocated (type : FileType) (inum i : UInt64) :
    (s.allocated type inum).inode? i =
      if inum = i then some (Inode.make type inum) else s.inode? i := by
  simp [inode?, allocated, InodeTable.allocated, Std.ExtTreeMap.getElem?_insert]

@[simp] theorem inode?_entered (root : Inode) (dentry : Dentry) (i : UInt64) :
    (s.entered root dentry).inode? i =
      if rootInum = i then
        some { root with children := root.children.insert dentry.hash dentry }
      else s.inode? i := by
  simp [entered]

@[simp] theorem child?_entered (root : Inode) (dentry : Dentry) (key : UInt64) :
    (s.entered root dentry).child? key =
      if dentry.hash = key then some dentry else root.children[key]? := by
  simp [child?, Std.ExtTreeMap.getElem?_insert]

@[simp] theorem inode?_appended (key : Int) (sm : SpaceManager) (inum i : UInt64)
    (file : Inode) (blockNr : UInt64) :
    (s.appended key sm inum file blockNr).inode? i =
      if inum = i then
        some (file.appendFileBlockInfo (UInt64.ofInt key) (blockNr * fileBlockSize)
          0 blockNr)
      else s.inode? i := by
  simp [appended, inode?, putInode, InodeTable.putInode, Std.ExtTreeMap.getElem?_insert]

theorem inode?_removed {root file : Inode} {key inum : UInt64} (i : UInt64) :
    (s.removed root key inum file).inode? i =
      if inum = i then none
      else if rootInum = i then
        some { root with children := root.children.erase key }
      else s.inode? i := by
  simp [inode?, removed, InodeTable.deleted, InodeTable.putInode,
    Std.ExtTreeMap.getElem?_insert, Std.ExtTreeMap.getElem?_erase]

theorem child?_removed {root file : Inode} {key inum : UInt64} (hinum : inum ≠ 0)
    (key' : UInt64) :
    (s.removed root key inum file).child? key' =
      if key = key' then none else root.children[key']? := by
  simp [child?, inode?_removed, rootInum, hinum, Std.ExtTreeMap.getElem?_erase]

@[simp] theorem inode?_unlinked (root : Inode) (key i : UInt64) :
    (s.unlinked root key).inode? i =
      if rootInum = i then some { root with children := root.children.erase key }
      else s.inode? i := by
  simp [unlinked]

@[simp] theorem child?_unlinked (root : Inode) (key key' : UInt64) :
    (s.unlinked root key).child? key' =
      if key = key' then none else root.children[key']? := by
  simp [child?, Std.ExtTreeMap.getElem?_erase]

/-- Writing back an inode with the same children leaves the directory alone. -/
theorem child?_putInode {inum : UInt64} {file file' : Inode}
    (hfile : s.inode? inum = some file) (hchildren : file'.children = file.children)
    (key : UInt64) : (s.putInode inum file').child? key = s.child? key := by
  by_cases hroot : inum = rootInum
  · subst hroot
    simp [child?, hfile, hchildren]
  · simp [child?, hroot]

theorem child?_appended {key : Int} {sm : SpaceManager} {inum : UInt64} {file : Inode}
    {blockNr : UInt64} (hfile : s.inode? inum = some file) (key' : UInt64) :
    (s.appended key sm inum file blockNr).child? key' = s.child? key' := by
  by_cases hroot : inum = rootInum
  · subst hroot
    simp [child?, hfile, Inode.appendFileBlockInfo]
  · simp [child?, hroot]

theorem manager?_appended {key : Int} {sm : SpaceManager} {inum : UInt64} {file : Inode}
    {blockNr : UInt64} (k : Int) :
    (s.appended key sm inum file blockNr).manager? k =
      if key = k then some (sm.useBlock blockNr) else s.manager? k := by
  simp [manager?, appended, putInode, Std.ExtTreeMap.getElem?_insert]

theorem manager?_removed {root file : Inode} {key inum : UInt64} (k : Int) :
    (s.removed root key inum file).manager? k =
      (s.manager? k).map (fun sm => sm.returnBlocks file.blockInfoList) := by
  simp [manager?, removed, Std.ExtTreeMap.getElem?_map]

theorem manager?_register {nodeid addr length : UInt64} (k : Int) :
    (s.registerMemoryRegion nodeid addr length).2.manager? k =
      if Word.toInt nodeid = k then
        some (SpaceManager.make addr (addr + length - 1) fileBlockSize nodeid)
      else s.manager? k := by
  simp [manager?, registerMemoryRegion, Std.ExtTreeMap.getElem?_insert]

end Observed

/-- The inode is the first one, but for its directory entries and for a block at the end. -/
structure KeptOrGrown (file file' : Inode) : Prop where
  size : file'.size = file.size
  blocks : file'.blockInfoList = file.blockInfoList ∨
    exists info, info.length = 0 ∧ file'.blockInfoList = file.blockInfoList ++ [info]

theorem KeptOrGrown.refl (file : Inode) : KeptOrGrown file file :=
  ⟨rfl, Or.inl rfl⟩

theorem KeptOrGrown.children (file : Inode) (children : Std.ExtTreeMap UInt64 Dentry) :
    KeptOrGrown file { file with children := children } :=
  ⟨rfl, Or.inl rfl⟩

/-- An action that rewrites no sizes makes an empty inode, keeps one or adds a block. -/
theorem Acts.kept_or_grown {hash : String -> UInt64} {s s' : MetadataServiceImpl}
    {a : Action} (hact : Acts hash s a s') (hnot : forall inum, a ≠ Action.rewrite inum)
    {i : UInt64} {file' : Inode} (hfile' : s'.inode? i = some file') :
    (file'.size = 0 ∧ file'.blockInfoList = []) ∨
      exists file, s.inode? i = some file ∧ KeptOrGrown file file' := by
  have hkept : s.inode? i = some file' ->
      exists file, s.inode? i = some file ∧ KeptOrGrown file file' :=
    fun hfile => ⟨file', hfile, KeptOrGrown.refl file'⟩
  cases hact with
  | @create name type inum root hroot habsent hfree htop =>
      rw [inode?_entered, inode?_allocated] at hfile'
      split at hfile'
      · rename_i heq
        subst heq
        cases hfile'
        exact Or.inr ⟨root, hroot, KeptOrGrown.children root _⟩
      · split at hfile'
        · cases hfile'
          exact Or.inl ⟨rfl, rfl⟩
        · exact Or.inr (hkept hfile')
  | @createFull name root hroot habsent hfull =>
      rw [inode?_entered] at hfile'
      split at hfile'
      · rename_i heq
        subst heq
        cases hfile'
        exact Or.inr ⟨root, hroot, KeptOrGrown.children root _⟩
      · exact Or.inr (hkept hfile')
  | @append inum key sm file blockNr hsm htop hfile hroom =>
      rw [inode?_appended] at hfile'
      split at hfile'
      · rename_i heq
        subst heq
        cases hfile'
        exact Or.inr ⟨file, hfile, rfl, Or.inr ⟨_, rfl, rfl⟩⟩
      · exact Or.inr (hkept hfile')
  | rewrite hfile hsame => exact absurd rfl (hnot _)
  | @remove name root file dentry hroot hdentry hfile =>
      rw [inode?_removed] at hfile'
      split at hfile'
      · cases hfile'
      · split at hfile'
        · rename_i heq
          subst heq
          cases hfile'
          exact Or.inr ⟨root, hroot, KeptOrGrown.children root _⟩
        · exact Or.inr (hkept hfile')
  | @unlink name root dentry hroot hdentry hgone =>
      rw [inode?_unlinked] at hfile'
      split at hfile'
      · rename_i heq
        subst heq
        cases hfile'
        exact Or.inr ⟨root, hroot, KeptOrGrown.children root _⟩
      · exact Or.inr (hkept hfile')
  | register => exact Or.inr (hkept hfile')
  | descriptors hunlocked => exact Or.inr (hkept hfile')

/-- A sequence of actions. -/
inductive Trace (hash : String -> UInt64) :
    MetadataServiceImpl -> List Action -> MetadataServiceImpl -> Prop where
  | nil (s : MetadataServiceImpl) : Trace hash s [] s
  | cons {s s1 s2 : MetadataServiceImpl} {a : Action} {rest : List Action} :
      Acts hash s a s1 -> Trace hash s1 rest s2 -> Trace hash s (a :: rest) s2

end Metadata
end SpongeBob
