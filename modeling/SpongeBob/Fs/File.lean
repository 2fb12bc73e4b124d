import SpongeBob.Foundation.MinHeap
import SpongeBob.Foundation.Word
import Mathlib.Data.Finset.Basic

/-!
# Directory entries, inodes and descriptors

The in-memory structures of the metadata server: directory entries keyed by the
hash of their name, inodes with their block lists, the inode table and the table
of open file descriptors.  Unordered maps are kept as ordered maps, whose
iteration order is one the standard leaves open.

Operations that the program runs without a check are partial here: they stop
with a {lit}`Fault` where the program would run into undefined behaviour, a
failed assertion, or a mutex that is never released.
-/

namespace SpongeBob
namespace Fs

open Foundation

/-- What ends a handler without a reply. -/
inductive Fault where
  | nullDereference
  | emptyHeap
  | indexOutOfRange
  | assertionFailed
  | divisionByZero
  | deadlock
deriving DecidableEq, Repr

/-- Follow a pointer; a null pointer is {lit}`none`. -/
def deref {alpha : Type} : Option alpha -> Except Fault alpha
  | some a => Except.ok a
  | none => Except.error Fault.nullDereference

/-- Take a mutex, given whether it is held.  No other thread will release it. -/
def lock (held : Bool) : Except Fault Bool :=
  if held then Except.error Fault.deadlock else Except.ok true

/-- The top of a priority queue. -/
def top (heap : MinHeap UInt64) : Except Fault UInt64 :=
  match heap.top? with
  | some x => Except.ok x
  | none => Except.error Fault.emptyHeap

def divide (x y : UInt64) : Except Fault UInt64 :=
  if y = 0 then Except.error Fault.divisionByZero else Except.ok (x / y)

theorem lock_of_free {held : Bool} (h : held = false) : lock held = Except.ok true := by
  rw [h]
  rfl

theorem top_eq_ok {heap : MinHeap UInt64} {x : UInt64} :
    top heap = Except.ok x <-> heap.top? = some x := by
  unfold top
  cases heap.top? with
  | none => simp
  | some y => simp

def fileBlockSize : UInt64 := 1048576

def fileBlockMask : UInt64 := fileBlockSize - 1

inductive FileType where
  | regFile
  | dir
deriving DecidableEq, Repr

/-- Where one block of a file lives, and how much of it has been written. -/
structure FileBlockInfo where
  serverId : UInt64
  startAddr : UInt64
  length : UInt64
  blockNr : UInt64
deriving DecidableEq, Repr

structure Dentry where
  name : String
  hash : UInt64
  inum : UInt64
deriving DecidableEq, Repr

structure Inode where
  inum : UInt64
  type : FileType
  size : UInt64 := 0
  children : Std.ExtTreeMap UInt64 Dentry := ∅
  blockInfoList : List FileBlockInfo := []

/-!
# Inodes

Every operation on directory entries goes by the hash of the name alone.
-/

namespace Inode

/-- {lit}`Inode::Inode(type, inum)` -/
def make (type : FileType) (inum : UInt64) : Inode where
  inum := inum
  type := type

def isDir (inode : Inode) : Bool :=
  inode.type = FileType.dir

def getBlockNum (inode : Inode) : UInt64 :=
  UInt64.ofNat inode.blockInfoList.length

def getBlockInfo (inode : Inode) (blockId : UInt64) : Except Fault FileBlockInfo :=
  match inode.blockInfoList[blockId.toNat]? with
  | some info => Except.ok info
  | none => Except.error Fault.indexOutOfRange

/-- The entries that a loop over {lit}`GetDentryMap()` visits. -/
def getDentryMap (inode : Inode) : List Dentry :=
  inode.children.toList.map Prod.snd

def setSize (inode : Inode) (size : UInt64) : Inode :=
  { inode with size := size }

def changeFileBlockInfoLength (inode : Inode) (index length : UInt64) :
    Except Fault Inode :=
  match inode.blockInfoList[index.toNat]? with
  | some info => Except.ok
      { inode with
        blockInfoList :=
          inode.blockInfoList.set index.toNat { info with length := length } }
  | none => Except.error Fault.assertionFailed

def appendFileBlockInfo (inode : Inode)
    (serverId startAddr length blockNr : UInt64) : Inode :=
  { inode with
    blockInfoList := inode.blockInfoList ++
      [{ serverId := serverId, startAddr := startAddr,
         length := length, blockNr := blockNr }] }

variable (hash : String -> UInt64)

def addDentry (inode : Inode) (name : String) (inum : UInt64) : Bool × Inode :=
  match inode.children[hash name]? with
  | some _ => (false, inode)
  | none =>
      (true, { inode with
        children := inode.children.insert (hash name)
          { name := name, hash := hash name, inum := inum } })

def deleteDentry (inode : Inode) (name : String) : Bool × Inode :=
  match inode.children[hash name]? with
  | some _ => (true, { inode with children := inode.children.erase (hash name) })
  | none => (false, inode)

def getDentry (inode : Inode) (name : String) : Option Dentry :=
  inode.children[hash name]?

end Inode

/-!
# The inode table
-/

structure InodeTable where
  totalSize : UInt64
  curSize : UInt64
  tableLock : Bool
  table : Std.ExtTreeMap UInt64 Inode
  freeList : MinHeap UInt64

namespace InodeTable

/-- Replace the inode that a pointer into the table refers to. -/
def putInode (t : InodeTable) (inum : UInt64) (inode : Inode) : InodeTable :=
  { t with table := t.table.insert inum inode }

def createRootDir (t : InodeTable) : InodeTable :=
  t.putInode 0 (Inode.make FileType.dir 0)

/-- {lit}`InodeTable::InodeTable(size)` -/
def make (size : UInt64) : InodeTable :=
  createRootDir
    { totalSize := size
      curSize := 1
      tableLock := false
      table := ∅
      freeList := MinHeap.ofList (Word.iota size.toNat 1) }

def getInode (t : InodeTable) (inum : UInt64) :
    Except Fault (Option Inode × InodeTable) := do
  let held ← lock t.tableLock
  match t.table[inum]? with
  | none =>
      -- This path returns without unlocking.
      pure (none, { t with tableLock := held })
  | some inode => pure (some inode, { t with tableLock := false })

def allocateFreeInode (t : InodeTable) (type : FileType) :
    Except Fault (UInt64 × InodeTable) := do
  let _ ← lock t.tableLock
  if t.curSize = t.totalSize then
    pure (t.totalSize + 1, { t with tableLock := false })
  else
    let newInum ← top t.freeList
    pure (newInum,
      { t with
        tableLock := false
        freeList := t.freeList.pop
        curSize := t.curSize + 1
        table := t.table.insert newInum (Inode.make type newInum) })

def allocateFileInode (t : InodeTable) : Except Fault (UInt64 × InodeTable) :=
  t.allocateFreeInode FileType.regFile

def allocateDirInode (t : InodeTable) : Except Fault (UInt64 × InodeTable) :=
  t.allocateFreeInode FileType.dir

def deleteInode (t : InodeTable) (inum : UInt64) :
    Except Fault (Bool × InodeTable) := do
  let _ ← lock t.tableLock
  match t.table[inum]? with
  | none => pure (false, { t with tableLock := false })
  | some _ =>
      pure (true,
        { t with
          tableLock := false
          table := t.table.erase inum
          freeList := t.freeList.push inum
          curSize := t.curSize - 1 })

end InodeTable

/-!
# File descriptors
-/

structure FileMap where
  fileMapLock : Bool
  fdUsedSet : Finset UInt64
  fdFreeList : MinHeap UInt64

namespace FileMap

/-- {lit}`FileMap::FileMap(size)` -/
def make (size : UInt64) : FileMap where
  fileMapLock := false
  fdUsedSet := ∅
  fdFreeList := MinHeap.ofList ((Word.iota (size + 3).toNat 1).drop 3)

def allocateFD (m : FileMap) : Except Fault (Int × FileMap) := do
  let _ ← lock m.fileMapLock
  match m.fdFreeList.top? with
  | none => pure (-1, { m with fileMapLock := false })
  | some newFd =>
      pure (Word.toInt newFd,
        { fileMapLock := false
          fdUsedSet := insert newFd m.fdUsedSet
          fdFreeList := m.fdFreeList.pop })

def reclaimFD (m : FileMap) (fd : UInt64) : Except Fault (Bool × FileMap) := do
  let _ ← lock m.fileMapLock
  if fd ∈ m.fdUsedSet then
    pure (true,
      { fileMapLock := false
        fdUsedSet := m.fdUsedSet.erase fd
        fdFreeList := m.fdFreeList.push fd })
  else
    pure (false, { m with fileMapLock := false })

end FileMap

end Fs
end SpongeBob
