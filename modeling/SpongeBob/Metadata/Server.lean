import SpongeBob.Foundation.Run
import SpongeBob.Metadata.Extents

/-!
# The metadata service

The handlers of the metadata server, run one after another.  The state holds the
inode table with the root directory, one space manager per storage node, and the
table of file descriptors.  Two things come from outside: the hash function of
the standard library and the numbers that {lit}`rand` returns.
-/

namespace SpongeBob
namespace Metadata

open Foundation
open Fs

structure MetadataServiceImpl where
  inodeTable : InodeTable
  spaceManager : Std.ExtTreeMap Int SpaceManager
  fileMap : FileMap

def rootInum : UInt64 := 0

/-- The state in which the server starts. -/
def MetadataServiceImpl.init : MetadataServiceImpl where
  inodeTable := InodeTable.make 100
  spaceManager := ∅
  fileMap := FileMap.make 100

/-!
# Messages
-/

inductive Status where
  | ok
  | cancelled
deriving DecidableEq, Repr

structure DentryInfo where
  name : String
  isDir : Bool
  inum : UInt64
  size : UInt64
deriving DecidableEq, Repr

inductive Request where
  | readFile (name : String) (offset length : UInt64)
  | writeFile (name : String) (offset length : UInt64)
  | createFile (name : String) (isDir : Bool)
  | openFile (name : String)
  | closeFile (fd : Int64)
  | removeFile (name : String)
  | readDirectory (path : String)
  | registerMemoryRegion (nodeid addr length : UInt64)
deriving DecidableEq, Repr

/-- The reply to a request, one constructor per kind, with the fields the handler set. -/
inductive Reply where
  | readFile (status : Status) (blockInfo : List Extent) (bytesRead : UInt64)
  | writeFile (status : Status) (blockInfo : List Extent) (bytesWrite : UInt64)
  | createFile (status : Status) (inum : UInt64)
  | openFile (status : Status) (fd : Int)
  | closeFile (status : Status) (success : Bool)
  | removeFile (status : Status) (success : Bool)
  | readDirectory (status : Status) (dentryInfo : List DentryInfo)
  | registerMemoryRegion (status : Status)
deriving DecidableEq, Repr

namespace MetadataServiceImpl

/-!
# Access to the parts of the state
-/

def getInode (s : MetadataServiceImpl) (inum : UInt64) :
    Except Fault (Option Inode × MetadataServiceImpl) := do
  let (inode, t) ← s.inodeTable.getInode inum
  pure (inode, { s with inodeTable := t })

/-- Write through a pointer to an inode of the table. -/
def putInode (s : MetadataServiceImpl) (inum : UInt64) (inode : Inode) :
    MetadataServiceImpl :=
  { s with inodeTable := s.inodeTable.putInode inum inode }

/-- The inode that a pointer obtained earlier refers to now. -/
def inode? (s : MetadataServiceImpl) (inum : UInt64) : Option Inode :=
  s.inodeTable.table[inum]?

section Handlers

variable (hash : String -> UInt64)

/-!
# Creation
-/

/-- Allocate an inode and enter it in the root directory, whatever number came back. -/
def enterInode (s : MetadataServiceImpl) (name : String) (type : FileType) :
    Except Fault (UInt64 × MetadataServiceImpl) := do
  let (newInum, t) ← s.inodeTable.allocateFreeInode type
  let s := { s with inodeTable := t }
  let root ← deref (s.inode? rootInum)
  let (_, root) := root.addDentry hash name newInum
  pure (newInum, s.putInode rootInum root)

/-- {lit}`CreateFile_`; its parameter {lit}`is_dir` is not used. -/
def createFile_ (s : MetadataServiceImpl) (name : String) (_isDir : Bool) :
    Except Fault (UInt64 × MetadataServiceImpl) := do
  let (root, s) ← s.getInode rootInum
  match root with
  | none => pure (s.inodeTable.totalSize + 1, s)
  | some _ => s.enterInode hash name FileType.regFile

def createFile (s : MetadataServiceImpl) (name : String) (isDir : Bool) :
    Except Fault (Reply × MetadataServiceImpl) := do
  let (root, s) ← s.getInode rootInum
  match root with
  | none => pure (Reply.createFile Status.cancelled 0, s)
  | some root =>
      match root.getDentry hash name with
      | some dentry => pure (Reply.createFile Status.ok dentry.inum, s)
      | none =>
          let (newInum, s) ←
            s.enterInode hash name (if isDir then FileType.dir else FileType.regFile)
          pure (Reply.createFile Status.ok newInum, s)

/-- Create the file unless the root directory, which is {lit}`root`, has the name. -/
def ensureFile (s : MetadataServiceImpl) (root : Inode) (name : String) :
    Except Fault MetadataServiceImpl :=
  match root.getDentry hash name with
  | some _ => pure s
  | none => do
      let (_, s) ← s.createFile_ hash name false
      pure s

/-!
# Reading
-/

/-- The length a read is cut to at the end of the file, in 64-bit arithmetic. -/
def clipLength (size offset length : UInt64) : UInt64 :=
  if offset + length > size then size - offset else length

def readFile (s : MetadataServiceImpl) (name : String) (offset length : UInt64) :
    Except Fault (Reply × MetadataServiceImpl) := do
  let (root, s) ← s.getInode rootInum
  match root with
  | none => pure (Reply.readFile Status.cancelled [] 0, s)
  | some root =>
      -- The entry is used before it is compared with the null pointer.
      let dentry ← deref (root.getDentry hash name)
      let (file, s) ← s.getInode dentry.inum
      match file with
      | none => Except.error Fault.assertionFailed
      | some file =>
          let readLength := clipLength file.size offset length
          let c ← readExtents file offset readLength
          pure (Reply.readFile Status.ok c.reply (readLength - c.toTransfer), s)

def readDentries (s : MetadataServiceImpl) :
    List Dentry -> Except Fault (List DentryInfo × MetadataServiceImpl)
  | [] => pure ([], s)
  | dentry :: rest => do
      let (file, s) ← s.getInode dentry.inum
      let file ← deref file
      let (infos, s) ← readDentries s rest
      pure ({ name := dentry.name, isDir := file.isDir,
              inum := dentry.inum, size := file.size } :: infos, s)

/-- The entries for the directory itself and its parent. -/
def dotEntries : List DentryInfo :=
  [{ name := ".", isDir := true, inum := rootInum, size := fileBlockSize },
   { name := "..", isDir := true, inum := rootInum, size := fileBlockSize }]

def readDirectory (s : MetadataServiceImpl) (_path : String) :
    Except Fault (Reply × MetadataServiceImpl) := do
  let (root, s) ← s.getInode rootInum
  match root with
  | none => pure (Reply.readDirectory Status.cancelled [], s)
  | some root =>
      let (infos, s) ← s.readDentries root.getDentryMap
      pure (Reply.readDirectory Status.ok (dotEntries ++ infos), s)

/-!
# Writing
-/

/-- {lit}`randInt(space_manager_.size())`, given what {lit}`rand` returned. -/
def randInt (n : Nat) (rand : Nat) : Except Fault Nat :=
  let n := Word.toInt (UInt64.ofNat n)
  if n = 0 then Except.error Fault.divisionByZero else Except.ok (rand % n.natAbs)

/-- One round of the allocation loop: a random node gives one block to the file. -/
def appendBlock (s : MetadataServiceImpl) (inum : UInt64) (rand : Nat) :
    Except Fault MetadataServiceImpl := do
  let r ← randInt s.spaceManager.size rand
  let serverId := s.spaceManager.keys[r]?.getD (-1)
  let sm ← deref s.spaceManager[serverId]?
  let (blockNr, sm) ← sm.allocateOneBlock
  let s := { s with spaceManager := s.spaceManager.insert serverId sm }
  let file ← deref (s.inode? inum)
  pure (s.putInode inum
    (file.appendFileBlockInfo (UInt64.ofInt serverId) (blockNr * fileBlockSize) 0 blockNr))

/-- The allocation loop; {lit}`rands` lists what {lit}`rand` returns, call by call. -/
def appendBlocks (inum : UInt64) :
    Nat -> (Nat -> Nat) -> MetadataServiceImpl -> Except Fault MetadataServiceImpl
  | 0, _, s => pure s
  | n + 1, rands, s => do
      let s ← s.appendBlock inum (rands 0)
      appendBlocks inum n (fun i => rands (i + 1)) s

/-- The number of blocks a range needs, rounded up in 64-bit arithmetic. -/
def blocksNeeded (offset length : UInt64) : UInt64 :=
  (offset + length + fileBlockSize - 1) / fileBlockSize

/-- The bound of the allocation loop, an {lit}`int`; a negative one runs no round. -/
def newBlocksNum (blockNum needed : UInt64) : Nat :=
  if blockNum < needed then (Word.toInt (needed - blockNum)).toNat else 0

def writeFile (rands : Nat -> Nat) (s : MetadataServiceImpl)
    (name : String) (offset length : UInt64) :
    Except Fault (Reply × MetadataServiceImpl) := do
  let (root, s) ← s.getInode rootInum
  match root with
  | none => pure (Reply.writeFile Status.cancelled [] 0, s)
  | some root =>
      let s ← s.ensureFile hash root name
      let root ← deref (s.inode? rootInum)
      let dentry ← deref (root.getDentry hash name)
      let (file, s) ← s.getInode dentry.inum
      let file ← deref file
      let s ← appendBlocks dentry.inum
        (newBlocksNum file.getBlockNum (blocksNeeded offset length)) rands s
      let file ← deref (s.inode? dentry.inum)
      let (file, c) ← writeExtents file offset length
      let s := s.putInode dentry.inum (file.setSize (offset + length - c.toTransfer))
      pure (Reply.writeFile Status.ok c.reply (length - c.toTransfer), s)

/-!
# Descriptors, removal and registration
-/

def openFile (s : MetadataServiceImpl) (name : String) :
    Except Fault (Reply × MetadataServiceImpl) := do
  let (root, s) ← s.getInode rootInum
  match root with
  | none => pure (Reply.openFile Status.cancelled 0, s)
  | some root =>
      let s ← s.ensureFile hash root name
      let (fd, fileMap) ← s.fileMap.allocateFD
      pure (Reply.openFile Status.ok fd, { s with fileMap := fileMap })

def closeFile (s : MetadataServiceImpl) (fd : Int64) :
    Except Fault (Reply × MetadataServiceImpl) := do
  let (success, fileMap) ← s.fileMap.reclaimFD fd.toUInt64
  pure (Reply.closeFile Status.ok success, { s with fileMap := fileMap })

/-- Offer the inode's blocks to each manager in turn. -/
def reclaimFrom (inum : UInt64) :
    List Int -> MetadataServiceImpl -> Except Fault MetadataServiceImpl
  | [], s => pure s
  | key :: keys, s => do
      let (file, s) ← s.getInode inum
      let sm ← deref s.spaceManager[key]?
      let (_, sm) ← sm.reclaimInodeSpace file
      reclaimFrom inum keys { s with spaceManager := s.spaceManager.insert key sm }

def removeFile (s : MetadataServiceImpl) (name : String) :
    Except Fault (Reply × MetadataServiceImpl) := do
  let (root, s) ← s.getInode rootInum
  match root with
  | none => pure (Reply.removeFile Status.cancelled false, s)
  | some root =>
      match root.getDentry hash name with
      | none => pure (Reply.removeFile Status.ok false, s)
      | some dentry =>
          let (_, root) := root.deleteDentry hash name
          let s := s.putInode rootInum root
          let s ← reclaimFrom dentry.inum s.spaceManager.keys s
          let (_, t) ← s.inodeTable.deleteInode dentry.inum
          pure (Reply.removeFile Status.ok true, { s with inodeTable := t })

def registerMemoryRegion (s : MetadataServiceImpl) (nodeid addr length : UInt64) :
    Reply × MetadataServiceImpl :=
  (Reply.registerMemoryRegion Status.ok,
    { s with
      spaceManager := s.spaceManager.insert (Word.toInt nodeid)
        (SpaceManager.make addr (addr + length - 1) fileBlockSize nodeid) })

/-!
# The service
-/

def handle (rands : Nat -> Nat) (s : MetadataServiceImpl) :
    Request -> Except Fault (Reply × MetadataServiceImpl)
  | Request.readFile name offset length => s.readFile hash name offset length
  | Request.writeFile name offset length => s.writeFile hash rands name offset length
  | Request.createFile name isDir => s.createFile hash name isDir
  | Request.openFile name => s.openFile hash name
  | Request.closeFile fd => s.closeFile fd
  | Request.removeFile name => s.removeFile hash name
  | Request.readDirectory path => s.readDirectory path
  | Request.registerMemoryRegion nodeid addr length =>
      pure (s.registerMemoryRegion nodeid addr length)

end Handlers

end MetadataServiceImpl

/-- A request together with the random numbers drawn while it is handled. -/
structure Call where
  request : Request
  rands : Nat -> Nat

/-- One step of the service. -/
def serve (hash : String -> UInt64) (s : MetadataServiceImpl) (call : Call) :
    Except Fault (Reply × MetadataServiceImpl) :=
  s.handle hash call.rands call.request

/-- The state that the service reaches from its start by a list of calls. -/
def Reaches (hash : String -> UInt64) (calls : List Call) (s : MetadataServiceImpl) :
    Prop :=
  exists replies, runFrom (serve hash) MetadataServiceImpl.init calls =
    Except.ok (replies, s)

end Metadata
end SpongeBob
