import SpongeBob.Metadata.Service

/-!
# A handler call by call

The service handles requests in parallel.  Here the handlers that may create a file are
taken apart into their calls of the inode table, the directory and the descriptors,
so that the calls of two of them can be interleaved.
-/

namespace SpongeBob
namespace Metadata
namespace Racing

open Foundation
open Fs
open MetadataServiceImpl

/-- What a handler was asked to do with the name. -/
inductive Job where
  | createFile (isDir : Bool)
  | openFile
  | writeFile (offset length : UInt64) (rands : Nat -> Nat)

/-- The call a handler makes next, with what it keeps from the calls before. -/
inductive Phase where
  | start
  | hasRoot
  | absent
  | creating
  | allocated (inum : UInt64)
  | created
  | found (dentry : Dentry)
  | opened (inum : UInt64)
  | ready
  | done (reply : Reply)
deriving DecidableEq, Repr

namespace Job

def request (job : Job) (name : String) : Request :=
  match job with
  | createFile isDir => Request.createFile name isDir
  | openFile => Request.openFile name
  | writeFile offset length _ => Request.writeFile name offset length

def rands : Job -> Nat -> Nat
  | writeFile _ _ rands => rands
  | _ => fun _ => 0

/-- The reply when there is no root directory. -/
def cancelled : Job -> Reply
  | createFile _ => Reply.createFile Status.cancelled 0
  | openFile => Reply.openFile Status.cancelled 0
  | writeFile _ _ _ => Reply.writeFile Status.cancelled [] 0

/-- After the entry has been found. -/
def afterFound (job : Job) (dentry : Dentry) : Phase :=
  match job with
  | createFile _ => Phase.done (Reply.createFile Status.ok dentry.inum)
  | openFile => Phase.ready
  | writeFile _ _ _ => Phase.found dentry

/-- After the entry has been made, or not: the handler does not ask. -/
def afterEntry (job : Job) (inum : UInt64) : Phase :=
  match job with
  | createFile _ => Phase.done (Reply.createFile Status.ok inum)
  | openFile => Phase.ready
  | writeFile _ _ _ => Phase.created

end Job

/-- {lit}`WriteFile` from where it has the inode of the file. -/
def writeBlocks (rands : Nat -> Nat) (s : MetadataServiceImpl) (inum : UInt64)
    (offset length : UInt64) : Except Fault (Reply × MetadataServiceImpl) := do
  let file ← deref (s.inode? inum)
  let s ← appendBlocks inum
    (newBlocksNum file.getBlockNum (blocksNeeded offset length)) rands s
  let file ← deref (s.inode? inum)
  let (file, c) ← writeExtents file offset length
  let s := s.putInode inum (file.setSize (offset + length - c.toTransfer))
  pure (Reply.writeFile Status.ok c.reply (length - c.toTransfer), s)

section Handlers

variable (hash : String -> UInt64) (name : String)

/-- The next call of a handler. -/
def advance (job : Job) (s : MetadataServiceImpl) :
    Phase -> Except Fault (MetadataServiceImpl × Phase)
  | Phase.start => do
      let (root, s) ← s.getInode rootInum
      match root with
      | none => pure (s, Phase.done job.cancelled)
      | some _ => pure (s, Phase.hasRoot)
  | Phase.hasRoot => do
      let root ← deref (s.inode? rootInum)
      match root.getDentry hash name with
      | some dentry => pure (s, job.afterFound dentry)
      | none => pure (s, Phase.absent)
  | Phase.absent =>
      match job with
      | Job.createFile isDir => do
          let (inum, t) ← s.inodeTable.allocateFreeInode
            (if isDir then FileType.dir else FileType.regFile)
          pure ({ s with inodeTable := t }, Phase.allocated inum)
      | _ => do
          -- {lit}`CreateFile_` looks the root directory up again.
          let (root, s) ← s.getInode rootInum
          match root with
          | none => pure (s, job.afterEntry (s.inodeTable.totalSize + 1))
          | some _ => pure (s, Phase.creating)
  | Phase.creating => do
      let (inum, t) ← s.inodeTable.allocateFreeInode FileType.regFile
      pure ({ s with inodeTable := t }, Phase.allocated inum)
  | Phase.allocated inum => do
      let root ← deref (s.inode? rootInum)
      let (_, root) := root.addDentry hash name inum
      pure (s.putInode rootInum root, job.afterEntry inum)
  | Phase.created => do
      let root ← deref (s.inode? rootInum)
      let dentry ← deref (root.getDentry hash name)
      pure (s, Phase.found dentry)
  | Phase.found dentry => do
      let (file, s) ← s.getInode dentry.inum
      let _ ← deref file
      pure (s, Phase.opened dentry.inum)
  | Phase.opened inum =>
      match job with
      | Job.writeFile offset length rands => do
          let (reply, s) ← writeBlocks rands s inum offset length
          pure (s, Phase.done reply)
      | _ => pure (s, Phase.opened inum)
  | Phase.ready => do
      let (fd, fileMap) ← s.fileMap.allocateFD
      pure ({ s with fileMap := fileMap }, Phase.done (Reply.openFile Status.ok fd))
  | Phase.done reply => pure (s, Phase.done reply)

/-- A number of calls of one handler, with no other in between. -/
def advances (job : Job) :
    Nat -> MetadataServiceImpl × Phase -> Except Fault (MetadataServiceImpl × Phase)
  | 0, x => pure x
  | n + 1, (s, phase) => advance hash name job s phase >>= advances job n

end Handlers

/-!
# A handler on its own
-/

section Alone

variable {hash : String -> UInt64} {name : String} {s : MetadataServiceImpl}

/-- The reply and the state of a handler that has been run to its end. -/
def finished (result : Reply × MetadataServiceImpl) : MetadataServiceImpl × Phase :=
  (result.2, Phase.done result.1)

theorem advances_done (job : Job) (n : Nat) (reply : Reply) :
    advances hash name job n (s, Phase.done reply) = Except.ok (s, Phase.done reply) := by
  induction n with
  | zero => rfl
  | succ n ih => exact ih

/-- Allocation and entry are what {lit}`enterInode` does. -/
theorem advances_enter (job : Job) (n : Nat) (type : FileType) :
    (s.inodeTable.allocateFreeInode type >>= fun (inum, t) =>
      advances hash name job (n + 1) ({ s with inodeTable := t }, Phase.allocated inum)) =
    (s.enterInode hash name type >>= fun (inum, s) =>
      advances hash name job n (s, job.afterEntry inum)) := by
  simp only [enterInode, advances, advance, bind_assoc, pure_bind]

theorem advances_ready (job : Job) (n : Nat) :
    advances hash name job (n + 1) (s, Phase.ready) =
      (s.fileMap.allocateFD >>= fun (fd, fileMap) =>
        pure ({ s with fileMap := fileMap }, Phase.done (Reply.openFile Status.ok fd))) := by
  simp only [advances, advance, bind_assoc, pure_bind, advances_done]
  rfl

theorem inode?_of_getInode {inum : UInt64} {file : Option Inode} {s1 : MetadataServiceImpl}
    (hget : s.getInode inum = Except.ok (file, s1)) : s1.inode? inum = file := by
  unfold MetadataServiceImpl.getInode InodeTable.getInode at hget
  rcases bind_eq_ok.mp hget with ⟨⟨inode, t⟩, htable, hpure⟩
  rcases bind_eq_ok.mp htable with ⟨held, _, hmatch⟩
  cases hpure
  cases hentry : s.inodeTable.table[inum]? with
  | none =>
      rw [hentry] at hmatch
      cases hmatch
      exact hentry
  | some inode =>
      rw [hentry] at hmatch
      cases hmatch
      exact hentry

theorem advances_succ (job : Job) (n : Nat) (phase : Phase) :
    advances hash name job (n + 1) (s, phase) =
      advance hash name job s phase >>= advances hash name job n :=
  rfl

theorem advance_found (job : Job) (d : Dentry) :
    advance hash name job s (Phase.found d) =
      (s.getInode d.inum >>= fun (file, s) =>
        deref file >>= fun _ => pure (s, Phase.opened d.inum)) :=
  rfl

theorem advances_opened (offset length : UInt64) (rands : Nat -> Nat) (inum : UInt64)
    (n : Nat) :
    advances hash name (Job.writeFile offset length rands) (n + 1) (s, Phase.opened inum) =
      finished <$> writeBlocks rands s inum offset length := by
  rw [advances_succ, advance]
  cases writeBlocks rands s inum offset length with
  | error e => rfl
  | ok result => exact advances_done _ n result.1

/-- The end of {lit}`WriteFile`, from where it has the entry. -/
def writeEntry (rands : Nat -> Nat) (s : MetadataServiceImpl) (d : Dentry)
    (offset length : UInt64) : Except Fault (Reply × MetadataServiceImpl) := do
  let (file, s) ← s.getInode d.inum
  let _ ← deref file
  writeBlocks rands s d.inum offset length

theorem advances_found (offset length : UInt64) (rands : Nat -> Nat) (d : Dentry) (n : Nat) :
    advances hash name (Job.writeFile offset length rands) (n + 2) (s, Phase.found d) =
      finished <$> writeEntry rands s d offset length := by
  rw [advances_succ, advance_found, writeEntry]
  simp only [bind_assoc, pure_bind, advances_opened, map_bind]

theorem bind_deref_some {alpha beta : Type} (a : alpha) (f : alpha -> Except Fault beta) :
    (deref (some a) >>= f) = f a :=
  rfl

theorem bind_deref_none {alpha beta : Type} (f : alpha -> Except Fault beta) :
    (deref none >>= f) = Except.error Fault.nullDereference :=
  rfl

/-- An inode that has been looked up is still there. -/
theorem getInode_congr {alpha : Type} {inum : UInt64}
    {f g : Option Inode × MetadataServiceImpl -> Except Fault alpha}
    (hnone : forall s1, f (none, s1) = g (none, s1))
    (hsome : forall file s1, s1.inode? inum = some file -> f (some file, s1) = g (some file, s1)) :
    (s.getInode inum >>= f) = (s.getInode inum >>= g) := by
  cases hget : s.getInode inum with
  | error e => rfl
  | ok result =>
      rcases result with ⟨file, s1⟩
      cases file with
      | none => exact hnone s1
      | some file => exact hsome file s1 (inode?_of_getInode hget)

/-- The first two calls look the name up. -/
theorem advances_check {root : Inode} (hu : Unlocked s) (hroot : s.inode? rootInum = some root)
    (job : Job) (n : Nat) :
    advances hash name job (n + 2) (s, Phase.start) =
      match root.getDentry hash name with
      | some d => advances hash name job n (s, job.afterFound d)
      | none => advances hash name job n (s, Phase.absent) := by
  rw [advances_succ, advance, getInode_of_some hu hroot]
  show advances hash name job (n + 1) (s, Phase.hasRoot) = _
  rw [advances_succ, advance, deref_eq_ok.mpr hroot, ok_bind]
  cases root.getDentry hash name with
  | none => rfl
  | some d => rfl

/-- {lit}`CreateFile_` as the handlers that call it perform it. -/
theorem advances_create {root : Inode} (hu : Unlocked s)
    (hroot : s.inode? rootInum = some root) {job : Job}
    (hjob : forall isDir, job ≠ Job.createFile isDir) (n : Nat) :
    advances hash name job (n + 3) (s, Phase.absent) =
      (s.createFile_ hash name false >>= fun (inum, s) =>
        advances hash name job n (s, job.afterEntry inum)) := by
  have hget := getInode_of_some hu hroot
  have hagain : advance hash name job s Phase.absent = Except.ok (s, Phase.creating) := by
    rw [advance, hget]
    · rfl
    · exact hjob
  rw [advances_succ, hagain, ok_bind, advances_succ, advance, createFile_, hget, ok_bind,
    ← advances_enter]
  simp only [bind_assoc, pure_bind]

theorem advances_created (offset length : UInt64) (rands : Nat -> Nat) (n : Nat) :
    advances hash name (Job.writeFile offset length rands) (n + 3) (s, Phase.created) =
      (deref (s.inode? rootInum) >>= fun root => deref (root.getDentry hash name) >>= fun d =>
        finished <$> writeEntry rands s d offset length) := by
  rw [advances_succ, advance]
  simp only [bind_assoc, pure_bind, advances_found]

theorem writeFile_eq_entry {root : Inode} (hu : Unlocked s)
    (hroot : s.inode? rootInum = some root) (rands : Nat -> Nat) (offset length : UInt64) :
    s.writeFile hash rands name offset length =
      (s.ensureFile hash root name >>= fun s =>
        deref (s.inode? rootInum) >>= fun root => deref (root.getDentry hash name) >>= fun d =>
          writeEntry rands s d offset length) := by
  rw [writeFile, getInode_of_some hu hroot, ok_bind]
  refine bind_congr (fun s1 => bind_congr (fun root1 => bind_congr (fun d => ?_)))
  refine getInode_congr ?_ ?_
  · intro s2
    dsimp only
    rw [bind_deref_none, bind_deref_none]
  · intro file s2 hfile
    dsimp only
    rw [bind_deref_some, bind_deref_some, writeBlocks, hfile, bind_deref_some]

/-- A handler that is not disturbed does what the service does with its request. -/
theorem advances_eq_handle (hwf : WellFormed hash s) (job : Job) :
    advances hash name job 8 (s, Phase.start) =
      finished <$> s.handle hash job.rands (job.request name) := by
  rcases hwf.directory.root with ⟨root, hroot⟩
  have hget := getInode_of_some hwf.unlocked hroot
  rw [advances_check hwf.unlocked hroot job 6]
  cases job with
  | createFile isDir =>
      show _ = finished <$> s.createFile hash name isDir
      rw [createFile, hget, ok_bind]
      cases hdentry : root.getDentry hash name with
      | some d =>
          simp only [hdentry]
          exact advances_done _ 6 _
      | none =>
          simp only [hdentry]
          rw [advances_succ, advance, bind_assoc]
          simp only [pure_bind]
          rw [advances_enter]
          simp only [Job.afterEntry, advances_done, map_bind]
          rfl
  | openFile =>
      show _ = finished <$> s.openFile hash name
      rw [openFile, hget, ok_bind]
      cases hdentry : root.getDentry hash name with
      | some d =>
          simp only [ensureFile, hdentry, pure_bind, Job.afterFound]
          rw [advances_ready]
          simp only [map_bind]
          rfl
      | none =>
          simp only [ensureFile, hdentry, bind_assoc, pure_bind, map_bind]
          rw [advances_create hwf.unlocked hroot (fun _ heq => by cases heq) 3]
          simp only [Job.afterEntry, advances_ready]
          rfl
  | writeFile offset length rands =>
      show _ = finished <$> s.writeFile hash rands name offset length
      rw [writeFile_eq_entry hwf.unlocked hroot]
      cases hdentry : root.getDentry hash name with
      | some d =>
          simp only [ensureFile, hdentry, pure_bind, Job.afterFound]
          rw [advances_found, deref_eq_ok.mpr hroot, ok_bind, deref_eq_ok.mpr hdentry, ok_bind]
      | none =>
          simp only [ensureFile, hdentry, bind_assoc, pure_bind, map_bind]
          rw [advances_create hwf.unlocked hroot (fun _ heq => by cases heq) 3]
          simp only [Job.afterEntry, advances_created]

end Alone

end Racing
end Metadata
end SpongeBob
