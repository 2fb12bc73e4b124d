import SpongeBob.Fuse.Spfuse
import SpongeBob.Metadata.Descriptors
import SpongeBob.Metadata.Namespace

/-!
# Names and descriptors

What the users of the hosts see besides bytes: the names that exist, with their sizes,
and the descriptors that are open.  Whatever upcalls the hosts make, their results are
the results of this view.
-/

namespace SpongeBob
namespace Fuse

open Foundation
open Fs
open Metadata
open Client

/-!
# Descriptors
-/

/-- The descriptors that an open can give out. -/
def closedFds (fds : Finset UInt64) : Set UInt64 :=
  { fd | FileMap.IsDescriptor 100 fd ∧ fd ∉ fds }

/-- What a request does to the open descriptors. -/
inductive FdStep (fds : Finset UInt64) : Request -> Reply -> Finset UInt64 -> Prop where
  | opened {name : String} {status : Status} {fd : UInt64} (hleast : IsLeast (closedFds fds) fd) :
      FdStep fds (Request.openFile name) (Reply.openFile status fd.toNat) (insert fd fds)
  | full {name : String} {status : Status} (hfull : fds.card = 100) :
      FdStep fds (Request.openFile name) (Reply.openFile status (-1)) fds
  | closed {fd : Int64} {status : Status} (hfd : fd.toUInt64 ∈ fds) :
      FdStep fds (Request.closeFile fd) (Reply.closeFile status true) (fds.erase fd.toUInt64)
  | notOpen {fd : Int64} {status : Status} (hfd : fd.toUInt64 ∉ fds) :
      FdStep fds (Request.closeFile fd) (Reply.closeFile status false) fds
  | other {request : Request} {reply : Reply} (hnone : request.fdOp? = none) :
      FdStep fds request reply fds

section Descriptors

variable {hash : String -> UInt64} {s s' : MetadataServiceImpl} {call : Call} {reply : Reply}

end Descriptors

/-!
# The view of the users
-/

structure View where
  files : Namespace
  fds : Finset UInt64

/-- What an open returns, and the descriptors that are open afterwards. -/
inductive Opens (fds : Finset UInt64) (env : Surroundings) : Result -> Finset UInt64 -> Prop where
  | least {fd : UInt64} (hleast : IsLeast (closedFds fds) fd) :
      Opens fds env (Result.opened 0 (some fd)) (insert fd fds)
  | full (hfull : fds.card = 100) : Opens fds env (Result.opened (-env.errno) none) fds

/--
What each step does to the view, and what it returns.  A failure returns whatever
{lit}`errno` is, and {lit}`mkdir` fails even when it makes the directory.
-/
inductive View.Step (v : View) : Input -> Option Result -> View -> Prop where
  | fixed {host : Nat} {env : Surroundings} {u : Upcall} (hnone : u.request = none) :
      Step v (Input.upcall host env u) (some u.fixed) v
  | opens {host : Nat} {env : Surroundings} {u : Upcall} {path : String} {files : Namespace}
      {info : FileInfo} {result : Result} {fds : Finset UInt64}
      (hu : u = Upcall.open path ∨ u = Upcall.create path)
      (hensures : v.files.Ensures (newPath path) files info)
      (hopens : Opens v.fds env result fds) :
      Step v (Input.upcall host env u) (some result) ⟨files, fds⟩
  | releaseOpen {host : Nat} {env : Surroundings} {path : String} {fh : UInt64}
      (hfh : fh ∈ v.fds) :
      Step v (Input.upcall host env (Upcall.release path fh)) (some (Result.code 0))
        { v with fds := v.fds.erase fh }
  | releaseClosed {host : Nat} {env : Surroundings} {path : String} {fh : UInt64}
      (hfh : fh ∉ v.fds) :
      Step v (Input.upcall host env (Upcall.release path fh)) (some (Result.code (-env.errno))) v
  | removeLive {host : Nat} {env : Surroundings} {u : Upcall} {path : String} {info : FileInfo}
      (hu : u = Upcall.unlink path ∨ u = Upcall.rmdir path)
      (hlive : v.files[newPath path]? = some info) :
      Step v (Input.upcall host env u) (some (Result.code 0))
        { v with files := v.files.erase (newPath path) }
  | removeAbsent {host : Nat} {env : Surroundings} {u : Upcall} {path : String}
      (hu : u = Upcall.unlink path ∨ u = Upcall.rmdir path)
      (habsent : v.files[newPath path]? = none) :
      Step v (Input.upcall host env u) (some (Result.code (-env.errno))) v
  | mkdirLive {host : Nat} {env : Surroundings} {path : String} {info : FileInfo}
      (hlive : v.files[newPath path]? = some info) :
      Step v (Input.upcall host env (Upcall.mkdir path)) (some (Result.code (-env.errno))) v
  | mkdir {host : Nat} {env : Surroundings} {path : String} {inum : UInt64}
      (habsent : v.files[newPath path]? = none) (hfresh : v.files.Fresh inum) :
      Step v (Input.upcall host env (Upcall.mkdir path)) (some (Result.code (-env.errno)))
        { v with files := v.files.insert (newPath path) ⟨inum, true, 0⟩ }
  | readdir {host : Nat} {env : Surroundings} {path : String} {infos : List DentryInfo}
      (hlisting : v.files.Listing infos) :
      Step v (Input.upcall host env (Upcall.readdir path))
        (some (Result.filled 0 (fillEntries env.filler (dotEntries ++ infos)))) v
  | read {host : Nat} {env : Surroundings} {path : String} {buf size : UInt64} {offset : Int64}
      {info : FileInfo} {bytes : Int} (hlive : v.files[newPath path]? = some info) :
      Step v (Input.upcall host env (Upcall.read path buf size offset))
        (some (Result.code bytes)) v
  | write {host : Nat} {env : Surroundings} {path : String} {buf size : UInt64} {offset : Int64}
      {files : Namespace} {info : FileInfo} {bytes : Int}
      (hensures : v.files.Ensures (newPath path) files info) :
      Step v (Input.upcall host env (Upcall.write path buf size offset))
        (some (Result.code bytes))
        { v with files := files.insert (newPath path)
                            { info with size := offset.toUInt64 + size } }
  | served {call : Call} {reply : Reply} {files : Namespace} {fds : Finset UInt64}
      (hfiles : v.files.Step call.request reply files)
      (hfds : FdStep v.fds call.request reply fds) :
      Step v (Input.serve call) none ⟨files, fds⟩

/-- The steps of a run, from the empty view on. -/
inductive View.Run : List Input -> List (Option Result) -> View -> Prop where
  | start : Run [] [] ⟨∅, ∅⟩
  | step {inputs : List Input} {outs : List (Option Result)} {v v' : View} {input : Input}
      {out : Option Result} (hrun : Run inputs outs v) (hstep : v.Step input out v') :
      Run (inputs ++ [input]) (outs ++ [out]) v'

section Steps

variable {v : View} {host : Nat} {env : Surroundings}

theorem opens_of_fdStep {fds fds' : Finset UInt64} {name : String} {fd : Int}
    (h : FdStep fds (Request.openFile name) (Reply.openFile Status.ok fd) fds') :
    Opens fds env (openResult env fd) fds' := by
  cases h with
  | @opened _ _ w hleast =>
      have hne : (w.toNat : Int) ≠ -1 := by omega
      unfold openResult
      rw [if_neg hne, Word.ofInt_toNat]
      exact Opens.least hleast
  | full hfull => exact Opens.full hfull
  | other hnone => cases hnone

/-- Only opens and releases change the open descriptors. -/
theorem FdStep.eq_of_other {fds fds' : Finset UInt64} {request : Request} {reply : Reply}
    (h : FdStep fds request reply fds') (hnone : request.fdOp? = none) : fds' = fds := by
  cases h with
  | opened hleast => cases hnone
  | full hfull => cases hnone
  | closed hfd => cases hnone
  | notOpen hfd => cases hnone
  | other _ => rfl

theorem removes_of_step {u : Upcall} {path : String} {reply : Reply} {files : Namespace}
    (hu : u = Upcall.unlink path ∨ u = Upcall.rmdir path)
    (hfiles : v.files.Step (Request.removeFile (newPath path)) reply files) :
    v.Step (Input.upcall host env u)
      (some (flagResult env (MetadataClient.replySuccess reply))) ⟨files, v.fds⟩ := by
  cases hfiles with
  | removeLive hlive => exact View.Step.removeLive hu hlive
  | removeAbsent habsent => exact View.Step.removeAbsent hu habsent

theorem opens_of_step {u : Upcall} {path : String} {reply : Reply} {files : Namespace}
    {fds : Finset UInt64} (hu : u = Upcall.open path ∨ u = Upcall.create path)
    (hfiles : v.files.Step (Request.openFile (newPath path)) reply files)
    (hfds : FdStep v.fds (Request.openFile (newPath path)) reply fds) :
    v.Step (Input.upcall host env u)
      (some (openResult env (MetadataClient.replyFd reply))) ⟨files, fds⟩ := by
  cases hfiles with
  | openFile hensures => exact View.Step.opens hu hensures (opens_of_fdStep hfds)

theorem release_of_step {path : String} {fh : UInt64} {reply : Reply} {files : Namespace}
    {fds : Finset UInt64} (hfiles : v.files.Step (Request.closeFile fh.toInt64) reply files)
    (hfds : FdStep v.fds (Request.closeFile fh.toInt64) reply fds) :
    v.Step (Input.upcall host env (Upcall.release path fh))
      (some (flagResult env (MetadataClient.replySuccess reply))) ⟨files, fds⟩ := by
  cases hfiles with
  | closeFile =>
      cases hfds with
      | closed hfd => exact View.Step.releaseOpen hfd
      | notOpen hfd => exact View.Step.releaseClosed hfd
      | other hnone => cases hnone

/-- An upcall that asks the server does to the view what its request does. -/
theorem View.Step.of_asked {u : Upcall} {request : Request} {reply : Reply}
    {files : Namespace} {fds : Finset UInt64} (hrequest : u.request = some request)
    (hnone : u.operation = none) (hfiles : v.files.Step request reply files)
    (hfds : FdStep v.fds request reply fds) :
    v.Step (Input.upcall host env u) (some (u.answer env reply)) ⟨files, fds⟩ := by
  cases u with
  | getattr path => cases hrequest
  | readdir path =>
      cases hrequest
      cases hfds.eq_of_other rfl
      cases hfiles with
      | readDirectory hlisting => exact View.Step.readdir hlisting
  | read path buf size offset => cases hnone
  | write path buf size offset => cases hnone
  | «open» path =>
      cases hrequest
      exact opens_of_step (Or.inl rfl) hfiles hfds
  | create path =>
      cases hrequest
      exact opens_of_step (Or.inr rfl) hfiles hfds
  | release path fh =>
      cases hrequest
      exact release_of_step hfiles hfds
  | unlink path =>
      cases hrequest
      cases hfds.eq_of_other rfl
      exact removes_of_step (Or.inl rfl) hfiles
  | mkdir path =>
      cases hrequest
      cases hfds.eq_of_other rfl
      cases hfiles with
      | createLive hlive => exact View.Step.mkdirLive hlive
      | create habsent hfresh => exact View.Step.mkdir habsent hfresh
  | rmdir path =>
      cases hrequest
      cases hfds.eq_of_other rfl
      exact removes_of_step (Or.inr rfl) hfiles
  | statfs path => cases hrequest
  | ignored upcall => cases hrequest

end Steps

/-!
# Runs
-/

section Runs

variable {hash : String -> UInt64} {hw : Hardware} {fs fs' : FileSystem}

/-- The view agrees with the server. -/
structure Agrees (hash : String -> UInt64) (used : List String) (v : View)
    (s : MetadataServiceImpl) : Prop where
  files : forall name : String, v.files[name]? = lookup hash s name
  fds : v.fds = s.fileMap.fdUsedSet
  tidy : Tidy used s
  divided : FileMap.Divided 100 s.fileMap

end Runs

end Fuse
end SpongeBob
