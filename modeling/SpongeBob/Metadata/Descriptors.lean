import SpongeBob.Fs.FileMap
import SpongeBob.Metadata.Service

/-!
# Descriptors of the service

The service drives its descriptor table by {lit}`OpenFile` and {lit}`CloseFile`
alone: a run of the service, seen through its descriptor table, is the run of the
calls that these requests make.
-/

namespace SpongeBob
namespace Metadata

open Foundation
open Fs
open MetadataServiceImpl

/-- The call that a request makes on the descriptor table. -/
def Request.fdOp? : Request -> Option FileMap.Op
  | Request.openFile _ => some FileMap.Op.allocateFD
  | Request.closeFile fd => some (FileMap.Op.reclaimFD fd.toUInt64)
  | _ => none

/-- The result of that call, as the reply carries it. -/
def Reply.fdResult? : Reply -> Option FileMap.Result
  | Reply.openFile _ fd => some (FileMap.Result.allocateFD fd)
  | Reply.closeFile _ success => some (FileMap.Result.reclaimFD success)
  | _ => none

variable {hash : String -> UInt64} {s s' : MetadataServiceImpl}

/-- Only the action on the descriptors touches their table. -/
theorem Acts.fileMap_eq {a : Action} (hact : Acts hash s a s')
    (hnot : a ≠ Action.descriptors) : s'.fileMap = s.fileMap := by
  cases hact with
  | create hroot habsent hfree htop => rfl
  | createFull hroot habsent hfull => rfl
  | append hsm htop hfile hroom => rfl
  | rewrite hfile hsame => rfl
  | remove hroot hdentry hfile => rfl
  | unlink hroot hdentry hgone => rfl
  | register => rfl
  | descriptors hunlocked => exact absurd rfl hnot

theorem Trace.fileMap_eq {acts : List Action} (h : Trace hash s acts s')
    (hnot : forall a, a ∈ acts -> a ≠ Action.descriptors) : s'.fileMap = s.fileMap := by
  induction h with
  | nil s => rfl
  | @cons s s1 s2 a rest hact _ ih =>
      rw [ih (fun b hb => hnot b (List.mem_cons_of_mem a hb)),
        hact.fileMap_eq (hnot a List.mem_cons_self)]

theorem Ensured.fileMap_eq {name : String} (h : Ensured hash name s s') :
    s'.fileMap = s.fileMap := by
  cases h with
  | present hold => rfl
  | created hold hact => exact hact.fileMap_eq (fun heq => by cases heq)
  | full hold hact => exact hact.fileMap_eq (fun heq => by cases heq)

/-- A request that makes no call on the descriptor table leaves it alone. -/
theorem serve_fileMap_eq (hwf : WellFormed hash s) {call : Call} {reply : Reply}
    (hserve : serve hash s call = Except.ok (reply, s'))
    (hnone : call.request.fdOp? = none) : s'.fileMap = s.fileMap := by
  rcases serve_trace hwf hserve with ⟨acts, htrace, hallowed⟩
  apply htrace.fileMap_eq
  rintro a ha rfl
  have hallows := hallowed _ ha
  rcases call with ⟨request, rands⟩
  cases hallows <;> cases hnone

/-- One call of the service, seen through the descriptor table. -/
theorem serve_descriptors (hwf : WellFormed hash s) {call : Call} {reply : Reply}
    (hserve : serve hash s call = Except.ok (reply, s')) :
    runFrom FileMap.perform s.fileMap call.request.fdOp?.toList =
      Except.ok (reply.fdResult?.toList, s'.fileMap) := by
  have hsame : call.request.fdOp? = none -> reply.fdResult? = none ->
      runFrom FileMap.perform s.fileMap call.request.fdOp?.toList =
        Except.ok (reply.fdResult?.toList, s'.fileMap) := by
    intro hop hresult
    rw [hop, hresult, serve_fileMap_eq hwf hserve hop]
    rfl
  rcases call with ⟨request, rands⟩
  cases request with
  | readFile name offset length =>
      rcases readFile_cases hwf hserve with ⟨_, _, _, _, _, _, rfl, _⟩
      exact hsame rfl rfl
  | writeFile name offset length =>
      rcases writeFile_cases hwf hserve with ⟨_, _, _, _, _, _, _, _, rfl⟩
      exact hsame rfl rfl
  | createFile name isDir =>
      rcases createFile_cases hwf hserve with ⟨_, _, rfl, _⟩ | ⟨_, _, rfl, _⟩
      · exact hsame rfl rfl
      · exact hsame rfl rfl
  | openFile name =>
      rcases openFile_cases hwf hserve with ⟨s1, fd, fileMap, hensured, halloc, rfl, rfl⟩
      rw [hensured.fileMap_eq] at halloc
      refine runFrom_cons.mpr ⟨_, fileMap, [], ?_, rfl, rfl⟩
      rw [FileMap.perform, halloc]
      rfl
  | closeFile fd =>
      rcases closeFile_cases hserve with ⟨success, fileMap, hreclaim, rfl, rfl⟩
      refine runFrom_cons.mpr ⟨_, fileMap, [], ?_, rfl, rfl⟩
      rw [FileMap.perform, hreclaim]
      rfl
  | removeFile name =>
      rcases removeFile_cases hwf hserve with ⟨_, rfl, _⟩ | ⟨_, _, rfl, _⟩
      · exact hsame rfl rfl
      · exact hsame rfl rfl
  | readDirectory path =>
      rcases readDirectory_cases path hwf hserve with ⟨_, _, _, _, rfl, _⟩
      exact hsame rfl rfl
  | registerMemoryRegion nodeid addr length =>
      cases hserve
      exact hsame rfl rfl

/-- The calls that a list of requests makes on the descriptor table. -/
def fdOps (calls : List Call) : List FileMap.Op :=
  calls.filterMap (fun call => call.request.fdOp?)

def fdResults (replies : List Reply) : List FileMap.Result :=
  replies.filterMap Reply.fdResult?

/-- A run of the service, seen through the descriptor table. -/
theorem run_descriptors {calls : List Call} {replies : List Reply}
    (hrun : runFrom (serve hash) MetadataServiceImpl.init calls = Except.ok (replies, s)) :
    runFrom FileMap.perform (FileMap.make 100) (fdOps calls) =
      Except.ok (fdResults replies, s.fileMap) := by
  refine run_induction (motive := fun calls replies s =>
    runFrom FileMap.perform (FileMap.make 100) (fdOps calls) =
      Except.ok (fdResults replies, s.fileMap)) rfl ?_ hrun
  intro before outs s1 call reply s2 hbefore ih hserve
  have hstep := serve_descriptors (run_wellFormed wellFormed_init hbefore) hserve
  have hops : fdOps (before ++ [call]) = fdOps before ++ call.request.fdOp?.toList := by
    unfold fdOps
    rw [List.filterMap_append]
    cases hop : call.request.fdOp? <;> simp [hop]
  have hresults : fdResults (outs ++ [reply]) = fdResults outs ++ reply.fdResult?.toList := by
    unfold fdResults
    rw [List.filterMap_append]
    cases hresult : reply.fdResult? <;> simp [hresult]
  rw [hops, hresults]
  exact runFrom_append.mpr ⟨_, s1.fileMap, _, ih, hstep, rfl⟩

/--
The descriptors of a map of any size below 2^31, over any calls: they are divided
between the free list and the open set, each open gets the least one that is not
open, a close succeeds exactly on an open one, no descriptor is given out again
before it is closed, and closing all of them gives the initial map back.  The table
of the service is such a map, of size 100, under the calls of its requests.
-/
theorem descriptors_divided (size : UInt64) (hsize : size.toNat + 3 < 2 ^ 31) :
    (forall ops, exists results m,
      runFrom FileMap.perform (FileMap.make size) ops = Except.ok (results, m) ∧
      FileMap.Divided size.toNat m ∧ FileMap.AllocatesLeast size.toNat m ∧
      FileMap.ReclaimsOpen m ∧
      (forall fds : List UInt64, fds.Nodup -> (forall fd, fd ∈ fds <-> fd ∈ m.fdUsedSet) ->
        runFrom FileMap.perform m (fds.map FileMap.Op.reclaimFD) =
          Except.ok (fds.map (fun _ => FileMap.Result.reclaimFD true), FileMap.make size))) ∧
    (forall before middle results1 results2 m m1 m2 m3 (fd : Int), fd ≠ -1 ->
      runFrom FileMap.perform (FileMap.make size) before = Except.ok (results1, m) ->
      m.allocateFD = Except.ok (fd, m1) ->
      runFrom FileMap.perform m1 middle = Except.ok (results2, m2) ->
      m2.allocateFD = Except.ok (fd, m3) ->
      exists w : UInt64, fd = w.toNat ∧
        (FileMap.Op.reclaimFD w, FileMap.Result.reclaimFD true) ∈ middle.zip results2) ∧
    (forall hash calls replies s,
      runFrom (serve hash) MetadataServiceImpl.init calls = Except.ok (replies, s) ->
      runFrom FileMap.perform (FileMap.make 100) (fdOps calls) =
        Except.ok (fdResults replies, s.fileMap)) := by
  have hmake := FileMap.divided_make hsize
  refine ⟨?_, ?_, fun _ _ _ _ hrun => run_descriptors hrun⟩
  · intro ops
    rcases hmake.exists_run ops with ⟨results, m, hrun⟩
    have hdivided := hmake.run hrun
    exact ⟨results, m, hrun, hdivided, hdivided.allocatesLeast hsize,
      hdivided.reclaimsOpen, fun fds hnodup hall => hdivided.close_all hsize hnodup hall⟩
  · intro before middle results1 results2 m m1 m2 m3 fd hfd hbefore hfirst hmiddle hsecond
    exact (hmake.run hbefore).reclaimed_between hsize hfd hfirst hmiddle hsecond

/-- A map of two descriptors, after a close of a number that was never given out. -/
theorem descriptors_divided_two : exists results m,
    runFrom FileMap.perform (FileMap.make 2)
      [FileMap.Op.allocateFD, FileMap.Op.reclaimFD 9, FileMap.Op.allocateFD] =
        Except.ok (results, m) ∧ FileMap.Divided 2 m ∧ FileMap.AllocatesLeast 2 m := by
  rcases (descriptors_divided 2 (by decide)).left
    [FileMap.Op.allocateFD, FileMap.Op.reclaimFD 9, FileMap.Op.allocateFD] with
    ⟨results, m, hrun, hdivided, hleast, _, _⟩
  exact ⟨results, m, hrun, hdivided, hleast⟩

end Metadata
end SpongeBob
