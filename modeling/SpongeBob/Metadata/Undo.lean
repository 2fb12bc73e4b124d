import SpongeBob.Metadata.Conservation

/-!
# Removing a file undoes its whole life

A file is created, its blocks accumulate on a mixture of nodes over many writes, and
it is removed.  The state after the removal is the one before the creation: what the
removal would lead back to is the same after each of the calls in between.
-/

namespace SpongeBob
namespace Metadata

open Foundation
open Fs
open MetadataServiceImpl

variable {hash : String -> UInt64} {s s' t t' : MetadataServiceImpl}

/-- The requests that make the file of an absent name. -/
inductive Request.Makes (name : String) : Request -> Prop where
  | create (isDir : Bool) : Makes name (Request.createFile name isDir)
  | write (offset length : UInt64) : Makes name (Request.writeFile name offset length)

/-- The requests that make or use the file of a name. -/
inductive Request.Uses (name : String) : Request -> Prop where
  | make {request : Request} (hmakes : request.Makes name) : Uses name request
  | read (offset length : UInt64) : Uses name (Request.readFile name offset length)

/-- The name has a file in {lit}`t`, and removing it leads back to {lit}`s`. -/
def RemovesTo (hash : String -> UInt64) (name : String) (t s : MetadataServiceImpl) : Prop :=
  exists root d file, t.inode? rootInum = some root ∧
    root.getDentry hash name = some d ∧ t.inode? d.inum = some file ∧
    t.removed root (hash name) d.inum file = s

theorem RemovesTo.entry {name : String} (h : RemovesTo hash name t s) :
    exists d, t.child? (hash name) = some d := by
  rcases h with ⟨root, d, file, hroot, hdentry, hfile, hback⟩
  exists d
  exact (child?_of_root hroot _).trans hdentry

/-!
# A space manager that gets blocks back
-/

section Returned

variable {sm : SpaceManager} {blockNr : UInt64}

/-- The last block of a list can be given back first. -/
theorem returnBlocks_concat (sm : SpaceManager) (blocks : List FileBlockInfo)
    (info : FileBlockInfo) :
    sm.returnBlocks (blocks ++ [info]) =
      if info.serverId ≠ sm.serverId then sm.returnBlocks blocks
      else (sm.returnBlock info.blockNr).returnBlocks blocks := by
  induction blocks generalizing sm with
  | nil => exact SpaceManager.returnBlocks_cons sm info []
  | cons first blocks ih =>
      rw [List.cons_append, SpaceManager.returnBlocks_cons, ih, ih,
        SpaceManager.returnBlocks_cons, SpaceManager.returnBlocks_cons]
      have hserver : forall n, (sm.returnBlock n).serverId = sm.serverId := fun _ => rfl
      simp only [hserver]
      by_cases hinfo : info.serverId ≠ sm.serverId
      · simp only [if_pos hinfo]
      · simp only [if_neg hinfo, SpaceManager.returnBlock_comm sm]

/-- The blocks of a file and the one just taken are given back together. -/
theorem returnBlocks_useBlock (htop : sm.freeList.top? = some blockNr)
    (hunused : blockNr ∉ sm.inusedBlocks) {info : FileBlockInfo}
    (hserver : info.serverId = sm.serverId) (hnr : info.blockNr = blockNr)
    (blocks : List FileBlockInfo) :
    (sm.useBlock blockNr).returnBlocks (blocks ++ [info]) = sm.returnBlocks blocks := by
  have hsame : ¬ info.serverId ≠ (sm.useBlock blockNr).serverId := fun hne => hne hserver
  rw [returnBlocks_concat, if_neg hsame, hnr, SpaceManager.returnBlock_useBlock htop hunused]

/-- What a manager gets back depends on the places of the blocks only. -/
theorem returnBlocks_of_places {blocks blocks' : List FileBlockInfo}
    (hplaces : blocks'.map place = blocks.map place) (sm : SpaceManager) :
    sm.returnBlocks blocks' = sm.returnBlocks blocks := by
  have hfold : forall bs : List FileBlockInfo, sm.returnBlocks bs =
      (bs.map place).foldl
        (fun sm p => if p.1 ≠ sm.serverId then sm else sm.returnBlock p.2.2) sm := by
    intro bs
    rw [List.foldl_map]
    rfl
  rw [hfold, hfold, hplaces]

end Returned

/-!
# What removal leads back to

A removal that follows an action leads to the same state as one before it: the
block that was appended goes back to the node it came from.
-/

/-- Two states are equal if everything that can be observed of them is. -/
theorem eq_of_observed (hinode : forall i, s.inode? i = t.inode? i)
    (hmanager : forall key, s.manager? key = t.manager? key)
    (hrest : { s.inodeTable with table := ∅ } = { t.inodeTable with table := ∅ })
    (hmap : s.fileMap = t.fileMap) : s = t := by
  have htable : s.inodeTable.table = t.inodeTable.table :=
    Std.ExtTreeMap.ext_getElem? (fun i => hinode i)
  have hspace : s.spaceManager = t.spaceManager :=
    Std.ExtTreeMap.ext_getElem? (fun key => hmanager key)
  have hall : s.inodeTable = t.inodeTable := by
    calc s.inodeTable
        = { { s.inodeTable with table := ∅ } with table := s.inodeTable.table } := rfl
      _ = { { t.inodeTable with table := ∅ } with table := t.inodeTable.table } := by
          rw [hrest, htable]
      _ = t.inodeTable := rfl
  cases s with
  | mk inodeTable spaceManager fileMap =>
      cases hall
      cases hspace
      cases hmap
      rfl

section Removed

variable {root file file' : Inode} {key inum : UInt64}

theorem removed_created (hwf : WellFormed hash s) {type : FileType} {dentry : Dentry}
    (hroot : s.inode? rootInum = some root) (habsent : root.children[dentry.hash]? = none)
    (htop : s.inodeTable.freeList.top? = some inum) :
    ((s.allocated type inum).entered root dentry).removed
      { root with children := root.children.insert dentry.hash dentry } dentry.hash inum
      (Inode.make type inum) = s := by
  have hfresh := inode?_eq_none_of_free hwf.balanced (MinHeap.top?_mem htop)
  apply eq_of_observed
  · intro i
    rw [inode?_removed, inode?_entered, inode?_allocated]
    by_cases hi : inum = i
    · rw [if_pos hi, ← hi, hfresh]
    · by_cases hri : rootInum = i
      · rw [if_neg hi, if_pos hri, TreeMap.erase_insert_of_absent habsent, ← hri, hroot]
      · rw [if_neg hi, if_neg hri, if_neg hri, if_neg hi]
  · intro k
    rw [manager?_removed]
    exact Option.map_id'
  · show { s.inodeTable with
        table := ∅
        freeList := s.inodeTable.freeList.pop.push inum
        curSize := s.inodeTable.curSize + 1 - 1 } = _
    rw [MinHeap.push_pop htop, UInt64.add_sub_cancel]
  · rfl

/-- A removal gives an appended block back to its own node and to no other. -/
theorem removed_appended (hwf : WellFormed hash t) (hconserved : AllConserved t) {k : Int}
    {sm : SpaceManager} {blockNr : UInt64} (hsm : t.manager? k = some sm)
    (htop : sm.freeList.top? = some blockNr) :
    (t.appended k sm inum file blockNr).removed root key inum
      (file.appendFileBlockInfo (UInt64.ofInt k) (blockNr * fileBlockSize) 0 blockNr) =
      t.removed root key inum file := by
  have hsm' := hconserved k sm hsm
  have hunused : blockNr ∉ sm.inusedBlocks := by
    intro hused
    rcases (hsm'.ledger.owned blockNr).mp hused with ⟨i, hheld⟩
    exact hsm'.ledger.unowned i blockNr hheld (MinHeap.top?_mem htop)
  apply eq_of_observed
  · intro i
    rw [inode?_removed, inode?_removed, inode?_appended]
    by_cases hi : inum = i
    · rw [if_pos hi, if_pos hi]
    · rw [if_neg hi, if_neg hi, if_neg hi]
  · intro k'
    rw [manager?_removed, manager?_removed, manager?_appended]
    by_cases hk : k = k'
    · rw [if_pos hk, ← hk, hsm, Option.map_some, Option.map_some]
      exact congrArg some (returnBlocks_useBlock htop hunused hsm'.serverId.symm rfl _)
    · rw [if_neg hk]
      cases hother : t.manager? k' with
      | none => rfl
      | some other =>
          -- A manager filed apart has another number, so the block is not its own.
          have hserver : UInt64.ofInt k ≠ other.serverId := by
            intro heq
            apply hk
            rw [← hwf.blocks.managerKey _ _ hsm, ← hwf.blocks.managerKey _ _ hother, ← heq,
              hsm'.serverId]
          rw [Option.map_some, Option.map_some]
          refine congrArg some ((returnBlocks_concat other _ _).trans ?_)
          rw [if_pos hserver]
  · rfl
  · rfl

/-- New sizes do not matter to a removal. -/
theorem removed_putInode
    (hplaces : file'.blockInfoList.map place = file.blockInfoList.map place) :
    (t.putInode inum file').removed root key inum file' = t.removed root key inum file := by
  apply eq_of_observed
  · intro i
    rw [inode?_removed, inode?_removed, inode?_putInode]
    by_cases hi : inum = i
    · rw [if_pos hi, if_pos hi]
    · rw [if_neg hi, if_neg hi, if_neg hi]
  · intro k
    rw [manager?_removed, manager?_removed]
    simp only [returnBlocks_of_places hplaces]
    rfl
  · rfl
  · rfl

end Removed

/-!
# The calls between the creation and the removal
-/

/-- What holds of every state while the file exists. -/
structure Undoable (hash : String -> UInt64) (name : String) (s t : MetadataServiceImpl) :
    Prop where
  wellFormed : WellFormed hash t
  conserved : AllConserved t
  removes : RemovesTo hash name t s

theorem undoable_create (hwf : WellFormed hash s) (hconserved : AllConserved s)
    {name : String} {type : FileType} {inum : UInt64}
    (hact : Acts hash s (Action.create name type inum) s') : Undoable hash name s s' where
  wellFormed := hact.wellFormed hwf
  conserved := by
    apply hact.conserved hwf hconserved
    intro nodeid addr length heq
    cases heq
  removes := by
    cases hact with
    | @create _ _ _ root hroot habsent hfree htop =>
        have hmem := MinHeap.top?_mem htop
        have hne := (free_ne hwf.balanced hwf.directory.root hmem).left
        refine ⟨_, ⟨name, hash name, inum⟩, Inode.make type inum, ?_, ?_, ?_,
          removed_created hwf hroot habsent htop⟩
        · rw [inode?_entered, if_pos rfl]
        · exact Std.ExtTreeMap.getElem?_insert_self
        · rw [inode?_entered, if_neg (Ne.symm hne), inode?_allocated, if_pos rfl]

/-- The actions of a write on the file of an entry. -/
inductive OnInode (inum : UInt64) : Action -> Prop where
  | append : OnInode inum (Action.append inum)
  | rewrite : OnInode inum (Action.rewrite inum)

theorem OnInode.ne_register {inum : UInt64} {a : Action} (h : OnInode inum a)
    (nodeid addr length : UInt64) : a ≠ Action.register nodeid addr length := by
  intro heq
  rw [heq] at h
  cases h

theorem OnInode.ne_remove {inum : UInt64} {a : Action} (h : OnInode inum a)
    (name : String) : a ≠ Action.remove name := by
  intro heq
  rw [heq] at h
  cases h

theorem RemovesTo.acts {name : String} {d : Dentry} {a : Action}
    (h : RemovesTo hash name t s) (hwf : WellFormed hash t) (hconserved : AllConserved t)
    (hentry : t.child? (hash name) = some d) (hinode : OnInode d.inum a)
    (hact : Acts hash t a t') : RemovesTo hash name t' s := by
  rcases h with ⟨root, d', file, hroot, hdentry, hfile, hback⟩
  have hne := hwf.directory.notRoot _ _ hentry
  rw [child?_of_root hroot] at hentry
  cases hdentry.symm.trans hentry
  cases hinode with
  | append =>
      cases hact with
      | @append _ key sm file' blockNr hsm htop hfile' hroom =>
          cases hfile.symm.trans hfile'
          refine ⟨root, d, file.appendFileBlockInfo _ _ _ _, ?_, hdentry, ?_,
            (removed_appended hwf hconserved hsm htop).trans hback⟩
          · rw [inode?_appended, if_neg hne, hroot]
          · rw [inode?_appended, if_pos rfl]
  | rewrite =>
      cases hact with
      | @rewrite _ file0 file' hfile' hsame =>
          cases hfile.symm.trans hfile'
          refine ⟨root, d, file', ?_, hdentry, ?_,
            (removed_putInode hsame.places).trans hback⟩
          · rw [inode?_putInode, if_neg hne, hroot]
          · rw [inode?_putInode, if_pos rfl]

/-- A write's actions on the file, one after another, can all be undone. -/
theorem Undoable.trace {name : String} {d : Dentry} {acts : List Action}
    (h : Undoable hash name s t) (hentry : t.child? (hash name) = some d)
    (hinode : forall a, a ∈ acts -> OnInode d.inum a) (htrace : Trace hash t acts t') :
    Undoable hash name s t' := by
  induction htrace with
  | nil t => exact h
  | @cons t t1 t2 a rest hact _ ih =>
      have ha := hinode a List.mem_cons_self
      have h1 : Undoable hash name s t1 := by
        constructor
        · exact hact.wellFormed h.wellFormed
        · apply hact.conserved h.wellFormed h.conserved
          intro nodeid addr length heq
          exact absurd heq (ha.ne_register nodeid addr length)
        · exact h.removes.acts h.wellFormed h.conserved hentry ha hact
      apply ih h1
      · apply hact.child?_kept h.wellFormed hentry
        intro m heq
        exact absurd heq (ha.ne_remove m)
      · intro b hb
        exact hinode b (List.mem_cons_of_mem a hb)

/-- After the name is ensured, the rest of a write can be undone. -/
theorem Undoable.wrote {name : String} {offset length : UInt64} {d : Dentry}
    {file grown written : Inode} {extents : List Extent} {s0 s1 s2 : MetadataServiceImpl}
    (h : Undoable hash name s s1)
    (hwrote : Wrote hash name offset length s0 s1 s2 t d file grown written extents) :
    Undoable hash name s t := by
  apply h.trace hwrote.entry _ hwrote.trace
  intro a ha
  rcases List.mem_append.mp ha with happend | hrewrite
  · rw [List.eq_of_mem_replicate happend]
    exact OnInode.append
  · rw [List.mem_singleton.mp hrewrite]
    exact OnInode.rewrite

/-- The first call makes the file. -/
theorem undoable_first (hwf : WellFormed hash s) (hconserved : AllConserved s)
    {name : String} (habsent : s.child? (hash name) = none)
    (hroom : s.inodeTable.curSize ≠ s.inodeTable.totalSize) {call : Call}
    (hmakes : call.request.Makes name) {reply : Reply}
    (hserve : serve hash s call = Except.ok (reply, t)) : Undoable hash name s t := by
  have hnotFull : forall t, ¬ Acts hash s (Action.createFull name) t := by
    intro t hact
    cases hact with
    | createFull _ _ hfull => exact hroom hfull
  rcases call with ⟨request, rands⟩
  cases hmakes with
  | create isDir =>
      rcases createFile_cases hwf hserve with ⟨d, hd, _, _⟩ | ⟨_, inum, _, hact | ⟨_, hact⟩⟩
      · cases habsent.symm.trans hd
      · exact undoable_create hwf hconserved hact
      · exact absurd hact (hnotFull t)
  | write offset length =>
      rcases writeFile_cases hwf hserve with
        ⟨s1, s2, d, file, grown, written, extents, hwrote, _⟩
      cases hwrote.ensured with
      | present hentry => cases habsent.symm.trans hentry
      | created _ hact => exact (undoable_create hwf hconserved hact).wrote hwrote
      | full _ hact => exact absurd hact (hnotFull s1)

/-- Every further call on the name finds the file. -/
theorem Undoable.serve {name : String} (h : Undoable hash name s t) {call : Call}
    (huses : call.request.Uses name) {reply : Reply}
    (hserve : serve hash t call = Except.ok (reply, t')) : Undoable hash name s t' := by
  rcases h.removes.entry with ⟨d0, hentry⟩
  rcases call with ⟨request, rands⟩
  cases huses with
  | read offset length =>
      rcases readFile_cases h.wellFormed hserve with ⟨_, _, _, _, _, _, _, rfl⟩
      exact h
  | make hmakes =>
      cases hmakes with
      | create isDir =>
          rcases createFile_cases h.wellFormed hserve with ⟨_, _, _, rfl⟩ | ⟨habsent, _⟩
          · exact h
          · cases hentry.symm.trans habsent
      | write offset length =>
          rcases writeFile_cases h.wellFormed hserve with
            ⟨s1, s2, d, file, grown, written, extents, hwrote, _⟩
          cases hwrote.ensured with
          | present _ => exact h.wrote hwrote
          | created habsent _ => cases hentry.symm.trans habsent
          | full habsent _ => cases hentry.symm.trans habsent

theorem Undoable.run {name : String} (h : Undoable hash name s t) {calls : List Call}
    (huses : forall call, call ∈ calls -> call.request.Uses name) {replies : List Reply}
    (hrun : runFrom (Metadata.serve hash) t calls = Except.ok (replies, t')) :
    Undoable hash name s t' := by
  induction calls generalizing t replies with
  | nil =>
      cases hrun
      exact h
  | cons call rest ih =>
      rcases runFrom_cons.mp hrun with ⟨reply, t1, replies1, hserve, hrest, _⟩
      apply ih (h.serve (huses call List.mem_cons_self) hserve)
      · intro c hc
        exact huses c (List.mem_cons_of_mem call hc)
      · exact hrest

/-!
# The removal
-/

/-- The loop over the managers completes, since no manager is locked. -/
theorem reclaimFrom_complete (hu : Unlocked s) {inum : UInt64} {file : Inode}
    (hfile : s.inode? inum = some file) {keys : List Int}
    (hkeys : forall key, key ∈ keys -> exists sm, s.manager? key = some sm) :
    exists s', reclaimFrom inum keys s = Except.ok s' := by
  induction keys generalizing s with
  | nil => exact ⟨s, rfl⟩
  | cons key keys ih =>
      rcases hkeys key List.mem_cons_self with ⟨sm, hsm⟩
      have hlock := (spaceLock_returnBlocks sm file.blockInfoList).trans
        (hu.managers key sm hsm)
      have hkeys' : forall k, k ∈ keys -> exists sm',
          (withManager s key (sm.returnBlocks file.blockInfoList)).manager? k = some sm' := by
        intro k hk
        rw [manager?_withManager]
        split
        · exact ⟨_, rfl⟩
        · exact hkeys k (List.mem_cons_of_mem key hk)
      rcases ih (hu.withManager hlock) hfile hkeys' with ⟨s', hrest⟩
      exists s'
      unfold reclaimFrom
      rw [getInode_of_some hu hfile, ok_bind]
      refine bind_eq_ok.mpr ⟨sm, deref_eq_ok.mpr hsm, ?_⟩
      rw [reclaimInodeSpace_of_free (hu.managers key sm hsm), ok_bind]
      exact hrest

theorem removeFile_complete (hwf : WellFormed hash s) {name : String} {root file : Inode}
    {d : Dentry} (hroot : s.inode? rootInum = some root)
    (hdentry : root.getDentry hash name = some d) (hfile : s.inode? d.inum = some file) :
    exists reply s', s.removeFile hash name = Except.ok (reply, s') := by
  have hne := hwf.directory.notRoot _ _ ((child?_of_root hroot _).trans hdentry)
  have hu := hwf.unlocked.unlinked root (hash name)
  have hfile' : (s.unlinked root (hash name)).inode? d.inum = some file := by
    rw [inode?_unlinked, if_neg (Ne.symm hne), hfile]
  have hkeys : forall key, key ∈ s.spaceManager.keys ->
      exists sm, s.manager? key = some sm := by
    intro key hkey
    rw [Std.ExtTreeMap.mem_keys, Std.ExtTreeMap.mem_iff_isSome_getElem?] at hkey
    exact Option.isSome_iff_exists.mp hkey
  rcases reclaimFrom_complete hu hfile' hkeys with ⟨s1, hreclaim⟩
  have hdelete : s1.inodeTable.deleteInode d.inum =
      Except.ok (true, s1.inodeTable.deleted d.inum) := by
    rw [reclaimFrom_keys hu hfile' hreclaim]
    exact InodeTable.deleteInode_of_some hu.table hfile'
  rw [removeFile_eq hwf.unlocked hroot hdentry]
  exact ⟨_, _, bind_eq_ok.mpr ⟨s1, hreclaim, bind_eq_ok.mpr ⟨_, hdelete, rfl⟩⟩⟩

theorem RemovesTo.removeFile {name : String} (h : RemovesTo hash name t s)
    (hwf : WellFormed hash t) :
    t.removeFile hash name = Except.ok (Reply.removeFile Status.ok true, s) := by
  rcases h with ⟨root, d, file, hroot, hdentry, hfile, hback⟩
  have hentry := (child?_of_root hroot (hash name)).trans hdentry
  rcases removeFile_complete hwf hroot hdentry hfile with ⟨reply, s', hremove⟩
  rw [hremove]
  rcases removeFile_cases hwf hremove with ⟨habsent, _, _⟩ | ⟨_, _, rfl, hact⟩
  · cases hentry.symm.trans habsent
  · cases hact with
    | remove hroot' hdentry' hfile' =>
        cases hroot.symm.trans hroot'
        cases hdentry.symm.trans hdentry'
        cases hfile.symm.trans hfile'
        rw [hback]
    | unlink hroot' hdentry' hgone =>
        cases hroot.symm.trans hroot'
        cases hdentry.symm.trans hdentry'
        cases hfile.symm.trans hgone

/--
From a state that a run reaches with each node registered at most once: calls that
make the file of an absent name, while an inode is free, and then use it, followed by
the removal of the name, lead back to the state they started from.
-/
theorem create_use_remove {before : List Call} (hreach : Reaches hash before s)
    (honce : RegistersOnce before) {name : String} (habsent : s.child? (hash name) = none)
    (hroom : s.inodeTable.curSize ≠ s.inodeTable.totalSize) {first : Call}
    {rest : List Call} (hmakes : first.request.Makes name)
    (huses : forall call, call ∈ rest -> call.request.Uses name) {replies : List Reply}
    (hrun : runFrom (serve hash) s (first :: rest) = Except.ok (replies, t))
    (rands : Nat -> Nat) :
    serve hash t ⟨Request.removeFile name, rands⟩ =
      Except.ok (Reply.removeFile Status.ok true, s) := by
  rcases runFrom_cons.mp hrun with ⟨reply, s1, replies1, hfirst, hrest, _⟩
  have hstart := undoable_first hreach.wellFormed (hreach.conserved honce) habsent hroom
    hmakes hfirst
  have hend := hstart.run huses hrest
  exact hend.removes.removeFile hend.wellFormed

/-- Two nodes register and another file is written. -/
def settledCalls : List Call :=
  [(Request.registerMemoryRegion 1 4096 8388608).call,
   (Request.registerMemoryRegion 2 0 8388608).call,
   (Request.writeFile "bb" 10 3000000).call]

/-- The file grows twice, on both nodes in turn. -/
def lifeCalls : List Call :=
  [⟨Request.writeFile "a" 0 3000000, id⟩,
   (Request.createFile "a" true).call,
   ⟨Request.writeFile "a" 1048577 4194304, id⟩,
   (Request.readFile "a" 5 1048577).call]

theorem create_use_remove_both :
    exists s t replies, Reaches byCodes settledCalls s ∧
      runFrom (serve byCodes) s lifeCalls = Except.ok (replies, t) ∧
      held t 1 2 ≠ [] ∧ held t 2 2 ≠ [] ∧
      serve byCodes t (Request.removeFile "a").call =
        Except.ok (Reply.removeFile Status.ok true, s) := by
  have hpass : runPasses byCodes settledCalls (fun s =>
      decide (s.child? (byCodes "a") = none ∧
        s.inodeTable.curSize ≠ s.inodeTable.totalSize) &&
      passes (runFrom (serve byCodes) s lifeCalls)
        (fun result => decide (held result.2 1 2 ≠ [] ∧ held result.2 2 2 ≠ []))) = true := by
    decide +kernel
  rcases reaches_of_runPasses hpass with ⟨s, hreach, htest⟩
  rw [Bool.and_eq_true] at htest
  rcases of_decide_eq_true htest.left with ⟨habsent, hroom⟩
  rcases exists_of_passes htest.right with ⟨⟨replies, t⟩, hrun, hheld⟩
  rcases of_decide_eq_true hheld with ⟨hfirst, hsecond⟩
  have honce : RegistersOnce settledCalls := ⟨by decide +kernel, by decide +kernel⟩
  refine ⟨s, t, replies, hreach, hrun, hfirst, hsecond, ?_⟩
  apply create_use_remove hreach honce habsent hroom (Request.Makes.write 0 3000000) _ hrun
  intro call hcall
  simp only [List.mem_cons, List.not_mem_nil, or_false] at hcall
  rcases hcall with rfl | rfl | rfl
  · exact Request.Uses.make (Request.Makes.create true)
  · exact Request.Uses.make (Request.Makes.write 1048577 4194304)
  · exact Request.Uses.read 5 1048577

end Metadata
end SpongeBob
