import SpongeBob.Foundation.Ledger
import SpongeBob.Metadata.Service

/-!
# Who holds which block

The block lists of the inodes in the table say which blocks of a node belong to
which file.  Here is what each action does to that ledger, and the exact condition
under which registrations keep it exclusive.
-/

namespace SpongeBob
namespace Metadata

open Foundation
open Fs
open MetadataServiceImpl

/-- The block numbers that a block list holds on a server. -/
def blocksOn (blocks : List FileBlockInfo) (server : UInt64) : List UInt64 :=
  (blocks.filter (fun info => info.serverId = server)).map FileBlockInfo.blockNr

/-- The block numbers that an inode of the table holds on a server. -/
def held (s : MetadataServiceImpl) (server i : UInt64) : List UInt64 :=
  match s.inode? i with
  | some file => blocksOn file.blockInfoList server
  | none => []

variable {hash : String -> UInt64} {s s' : MetadataServiceImpl}

/-!
# Block lists
-/

theorem mem_blocksOn {blocks : List FileBlockInfo} {server n : UInt64} :
    n ∈ blocksOn blocks server <->
      exists info, info ∈ blocks ∧ info.serverId = server ∧ info.blockNr = n := by
  simp [blocksOn, and_assoc]

/-- The ledger reads nothing of a block but its place. -/
theorem blocksOn_of_places {blocks blocks' : List FileBlockInfo}
    (h : blocks'.map place = blocks.map place) (server : UInt64) :
    blocksOn blocks' server = blocksOn blocks server := by
  have hplaces : forall bs : List FileBlockInfo, blocksOn bs server =
      ((bs.map place).filter (fun p => p.1 = server)).map (fun p => p.2.2) := by
    intro bs
    rw [blocksOn, List.filter_map, List.map_map]
    rfl
  rw [hplaces, hplaces, h]

theorem blocksOn_append (blocks blocks' : List FileBlockInfo) (server : UInt64) :
    blocksOn (blocks ++ blocks') server = blocksOn blocks server ++ blocksOn blocks' server := by
  simp [blocksOn]

theorem held_of_some {i : UInt64} {file : Inode} (hfile : s.inode? i = some file)
    (server : UInt64) : held s server i = blocksOn file.blockInfoList server := by
  simp [held, hfile]

theorem held_of_none {i : UInt64} (hfile : s.inode? i = none) (server : UInt64) :
    held s server i = [] := by
  simp [held, hfile]

theorem mem_held {server i n : UInt64} :
    n ∈ held s server i <-> exists file info, s.inode? i = some file ∧
      info ∈ file.blockInfoList ∧ info.serverId = server ∧ info.blockNr = n := by
  unfold held
  cases s.inode? i with
  | none => simp
  | some file => simp [mem_blocksOn]

/-!
# The ledger after each action
-/

/-- Writing an inode back with the same places changes nothing in the ledger. -/
theorem held_of_same (server : UInt64) (hinode : forall i,
    (s'.inode? i).map (fun file => file.blockInfoList.map place) =
      (s.inode? i).map (fun file => file.blockInfoList.map place)) :
    held s' server = held s server := by
  funext i
  have hi := hinode i
  cases hfile' : s'.inode? i with
  | none =>
      rw [hfile'] at hi
      rw [held_of_none hfile', held_of_none (Option.map_eq_none_iff.mp hi.symm)]
  | some file' =>
      rw [hfile'] at hi
      rcases Option.map_eq_some_iff.mp hi.symm with ⟨file, hfile, hplaces⟩
      rw [held_of_some hfile', held_of_some hfile]
      exact blocksOn_of_places hplaces.symm server

theorem held_putInode {inum : UInt64} {file file' : Inode}
    (hfile : s.inode? inum = some file)
    (hplaces : file'.blockInfoList.map place = file.blockInfoList.map place)
    (server : UInt64) : held (s.putInode inum file') server = held s server := by
  apply held_of_same
  intro i
  rw [inode?_putInode]
  split
  · rename_i heq
    rw [← heq, hfile]
    exact congrArg some hplaces
  · rfl

theorem held_entered {root : Inode} {dentry : Dentry}
    (hroot : s.inode? rootInum = some root) (server : UInt64) :
    held (s.entered root dentry) server = held s server := by
  refine held_putInode hroot ?_ server
  rfl

theorem held_unlinked {root : Inode} {key : UInt64}
    (hroot : s.inode? rootInum = some root) (server : UInt64) :
    held (s.unlinked root key) server = held s server := by
  refine held_putInode hroot ?_ server
  rfl

theorem held_created {root : Inode} {type : FileType} {inum : UInt64} {dentry : Dentry}
    (hroot : s.inode? rootInum = some root) (hfresh : s.inode? inum = none)
    (server : UInt64) :
    held ((s.allocated type inum).entered root dentry) server = held s server := by
  have hne : inum ≠ rootInum := by
    rintro rfl
    rw [hroot] at hfresh
    cases hfresh
  funext i
  by_cases hi : inum = i
  · subst hi
    have hnew : ((s.allocated type inum).entered root dentry).inode? inum =
        some (Inode.make type inum) := by
      rw [inode?_entered, inode?_allocated, if_neg (Ne.symm hne), if_pos rfl]
    rw [held_of_some hnew, held_of_none hfresh]
    rfl
  · unfold held
    rw [inode?_entered, inode?_allocated, if_neg hi]
    split
    · rename_i heq
      split at heq
      · rename_i hri
        cases heq
        rw [← hri, hroot]
      · rw [heq]
    · rename_i heq
      split at heq
      · cases heq
      · rw [heq]

theorem held_appended {key : Int} {sm : SpaceManager} {inum : UInt64} {file : Inode}
    {blockNr : UInt64} (hfile : s.inode? inum = some file) :
    held (s.appended key sm inum file blockNr) (UInt64.ofInt key) =
      Function.update (held s (UInt64.ofInt key)) inum
        (held s (UInt64.ofInt key) inum ++ [blockNr]) := by
  funext i
  by_cases hi : i = inum
  · subst hi
    have hnew := inode?_appended (s := s) key sm i i file blockNr
    rw [if_pos rfl] at hnew
    rw [Function.update_self, held_of_some hnew, held_of_some hfile,
      Inode.appendFileBlockInfo, blocksOn_append]
    simp [blocksOn]
  · rw [Function.update_of_ne hi]
    unfold held
    rw [inode?_appended, if_neg (Ne.symm hi)]

theorem held_appended_other {key : Int} {sm : SpaceManager} {inum : UInt64} {file : Inode}
    {blockNr server : UInt64} (hfile : s.inode? inum = some file)
    (hserver : server ≠ UInt64.ofInt key) :
    held (s.appended key sm inum file blockNr) server = held s server := by
  funext i
  by_cases hi : inum = i
  · subst hi
    have hnew := inode?_appended (s := s) key sm inum inum file blockNr
    rw [if_pos rfl] at hnew
    rw [held_of_some hnew, held_of_some hfile, Inode.appendFileBlockInfo, blocksOn_append]
    simp [blocksOn, Ne.symm hserver]
  · unfold held
    rw [inode?_appended, if_neg hi]

theorem held_removed {root file : Inode} {key inum : UInt64}
    (hroot : s.inode? rootInum = some root) (server : UInt64) :
    held (s.removed root key inum file) server =
      Function.update (held s server) inum [] := by
  funext i
  by_cases hi : i = inum
  · subst hi
    rw [Function.update_self]
    apply held_of_none
    rw [inode?_removed, if_pos rfl]
  · rw [Function.update_of_ne hi]
    by_cases hri : rootInum = i
    · subst hri
      rw [held_of_some hroot]
      have hnew : (s.removed root key inum file).inode? rootInum =
          some { root with children := root.children.erase key } := by
        rw [inode?_removed, if_neg (Ne.symm hi), if_pos rfl]
      rw [held_of_some hnew]
    · unfold held
      rw [inode?_removed, if_neg (Ne.symm hi), if_neg hri]

/-!
# Giving blocks back
-/

/-- What {lit}`ReclaimInodeSpace` does to the free list, the set and the count. -/
theorem returnBlocks_spec (sm : SpaceManager) (blocks : List FileBlockInfo) :
    (sm.returnBlocks blocks).freeList.elems.Perm
        (blocksOn blocks sm.serverId ++ sm.freeList.elems) ∧
      (sm.returnBlocks blocks).inusedBlocks =
        sm.inusedBlocks \ (blocksOn blocks sm.serverId).toFinset ∧
      (sm.returnBlocks blocks).curBlocks =
        sm.curBlocks - UInt64.ofNat (blocksOn blocks sm.serverId).length ∧
      (sm.returnBlocks blocks).totalBlocks = sm.totalBlocks := by
  induction blocks generalizing sm with
  | nil => simp [SpaceManager.returnBlocks, blocksOn]
  | cons info rest ih =>
      have hcons : sm.returnBlocks (info :: rest) =
          (if info.serverId ≠ sm.serverId then sm
            else sm.returnBlock info.blockNr).returnBlocks rest := rfl
      rw [hcons]
      by_cases hserver : info.serverId = sm.serverId
      · rw [if_neg (not_not.mpr hserver)]
        rcases ih (sm.returnBlock info.blockNr) with ⟨hfree, hused, hcur, htotal⟩
        have hblocks : blocksOn (info :: rest) sm.serverId =
            info.blockNr :: blocksOn rest sm.serverId := by
          simp [blocksOn, hserver]
        have hid : (sm.returnBlock info.blockNr).serverId = sm.serverId := rfl
        rw [hid] at hfree hused hcur
        rw [hblocks]
        refine ⟨?_, ?_, ?_, htotal⟩
        · have hpush := MinHeap.push_perm sm.freeList info.blockNr
          exact (hfree.trans (hpush.append_left _)).trans List.perm_middle
        · rw [hused]
          ext n
          simp only [SpaceManager.returnBlock, Finset.mem_sdiff, Finset.mem_erase,
            List.mem_toFinset, List.mem_cons]
          tauto
        · rw [hcur, List.length_cons, UInt64.ofNat_add]
          show sm.curBlocks - 1 - _ = sm.curBlocks - (_ + 1)
          grind
      · rw [if_pos hserver]
        have hblocks : blocksOn (info :: rest) sm.serverId = blocksOn rest sm.serverId := by
          simp [blocksOn, hserver]
        rw [hblocks]
        exact ih sm

/-!
# Exclusive ownership
-/

/-- On every node, no block has two holders and no free block has one. -/
def Exclusively (s : MetadataServiceImpl) : Prop :=
  forall key sm, s.manager? key = some sm ->
    Exclusive (held s (UInt64.ofInt key)) sm.freeList.elems

/-- A registration leaves alone every block number that some inode holds on the node. -/
def SparesHeld (s : MetadataServiceImpl) (nodeid addr length : UInt64) : Prop :=
  forall i n, n ∈ held s (UInt64.ofInt (Word.toInt nodeid)) i ->
    (SpaceManager.make addr (addr + length - 1) fileBlockSize nodeid).totalBlocks ≤ n

theorem totalBlocks_make_lt (addr spaceEnd nodeid : UInt64) :
    (SpaceManager.make addr spaceEnd fileBlockSize nodeid).totalBlocks.toNat < 2 ^ 44 := by
  have hlt := (spaceEnd - SpaceManager.alignedStart addr fileBlockSize + 1).toNat_lt
  show (_ / fileBlockSize).toNat < _
  rw [UInt64.toNat_div, fileBlockSize_toNat]
  omega

theorem mem_freeList_make {addr spaceEnd nodeid n : UInt64} :
    n ∈ (SpaceManager.make addr spaceEnd fileBlockSize nodeid).freeList.elems <->
      n.toNat < (SpaceManager.make addr spaceEnd fileBlockSize nodeid).totalBlocks.toNat := by
  have htotal := totalBlocks_make_lt addr spaceEnd nodeid
  rw [← MinHeap.mem_def]
  refine MinHeap.mem_ofList.trans ((Word.mem_iota ?_).trans ?_)
  · exact le_trans (Nat.zero_add _).le (le_trans htotal.le (by decide))
  · rw [Nat.zero_add]
    exact and_iff_right (Nat.zero_le _)

theorem nodup_freeList_make (addr spaceEnd nodeid : UInt64) :
    (SpaceManager.make addr spaceEnd fileBlockSize nodeid).freeList.elems.Nodup := by
  have htotal := totalBlocks_make_lt addr spaceEnd nodeid
  refine (MinHeap.ofList_perm _).nodup_iff.mpr (Word.nodup_iota ?_)
  exact le_trans (Nat.zero_add _).le (le_trans htotal.le (by decide))

/-- Only blocks that carry the manager's own number go back to it. -/
theorem blocksOn_serverId (hb : Blocks s) {i : UInt64} {file : Inode} {key : Int}
    {sm : SpaceManager} (hfile : s.inode? i = some file) (hsm : s.manager? key = some sm) :
    blocksOn file.blockInfoList sm.serverId = [] ∨ sm.serverId = UInt64.ofInt key := by
  cases hblocks : blocksOn file.blockInfoList sm.serverId with
  | nil => exact Or.inl rfl
  | cons n rest =>
      right
      have hmem : n ∈ blocksOn file.blockInfoList sm.serverId := by
        rw [hblocks]
        exact List.mem_cons_self
      rcases mem_blocksOn.mp hmem with ⟨info, hinfo, hserver, _⟩
      rw [← hserver, ← (hb.block i file info hfile hinfo).serverId, hserver,
        hb.managerKey key sm hsm]

/-- A node without a manager has no blocks in use. -/
theorem held_of_unregistered (hb : Blocks s) {nodeid : UInt64}
    (hnone : s.manager? (Word.toInt nodeid) = none) (i : UInt64) :
    held s (UInt64.ofInt (Word.toInt nodeid)) i = [] := by
  apply List.eq_nil_iff_forall_not_mem.mpr
  intro n hn
  rcases mem_held.mp hn with ⟨file, info, hfile, hinfo, hserver, _⟩
  rcases (hb.block i file info hfile hinfo).registered with ⟨sm, hsm⟩
  rw [hserver, Word.toInt_ofInt_toInt, hnone] at hsm
  cases hsm

/-- A registration that spares the held blocks keeps the node exclusive. -/
theorem exclusive_register (hb : Blocks s) (h : Exclusively s)
    {nodeid addr length : UInt64} (hspares : SparesHeld s nodeid addr length) :
    Exclusive (held s (UInt64.ofInt (Word.toInt nodeid)))
      (SpaceManager.make addr (addr + length - 1) fileBlockSize nodeid).freeList.elems := by
  have hfree := nodup_freeList_make addr (addr + length - 1) nodeid
  have hunowned : forall i n, n ∈ held s (UInt64.ofInt (Word.toInt nodeid)) i ->
      n ∉ (SpaceManager.make addr (addr + length - 1) fileBlockSize nodeid).freeList.elems := by
    intro i n hn hmem
    have hle := UInt64.le_iff_toNat_le.mp (hspares i n hn)
    have hlt := mem_freeList_make.mp hmem
    omega
  cases hsm : s.manager? (Word.toInt nodeid) with
  | none =>
      have hnil := held_of_unregistered hb hsm
      refine ⟨?_, ?_, hfree, hunowned⟩
      · intro i
        rw [hnil i]
        exact List.nodup_nil
      · intro i j n hn
        rw [hnil i] at hn
        cases hn
  | some sm => exact ⟨(h _ sm hsm).distinct, (h _ sm hsm).apart, hfree, hunowned⟩

theorem Acts.exclusively {a : Action} (hact : Acts hash s a s') (hwf : WellFormed hash s)
    (h : Exclusively s)
    (hregister : forall nodeid addr length, a = Action.register nodeid addr length ->
      SparesHeld s nodeid addr length) :
    Exclusively s' := by
  intro k sm' hsm'
  cases hact with
  | create hroot habsent hfree htop =>
      have hfresh := inode?_eq_none_of_free hwf.balanced (MinHeap.top?_mem htop)
      rw [held_created hroot hfresh]
      exact h k sm' hsm'
  | createFull hroot habsent hfull =>
      rw [held_entered hroot]
      exact h k sm' hsm'
  | append hsm htop hfile hroom =>
      rw [manager?_appended] at hsm'
      split at hsm'
      · rename_i hkey
        subst hkey
        cases hsm'
        rw [held_appended hfile]
        have hold := h _ _ hsm
        rw [MinHeap.elems_of_top? htop] at hold
        exact hold.take _
      · rename_i hkey
        rw [held_appended_other hfile]
        · exact h k sm' hsm'
        · -- Two nodes with one server number would have one key.
          intro hserver
          have hk := hwf.blocks.managerKey k sm' hsm'
          have hkey' := hwf.blocks.managerKey _ _ hsm
          apply hkey
          rw [← hkey', ← Word.toInt_ofInt_toInt, hkey', ← hserver, ← hk,
            Word.toInt_ofInt_toInt]
  | rewrite hfile hsame =>
      rw [held_putInode hfile hsame.places]
      exact h k sm' hsm'
  | remove hroot hdentry hfile =>
      rw [manager?_removed] at hsm'
      rcases Option.map_eq_some_iff.mp hsm' with ⟨sm, hsm, rfl⟩
      have hold := h k sm hsm
      rw [held_removed hroot]
      refine Exclusive.of_perm ?_ (returnBlocks_spec sm _).left.symm
      rcases blocksOn_serverId hwf.blocks hfile hsm with hnil | hserver
      · rw [hnil]
        exact hold.leave _ List.nodup_nil (fun b hb => by cases hb)
      · rw [hserver, ← held_of_some hfile]
        exact hold.leave _ (hold.distinct _) (fun _ hb => hb)
  | unlink hroot hdentry hgone =>
      rw [held_unlinked hroot]
      exact h k sm' hsm'
  | @register nodeid addr length =>
      rw [manager?_register] at hsm'
      split at hsm'
      · rename_i hkey
        subst hkey
        cases hsm'
        exact exclusive_register hwf.blocks h (hregister nodeid addr length rfl)
      · exact h k sm' hsm'
  | descriptors hunlocked => exact h k sm' hsm'

/-!
# Registration and live data
-/

/-- No inode of the table holds a free block or a block that another one holds. -/
structure LiveDataSafe (s : MetadataServiceImpl) : Prop where
  notFree : forall key sm i n, s.manager? key = some sm ->
    n ∈ held s (UInt64.ofInt key) i -> n ∉ sm.freeList
  notShared : forall key sm i j n, s.manager? key = some sm ->
    n ∈ held s (UInt64.ofInt key) i -> n ∈ held s (UInt64.ofInt key) j -> i = j

/-- The call is not a registration that makes a held block number free. -/
def SparesLiveData (s : MetadataServiceImpl) (call : Call) : Prop :=
  forall nodeid addr length,
    call.request = Request.registerMemoryRegion nodeid addr length ->
    SparesHeld s nodeid addr length

theorem Exclusively.liveDataSafe (h : Exclusively s) : LiveDataSafe s where
  notFree := fun key sm i n hsm hn => (h key sm hsm).unowned i n hn
  notShared := fun key sm i j n hsm hi hj => (h key sm hsm).apart i j n hi hj

theorem exclusively_init : Exclusively MetadataServiceImpl.init := by
  intro key sm hsm
  rw [manager?_init] at hsm
  cases hsm

theorem serve_exclusively (hwf : WellFormed hash s) (h : Exclusively s) {call : Call}
    {reply : Reply} (hserve : serve hash s call = Except.ok (reply, s'))
    (hspares : SparesLiveData s call) : Exclusively s' := by
  rcases call with ⟨request, rands⟩
  cases request with
  | registerMemoryRegion nodeid addr length =>
      cases hserve
      have hact : Acts hash s (Action.register nodeid addr length) _ := Acts.register
      refine hact.exclusively hwf h ?_
      intro nodeid' addr' length' heq
      cases heq
      exact hspares nodeid addr length rfl
  | _ =>
      refine serve_keeps Exclusively ?_ hwf h hserve
      intro s1 a s2 hwf1 h1 hallows hact
      refine hact.exclusively hwf1 h1 ?_
      rintro nodeid addr length rfl
      cases hallows

theorem sparesLiveData_of_safe {call : Call} {reply : Reply}
    (hserve : serve hash s call = Except.ok (reply, s')) (hsafe : LiveDataSafe s') :
    SparesLiveData s call := by
  intro nodeid addr length hrequest i n hn
  rcases call with ⟨request, rands⟩
  cases hrequest
  cases hserve
  have hsm := @manager?_register s nodeid addr length (Word.toInt nodeid)
  rw [if_pos rfl] at hsm
  by_contra hlt
  refine hsafe.notFree _ _ i n hsm hn (MinHeap.mem_def.mpr (mem_freeList_make.mpr ?_))
  rw [UInt64.le_iff_toNat_le] at hlt
  omega

/--
In a run, live data is safe in every state exactly if no registration gives a node
a region that reaches up to a block some inode holds there.
-/
theorem liveDataSafe_iff_spares {calls : List Call} (hreach : Reaches hash calls s) :
    EveryState (serve hash) MetadataServiceImpl.init calls LiveDataSafe <->
      EveryStep (serve hash) MetadataServiceImpl.init calls SparesLiveData := by
  rcases hreach with ⟨replies, hrun⟩
  refine everyState_iff_everyStep (WellFormed hash) Exclusively
    wellFormed_init exclusively_init ?_ ?_ ?_ ?_ hrun
  · intro s call reply s' hwf hstep
    exact serve_wellFormed hwf hstep
  · intro s _ h
    exact h.liveDataSafe
  · intro s call reply s' _ hstep hsafe
    exact sparesLiveData_of_safe hstep hsafe
  · intro s call reply s' hwf hstep h hspares
    exact serve_exclusively hwf h hstep hspares

/-- A node registers, a file is written, the node restarts, a second file is written. -/
def restartCalls : List Call :=
  [(Request.registerMemoryRegion 1 0 16777216).call,
   (Request.writeFile "f" 0 1).call,
   (Request.registerMemoryRegion 1 0 16777216).call,
   (Request.writeFile "gg" 0 1).call]

theorem liveDataSafe_iff_spares_restart :
    (exists s, Reaches byCodes restartCalls s) ∧
      (EveryState (serve byCodes) MetadataServiceImpl.init restartCalls LiveDataSafe <->
        EveryStep (serve byCodes) MetadataServiceImpl.init restartCalls
          SparesLiveData) := by
  have hpass : runPasses byCodes restartCalls (fun _ => true) = true := by
    decide +kernel
  rcases reaches_of_runPasses hpass with ⟨s, hreach, _⟩
  exact ⟨⟨s, hreach⟩, liveDataSafe_iff_spares hreach⟩

/-- After the restart both files hold block 0 of the node. -/
theorem restart_shares_live_block :
    ¬ (forall (hash : String -> UInt64) (calls : List Call) (s : MetadataServiceImpl),
      Reaches hash calls s -> LiveDataSafe s) := by
  intro hsafe
  have hpass : runPasses byCodes restartCalls
      (fun s => decide ((s.manager? 1).isSome ∧ held s 1 1 = [0] ∧ held s 1 2 = [0])) =
        true := by
    decide +kernel
  rcases reaches_of_runPasses hpass with ⟨s, hreach, htest⟩
  rcases of_decide_eq_true htest with ⟨hsm, hfirst, hsecond⟩
  rcases Option.isSome_iff_exists.mp hsm with ⟨sm, hsm⟩
  have heq := (hsafe byCodes restartCalls s hreach).notShared 1 sm 1 2 0 hsm
    (show 0 ∈ held s 1 1 by rw [hfirst]; exact List.mem_singleton_self 0)
    (show 0 ∈ held s 1 2 by rw [hsecond]; exact List.mem_singleton_self 0)
  exact absurd heq (by decide)

end Metadata
end SpongeBob
