import SpongeBob.Metadata.Ownership

/-!
# Conservation of blocks

When every node registers at most once, no block is ever lost: on each node the
blocks in use are exactly the ones the inodes hold, and all others are free.
-/

namespace SpongeBob
namespace Metadata

open Foundation
open Fs
open MetadataServiceImpl

/-!
# Registrations
-/

/-- A memory region as a node registers it. -/
structure Region where
  nodeid : UInt64
  addr : UInt64
  length : UInt64
deriving DecidableEq, Repr

def Request.region? : Request -> Option Region
  | Request.registerMemoryRegion nodeid addr length => some ⟨nodeid, addr, length⟩
  | _ => none

/-- The space manager that a registration creates. -/
def Region.manager (r : Region) : SpaceManager :=
  SpaceManager.make r.addr (r.addr + r.length - 1) fileBlockSize r.nodeid

/-- The regions that a list of calls registers, in order. -/
def registrations (calls : List Call) : List Region :=
  calls.filterMap (fun call => call.request.region?)

/-- No node registers twice, and node numbers fit the {lit}`int` they are filed under. -/
structure RegistersOnce (calls : List Call) : Prop where
  once : ((registrations calls).map Region.nodeid).Nodup
  small : forall r, r ∈ registrations calls -> r.nodeid.toNat < 2 ^ 31

variable {hash : String -> UInt64} {s s' : MetadataServiceImpl}

theorem registrations_concat (calls : List Call) (call : Call) :
    registrations (calls ++ [call]) =
      registrations calls ++ call.request.region?.toList := by
  simp [registrations, List.filterMap_append, List.filterMap_cons]
  cases call.request.region? <;> rfl

theorem region?_eq_some {request : Request} {r : Region} :
    request.region? = some r <->
      request = Request.registerMemoryRegion r.nodeid r.addr r.length := by
  constructor
  · intro h
    cases request with
    | registerMemoryRegion nodeid addr length =>
        cases h
        rfl
    | _ => cases h
  · rintro rfl
    rfl

theorem RegistersOnce.of_append {calls : List Call} {call : Call}
    (h : RegistersOnce (calls ++ [call])) : RegistersOnce calls := by
  rcases h with ⟨honce, hsmall⟩
  rw [registrations_concat] at honce hsmall
  rw [List.map_append] at honce
  exact ⟨(List.nodup_append.mp honce).left,
    fun r hr => hsmall r (List.mem_append_left _ hr)⟩

/-- A node number that fits is recovered from its key. -/
theorem RegistersOnce.nodeid_inj {calls : List Call} (h : RegistersOnce calls)
    {r r' : Region} (hr : r ∈ registrations calls) (hr' : r' ∈ registrations calls)
    (hkey : Word.toInt r.nodeid = Word.toInt r'.nodeid) : r.nodeid = r'.nodeid := by
  rw [← Word.ofInt_toInt_of_lt (h.small r hr), hkey, Word.ofInt_toInt_of_lt (h.small r' hr')]

theorem RegistersOnce.eq_of_nodeid {calls : List Call} (h : RegistersOnce calls)
    {r r' : Region} (hr : r ∈ registrations calls) (hr' : r' ∈ registrations calls)
    (hnode : r.nodeid = r'.nodeid) : r = r' :=
  List.inj_on_of_nodup_map h.once hr hr' hnode

/-- The managers are the ones of the registered regions, with the same block counts. -/
structure Registered (calls : List Call) (s : MetadataServiceImpl) : Prop where
  region : forall key sm, s.manager? key = some sm ->
    exists r, r ∈ registrations calls ∧ key = Word.toInt r.nodeid ∧
      sm.serverId = r.nodeid ∧ sm.totalBlocks = r.manager.totalBlocks
  manager : forall r, r ∈ registrations calls ->
    exists sm, s.manager? (Word.toInt r.nodeid) = some sm

/-- An action other than a registration keeps every manager's number and size. -/
theorem Acts.manager_static {a : Action} (hact : Acts hash s a s')
    (hnot : forall nodeid addr length, a ≠ Action.register nodeid addr length)
    {key : Int} {sm' : SpaceManager} (hsm' : s'.manager? key = some sm') :
    exists sm, s.manager? key = some sm ∧ sm'.serverId = sm.serverId ∧
      sm'.totalBlocks = sm.totalBlocks := by
  cases hact with
  | append hsm htop hfile hroom =>
      rw [manager?_appended] at hsm'
      split at hsm'
      · rename_i hkey
        subst hkey
        cases hsm'
        exact ⟨_, hsm, rfl, rfl⟩
      · exact ⟨sm', hsm', rfl, rfl⟩
  | remove hroot hdentry hfile =>
      rw [manager?_removed] at hsm'
      rcases Option.map_eq_some_iff.mp hsm' with ⟨sm, hsm, rfl⟩
      exact ⟨sm, hsm, serverId_returnBlocks sm _, (returnBlocks_spec sm _).right.right.right⟩
  | register => exact absurd rfl (hnot _ _ _)
  | _ => exact ⟨sm', hsm', rfl, rfl⟩

/-- A call that registers nothing keeps the managers as registered. -/
theorem serve_registered_other (hwf : WellFormed hash s) {calls : List Call} {call : Call}
    (hnone : call.request.region? = none) (h : Registered calls s) {reply : Reply}
    (hserve : serve hash s call = Except.ok (reply, s')) : Registered calls s' := by
  refine serve_keeps (Registered calls) ?_ hwf h hserve
  intro s1 a s2 _ h1 hallows hact
  have hnot : forall nodeid addr length, a ≠ Action.register nodeid addr length := by
    rintro nodeid addr length rfl
    rcases call with ⟨request, rands⟩
    cases hallows
    cases hnone
  refine ⟨?_, ?_⟩
  · intro key sm' hsm'
    rcases hact.manager_static hnot hsm' with ⟨sm, hsm, hid, htotal⟩
    rcases h1.region key sm hsm with ⟨r, hr, hkey, hid', htotal'⟩
    exact ⟨r, hr, hkey, hid.trans hid', htotal.trans htotal'⟩
  · intro r hr
    rcases h1.manager r hr with ⟨sm, hsm⟩
    exact hact.manager?_isSome _ sm hsm

theorem serve_registered (hwf : WellFormed hash s) {calls : List Call} {call : Call}
    (h : Registered calls s) {reply : Reply}
    (hserve : serve hash s call = Except.ok (reply, s')) :
    Registered (calls ++ [call]) s' := by
  cases hregion : call.request.region? with
  | none =>
      have hsame : registrations (calls ++ [call]) = registrations calls := by
        rw [registrations_concat, hregion]
        exact List.append_nil _
      have hregistered := serve_registered_other hwf hregion h hserve
      exact ⟨hsame ▸ hregistered.region, hsame ▸ hregistered.manager⟩
  | some r =>
      have hmore : registrations (calls ++ [call]) = registrations calls ++ [r] := by
        rw [registrations_concat, hregion]
        rfl
      rcases call with ⟨request, rands⟩
      cases region?_eq_some.mp hregion
      rw [serve_register hserve]
      refine ⟨?_, ?_⟩
      · intro key sm hsm
        rw [manager?_register] at hsm
        rw [hmore]
        split at hsm
        · rename_i hkey
          cases hsm
          exact ⟨r, List.mem_append_right _ List.mem_cons_self, hkey.symm, rfl, rfl⟩
        · rcases h.region key sm hsm with ⟨r', hr', hrest⟩
          exact ⟨r', List.mem_append_left _ hr', hrest⟩
      · intro r' hr'
        rw [hmore] at hr'
        rw [manager?_register]
        split
        · exact ⟨_, rfl⟩
        · rename_i hne
          rcases List.mem_append.mp hr' with hold | hnew
          · exact h.manager r' hold
          · rw [List.mem_singleton.mp hnew] at hne
            exact absurd rfl hne

theorem registered_init : Registered [] MetadataServiceImpl.init := by
  refine ⟨?_, ?_⟩
  · intro key sm hsm
    rw [manager?_init] at hsm
    cases hsm
  · intro r hr
    cases hr

theorem Reaches.registered {calls : List Call} (h : Reaches hash calls s) :
    Registered calls s := by
  rcases h with ⟨replies, hrun⟩
  refine run_induction (motive := fun calls _ s => Registered calls s)
    registered_init ?_ hrun
  intro before replies s1 call reply s2 hbefore hregistered hstep
  exact serve_registered (run_wellFormed wellFormed_init hbefore) hregistered hstep

/-!
# Conservation
-/

/-- The books of one node balance. -/
structure Conserved (s : MetadataServiceImpl) (key : Int) (sm : SpaceManager) : Prop where
  serverId : sm.serverId = UInt64.ofInt key
  ledger : Conserves (held s sm.serverId) sm.freeList.elems sm.inusedBlocks
    (fun n => n.toNat < sm.totalBlocks.toNat)
  curBlocks : sm.curBlocks.toNat = sm.inusedBlocks.card
  totalBlocks : sm.totalBlocks.toNat < 2 ^ 44

theorem Conserved.card_le {key : Int} {sm : SpaceManager} (h : Conserved s key sm) :
    sm.inusedBlocks.card ≤ sm.totalBlocks.toNat := by
  rw [← Finset.card_range sm.totalBlocks.toNat]
  refine Finset.card_le_card_of_injOn UInt64.toNat ?_ ?_
  · intro n hn
    exact Finset.mem_coe.mpr (Finset.mem_range.mpr ((h.ledger.cover n).mp (Or.inl hn)))
  · intro n _ n' _ heq
    exact UInt64.toNat_inj.mp heq

/-- A node whose ledger and manager an action does not touch stays balanced. -/
theorem Conserved.of_held {key : Int} {sm : SpaceManager} (h : Conserved s key sm)
    (hheld : held s' sm.serverId = held s sm.serverId) : Conserved s' key sm :=
  ⟨h.serverId, hheld.symm ▸ h.ledger, h.curBlocks, h.totalBlocks⟩

theorem Conserved.append {key : Int} {sm : SpaceManager} {inum : UInt64} {file : Inode}
    {blockNr : UInt64} (h : Conserved s key sm) (htop : sm.freeList.top? = some blockNr)
    (hfile : s.inode? inum = some file) :
    Conserved (s.appended key sm inum file blockNr) key (sm.useBlock blockNr) := by
  have hledger := h.ledger
  rw [MinHeap.elems_of_top? htop] at hledger
  refine ⟨h.serverId, ?_, ?_, h.totalBlocks⟩
  · show Conserves (held _ sm.serverId) sm.freeList.pop.elems (insert blockNr sm.inusedBlocks) _
    rw [h.serverId] at hledger ⊢
    rw [held_appended hfile]
    exact hledger.take inum
  · have hcard : (insert blockNr sm.inusedBlocks).card = _ := hledger.card_take
    have hle := h.card_le
    have htotal := h.totalBlocks
    show (sm.curBlocks + 1).toNat = (insert blockNr sm.inusedBlocks).card
    rw [hcard, UInt64.toNat_add, h.curBlocks]
    exact Nat.mod_eq_of_lt (show sm.inusedBlocks.card + 1 < 2 ^ 64 by omega)

theorem Conserved.remove {root file : Inode} {name inum : UInt64} {key : Int}
    {sm : SpaceManager} (h : Conserved s key sm) (hroot : s.inode? rootInum = some root)
    (hfile : s.inode? inum = some file) :
    Conserved (s.removed root name inum file) key (sm.returnBlocks file.blockInfoList) := by
  rcases returnBlocks_spec sm file.blockInfoList with ⟨hfree, hused, hcur, htotal⟩
  have hheld := held_of_some hfile sm.serverId
  rw [← hheld] at hfree hused hcur
  have hcard := h.ledger.card_giveBack inum
  refine ⟨?_, ?_, ?_, ?_⟩
  · rw [serverId_returnBlocks]
    exact h.serverId
  · rw [serverId_returnBlocks, held_removed hroot, hused, htotal]
    exact (h.ledger.giveBack inum).of_perm hfree.symm
  · have hlength : (UInt64.ofNat (held s sm.serverId inum).length).toNat =
        (held s sm.serverId inum).length := by
      have hle := h.card_le
      have htotal' := h.totalBlocks
      exact UInt64.toNat_ofNat_of_lt' (show _ < 2 ^ 64 by omega)
    rw [hcur, hused, UInt64.toNat_sub_of_le, h.curBlocks, hlength]
    · omega
    · rw [UInt64.le_iff_toNat_le, hlength, h.curBlocks]
      omega
  · rw [htotal]
    exact h.totalBlocks

theorem Conserved.register (hb : Blocks s) {nodeid addr length : UInt64}
    (hsmall : nodeid.toNat < 2 ^ 31) (hnone : s.manager? (Word.toInt nodeid) = none) :
    Conserved (s.registerMemoryRegion nodeid addr length).2 (Word.toInt nodeid)
      (SpaceManager.make addr (addr + length - 1) fileBlockSize nodeid) where
  serverId := (Word.ofInt_toInt_of_lt hsmall).symm
  ledger := by
    refine Conserves.start ?_ (nodup_freeList_make addr _ nodeid) (fun n => mem_freeList_make)
    intro i
    have hnil := held_of_unregistered hb hnone i
    rw [Word.ofInt_toInt_of_lt hsmall] at hnil
    exact hnil
  curBlocks := rfl
  totalBlocks := totalBlocks_make_lt addr _ nodeid

/-- Every node's books balance. -/
def AllConserved (s : MetadataServiceImpl) : Prop :=
  forall key sm, s.manager? key = some sm -> Conserved s key sm

theorem Acts.conserved {a : Action} (hact : Acts hash s a s') (hwf : WellFormed hash s)
    (h : AllConserved s)
    (hregister : forall nodeid addr length, a = Action.register nodeid addr length ->
      nodeid.toNat < 2 ^ 31 ∧ s.manager? (Word.toInt nodeid) = none) :
    AllConserved s' := by
  intro k sm' hsm'
  cases hact with
  | create hroot habsent hfree htop =>
      have hfresh := inode?_eq_none_of_free hwf.balanced (MinHeap.top?_mem htop)
      exact (h k sm' hsm').of_held (held_created hroot hfresh _)
  | createFull hroot habsent hfull => exact (h k sm' hsm').of_held (held_entered hroot _)
  | append hsm htop hfile hroom =>
      rw [manager?_appended] at hsm'
      split at hsm'
      · rename_i hkey
        subst hkey
        cases hsm'
        exact (h _ _ hsm).append htop hfile
      · rename_i hkey
        refine (h k sm' hsm').of_held (held_appended_other hfile ?_)
        -- The two managers have different numbers, since they are filed apart.
        intro hserver
        apply hkey
        rw [← hwf.blocks.managerKey _ _ hsm, ← hwf.blocks.managerKey k sm' hsm', hserver,
          (h _ _ hsm).serverId]
  | rewrite hfile hsame => exact (h k sm' hsm').of_held (held_putInode hfile hsame.places _)
  | remove hroot hdentry hfile =>
      rw [manager?_removed] at hsm'
      rcases Option.map_eq_some_iff.mp hsm' with ⟨sm, hsm, rfl⟩
      exact (h k sm hsm).remove hroot hfile
  | unlink hroot hdentry hgone => exact (h k sm' hsm').of_held (held_unlinked hroot _)
  | @register nodeid addr length =>
      rcases hregister nodeid addr length rfl with ⟨hsmall, hnone⟩
      rw [manager?_register] at hsm'
      split at hsm'
      · rename_i hkey
        subst hkey
        cases hsm'
        exact Conserved.register hwf.blocks hsmall hnone
      · exact (h k sm' hsm').of_held rfl
  | descriptors hunlocked => exact (h k sm' hsm').of_held rfl

theorem serve_conserved {calls : List Call} {call : Call} (hwf : WellFormed hash s)
    (honce : RegistersOnce (calls ++ [call])) (hregistered : Registered calls s)
    (h : AllConserved s) {reply : Reply}
    (hserve : serve hash s call = Except.ok (reply, s')) : AllConserved s' := by
  cases hregion : call.request.region? with
  | none =>
      refine serve_keeps AllConserved ?_ hwf h hserve
      intro s1 a s2 hwf1 h1 hallows hact
      refine hact.conserved hwf1 h1 ?_
      rintro nodeid addr length rfl
      rcases call with ⟨request, rands⟩
      cases hallows
      cases hregion
  | some r =>
      have hmore : registrations (calls ++ [call]) = registrations calls ++ [r] := by
        rw [registrations_concat, hregion]
        rfl
      have hr : r ∈ registrations (calls ++ [call]) := by
        rw [hmore]
        exact List.mem_append_right _ List.mem_cons_self
      rcases call with ⟨request, rands⟩
      cases region?_eq_some.mp hregion
      cases hserve
      have hact : Acts hash s (Action.register r.nodeid r.addr r.length) _ := Acts.register
      refine hact.conserved hwf h ?_
      intro nodeid addr length heq
      cases heq
      refine ⟨honce.small r hr, ?_⟩
      -- A manager under this key would come from an earlier registration of the node.
      cases hsm : s.manager? (Word.toInt r.nodeid) with
      | none => rfl
      | some sm =>
          rcases hregistered.region _ sm hsm with ⟨r', hr', hkey, _⟩
          have hr'' : r' ∈ registrations
              (calls ++ [⟨Request.registerMemoryRegion r.nodeid r.addr r.length, rands⟩]) := by
            rw [hmore]
            exact List.mem_append_left _ hr'
          have hnode := honce.nodeid_inj hr hr'' hkey
          have hnodup := honce.once
          rw [hmore, List.map_append] at hnodup
          have hdisjoint := (List.nodup_append.mp hnodup).right.right
          exact absurd hnode.symm (hdisjoint r'.nodeid (List.mem_map_of_mem hr') r.nodeid
            List.mem_cons_self)

theorem Reaches.conserved {calls : List Call} (h : Reaches hash calls s)
    (honce : RegistersOnce calls) : AllConserved s := by
  rcases h with ⟨replies, hrun⟩
  refine run_induction
    (motive := fun calls _ s => RegistersOnce calls -> AllConserved s) ?_ ?_ hrun honce
  · intro _ key sm hsm
    rw [manager?_init] at hsm
    cases hsm
  · intro before outs s1 call reply s2 hbefore ih hstep honce
    have hreach : Reaches hash before s1 := ⟨outs, hbefore⟩
    exact serve_conserved hreach.wellFormed honce hreach.registered (ih honce.of_append) hstep

/-!
# Every node of every run
-/

/-- A block number below the block count of a region gives an address without overflow. -/
theorem toNat_blockAddress {n : UInt64} (hn : n.toNat < 2 ^ 44) :
    (n * fileBlockSize).toNat = n.toNat * 2 ^ 20 := by
  rw [UInt64.toNat_mul, fileBlockSize_toNat]
  exact Nat.mod_eq_of_lt (show n.toNat * 2 ^ 20 < 2 ^ 64 by omega)

/-- In a balanced state a held block is one of the node's blocks. -/
theorem Conserved.blockNr_lt {key : Int} {sm : SpaceManager} (h : Conserved s key sm)
    {i : UInt64} {file : Inode} {info : FileBlockInfo} (hfile : s.inode? i = some file)
    (hinfo : info ∈ file.blockInfoList) (hserver : info.serverId = sm.serverId) :
    info.blockNr.toNat < sm.totalBlocks.toNat := by
  have hheld : info.blockNr ∈ held s sm.serverId i :=
    mem_held.mpr ⟨file, info, hfile, hinfo, hserver, rfl⟩
  exact (h.ledger.cover _).mp (Or.inl ((h.ledger.owned _).mpr ⟨i, hheld⟩))

/-- Where a block of a file lies, and the manager whose books list it. -/
theorem Reaches.block_placed {calls : List Call} (hreach : Reaches hash calls s)
    (honce : RegistersOnce calls) {i : UInt64} {file : Inode} {info : FileBlockInfo}
    (hfile : s.inode? i = some file) (hinfo : info ∈ file.blockInfoList) :
    exists key sm, s.manager? key = some sm ∧ Conserved s key sm ∧
      info.serverId = sm.serverId ∧ info.blockNr.toNat < sm.totalBlocks.toNat ∧
      info.startAddr.toNat = info.blockNr.toNat * 2 ^ 20 := by
  have hblock := hreach.wellFormed.blocks.block i file info hfile hinfo
  rcases hblock.registered with ⟨sm, hsm⟩
  have hconserved := hreach.conserved honce _ sm hsm
  have hserver : info.serverId = sm.serverId := by
    rw [hconserved.serverId, hblock.serverId]
  have hlt := hconserved.blockNr_lt hfile hinfo hserver
  refine ⟨_, sm, hsm, hconserved, hserver, hlt, ?_⟩
  rw [hblock.startAddr]
  exact toNat_blockAddress (hlt.trans hconserved.totalBlocks)

/--
In every state that a run reaches, with each node registered at most once: on every
registered node the inodes hold distinct blocks, which are exactly the blocks in use,
the free list has no duplicates and holds exactly the other blocks of the node, the
count of blocks in use is right, and each block lies at the address of its number.
-/
theorem blocks_conserved {calls : List Call} (hreach : Reaches hash calls s)
    (honce : RegistersOnce calls) {r : Region} (hr : r ∈ registrations calls) :
    exists sm, s.manager? (Word.toInt r.nodeid) = some sm ∧
      Conserves (held s r.nodeid) sm.freeList.elems sm.inusedBlocks
        (fun n => n.toNat < sm.totalBlocks.toNat) ∧
      sm.curBlocks.toNat = sm.inusedBlocks.card ∧
      forall i file info, s.inode? i = some file -> info ∈ file.blockInfoList ->
        info.serverId = r.nodeid ->
        info.startAddr.toNat = info.blockNr.toNat * fileBlockSize.toNat := by
  rcases hreach.registered.manager r hr with ⟨sm, hsm⟩
  have hconserved := hreach.conserved honce _ sm hsm
  have hserver : sm.serverId = r.nodeid := by
    rw [hconserved.serverId, Word.ofInt_toInt_of_lt (honce.small r hr)]
  refine ⟨sm, hsm, ?_, hconserved.curBlocks, ?_⟩
  · rw [← hserver]
    exact hconserved.ledger
  · intro i file info hfile hinfo _
    rcases hreach.block_placed honce hfile hinfo with ⟨_, _, _, _, _, _, hstart⟩
    exact hstart

/-- Two nodes register, files are created, written and removed. -/
def workCalls : List Call :=
  [(Request.registerMemoryRegion 1 4096 16777216).call,
   (Request.registerMemoryRegion 2 0 8388608).call,
   (Request.createFile "a" false).call,
   (Request.writeFile "bb" 10 3000000).call,
   (Request.writeFile "a" 0 1048577).call,
   (Request.removeFile "bb").call,
   (Request.writeFile "ccc" 0 2097152).call]

theorem blocks_conserved_work :
    exists s sm, Reaches byCodes workCalls s ∧ s.manager? (Word.toInt 1) = some sm ∧
      Conserves (held s 1) sm.freeList.elems sm.inusedBlocks
        (fun n => n.toNat < sm.totalBlocks.toNat) ∧
      sm.curBlocks.toNat = sm.inusedBlocks.card ∧
      held s 1 1 ≠ [] ∧ held s 1 2 ≠ [] := by
  have hpass : runPasses byCodes workCalls
      (fun s => decide (held s 1 1 ≠ [] ∧ held s 1 2 ≠ [])) = true := by
    decide +kernel
  rcases reaches_of_runPasses hpass with ⟨s, hreach, htest⟩
  have honce : RegistersOnce workCalls := ⟨by decide +kernel, by decide +kernel⟩
  rcases blocks_conserved hreach honce (r := ⟨1, 4096, 16777216⟩) (by decide +kernel) with
    ⟨sm, hsm, hledger, hcur, _⟩
  exact ⟨s, sm, hreach, hsm, hledger, hcur, of_decide_eq_true htest⟩

end Metadata
end SpongeBob
