import SpongeBob.Client.System
import SpongeBob.Metadata.Regions
import Mathlib.Data.List.DropRight

/-!
# Transfers and removals

Nothing ties the extents that a client was given to the blocks they name: no lease,
no version, no lock.  A file's blocks stay its own until it is removed, so up to then
a transfer stays within them.  After a removal it may reach a block that is free, or
one that has gone to another file.
-/

namespace SpongeBob
namespace Client

open Foundation
open Fs
open Metadata
open MetadataServiceImpl

/-!
# Bytes of nodes
-/

/-- The transfer reads or writes this byte of this node. -/
def Transfer.Touches (t : Transfer) (node : UInt16) (addr : Nat) : Prop :=
  t.nodeID = node ∧ t.bufferReceive.toNat ≤ addr ∧
    addr < t.bufferReceive.toNat + t.size.toNat

/-- The block that starts at this address of this server holds this byte of this node. -/
def Covers (server start : UInt64) (node : UInt16) (addr : Nat) : Prop :=
  server.toUInt16 = node ∧ start.toNat ≤ addr ∧ addr < start.toNat + fileBlockSize.toNat

/-- The transfer stays within a block of the list of the file, which is its inode's. -/
structure InFile (hash : String -> UInt64) (s : MetadataServiceImpl) (t : Transfer)
    (inum : UInt64) (info : FileBlockInfo) : Prop where
  entry : exists d, s.child? (hash t.filename) = some d ∧ d.inum = inum
  block : exists file, s.inode? inum = some file ∧ info ∈ file.blockInfoList
  within : forall node addr, t.Touches node addr ->
    Covers info.serverId info.startAddr node addr

/-- No byte of the transfer is in a free block or in a block of another inode. -/
structure Apart (s : MetadataServiceImpl) (t : Transfer) (inum : UInt64) : Prop where
  notFree : forall key sm n, s.manager? key = some sm -> n ∈ sm.freeList ->
    forall node addr, t.Touches node addr ->
      ¬ Covers sm.serverId (n * fileBlockSize) node addr
  notShared : forall i file info, s.inode? i = some file -> info ∈ file.blockInfoList ->
    forall node addr, t.Touches node addr ->
      Covers info.serverId info.startAddr node addr -> i = inum

/-- Node numbers fit the sixteen bits by which a transfer names its node. -/
def SixteenBit (calls : List Call) : Prop :=
  forall r, r ∈ registrations calls -> r.nodeid.toNat < 2 ^ 16

/-!
# Extents of a file
-/

/-- The extent lies within a block of the file of this name. -/
def Backed (hash : String -> UInt64) (s : MetadataServiceImpl) (name : String)
    (e : Extent) : Prop :=
  exists (d : Dentry) (file : Inode) (info : FileBlockInfo) (inner : Nat),
    s.child? (hash name) = some d ∧ s.inode? d.inum = some file ∧
      info ∈ file.blockInfoList ∧ e.serverid = info.serverId ∧
      e.memOffset = info.startAddr + UInt64.ofNat inner ∧ inner < 2 ^ 20 ∧
      inner + e.length.toNat ≤ 2 ^ 20

section Server

variable {hash : String -> UInt64} {s s' : MetadataServiceImpl}

theorem backed_of_tiles {name : String} {d : Dentry} {file : Inode} {pos buf len : Nat}
    {es : List Extent} (hentry : s.child? (hash name) = some d)
    (hfile : s.inode? d.inum = some file)
    (htiles : Tiles file.blockInfoList pos buf es len) {e : Extent} (he : e ∈ es) :
    Backed hash s name e := by
  rcases htiles.mem_block he with ⟨info, inner, hrest⟩
  exact ⟨d, file, info, inner, hentry, hfile, hrest⟩

/-- Whatever else the server does, only a removal can take the blocks from under extents. -/
theorem serve_backed (hwf : WellFormed hash s) {name : String} {e : Extent}
    (h : Backed hash s name e) {call : Call} {reply : Reply}
    (hnot : forall m, call.request = Request.removeFile m -> hash m ≠ hash name)
    (hserve : serve hash s call = Except.ok (reply, s')) : Backed hash s' name e := by
  rcases h with ⟨d, file, info, inner, hentry, hfile, hinfo, hserver, hmem, hrest⟩
  have hkeeps : Keeps hash name d file s := ⟨hentry, file, hfile, List.prefix_refl _⟩
  rcases serve_keepsFile hwf hkeeps hnot hserve with ⟨hentry', file', hfile', hcontinues⟩
  rcases List.mem_iff_getElem?.mp hinfo with ⟨i, hi⟩
  rcases hcontinues.getElem? hi with ⟨info', hi', hplace⟩
  simp only [place, Prod.mk.injEq] at hplace
  rcases hplace with ⟨hserver', hstart', _⟩
  exact ⟨d, file', info', inner, hentry', hfile', List.mem_of_getElem? hi',
    hserver.trans hserver'.symm, by rw [hmem, hstart'], hrest⟩

/-- The extents of a reply lie within blocks of the file. -/
theorem request_backed (hwf : WellFormed hash s) {op : Operation} {rands : Nat -> Nat}
    {reply : Reply} (hserve : serve hash s ⟨op.request, rands⟩ = Except.ok (reply, s'))
    {e : Extent} (he : e ∈ (blockInfoList reply).1) : Backed hash s' op.filename e := by
  rcases op with ⟨direction, name, offset, length⟩
  cases direction with
  | read =>
      rcases readFile_cases hwf hserve with ⟨d, file, c, hentry, hfile, hread, rfl, rfl⟩
      exact backed_of_tiles hentry hfile (readExtents_tiles hread).right he
  | write =>
      rcases writeFile_cases hwf hserve with ⟨_, _, d, _, _, _, _, hwrote, rfl⟩
      rcases hwrote.readExtents with ⟨r, hr, rfl⟩
      exact backed_of_tiles ((hwrote.child?_eq _).trans hwrote.entry)
        ((hwrote.inode?_eq _).trans (if_pos rfl)) (readExtents_tiles hr).right he

/-- A transfer for such an extent stays within the block. -/
theorem Backed.inFile (hwf : WellFormed hash s) {op : Operation} {e : Extent}
    (h : Backed hash s op.filename e) :
    exists inum info, InFile hash s (op.transferOf e) inum info := by
  rcases h with
    ⟨d, file, info, inner, hentry, hfile, hinfo, hserver, hmem, hinner, hfit⟩
  refine ⟨d.inum, info, ⟨d, hentry, rfl⟩, ⟨file, hfile, hinfo⟩, ?_⟩
  rintro node addr ⟨hnode, hlow, hhigh⟩
  -- The block starts at a multiple of its size, so its addresses do not wrap around.
  have haligned := hwf.blocks.aligned hfile hinfo
  have hstart := info.startAddr.toNat_lt
  have hoffset : e.memOffset.toNat = info.startAddr.toNat + inner := by
    have hsmall : (UInt64.ofNat inner).toNat = inner :=
      UInt64.toNat_ofNat_of_lt' (show inner < 2 ^ 64 by omega)
    rw [hmem, toNat_add_of_lt (by omega), hsmall]
  have hlow' : e.memOffset.toNat ≤ addr := hlow
  have hhigh' : addr < e.memOffset.toNat + e.length.toNat := hhigh
  refine ⟨?_, by omega, ?_⟩
  · rw [← hserver]
    exact hnode
  · rw [fileBlockSize_toNat]
    omega

/-- With small node numbers, a byte of a node belongs to one server. -/
theorem server_inj {server server' : UInt64} (hserver : server.toNat < 2 ^ 16)
    (hserver' : server'.toNat < 2 ^ 16) (h : server.toUInt16 = server'.toUInt16) :
    server = server' := by
  have hnat := congrArg UInt16.toNat h
  rw [UInt64.toNat_toUInt16, UInt64.toNat_toUInt16] at hnat
  apply UInt64.toNat_inj.mp
  omega

theorem serverId_lt {calls : List Call} (hreach : Reaches hash calls s)
    (hsmall : SixteenBit calls) {key : Int} {sm : SpaceManager}
    (hsm : s.manager? key = some sm) : sm.serverId.toNat < 2 ^ 16 := by
  rcases hreach.registered.region key sm hsm with ⟨r, hr, _, hid, _⟩
  rw [hid]
  exact hsmall r hr

/-- Two blocks of a server that share a byte have the same number. -/
theorem blockNr_inj {n n' : UInt64} {addr : Nat} (hlow : n.toNat * 2 ^ 20 ≤ addr)
    (hhigh : addr < n.toNat * 2 ^ 20 + 2 ^ 20) (hlow' : n'.toNat * 2 ^ 20 ≤ addr)
    (hhigh' : addr < n'.toNat * 2 ^ 20 + 2 ^ 20) : n = n' := by
  apply UInt64.toNat_inj.mp
  omega

/-- A block of a file is not free, and no other file has it. -/
theorem InFile.apart {calls : List Call} (hreach : Reaches hash calls s)
    (honce : RegistersOnce calls) (hsmall : SixteenBit calls) {t : Transfer}
    {inum : UInt64} {info : FileBlockInfo} (h : InFile hash s t inum info) :
    Apart s t inum := by
  rcases h.block with ⟨file, hfile, hinfo⟩
  rcases hreach.block_placed honce hfile hinfo with
    ⟨key, sm, hsm, hconserved, hserver, _, hstart⟩
  have hheld : info.blockNr ∈ held s sm.serverId inum :=
    mem_held.mpr ⟨file, info, hfile, hinfo, hserver, rfl⟩
  have hlt := serverId_lt hreach hsmall hsm
  refine ⟨?_, ?_⟩
  · intro key' sm' n hsm' hfree node addr htouch hcovers
    have hconserved' := hreach.conserved honce key' sm' hsm'
    have hlt' := serverId_lt hreach hsmall hsm'
    have hfree' := MinHeap.mem_def.mp hfree
    have hn := (hconserved'.ledger.cover n).mp (Or.inr hfree')
    have htotal := hconserved'.totalBlocks
    rcases h.within node addr htouch with ⟨hnode, hlow, hhigh⟩
    rcases hcovers with ⟨hnode', hlow', hhigh'⟩
    rw [hserver] at hnode
    have hsame := server_inj hlt hlt' (hnode.trans hnode'.symm)
    rw [toNat_blockAddress (by omega)] at hlow' hhigh'
    rw [hstart] at hlow hhigh
    have hnr : info.blockNr = n := blockNr_inj hlow hhigh hlow' hhigh'
    rw [hnr, hsame] at hheld
    exact hconserved'.ledger.unowned inum n hheld hfree'
  · intro i file' info' hfile' hinfo' node addr htouch hcovers
    rcases hreach.block_placed honce hfile' hinfo' with
      ⟨key', sm', hsm', _, hserver', _, hstart'⟩
    have hheld' : info'.blockNr ∈ held s sm'.serverId i :=
      mem_held.mpr ⟨file', info', hfile', hinfo', hserver', rfl⟩
    have hlt' := serverId_lt hreach hsmall hsm'
    rcases h.within node addr htouch with ⟨hnode, hlow, hhigh⟩
    rcases hcovers with ⟨hnode', hlow', hhigh'⟩
    rw [hserver] at hnode
    rw [hserver'] at hnode'
    have hsame := server_inj hlt' hlt (hnode'.trans hnode.symm)
    rw [hstart] at hlow hhigh
    rw [hstart'] at hlow' hhigh'
    have hnr : info'.blockNr = info.blockNr := blockNr_inj hlow' hhigh' hlow hhigh
    rw [hnr, hsame] at hheld'
    exact hconserved.ledger.apart i inum info.blockNr hheld' hheld

end Server

/-!
# Runs
-/

/-- Since the client's last request was handled, no file of this name was removed. -/
def Undisturbed (hash : String -> UInt64) (client : Nat) (name : String)
    (events : List Event) : Prop :=
  forall m rands, Event.serve ⟨Request.removeFile m, rands⟩ ∈
    events.rtakeWhile (fun event => !event.handles client) -> hash m ≠ hash name

/-- What a client has yet to move lies in blocks of its file, unless that was removed. -/
def AllBacked (hash : String -> UInt64) (events : List Event) (s : System) : Prop :=
  forall client name e, (name, e) ∈ (s.sessions client).pending ->
    Undisturbed hash client name events -> Backed hash s.server name e

variable {hash : String -> UInt64} {s s' : System}

theorem Undisturbed.of_concat {client : Nat} {name : String} {events : List Event}
    {event : Event} (hother : event.handles client = false)
    (h : Undisturbed hash client name (events ++ [event])) :
    Undisturbed hash client name events ∧
      forall m rands, event = Event.serve ⟨Request.removeFile m, rands⟩ ->
        hash m ≠ hash name := by
  unfold Undisturbed at h
  rw [List.rtakeWhile_concat_pos _ _ _ (by rw [hother]; rfl)] at h
  constructor
  · intro m rands hmem
    exact h m rands (List.mem_append_left _ hmem)
  · rintro m rands rfl
    exact h m rands (List.mem_append_right _ List.mem_cons_self)

/-- One step, whoever takes it. -/
theorem step_allBacked (hwf : WellFormed hash s.server) {events : List Event}
    (h : AllBacked hash events s) {event : Event} {out : Outcome}
    (hstep : step hash s event = Except.ok (out, s')) :
    AllBacked hash (events ++ [event]) s' := by
  intro c name e hpending hundisturbed
  rcases step_cases hstep with ⟨call, reply, rfl, _, hserve, hsessions⟩ |
    ⟨client, rands, op, userBuf, reply, rfl, _, hserve, hsessions⟩ |
    ⟨client, session, hother, _, hserver, hsessions, hsubset⟩
  · rw [hsessions] at hpending
    rcases hundisturbed.of_concat rfl with ⟨hbefore, hnot⟩
    refine serve_backed hwf (h c name e hpending hbefore) ?_ hserve
    intro m hm
    rcases call with ⟨request, rands⟩
    cases hm
    exact hnot m rands rfl
  · rw [hsessions] at hpending
    by_cases hc : c = client
    · -- The reply on its way lists extents of the file as it is now.
      subst hc
      rw [Function.update_self] at hpending
      rcases List.mem_map.mp hpending with ⟨e', he', heq⟩
      cases heq
      exact request_backed hwf hserve he'
    · rw [Function.update_of_ne hc] at hpending
      have hother : (Event.handle client rands).handles c = false :=
        beq_false_of_ne (Ne.symm hc)
      refine serve_backed hwf (h c name e hpending (hundisturbed.of_concat hother).left) ?_
        hserve
      intro m hm
      rcases op with ⟨direction, _, _, _⟩
      cases direction <;> cases hm
  · have hold : (name, e) ∈ (s.sessions c).pending := by
      rw [hsessions] at hpending
      by_cases hc : c = client
      · subst hc
        rw [Function.update_self] at hpending
        exact hsubset hpending
      · rw [Function.update_of_ne hc] at hpending
        exact hpending
    rw [hserver]
    exact h c name e hold (hundisturbed.of_concat (hother c)).left

theorem run_allBacked {memory : Memory} {events : List Event} {outs : List Outcome}
    (hrun : runFrom (step hash) (System.start memory) events = Except.ok (outs, s)) :
    AllBacked hash events s := by
  refine run_induction (motive := fun events _ s => AllBacked hash events s) ?_ ?_ hrun
  · intro client name e hpending
    cases hpending
  · intro before outs s event out s' hbefore h hstep
    exact step_allBacked (run_reaches hbefore).wellFormed h hstep

/-- A transfer moves the first of the extents that its client has yet to move. -/
theorem transfer_cases {client : Nat} {t : Transfer}
    (hstep : step hash s (Event.transfer client) = Except.ok (Outcome.moved t, s')) :
    exists (op : Operation) (e : Extent), t = op.transferOf e ∧
      (op.filename, e) ∈ (s.sessions client).pending := by
  rw [step] at hstep
  split at hstep
  · rename_i op userBuf block rest localOffset bytes hsession
    cases hstep
    rw [hsession]
    exact ⟨op, block, rfl, List.mem_cons_self⟩
  · cases hstep

/--
Whatever the clients do and in whatever order, a transfer on behalf of a file that was
not removed since the server listed the extents stays within a block of the file's
list as it is then.  When each node registers at most once, under a number of sixteen
bits, that block is not free and no other file has it.
-/
theorem transfer_in_file {memory : Memory} {events : List Event} {outs : List Outcome}
    (hrun : runFrom (step hash) (System.start memory) events = Except.ok (outs, s))
    {client : Nat} {t : Transfer}
    (htransfer : step hash s (Event.transfer client) = Except.ok (Outcome.moved t, s'))
    (hundisturbed : Undisturbed hash client t.filename events) :
    exists inum info, InFile hash s.server t inum info ∧
      (RegistersOnce (calls outs) -> SixteenBit (calls outs) -> Apart s.server t inum) := by
  have hreach := run_reaches hrun
  rcases transfer_cases htransfer with ⟨op, e, rfl, hpending⟩
  have hbacked := run_allBacked hrun client op.filename e hpending hundisturbed
  rcases hbacked.inFile hreach.wellFormed with ⟨inum, info, hin⟩
  exact ⟨inum, info, hin, fun honce hsmall => hin.apart hreach honce hsmall⟩

/-- Two clients write to two files; the second one's file is removed, the first goes on. -/
def sharedEvents : List Event :=
  [Event.serve (Request.registerMemoryRegion 1 0 16777216).call,
   Event.request 0 ⟨Direction.write, "f", 1048570, 12⟩ (fun _ => 7),
   Event.request 1 ⟨Direction.write, "gg", 0, 1⟩ (fun _ => 8),
   Event.handle 1 (fun _ => 0),
   Event.handle 0 (fun _ => 0),
   Event.receive 0,
   Event.transfer 0,
   Event.serve (Request.removeFile "gg").call]

theorem transfer_in_file_shared :
    exists (outs : List Outcome) (s s' : System) (t : Transfer) (inum : UInt64)
      (info : FileBlockInfo),
      runFrom (step byCodes) (System.start (fun _ _ => 0)) sharedEvents =
        Except.ok (outs, s) ∧
      step byCodes s (Event.transfer 0) = Except.ok (Outcome.moved t, s') ∧
      t.filename = "f" ∧ InFile byCodes s.server t inum info ∧ Apart s.server t inum := by
  have hpass : passes (runFrom (step byCodes) (System.start (fun _ _ => 0)) sharedEvents)
      (fun result => passes (step byCodes result.2 (Event.transfer 0)) (fun moved =>
        match moved.1 with
        | Outcome.moved t => decide (t.filename = "f" ∧
            ((registrations (calls result.1)).map Region.nodeid).Nodup ∧
            forall r, r ∈ registrations (calls result.1) -> r.nodeid.toNat < 2 ^ 16)
        | _ => false)) = true := by
    decide +kernel
  rcases exists_of_passes hpass with ⟨⟨outs, s⟩, hrun, htest⟩
  rcases exists_of_passes htest with ⟨⟨out, s'⟩, htransfer, htest⟩
  cases out with
  | moved t =>
      rcases of_decide_eq_true htest with ⟨hname, honce, hsmall⟩
      have hundisturbed : Undisturbed byCodes 0 t.filename sharedEvents := by
        intro m rands hmem
        rw [show sharedEvents.rtakeWhile (fun event => !event.handles 0) =
          [Event.receive 0, Event.transfer 0, Event.serve (Request.removeFile "gg").call]
          from rfl] at hmem
        simp only [List.mem_cons, reduceCtorEq, Event.serve.injEq, List.not_mem_nil,
          or_false, false_or] at hmem
        cases hmem
        rw [hname]
        decide +kernel
      rcases transfer_in_file hrun htransfer hundisturbed with ⟨inum, info, hin, hapart⟩
      have hbound : forall r, r ∈ registrations (calls outs) -> r.nodeid.toNat < 2 ^ 31 := by
        intro r hr
        exact (hsmall r hr).trans (by decide)
      exact ⟨outs, s, s', t, inum, info, hrun, htransfer, hname, hin,
        hapart ⟨honce, hbound⟩ hsmall⟩
  | _ => cases htest

/-- A write is under way when its file is removed and the block goes to another file. -/
def staleEvents : List Event :=
  [Event.serve (Request.registerMemoryRegion 1 0 16777216).call,
   Event.request 0 ⟨Direction.write, "f", 0, 1⟩ (fun _ => 7),
   Event.handle 0 (fun _ => 0),
   Event.receive 0,
   Event.serve (Request.removeFile "f").call,
   Event.serve (Request.writeFile "gg" 0 1).call]

/-- The transfer is made all the same, for a file that is no longer there. -/
theorem stale_transfer_leaves_file :
    ¬ (forall (hash : String -> UInt64) (memory : Memory) (events : List Event)
      (outs : List Outcome) (s s' : System) (client : Nat) (t : Transfer),
      runFrom (step hash) (System.start memory) events = Except.ok (outs, s) ->
      step hash s (Event.transfer client) = Except.ok (Outcome.moved t, s') ->
      exists inum info, InFile hash s.server t inum info ∧ Apart s.server t inum) := by
  intro hall
  have hpass : passes (runFrom (step byCodes) (System.start (fun _ _ => 0)) staleEvents)
      (fun result => passes (step byCodes result.2 (Event.transfer 0)) (fun moved =>
        match moved.1 with
        | Outcome.moved t => decide (t.filename = "f" ∧
            result.2.server.child? (byCodes "f") = none)
        | _ => false)) = true := by
    decide +kernel
  rcases exists_of_passes hpass with ⟨⟨outs, s⟩, hrun, htest⟩
  rcases exists_of_passes htest with ⟨⟨out, s'⟩, htransfer, htest⟩
  cases out with
  | moved t =>
      rcases of_decide_eq_true htest with ⟨hname, hnone⟩
      rcases hall byCodes _ staleEvents outs s s' 0 t hrun htransfer with
        ⟨inum, info, hin, _⟩
      rcases hin.entry with ⟨d, hentry, _⟩
      rw [hname] at hentry
      cases hentry.symm.trans hnone
  | _ => cases htest

end Client
end SpongeBob
