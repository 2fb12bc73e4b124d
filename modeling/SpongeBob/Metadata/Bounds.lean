import SpongeBob.Metadata.Progress

/-!
# Bounds of reads and writes

The handlers compute with words that the client chooses.  A write rounds the end
of its range up to whole blocks and narrows the number of new blocks to an
{lit}`int`; a read subtracts its offset from the size of the file.  This module
says for which requests the results are the intended numbers.
-/

namespace SpongeBob
namespace Metadata

open Foundation
open Fs
open MetadataServiceImpl

variable {hash : String -> UInt64} {s s' : MetadataServiceImpl}

/-!
# Writes
-/

/-- The recorded size of a file lies within its blocks. -/
def SizeWithin (file : Inode) : Prop :=
  file.size.toNat ≤ file.blockInfoList.length * 2 ^ 20

/-- The inode of a name, if the root directory has an entry for it that leads to one. -/
def fileOf (hash : String -> UInt64) (s : MetadataServiceImpl) (name : String) :
    Option Inode :=
  (s.child? (hash name)).bind (fun d => s.inode? d.inum)

/--
The write has all the blocks of its range after the allocation step, goes through
without leaving the block list, and records a size within the blocks.
-/
def WritesWithin (hash : String -> UInt64) (rands : Nat -> Nat) (s : MetadataServiceImpl)
    (name : String) (offset length : UInt64) : Prop :=
  exists root inum s2 grown reply s' written, s.inode? rootInum = some root ∧
    allocationStep hash rands s root name offset length = Except.ok (inum, s2) ∧
    s2.inode? inum = some grown ∧
    blocksUpTo offset length ≤ grown.blockInfoList.length ∧
    s.writeFile hash rands name offset length = Except.ok (reply, s') ∧
    s'.inode? inum = some written ∧ SizeWithin written

/-- The write is refused, and the file is as it was. -/
def RejectsWrite (hash : String -> UInt64) (rands : Nat -> Nat) (s : MetadataServiceImpl)
    (name : String) (offset length : UInt64) : Prop :=
  exists extents bytes s', s.writeFile hash rands name offset length =
      Except.ok (Reply.writeFile Status.cancelled extents bytes, s') ∧
    fileOf hash s' name = fileOf hash s name

/-- No write to a well-formed state is refused. -/
theorem not_rejectsWrite (hwf : WellFormed hash s) (rands : Nat -> Nat) (name : String)
    (offset length : UInt64) : ¬ RejectsWrite hash rands s name offset length := by
  rintro ⟨extents, bytes, s', hwrite, _⟩
  rcases writeFile_cases hwf hwrite with ⟨_, _, _, _, _, _, _, _, hreply⟩
  cases hreply

theorem writesWithin_of_countable (hwf : WellFormed hash s) {rands : Nat -> Nat}
    {name : String} {offset length : UInt64} (hinode : HasInode hash s name)
    (hcount : Countable (blockCount hash s name) offset length)
    (hnodes : blocksUpTo offset length ≤ blockCount hash s name ∨ HasNodes s)
    (hfinds : s.writeFile hash rands name offset length ≠ Except.error Fault.emptyHeap) :
    WritesWithin hash rands s name offset length := by
  rcases hwf.directory.root with ⟨root, hroot⟩
  rw [writeFile_eq hash rands name offset length hwf.unlocked.table hroot] at hfinds
  rcases allocationStep_complete hwf hroot hinode hcount hnodes (ne_error_of_bind hfinds) with
    ⟨inum, s2, grown, halloc, hgrown, hcovers⟩
  rcases writeFile_of_covers hwf.unlocked.table hroot halloc hgrown hcovers with
    ⟨r, written, _, hsame, hwrite, _⟩
  refine ⟨root, inum, s2, grown, _, _, written.setSize (offset + length), hroot, halloc,
    hgrown, hcovers.enough, hwrite, by simp, ?_⟩
  have hsize : (offset + length).toNat = offset.toNat + length.toNat :=
    toNat_add_of_lt hcovers.fits
  have hlength : written.blockInfoList.length = grown.blockInfoList.length := by
    simpa using congrArg List.length hsame.places
  have henough := hcovers.enough
  show (offset + length).toNat ≤ written.blockInfoList.length * 2 ^ 20
  rw [hsize, hlength]
  unfold blocksUpTo at henough
  omega

/-- What the blocks after the allocation step tell about the request. -/
theorem countable_of_writesWithin (hwf : WellFormed hash s) {rands : Nat -> Nat}
    {name : String} {offset length : UInt64}
    (h : WritesWithin hash rands s name offset length) :
    HasInode hash s name ∧ Countable (blockCount hash s name) offset length ∧
      (blocksUpTo offset length ≤ blockCount hash s name ∨ HasNodes s) := by
  rcases h with
    ⟨root, inum, s2, grown, reply, s', _, hroot, halloc, hgrown, henough, hwrite, _, _⟩
  rcases writeFile_cases hwf hwrite with ⟨_, _, _, _, _, _, _, hwrote, _⟩
  have hinode := (hwrote.hasInode hwf).left
  rcases allocationStep_of_hasInode hwf rands offset length hroot hinode with
    ⟨s1, d, file, hensured, hfile, hlength, heq⟩
  have hwf1 := hensured.wellFormed hwf
  have hroom := hwf1.blocks.room _ _ hfile
  rw [heq] at halloc
  rcases bind_eq_ok.mp halloc with ⟨s2', happend, hpure⟩
  cases hpure
  rcases appendBlocks_trace hash _ hwf1.unlocked hfile (newBlocksNum_room hroom offset length)
    happend with ⟨_, grown', hgrown', hgrows⟩
  rw [hgrown] at hgrown'
  cases hgrown'
  rw [hgrows.length] at henough
  have hcount := (covers_iff_countable hroom offset length).mp henough
  refine ⟨hinode, hlength ▸ hcount, ?_⟩
  rw [← hlength, ← hensured.hasNodes_iff]
  have hne : appendBlocks d.inum (newBlocksNum file.getBlockNum (blocksNeeded offset length))
      rands s1 ≠ Except.error Fault.divisionByZero := by
    rw [happend]
    intro herror
    cases herror
  rcases hasNodes_of_appendBlocks hne with hzero | hnodes
  · left
    rw [hzero] at henough
    exact henough
  · exact Or.inr hnodes

/--
A write for which the nodes have free blocks is carried out within the blocks of
the file, or refused, exactly if the name has an inode, the end of the range can be
rounded up and the new blocks counted in an {lit}`int`, and a node is registered
when new blocks are needed.
-/
theorem write_sound_iff {calls : List Call} (hreach : Reaches hash calls s)
    (rands : Nat -> Nat) (name : String) (offset length : UInt64)
    (hfinds : s.writeFile hash rands name offset length ≠ Except.error Fault.emptyHeap) :
    (WritesWithin hash rands s name offset length ∨
      RejectsWrite hash rands s name offset length) <->
    (HasInode hash s name ∧ Countable (blockCount hash s name) offset length ∧
      (blocksUpTo offset length ≤ blockCount hash s name ∨ HasNodes s)) := by
  have hwf := hreach.wellFormed
  constructor
  · rintro (hwithin | hrejects)
    · exact countable_of_writesWithin hwf hwithin
    · exact absurd hrejects (not_rejectsWrite hwf rands name offset length)
  · rintro ⟨hinode, hcount, hnodes⟩
    exact Or.inl (writesWithin_of_countable hwf hinode hcount hnodes hfinds)

/-- A new file of three blocks. -/
theorem write_sound_iff_blocks :
    exists s, Reaches byCodes [(Request.registerMemoryRegion 1 0 16777216).call] s ∧
      HasInode byCodes s "f" ∧ Countable (blockCount byCodes s "f") 10 3000000 ∧
      HasNodes s ∧ (WritesWithin byCodes (fun _ => 0) s "f" 10 3000000 ∨
        RejectsWrite byCodes (fun _ => 0) s "f" 10 3000000) := by
  have hpass : runPasses byCodes [(Request.registerMemoryRegion 1 0 16777216).call] (fun s =>
      passes (s.writeFile byCodes (fun _ => 0) "f" 10 3000000) (fun _ => true) &&
        decide (HasNodes s)) = true := by
    decide +kernel
  rcases reaches_of_runPasses hpass with ⟨s, hreach, htest⟩
  rcases (Bool.and_eq_true _ _).mp htest with ⟨hpassed, hnodes⟩
  rcases exists_of_passes hpassed with ⟨⟨reply, s'⟩, hwrite, _⟩
  have hnodes : HasNodes s := of_decide_eq_true hnodes
  rcases countable_of_writeFile hreach.wellFormed (by decide) hwrite with ⟨hinode, hcount⟩
  have hfinds : s.writeFile byCodes (fun _ => 0) "f" 10 3000000 ≠
      Except.error Fault.emptyHeap := by
    rw [hwrite]
    intro herror
    cases herror
  exact ⟨s, hreach, hinode, hcount, hnodes,
    (write_sound_iff hreach (fun _ => 0) "f" 10 3000000 hfinds).mpr
      ⟨hinode, hcount, Or.inr hnodes⟩⟩

/-- An empty write just below the last address records a size for which there are no blocks. -/
theorem far_write_records_size :
    ¬ (forall (hash : String -> UInt64) (calls : List Call) (s : MetadataServiceImpl)
      (rands : Nat -> Nat) (name : String) (offset length : UInt64), Reaches hash calls s ->
      s.writeFile hash rands name offset length ≠ Except.error Fault.emptyHeap ->
      WritesWithin hash rands s name offset length ∨
        RejectsWrite hash rands s name offset length) := by
  intro hall
  have hpass : runPasses byCodes [(Request.createFile "f" false).call] (fun s =>
      passes (s.writeFile byCodes (fun _ => 0) "f" 18446744073708503040 0) (fun _ => true) &&
        decide (blockCount byCodes s "f" = 0)) = true := by
    decide +kernel
  rcases reaches_of_runPasses hpass with ⟨s, hreach, htest⟩
  rcases (Bool.and_eq_true _ _).mp htest with ⟨hpassed, hnone⟩
  rcases exists_of_passes hpassed with ⟨⟨reply, s'⟩, hwrite, _⟩
  have hwf := hreach.wellFormed
  rcases hall byCodes _ s (fun _ => 0) "f" 18446744073708503040 0 hreach
    (by rw [hwrite]; intro herror; cases herror) with hwithin | hrejects
  · have hcount := (countable_of_writesWithin hwf hwithin).right.left
    rw [of_decide_eq_true hnone] at hcount
    exact absurd hcount.right (by decide)
  · exact not_rejectsWrite hwf _ _ _ _ hrejects

/-!
# Sizes over a run
-/

/-- A request to write, if it is one, can be rounded up and counted. -/
def CountableCall (hash : String -> UInt64) (s : MetadataServiceImpl) (call : Call) : Prop :=
  forall name offset length, call.request = Request.writeFile name offset length ->
    Countable (blockCount hash s name) offset length

/-- Every recorded size lies within the blocks of its file. -/
def SizesWithin (s : MetadataServiceImpl) : Prop :=
  forall i file, s.inode? i = some file -> SizeWithin file

theorem sizeWithin_make (type : FileType) (inum : UInt64) :
    SizeWithin (Inode.make type inum) :=
  Nat.zero_le _

theorem sizesWithin_init : SizesWithin MetadataServiceImpl.init := by
  intro i file hfile
  rw [inode?_init] at hfile
  split at hfile
  · cases hfile
    exact sizeWithin_make FileType.dir 0
  · cases hfile

/-- Of the actions only the rewriting of sizes can leave the blocks. -/
theorem Acts.sizesWithin {a : Action} (hact : Acts hash s a s') (h : SizesWithin s)
    (hnot : forall inum, a ≠ Action.rewrite inum) : SizesWithin s' := by
  intro i file' hfile'
  unfold SizeWithin
  cases hact.kept_or_grown hnot hfile' with
  | inl hempty =>
      rw [hempty.left]
      exact Nat.zero_le _
  | inr hold =>
      rcases hold with ⟨file, hfile, hkept⟩
      have hwithin : file.size.toNat ≤ file.blockInfoList.length * 2 ^ 20 := h i file hfile
      rw [hkept.size]
      cases hkept.blocks with
      | inl hsame =>
          rw [hsame]
          exact hwithin
      | inr hgrown =>
          rcases hgrown with ⟨info, _, hblocks⟩
          rw [hblocks, List.length_append]
          exact le_trans hwithin (Nat.mul_le_mul_right _ (Nat.le_add_right _ _))

theorem Trace.sizesWithin {acts : List Action} (htrace : Trace hash s acts s')
    (h : SizesWithin s) (hnot : forall inum, Action.rewrite inum ∉ acts) : SizesWithin s' := by
  induction htrace with
  | nil s => exact h
  | @cons s s1 s2 a rest hact _ ih =>
      refine ih (hact.sizesWithin h ?_) (fun inum hmem => hnot inum (List.mem_cons_of_mem a hmem))
      rintro inum rfl
      exact hnot inum List.mem_cons_self

theorem Ensured.sizesWithin {name : String} (hensured : Ensured hash name s s')
    (h : SizesWithin s) : SizesWithin s' := by
  cases hensured with
  | present hold => exact h
  | created hold hact => exact hact.sizesWithin h (fun inum heq => by cases heq)
  | full hold hact => exact hact.sizesWithin h (fun inum heq => by cases heq)

/-- A write that can be counted records a size within the blocks it has made. -/
theorem writeFile_sizesWithin (hwf : WellFormed hash s) (h : SizesWithin s)
    {rands : Nat -> Nat} {name : String} {offset length : UInt64} {reply : Reply}
    (hcount : Countable (blockCount hash s name) offset length)
    (hwrite : s.writeFile hash rands name offset length = Except.ok (reply, s')) :
    SizesWithin s' := by
  rcases writeFile_cases hwf hwrite with ⟨s1, s2, d, file, grown, written, _, hwrote, _⟩
  have hlength := (hwrote.hasInode hwf).right
  have hroom := (hwrote.ensured.wellFormed hwf).blocks.room _ _ hwrote.inode
  have h2 : SizesWithin s2 := by
    refine hwrote.appends.sizesWithin (hwrote.ensured.sizesWithin h) ?_
    intro inum hmem
    cases List.eq_of_mem_replicate hmem
  have henough := (covers_iff_countable hroom offset length).mpr (hlength.symm ▸ hcount)
  rw [← hwrote.grows.length] at henough
  intro i file' hfile'
  rw [hwrote.next, inode?_putInode] at hfile'
  split at hfile'
  · cases hfile'
    have hsize : (offset + length).toNat = offset.toNat + length.toNat :=
      toNat_add_of_lt (by have := hcount.left; omega)
    have hsame : written.blockInfoList.length = grown.blockInfoList.length := by
      simpa using congrArg List.length hwrote.rewrites.places
    show (offset + length).toNat ≤ written.blockInfoList.length * 2 ^ 20
    rw [hsize, hsame]
    unfold blocksUpTo at henough
    omega
  · exact h2 i file' hfile'

theorem serve_sizesWithin (hwf : WellFormed hash s) (h : SizesWithin s) {call : Call}
    {reply : Reply} (hserve : serve hash s call = Except.ok (reply, s'))
    (hcount : CountableCall hash s call) : SizesWithin s' := by
  rcases call with ⟨request, rands⟩
  by_cases hwrite : exists name offset length, request = Request.writeFile name offset length
  · rcases hwrite with ⟨name, offset, length, rfl⟩
    exact writeFile_sizesWithin hwf h (hcount name offset length rfl) hserve
  · rcases serve_trace hwf hserve with ⟨acts, htrace, hallowed⟩
    refine htrace.sizesWithin h ?_
    intro inum hmem
    cases hallowed _ hmem with
    | rewrite name offset length inum => exact hwrite ⟨name, offset, length, rfl⟩

/-- In a run whose writes can all be counted every size lies within the blocks. -/
theorem run_sizesWithin {calls : List Call} (hreach : Reaches hash calls s)
    (hcounts : EveryStep (serve hash) MetadataServiceImpl.init calls (CountableCall hash)) :
    SizesWithin s := by
  rcases hreach with ⟨replies, hrun⟩
  have hall : EveryState (serve hash) MetadataServiceImpl.init calls
      (fun s => WellFormed hash s ∧ SizesWithin s) := by
    refine hcounts.everyState ⟨wellFormed_init, sizesWithin_init⟩ ?_
    intro s1 call reply s2 hinv hcount hserve
    exact ⟨serve_wellFormed hinv.left hserve,
      serve_sizesWithin hinv.left hinv.right hserve hcount⟩
  exact (hall.last hrun).right

/-!
# Reads
-/

/-- Within the file the clip computes the number of bytes up to its end. -/
theorem toNat_clipLength {size offset length : UInt64} (hoffset : offset.toNat ≤ size.toNat)
    (hend : offset.toNat + length.toNat < 2 ^ 64) :
    (clipLength size offset length).toNat = min length.toNat (size.toNat - offset.toNat) := by
  have hsum : (offset + length).toNat = offset.toNat + length.toNat := toNat_add_of_lt hend
  unfold clipLength
  split
  · rename_i hgt
    rw [gt_iff_lt, UInt64.lt_iff_toNat_lt, hsum] at hgt
    rw [UInt64.toNat_sub_of_le _ _ (UInt64.le_iff_toNat_le.mpr hoffset)]
    omega
  · rename_i hle
    rw [gt_iff_lt, UInt64.lt_iff_toNat_lt, hsum] at hle
    omega

/-- Past the file, or past the last address, the clipped range leaves the address space. -/
theorem clipLength_far {size offset length : UInt64}
    (hfar : ¬ (offset.toNat ≤ size.toNat ∧ offset.toNat + length.toNat < 2 ^ 64)) :
    2 ^ 64 ≤ offset.toNat + (clipLength size offset length).toNat := by
  have hoffset := offset.toNat_lt
  have hlength := length.toNat_lt
  have hsize := size.toNat_lt
  have hsum := UInt64.toNat_add offset length
  unfold clipLength
  split
  · rename_i hgt
    rw [gt_iff_lt, UInt64.lt_iff_toNat_lt, hsum] at hgt
    rw [UInt64.toNat_sub]
    omega
  · rename_i hle
    rw [gt_iff_lt, UInt64.lt_iff_toNat_lt, hsum] at hle
    omega

/-- No block list is long enough for a range that leaves the address space. -/
theorem readExtents_far {file : Inode} (hroom : file.blockInfoList.length < 2 ^ 44)
    {offset length : UInt64} (hfar : 2 ^ 64 ≤ offset.toNat + length.toNat) (c : Cursor) :
    readExtents file offset length ≠ Except.ok c := by
  intro hread
  have hoffset := offset.toNat_lt
  rcases (readExtents_tiles hread).right.exists_block (k := length.toNat - 1) (by omega) with
    ⟨info, hinfo⟩
  have hlast := (List.getElem?_eq_some_iff.mp hinfo).choose
  omega

/--
The read completes, and it reads the bytes up to the end of the request or of the
file, whichever comes first.
-/
def ReadsWithin (hash : String -> UInt64) (s : MetadataServiceImpl) (name : String)
    (size offset length : UInt64) : Prop :=
  exists extents bytes s', s.readFile hash name offset length =
      Except.ok (Reply.readFile Status.ok extents bytes, s') ∧
    (offset.toNat ≤ size.toNat ->
      bytes.toNat = min length.toNat (size.toNat - offset.toNat)) ∧
    (size.toNat < offset.toNat -> bytes.toNat = 0) ∧
    (extents.map (fun e => e.length.toNat)).sum = bytes.toNat

/--
After writes that could all be counted, a read of an existing file is right exactly
if it starts within the file and ends below the last address.
-/
theorem read_within_iff {calls : List Call} (hreach : Reaches hash calls s)
    (hcounts : EveryStep (serve hash) MetadataServiceImpl.init calls (CountableCall hash))
    {name : String} {d : Dentry} {file : Inode} (hentry : s.child? (hash name) = some d)
    (hfile : s.inode? d.inum = some file) (offset length : UInt64) :
    ReadsWithin hash s name file.size offset length <->
      (offset.toNat ≤ file.size.toNat ∧ offset.toNat + length.toNat < 2 ^ 64) := by
  have hwf := hreach.wellFormed
  constructor
  · rintro ⟨extents, bytes, s', hread, _⟩
    by_contra hfar
    rcases readFile_cases hwf hread with ⟨d', file', c, hentry', hfile', hextents, _, _⟩
    rw [hentry] at hentry'
    cases hentry'
    rw [hfile] at hfile'
    cases hfile'
    exact readExtents_far (hwf.blocks.room _ _ hfile) (clipLength_far hfar) c hextents
  · rintro ⟨hoffset, hend⟩
    have hclip := toNat_clipLength hoffset hend
    have hwithin := run_sizesWithin hreach hcounts d.inum file hfile
    unfold SizeWithin at hwithin
    have hsize := file.size.toNat_lt
    rcases hwf.directory.root with ⟨root, hroot⟩
    have hfinds : Finds hash s name file :=
      ⟨hwf.unlocked.table, root, d, hroot, (child?_of_root hroot _).symm.trans hentry, hfile⟩
    have hcovers : Covers file.blockInfoList offset (clipLength file.size offset length) := by
      refine ⟨by omega, ?_, fun hunaligned => ?_⟩
      · unfold blocksUpTo
        omega
      · omega
    rcases readFile_of_covers hfinds hcovers with ⟨r, _, hread, hcuts⟩
    exact ⟨r.reply, _, s, hread, fun _ => hclip, fun hlt => absurd hoffset (Nat.not_le.mpr hlt),
      hcuts.total⟩

theorem countableCall_twentyCalls :
    EveryStep (serve byCodes) MetadataServiceImpl.init twentyCalls (CountableCall byCodes) := by
  intro before call after outs s hsplit _ name offset length hrequest
  have hmem : call ∈ twentyCalls := by
    rw [hsplit]
    exact List.mem_append_right _ List.mem_cons_self
  rcases List.mem_cons.mp hmem with rfl | hmem
  · cases hrequest
  · rw [List.mem_singleton.mp hmem] at hrequest
    cases hrequest
    exact ⟨by decide, lt_of_lt_of_le (by decide) (Nat.le_add_left _ _)⟩

/-- A read that asks for more than the file has left. -/
theorem read_within_iff_twenty :
    exists s d file, Reaches byCodes twentyCalls s ∧ s.child? (byCodes "f") = some d ∧
      s.inode? d.inum = some file ∧ file.size = 20 ∧
      ReadsWithin byCodes s "f" file.size 5 100 := by
  have hpass : runPasses byCodes twentyCalls (fun s =>
      decide ((fileOf byCodes s "f").map Inode.size = some 20)) = true := by
    decide +kernel
  rcases reaches_of_runPasses hpass with ⟨s, hreach, htest⟩
  rcases Option.map_eq_some_iff.mp (of_decide_eq_true htest) with ⟨file, hbind, hsize⟩
  rcases Option.bind_eq_some_iff.mp hbind with ⟨d, hentry, hfile⟩
  refine ⟨s, d, file, hreach, hentry, hfile, hsize, ?_⟩
  refine (read_within_iff hreach countableCall_twentyCalls hentry hfile 5 100).mpr ?_
  rw [hsize]
  decide

/-- A read that starts past the end of the file leaves its block list. -/
theorem read_past_end_faults :
    ¬ (forall (hash : String -> UInt64) (calls : List Call) (s : MetadataServiceImpl)
      (name : String) (d : Dentry) (file : Inode) (offset length : UInt64),
      Reaches hash calls s ->
      EveryStep (serve hash) MetadataServiceImpl.init calls (CountableCall hash) ->
      s.child? (hash name) = some d -> s.inode? d.inum = some file ->
      ReadsWithin hash s name file.size offset length) := by
  intro hall
  have hpass : runPasses byCodes twentyCalls (fun s =>
      decide ((fileOf byCodes s "f").map Inode.size = some 20) &&
        !passes (s.readFile byCodes "f" 30 5) (fun _ => true)) = true := by
    decide +kernel
  rcases reaches_of_runPasses hpass with ⟨s, hreach, htest⟩
  rcases (Bool.and_eq_true _ _).mp htest with ⟨hfound, hfails⟩
  rcases Option.map_eq_some_iff.mp (of_decide_eq_true hfound) with ⟨file, hbind, _⟩
  rcases Option.bind_eq_some_iff.mp hbind with ⟨d, hentry, hfile⟩
  rcases hall byCodes twentyCalls s "f" d file 30 5 hreach countableCall_twentyCalls hentry
    hfile with ⟨extents, bytes, s', hread, _⟩
  rw [hread] at hfails
  cases hfails

end Metadata
end SpongeBob
