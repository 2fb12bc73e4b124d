import SpongeBob.Client.Client
import SpongeBob.Metadata.Progress

/-!
# Writing and reading back

Every transfer of a range starts at the first byte of the user's buffer.  With one
extent that is right; with more, the bytes past the longest extent are never moved.
-/

namespace SpongeBob
namespace Client

open Foundation
open Fs
open Metadata
open MetadataServiceImpl

/-!
# The loops
-/

/-- A byte past the end of every extent is not read. -/
theorem readLoop_untouched {memory : Memory} {blocks : List Extent} {k : Nat}
    (hshort : forall e, e ∈ blocks -> e.length.toNat ≤ k) (localOffset : UInt64)
    (userBuf : Buffer) : readLoop memory blocks localOffset userBuf k = userBuf k := by
  induction blocks generalizing localOffset userBuf with
  | nil => rfl
  | cons e rest ih =>
      have hhead := hshort e List.mem_cons_self
      rw [readLoop, ih (fun e' he' => hshort e' (List.mem_cons_of_mem _ he')), remoteRead,
        if_neg (by omega)]

/-- One extent written and read back. -/
theorem readLoop_writeLoop_single (e : Extent) (memory : Memory) (buf userBuf : Buffer)
    (localOffset localOffset' : UInt64) {k : Nat} (hk : k < e.length.toNat) :
    readLoop (writeLoop buf [e] localOffset memory) [e] localOffset' userBuf k = buf k := by
  show remoteRead 0 _ _ _ (remoteWrite buf 0 _ _ _ memory) userBuf k = buf k
  rw [remoteRead, if_pos ⟨Nat.zero_le k, by omega⟩, remoteWrite,
    if_pos ⟨rfl, by omega, by omega⟩]
  congr 1
  omega

/-!
# Ranges within one block
-/

/-- The range does not reach past the block in which it starts. -/
def InOneBlock (offset length : UInt64) : Prop :=
  offset.toNat % fileBlockSize.toNat + length.toNat ≤ fileBlockSize.toNat

theorem tiles_length_le {blocks : List FileBlockInfo} {pos buf len : Nat}
    {es : List Extent} (htiles : Tiles blocks pos buf es len) {e : Extent} (he : e ∈ es) :
    e.length.toNat ≤ len := by
  induction htiles with
  | nil => cases he
  | cons info hinfo hidx hserver hmem hbuf hpos hfit hfull hrest ih =>
      rcases List.mem_cons.mp he with rfl | htail
      · omega
      · have := ih htail
        omega

/-- A range within one block has one extent. -/
theorem tiles_single {blocks : List FileBlockInfo} {pos buf len : Nat} {es : List Extent}
    (htiles : Tiles blocks pos buf es len) (hlen : 0 < len)
    (hin : pos % 2 ^ 20 + len ≤ 2 ^ 20) : exists e, es = [e] ∧ e.length.toNat = len := by
  cases htiles with
  | nil => omega
  | @cons _ _ len' e es' _ hinfo hidx hserver hmem hbuf hpos hfit hfull hrest =>
      rcases hfull with rfl | hfull
      · cases hrest
        exact ⟨e, rfl, rfl⟩
      · -- The first extent fills the block, so nothing is left.
        have hnil := hrest.eq_nil (by omega) (by omega)
        subst hnil
        cases hrest
        exact ⟨e, rfl, rfl⟩

/-- A range over several blocks has only shorter extents. -/
theorem tiles_shorter {blocks : List FileBlockInfo} {pos buf len : Nat} {es : List Extent}
    (htiles : Tiles blocks pos buf es len) (hout : 2 ^ 20 < pos % 2 ^ 20 + len) {e : Extent}
    (he : e ∈ es) : e.length.toNat < len := by
  cases htiles with
  | nil => cases he
  | @cons _ _ len' e' es' _ hinfo hidx hserver hmem hbuf hpos hfit hfull hrest =>
      rcases hfull with rfl | hfull
      · cases hrest
        omega
      · rcases List.mem_cons.mp he with rfl | htail
        · omega
        · have hle := tiles_length_le hrest htail
          omega

/-!
# The round trip
-/

/-- Whatever is in the buffers and the memory, the bytes written are the bytes read. -/
def RoundTrips (hash : String -> UInt64) (rands : Nat -> Nat) (s : MetadataServiceImpl)
    (name : String) (offset length : UInt64) : Prop :=
  forall (memory : Memory) (buf buf2 : Buffer), exists n c n' buf2' c',
    write hash rands ⟨s, memory⟩ name buf offset length = Except.ok (n, c) ∧
      read hash c name buf2 offset length = Except.ok (n', buf2', c') ∧
      forall k, k < length.toNat -> buf2' k = buf k

variable {hash : String -> UInt64} {s s' : MetadataServiceImpl}

/-- After a write, a read of the same range is answered with the same extents. -/
theorem readFile_after_write (hwf : WellFormed hash s) {rands : Nat -> Nat} {name : String}
    {offset length bytes : UInt64} {extents : List Extent}
    (hend : offset.toNat + length.toNat < 2 ^ 64)
    (hwrite : s.writeFile hash rands name offset length =
      Except.ok (Reply.writeFile Status.ok extents bytes, s')) :
    s'.readFile hash name offset length =
        Except.ok (Reply.readFile Status.ok extents length, s') ∧
      exists blocks, Tiles blocks offset.toNat 0 extents length.toNat := by
  have hwf' := writeFile_wellFormed hwf hwrite
  rcases writeFile_cases hwf hwrite with
    ⟨_, _, d, file, grown, written, extents0, hwrote, hreply⟩
  cases hreply
  rcases hwrote.readExtents with ⟨r, hr, rfl⟩
  have hentry := (hwrote.child?_eq (hash name)).trans hwrote.entry
  have hfile := (hwrote.inode?_eq d.inum).trans (if_pos rfl)
  have hclip : clipLength (written.setSize (offset + length)).size offset length = length := by
    refine clipLength_of_le (le_of_eq ?_)
    exact (toNat_add_of_lt hend).symm
  rcases readExtents_tiles hr with ⟨hzero, htiles⟩
  have hread : readExtents (written.setSize (offset + length)) offset
      (clipLength (written.setSize (offset + length)).size offset length) = Except.ok r := by
    rw [hclip]
    exact hr
  refine ⟨?_, _, htiles⟩
  rw [readFile_of_extents hwf' hentry hfile hread, hclip, hzero, UInt64.sub_zero]

/-- What a client's write and the read after it do, given the extents of the range. -/
theorem read_after_write (hwf : WellFormed hash s) {rands : Nat -> Nat} {name : String}
    {offset length bytes : UInt64} {extents : List Extent}
    (hend : offset.toNat + length.toNat < 2 ^ 64)
    (hwrite : s.writeFile hash rands name offset length =
      Except.ok (Reply.writeFile Status.ok extents bytes, s'))
    (memory : Memory) (buf buf2 : Buffer) :
    write hash rands ⟨s, memory⟩ name buf offset length =
        Except.ok (Word.toInt bytes, ⟨s', writeLoop buf extents 0 memory⟩) ∧
      read hash ⟨s', writeLoop buf extents 0 memory⟩ name buf2 offset length =
        Except.ok (Word.toInt length,
          readLoop (writeLoop buf extents 0 memory) extents 0 buf2,
          ⟨s', writeLoop buf extents 0 memory⟩) := by
  rcases readFile_after_write hwf hend hwrite with ⟨hread, _⟩
  constructor
  · rw [write, hwrite]
    rfl
  · rw [read, hread]
    rfl

/--
A write followed by a read of the same range gives back the bytes, whatever they are,
exactly if the range lies within one block and the write can complete.
-/
theorem roundTrips_iff {calls : List Call} (hreach : Reaches hash calls s)
    {rands : Nat -> Nat} {name : String} {offset length : UInt64}
    (hpos : 1 ≤ length.toNat) (hend : offset.toNat + length.toNat < 2 ^ 64)
    (hfinds : FindsBlocks (s.writeFile hash rands name offset length)) :
    RoundTrips hash rands s name offset length <->
      InOneBlock offset length ∧ HasInode hash s name ∧
        Countable (blockCount hash s name) offset length := by
  have hwf := hreach.wellFormed
  constructor
  · intro htrip
    -- Write ones over a buffer of zeros.
    rcases htrip (fun _ _ => 0) (fun _ => 1) (fun _ => 0) with
      ⟨n, c, n', buf2', c', hw, hr, hsame⟩
    rcases bind_eq_ok.mp hw with ⟨⟨reply, s'⟩, hwrite, _⟩
    refine ⟨?_, countable_of_writeFile hwf hpos hwrite⟩
    rcases writeFile_cases hwf hwrite with ⟨_, _, _, _, _, _, extents, _, rfl⟩
    rcases read_after_write hwf hend hwrite (fun _ _ => 0) (fun _ => 1) (fun _ => 0) with
      ⟨hw', hr'⟩
    have hc := (Prod.mk.inj (Except.ok.inj (hw.symm.trans hw'))).right
    rw [hc] at hr
    have hbuf := (Prod.mk.inj (Prod.mk.inj (Except.ok.inj (hr.symm.trans hr'))).right).left
    rcases readFile_after_write hwf hend hwrite with ⟨_, blocks, htiles⟩
    unfold InOneBlock
    rw [fileBlockSize_toNat]
    by_contra hout
    -- The last byte lies past every extent.
    have hlast := hsame (length.toNat - 1) (by omega)
    rw [hbuf, readLoop_untouched] at hlast
    · cases hlast
    · intro e he
      have hshort := tiles_shorter htiles (by omega) he
      omega
  · rintro ⟨hin, hinode, hcount⟩ memory buf buf2
    rcases writeFile_complete hwf hinode hcount hfinds with ⟨reply, s', hwrite⟩
    rcases writeFile_cases hwf hwrite with ⟨_, _, _, _, _, _, extents, _, rfl⟩
    rcases read_after_write hwf hend hwrite memory buf buf2 with ⟨hw, hr⟩
    refine ⟨_, _, _, _, _, hw, hr, ?_⟩
    rcases readFile_after_write hwf hend hwrite with ⟨_, blocks, htiles⟩
    unfold InOneBlock at hin
    rw [fileBlockSize_toNat] at hin
    rcases tiles_single htiles hpos hin with ⟨e, rfl, hlength⟩
    intro k hk
    exact readLoop_writeLoop_single e memory buf buf2 0 0 (by omega)

/-- A node with sixteen blocks registers. -/
def oneNode : List Call :=
  [(Request.registerMemoryRegion 1 0 16777216).call]

instance (offset length : UInt64) : Decidable (InOneBlock offset length) :=
  inferInstanceAs (Decidable (_ ≤ _))

theorem roundTrips_iff_within :
    exists s, Reaches byCodes oneNode s ∧
      RoundTrips byCodes (fun _ => 0) s "f" 1048570 6 := by
  have hpass : runPasses byCodes oneNode (fun s =>
      passes (s.writeFile byCodes (fun _ => 0) "f" 1048570 6) (fun _ => true)) = true := by
    decide +kernel
  rcases reaches_of_runPasses hpass with ⟨s, hreach, htest⟩
  rcases exists_of_passes htest with ⟨⟨reply, s'⟩, hwrite, _⟩
  refine ⟨s, hreach, (roundTrips_iff hreach (by decide) (by decide) ?_).mpr ⟨by decide, ?_⟩⟩
  · rw [hwrite]
    exact findsBlocks_ok _
  · exact countable_of_writeFile hreach.wellFormed (by decide) hwrite

/-- Of two bytes on either side of a block boundary, the second does not come back. -/
theorem crossing_loses_byte :
    ¬ (forall (hash : String -> UInt64) (calls : List Call) (s : MetadataServiceImpl)
      (rands : Nat -> Nat) (name : String) (offset length : UInt64),
      Reaches hash calls s -> 1 ≤ length.toNat -> offset.toNat + length.toNat < 2 ^ 64 ->
      FindsBlocks (s.writeFile hash rands name offset length) ->
      RoundTrips hash rands s name offset length) := by
  intro hall
  have hpass : runPasses byCodes oneNode (fun s =>
      passes (s.writeFile byCodes (fun _ => 0) "f" 1048575 2) (fun _ =>
        passes (write byCodes (fun _ => 0) ⟨s, fun _ _ => 0⟩ "f" (fun k => if k = 0 then 1 else 2)
          1048575 2) (fun written =>
            passes (read byCodes written.2 "f" (fun _ => 0) 1048575 2) (fun result =>
              decide (result.2.1 1 = 0))))) = true := by
    decide +kernel
  rcases reaches_of_runPasses hpass with ⟨s, hreach, htest⟩
  rcases exists_of_passes htest with ⟨⟨reply, s'⟩, hwrite, htest⟩
  rcases exists_of_passes htest with ⟨⟨n, c⟩, hw, htest⟩
  rcases exists_of_passes htest with ⟨⟨n', buf2', c'⟩, hr, hzero⟩
  have htrip := hall byCodes oneNode s (fun _ => 0) "f" 1048575 2 hreach (by decide)
    (by decide) (hwrite ▸ findsBlocks_ok _)
  rcases htrip (fun _ _ => 0) (fun k => if k = 0 then 1 else 2) (fun _ => 0) with
    ⟨_, _, _, _, _, hw2, hr2, hsame⟩
  rcases Prod.mk.inj (Except.ok.inj (hw.symm.trans hw2)) with ⟨rfl, rfl⟩
  rcases Prod.mk.inj (Except.ok.inj (hr.symm.trans hr2)) with ⟨rfl, hrest⟩
  rcases Prod.mk.inj hrest with ⟨rfl, rfl⟩
  have hone := (hsame 1 (by decide)).symm.trans (of_decide_eq_true hzero)
  exact absurd hone (by decide)

end Client
end SpongeBob
