import SpongeBob.Metadata.Tiling

/-!
# The recorded lengths of one file

Each block of a file records how much of it has been written.  A write updates the
records of the blocks it touches by three rules: it adds to the block it enters in
the middle, sets the blocks it covers to the block size, and sets the block it ends
in to what it covers of it.  This module gives the records after a write as a
function of those before, and says when they stay within the block size and never
go back.
-/

namespace SpongeBob
namespace Metadata

open Foundation
open Fs

/-!
# Records
-/

/-- The recorded length of a block; 0 past the end of the list. -/
def recordedLength (blocks : List FileBlockInfo) (i : Nat) : Nat :=
  match blocks[i]? with
  | some info => info.length.toNat
  | none => 0

theorem recordedLength_of_some {blocks : List FileBlockInfo} {i : Nat} {info : FileBlockInfo}
    (hinfo : blocks[i]? = some info) : recordedLength blocks i = info.length.toNat := by
  unfold recordedLength
  rw [hinfo]

/-- A block appended with nothing written to it changes no record. -/
theorem recordedLength_concat {info : FileBlockInfo} (hzero : info.length = 0)
    (blocks : List FileBlockInfo) (i : Nat) :
    recordedLength (blocks ++ [info]) i = recordedLength blocks i := by
  unfold recordedLength
  rcases Nat.lt_trichotomy i blocks.length with hlt | heq | hgt
  · rw [List.getElem?_append_left hlt]
  · subst heq
    simp [hzero]
  · have hlength : (blocks ++ [info]).length ≤ i := by
      rw [List.length_append, List.length_singleton]
      omega
    rw [List.getElem?_eq_none hlength, List.getElem?_eq_none hgt.le]

theorem recordedLength_changeLength {file file' : Inode} {i length : UInt64}
    (hchange : file.changeFileBlockInfoLength i length = Except.ok file') (j : Nat) :
    recordedLength file'.blockInfoList j =
      if i.toNat = j then length.toNat else recordedLength file.blockInfoList j := by
  unfold Inode.changeFileBlockInfoLength at hchange
  cases hinfo : file.blockInfoList[i.toNat]? with
  | none =>
      rw [hinfo] at hchange
      cases hchange
  | some info =>
      rw [hinfo] at hchange
      cases hchange
      have hlt := (List.getElem?_eq_some_iff.mp hinfo).choose
      unfold recordedLength
      by_cases hhere : i.toNat = j
      · subst hhere
        rw [List.getElem?_set_self hlt, if_pos rfl]
      · rw [List.getElem?_set_ne hhere, if_neg hhere]

/-!
# The records after a write

As a function of the records before it.  Positions are natural numbers: nothing in
a write that completes wraps around but the sum for the first block.
-/

/-- Blocks from a block boundary on: each is set to what the range covers of it. -/
def recordCovered (recorded : Nat -> Nat) (start length i : Nat) : Nat :=
  if start ≤ i * 2 ^ 20 ∧ i * 2 ^ 20 < start + length then
    min (start + length - i * 2 ^ 20) (2 ^ 20)
  else recorded i

/-- The block that the range enters in the middle: the bytes written to it are added. -/
def recordEntered (recorded : Nat -> Nat) (offset length i : Nat) : Nat :=
  if i * 2 ^ 20 < offset ∧ offset < (i + 1) * 2 ^ 20 then
    (recorded i + min ((i + 1) * 2 ^ 20 - offset) length) % 2 ^ 64
  else recorded i

/-- The recorded length of a block after a write. -/
def recordWritten (recorded : Nat -> Nat) (offset length i : Nat) : Nat :=
  recordCovered (recordEntered recorded offset length) offset length i

theorem writeTail_recorded {file file' : Inode} {c c' : Cursor}
    (hshort : c.toTransfer.toNat < 2 ^ 20)
    (hwrite : writeTail file c = Except.ok (file', c')) (j : Nat) :
    recordedLength file'.blockInfoList j =
      recordCovered (recordedLength file.blockInfoList) (c.startBlock.toNat * 2 ^ 20)
        c.toTransfer.toNat j := by
  unfold writeTail at hwrite
  unfold recordCovered
  split at hwrite
  · rename_i hne
    have hpos := toNat_pos hne
    rcases bind_eq_ok.mp hwrite with ⟨info, _, hrest⟩
    rcases bind_eq_ok.mp hrest with ⟨file1, hchange, hpure⟩
    cases hpure
    rw [recordedLength_changeLength hchange]
    split
    · rename_i heq
      rw [if_pos (by omega)]
      omega
    · rw [if_neg (by omega)]
  · rename_i hzero
    cases hwrite
    rw [not_not.mp hzero, UInt64.toNat_zero, if_neg (by omega)]

/-- The block that a round of the loop sets lies before the rest of the range. -/
theorem recordCovered_next {recorded recorded' : Nat -> Nat} {block length : Nat}
    (hset : forall i, recorded' i = if block = i then 2 ^ 20 else recorded i)
    (hlength : 2 ^ 20 ≤ length) (i : Nat) :
    recordCovered recorded' ((block + 1) * 2 ^ 20) (length - 2 ^ 20) i =
      recordCovered recorded (block * 2 ^ 20) length i := by
  have hend : (block + 1) * 2 ^ 20 + (length - 2 ^ 20) = block * 2 ^ 20 + length := by omega
  unfold recordCovered
  rw [hend, hset]
  by_cases hhere : block = i
  · rw [if_neg (by omega), if_pos hhere, if_pos (by omega)]
    omega
  · have hcond : ((block + 1) * 2 ^ 20 ≤ i * 2 ^ 20 ∧
        i * 2 ^ 20 < block * 2 ^ 20 + length) <->
        (block * 2 ^ 20 ≤ i * 2 ^ 20 ∧ i * 2 ^ 20 < block * 2 ^ 20 + length) := by
      omega
    rw [if_neg hhere]
    simp only [hcond]

/-- Whole blocks and tail, from a cursor at a block boundary. -/
theorem blocks_tail_recorded {file written : Inode} {c c' : Cursor}
    (hindex : c.startBlock.toNat + c.toTransfer.toNat / 2 ^ 20 + 1 < 2 ^ 64)
    (hwrite : (writeBlocks file c >>= fun r => writeTail r.1 r.2) =
      Except.ok (written, c')) (j : Nat) :
    recordedLength written.blockInfoList j =
      recordCovered (recordedLength file.blockInfoList) (c.startBlock.toNat * 2 ^ 20)
        c.toTransfer.toNat j := by
  induction file, c using writeBlocks.induct with
  | case1 file c hlen ih =>
      have hle := UInt64.le_iff_toNat_le.mp hlen
      rw [fileBlockSize_toNat] at hle
      rw [writeBlocks, dif_pos hlen, bind_assoc] at hwrite
      rcases bind_eq_ok.mp hwrite with ⟨info, _, hrest⟩
      rw [bind_assoc] at hrest
      rcases bind_eq_ok.mp hrest with ⟨file1, hchange, hnext⟩
      have hleft : (c.advance (blockExtent c info)).toTransfer.toNat =
          c.toTransfer.toNat - 2 ^ 20 := toNat_sub_fileBlockSize hlen
      have hblock : (c.advance (blockExtent c info)).startBlock.toNat =
          c.startBlock.toNat + 1 :=
        toNat_add_of_lt (show c.startBlock.toNat + 1 < 2 ^ 64 by omega)
      rw [ih info file1 (by omega) hnext, hleft, hblock]
      exact recordCovered_next (recordedLength_changeLength hchange) hle j
  | case2 file c hlen =>
      have hshort : c.toTransfer.toNat < 2 ^ 20 := by
        rw [UInt64.le_iff_toNat_le, fileBlockSize_toNat] at hlen
        omega
      rw [writeBlocks, dif_neg hlen] at hwrite
      exact writeTail_recorded hshort hwrite j

/-- The first block is the only one that a range can enter in the middle. -/
theorem recordEntered_eq (recorded : Nat -> Nat) {offset length : Nat}
    (hunaligned : 0 < offset % 2 ^ 20) (i : Nat) :
    recordEntered recorded offset length i =
      if offset / 2 ^ 20 = i then
        (recorded i + min (2 ^ 20 - offset % 2 ^ 20) length) % 2 ^ 64
      else recorded i := by
  unfold recordEntered
  by_cases hhere : offset / 2 ^ 20 = i
  · have hrest : (i + 1) * 2 ^ 20 - offset = 2 ^ 20 - offset % 2 ^ 20 := by omega
    rw [if_pos (by omega), if_pos hhere, hrest]
  · rw [if_neg (by omega), if_neg hhere]

theorem recordEntered_aligned (recorded : Nat -> Nat) {offset : Nat}
    (haligned : offset % 2 ^ 20 = 0) (length : Nat) :
    recordEntered recorded offset length = recorded := by
  funext i
  unfold recordEntered
  rw [if_neg (by omega)]

/-- After the first block, what is left of the range starts at the next one. -/
theorem recordCovered_rest (recorded : Nat -> Nat) {offset length first : Nat}
    (hunaligned : 0 < offset % 2 ^ 20)
    (hfirst : first = min (2 ^ 20 - offset % 2 ^ 20) length) (i : Nat) :
    recordCovered recorded ((offset / 2 ^ 20 + 1) * 2 ^ 20) (length - first) i =
      recordCovered recorded offset length i := by
  unfold recordCovered
  rcases Nat.le_total (2 ^ 20 - offset % 2 ^ 20) length with hlong | hshort
  · rw [Nat.min_eq_left hlong] at hfirst
    have hend : (offset / 2 ^ 20 + 1) * 2 ^ 20 + (length - first) = offset + length := by
      omega
    have hstart : (offset / 2 ^ 20 + 1) * 2 ^ 20 ≤ i * 2 ^ 20 <-> offset ≤ i * 2 ^ 20 := by
      omega
    rw [hend]
    simp only [hstart]
  · rw [Nat.min_eq_right hshort] at hfirst
    rw [if_neg (by omega), if_neg (by omega)]

theorem writeHead_recorded {file file' : Inode} {offset length : UInt64} {c' : Cursor}
    (hwrite : writeHead file offset (Cursor.start offset length) = Except.ok (file', c')) :
    recordedLength file'.blockInfoList =
      recordEntered (recordedLength file.blockInfoList) offset.toNat length.toNat := by
  unfold writeHead at hwrite
  split at hwrite
  · rename_i hcond
    have hunaligned := unaligned_of_mask hcond
    rcases bind_eq_ok.mp hwrite with ⟨info, hinfo, hrest⟩
    rcases bind_eq_ok.mp hrest with ⟨file1, hchange, hpure⟩
    cases hpure
    have hold := recordedLength_of_some (getBlockInfo_eq_ok.mp hinfo)
    have hblock : (Cursor.start offset length).startBlock.toNat = offset.toNat / 2 ^ 20 :=
      toNat_div_fileBlockSize offset
    rw [hblock] at hold
    funext i
    rw [recordedLength_changeLength hchange, recordEntered_eq _ hunaligned, hblock,
      UInt64.toNat_add, headExtent_length info length hunaligned]
    by_cases hhere : offset.toNat / 2 ^ 20 = i
    · rw [if_pos hhere, if_pos hhere, ← hhere, hold]
    · rw [if_neg hhere, if_neg hhere]
  · rename_i hcond
    cases hwrite
    rw [recordEntered_aligned _ (aligned_of_mask hcond)]

/-- After the first phase the cursor is at a block boundary, with the range ahead of it. -/
theorem readHead_rest {file : Inode} {offset length : UInt64} {c : Cursor}
    (hread : readHead file offset (Cursor.start offset length) = Except.ok c) :
    c.startBlock.toNat + c.toTransfer.toNat / 2 ^ 20 + 1 < 2 ^ 64 ∧
      forall recorded i,
        recordCovered recorded (c.startBlock.toNat * 2 ^ 20) c.toTransfer.toNat i =
          recordCovered recorded offset.toNat length.toNat i := by
  have hoffset := offset.toNat_lt
  have hlength := length.toNat_lt
  unfold readHead at hread
  split at hread
  · rename_i hcond
    have hunaligned := unaligned_of_mask hcond
    rcases bind_eq_ok.mp hread with ⟨info, _, hpure⟩
    cases hpure
    have hbytes := headExtent_length info length hunaligned
    have hle := hbytes.trans_le (Nat.min_le_right _ _)
    rcases advance_start offset hle with ⟨hleft, hnext, _⟩
    rw [hleft, hnext]
    constructor
    · omega
    · intro recorded i
      exact recordCovered_rest recorded hunaligned hbytes i
  · rename_i hcond
    cases hread
    have haligned := aligned_of_mask hcond
    have hblock : (Cursor.start offset length).startBlock.toNat = offset.toNat / 2 ^ 20 :=
      toNat_div_fileBlockSize offset
    have hstart : offset.toNat / 2 ^ 20 * 2 ^ 20 = offset.toNat := by omega
    rw [hblock, hstart]
    constructor
    · show offset.toNat / 2 ^ 20 + length.toNat / 2 ^ 20 + 1 < 2 ^ 64
      omega
    · intro recorded i
      rfl

/-- What the three phases of a write leave in the records. -/
theorem writeExtents_recorded {file written : Inode} {offset length : UInt64} {c' : Cursor}
    (hwrite : writeExtents file offset length = Except.ok (written, c')) (j : Nat) :
    recordedLength written.blockInfoList j =
      recordWritten (recordedLength file.blockInfoList) offset.toNat length.toNat j := by
  unfold writeExtents at hwrite
  rcases bind_eq_ok.mp hwrite with ⟨⟨file1, c1⟩, hhead, hrest⟩
  rcases readHead_rest (writeHead_spec hhead).left with ⟨hindex, hcovered⟩
  rw [blocks_tail_recorded hindex hrest, hcovered, writeHead_recorded hhead]
  rfl

/-!
# Writes that keep the records in order
-/

/--
The bytes written to the block that the range enters in the middle still fit into it,
and the block the range ends in has no record past the end of the range.
-/
def FitsRecords (recorded : Nat -> Nat) (offset length : Nat) : Prop :=
  (offset % 2 ^ 20 ≠ 0 ->
    recorded (offset / 2 ^ 20) + min (2 ^ 20 - offset % 2 ^ 20) length ≤ 2 ^ 20) ∧
  ((offset + length) % 2 ^ 20 ≠ 0 -> offset ≤ (offset + length) / 2 ^ 20 * 2 ^ 20 ->
    recorded ((offset + length) / 2 ^ 20) ≤ (offset + length) % 2 ^ 20)

instance (recorded : Nat -> Nat) (offset length : Nat) :
    Decidable (FitsRecords recorded offset length) :=
  inferInstanceAs (Decidable (_ ∧ _))

theorem fitsRecords_of_written {recorded : Nat -> Nat} {offset length : Nat}
    (hfit : forall i, recorded i ≤ 2 ^ 20)
    (hwritten : forall i, recordWritten recorded offset length i ≤ 2 ^ 20 ∧
      recorded i ≤ recordWritten recorded offset length i) :
    FitsRecords recorded offset length := by
  unfold recordWritten recordCovered recordEntered at hwritten
  constructor
  · intro hunaligned
    have hold := hfit (offset / 2 ^ 20)
    have hnew := (hwritten (offset / 2 ^ 20)).left
    rw [if_neg (by omega), if_pos (by omega), Nat.mod_eq_of_lt (by omega)] at hnew
    omega
  · intro hends hstarts
    have hnew := (hwritten ((offset + length) / 2 ^ 20)).right
    rw [if_pos (by omega)] at hnew
    omega

theorem FitsRecords.written {recorded : Nat -> Nat} {offset length : Nat}
    (h : FitsRecords recorded offset length) (hfit : forall i, recorded i ≤ 2 ^ 20)
    (i : Nat) :
    recordWritten recorded offset length i ≤ 2 ^ 20 ∧
      recorded i ≤ recordWritten recorded offset length i := by
  have hold := hfit i
  unfold recordWritten recordCovered recordEntered
  split
  · rename_i hcovered
    constructor
    · exact Nat.min_le_right _ _
    · by_cases hends : offset + length < (i + 1) * 2 ^ 20
      · have hlast : (offset + length) / 2 ^ 20 = i := by omega
        have htail := h.right (by omega) (by omega)
        rw [hlast] at htail
        omega
      · omega
  · split
    · rename_i hentered
      have hfirst : offset / 2 ^ 20 = i := by omega
      have hhead := h.left (by omega)
      rw [hfirst] at hhead
      rw [Nat.mod_eq_of_lt (by omega)]
      omega
    · exact ⟨hold, le_refl _⟩

end Metadata
end SpongeBob
