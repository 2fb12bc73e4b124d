import SpongeBob.Metadata.Addressing
import SpongeBob.Metadata.Records

/-!
# The recorded lengths of blocks

Over a whole run: the records of every file stay within the block size and no write
makes one smaller exactly if every write fits the records it finds.
-/

namespace SpongeBob
namespace Metadata

open Foundation
open Fs
open MetadataServiceImpl

variable {hash : String -> UInt64} {s s' : MetadataServiceImpl}

/-!
# Records over the state
-/

/-- The block list of an inode; empty if there is no such inode. -/
def blocksAt (s : MetadataServiceImpl) (inum : UInt64) : List FileBlockInfo :=
  match s.inode? inum with
  | some file => file.blockInfoList
  | none => []

/-- The block list of the file of a name; empty if the name has no entry. -/
def blocksNamed (hash : String -> UInt64) (s : MetadataServiceImpl) (name : String) :
    List FileBlockInfo :=
  match s.child? (hash name) with
  | some d => blocksAt s d.inum
  | none => []

/-- No block of a file has a recorded length beyond the block size. -/
def LengthsFit (s : MetadataServiceImpl) : Prop :=
  forall (inum : UInt64) (i : Nat) (info : FileBlockInfo),
    (blocksAt s inum)[i]? = some info -> info.length ≤ fileBlockSize

/-- No block of a file has a smaller recorded length afterwards. -/
def LengthsKept (s s' : MetadataServiceImpl) : Prop :=
  forall (inum : UInt64) (i : Nat) (info : FileBlockInfo),
    (blocksAt s inum)[i]? = some info ->
      exists info' : FileBlockInfo, (blocksAt s' inum)[i]? = some info' ∧
        info.length ≤ info'.length

/-- The call, if it is a write, makes no recorded length smaller. -/
def WriteKeepsLengths (s : MetadataServiceImpl) (call : Call) (s' : MetadataServiceImpl) :
    Prop :=
  forall name offset length, call.request = Request.writeFile name offset length ->
    LengthsKept s s'

/-- The call, if it is a write, fits the records of the file it goes to. -/
def FitsRecordsCall (hash : String -> UInt64) (s : MetadataServiceImpl) (call : Call) :
    Prop :=
  match call.request with
  | Request.writeFile name offset length =>
      FitsRecords (recordedLength (blocksNamed hash s name)) offset.toNat length.toNat
  | _ => True

theorem blocksAt_of_some {inum : UInt64} {file : Inode} (hfile : s.inode? inum = some file) :
    blocksAt s inum = file.blockInfoList := by
  unfold blocksAt
  rw [hfile]

theorem blocksAt_of_none {inum : UInt64} (hfile : s.inode? inum = none) :
    blocksAt s inum = [] := by
  unfold blocksAt
  rw [hfile]

theorem lengthsFit_iff :
    LengthsFit s <-> forall inum i, recordedLength (blocksAt s inum) i ≤ 2 ^ 20 := by
  constructor
  · intro hfit inum i
    cases hinfo : (blocksAt s inum)[i]? with
    | none =>
        unfold recordedLength
        rw [hinfo]
        exact Nat.zero_le _
    | some info =>
        rw [recordedLength_of_some hinfo]
        exact UInt64.le_iff_toNat_le.mp (hfit inum i info hinfo)
  · intro hfit inum i info hinfo
    rw [UInt64.le_iff_toNat_le, ← recordedLength_of_some hinfo]
    exact hfit inum i

theorem lengthsKept_iff
    (hlength : forall inum, (blocksAt s inum).length ≤ (blocksAt s' inum).length) :
    LengthsKept s s' <-> forall inum i,
      recordedLength (blocksAt s inum) i ≤ recordedLength (blocksAt s' inum) i := by
  constructor
  · intro hkept inum i
    cases hinfo : (blocksAt s inum)[i]? with
    | none =>
        unfold recordedLength
        rw [hinfo]
        exact Nat.zero_le _
    | some info =>
        rcases hkept inum i info hinfo with ⟨info', hinfo', hle⟩
        rw [recordedLength_of_some hinfo, recordedLength_of_some hinfo']
        exact UInt64.le_iff_toNat_le.mp hle
  · intro hkept inum i info hinfo
    have hlt := (List.getElem?_eq_some_iff.mp hinfo).choose
    have hinfo' := List.getElem?_eq_getElem (lt_of_lt_of_le hlt (hlength inum))
    have hle := hkept inum i
    rw [recordedLength_of_some hinfo, recordedLength_of_some hinfo'] at hle
    exact ⟨_, hinfo', UInt64.le_iff_toNat_le.mpr hle⟩

/-!
# Block lists under the actions
-/

theorem blocksAt_entered {root : Inode} {dentry : Dentry}
    (hroot : s.inode? rootInum = some root) (inum : UInt64) :
    blocksAt (s.entered root dentry) inum = blocksAt s inum := by
  unfold blocksAt
  by_cases heq : rootInum = inum
  · subst heq
    rw [inode?_entered, if_pos rfl, hroot]
  · rw [inode?_entered, if_neg heq]

theorem blocksAt_allocated {type : FileType} {inum : UInt64} (hfree : s.inode? inum = none)
    (i : UInt64) : blocksAt (s.allocated type inum) i = blocksAt s i := by
  unfold blocksAt
  by_cases heq : inum = i
  · subst heq
    rw [inode?_allocated, if_pos rfl, hfree]
    rfl
  · rw [inode?_allocated, if_neg heq]

/-- Making a file for a name changes no block list. -/
theorem Acts.blocksAt_create (hwf : WellFormed hash s) {name : String} {type : FileType}
    {inum : UInt64} (hact : Acts hash s (Action.create name type inum) s') (i : UInt64) :
    blocksAt s' i = blocksAt s i := by
  cases hact with
  | create hroot habsent hfree htop =>
      have hmem := MinHeap.top?_mem htop
      have hne := (free_ne hwf.balanced hwf.directory.root hmem).left
      have hnone := inode?_eq_none_of_free hwf.balanced hmem
      rw [blocksAt_entered, blocksAt_allocated hnone]
      rw [inode?_allocated, if_neg hne, hroot]

theorem blocksAt_appended {key : Int} {sm : SpaceManager} {inum : UInt64} {file : Inode}
    {blockNr : UInt64} :
    blocksAt (s.appended key sm inum file blockNr) inum =
      file.blockInfoList ++ [⟨UInt64.ofInt key, blockNr * fileBlockSize, 0, blockNr⟩] := by
  unfold blocksAt
  rw [inode?_appended, if_pos rfl]
  rfl

/-- Of the actions only the rewriting of lengths can go beyond the block size. -/
theorem Acts.lengthsFit {a : Action} (hact : Acts hash s a s') (hfit : LengthsFit s)
    (hnot : forall inum, a ≠ Action.rewrite inum) : LengthsFit s' := by
  rw [lengthsFit_iff] at hfit ⊢
  intro i j
  cases hfile' : s'.inode? i with
  | none =>
      rw [blocksAt_of_none hfile']
      exact Nat.zero_le _
  | some file' =>
      rw [blocksAt_of_some hfile']
      cases hact.kept_or_grown hnot hfile' with
      | inl hempty =>
          rw [hempty.right]
          exact Nat.zero_le _
      | inr hold =>
          rcases hold with ⟨file, hfile, hkept⟩
          have hle := hfit i j
          rw [blocksAt_of_some hfile] at hle
          cases hkept.blocks with
          | inl hsame =>
              rw [hsame]
              exact hle
          | inr hgrown =>
              rcases hgrown with ⟨info, hzero, hblocks⟩
              rw [hblocks, recordedLength_concat hzero]
              exact hle

/-- A call that is no write keeps the records within the block size. -/
theorem serve_lengthsFit (hwf : WellFormed hash s) {call : Call} {reply : Reply}
    (hserve : serve hash s call = Except.ok (reply, s'))
    (hnot : forall name offset length, call.request ≠ Request.writeFile name offset length)
    (hfit : LengthsFit s) : LengthsFit s' := by
  refine serve_keeps LengthsFit ?_ hwf hfit hserve
  intro s1 a s2 _ hfit1 hallows hact
  apply hact.lengthsFit hfit1
  rintro inum rfl
  rcases call with ⟨request, rands⟩
  cases hallows
  exact hnot _ _ _ rfl

theorem lengthsFit_init : LengthsFit MetadataServiceImpl.init := by
  intro i j info hinfo
  have hnil : blocksAt MetadataServiceImpl.init i = [] := by
    unfold blocksAt
    by_cases hroot : rootInum = i
    · rw [inode?_init, if_pos hroot]
      rfl
    · rw [inode?_init, if_neg hroot]
  rw [hnil] at hinfo
  cases hinfo

/-!
# What a write does to the records
-/

/-- The blocks that a write appends have nothing written to them yet. -/
theorem Trace.appends_recorded {n : Nat} {inum : UInt64}
    (h : Trace hash s (List.replicate n (Action.append inum)) s') (j : Nat) :
    recordedLength (blocksAt s' inum) j = recordedLength (blocksAt s inum) j := by
  induction n generalizing s with
  | zero =>
      cases h
      rfl
  | succ n ih =>
      rw [List.replicate_succ] at h
      cases h with
      | cons hact hrest =>
          rw [ih hrest]
          cases hact with
          | append hsm htop hfile hroom =>
              rw [blocksAt_appended, blocksAt_of_some hfile]
              exact recordedLength_concat rfl _ j

section Write

variable {name : String} {offset length : UInt64} {s1 s2 : MetadataServiceImpl}
variable {d : Dentry} {file grown written : Inode} {extents : List Extent}

/-- Finding or making the file changes no block list, and the name leads to its own. -/
theorem Wrote.blocksAt_ensured (hwf : WellFormed hash s)
    (h : Wrote hash name offset length s s1 s2 s' d file grown written extents) :
    (forall i, blocksAt s1 i = blocksAt s i) ∧ blocksNamed hash s name = blocksAt s d.inum := by
  unfold blocksNamed
  rcases h.ensured.of_inode hwf h.entry h.inode with rfl | hact
  · constructor
    · intro i
      rfl
    · rw [h.entry]
  · constructor
    · exact hact.blocksAt_create hwf
    · cases hact with
      | create hroot habsent hfree htop =>
          have hnone := inode?_eq_none_of_free hwf.balanced (MinHeap.top?_mem htop)
          rw [(child?_of_root hroot _).trans habsent, blocksAt_of_none hnone]

/-- Only the file written to gets other blocks or records. -/
theorem Wrote.blocksAt_eq (hwf : WellFormed hash s)
    (h : Wrote hash name offset length s s1 s2 s' d file grown written extents)
    (i : UInt64) :
    blocksAt s' i = if d.inum = i then written.blockInfoList else blocksAt s i := by
  rw [← (h.blocksAt_ensured hwf).left i]
  unfold blocksAt
  rw [h.inode?_eq]
  by_cases heq : d.inum = i
  · rw [if_pos heq, if_pos heq]
    rfl
  · rw [if_neg heq, if_neg heq]

theorem Wrote.length_blocksAt_le (hwf : WellFormed hash s)
    (h : Wrote hash name offset length s s1 s2 s' d file grown written extents)
    (i : UInt64) : (blocksAt s i).length ≤ (blocksAt s' i).length := by
  rw [h.blocksAt_eq hwf]
  split
  · rename_i heq
    have hle := List.IsPrefix.length_le h.continues
    rw [List.length_map, List.length_map] at hle
    rw [← heq, ← (h.blocksAt_ensured hwf).left, blocksAt_of_some h.inode]
    exact hle
  · exact le_refl _

/-- The records of the file are those of the name, updated by the three phases. -/
theorem Wrote.recorded (hwf : WellFormed hash s)
    (h : Wrote hash name offset length s s1 s2 s' d file grown written extents)
    {c : Cursor} (hwrite : writeExtents grown offset length = Except.ok (written, c))
    (j : Nat) :
    recordedLength written.blockInfoList j =
      recordWritten (recordedLength (blocksNamed hash s name)) offset.toNat length.toNat j := by
  rcases h.blocksAt_ensured hwf with ⟨hensured, hnamed⟩
  have hgrown : recordedLength grown.blockInfoList =
      recordedLength (blocksNamed hash s name) := by
    funext i
    rw [hnamed, ← hensured, ← h.appends.appends_recorded, blocksAt_of_some h.grownInode]
  rw [writeExtents_recorded hwrite, hgrown]

end Write

/-- A completed write keeps all records in order exactly if it fits those of its file. -/
theorem writeFile_lengths_iff (hwf : WellFormed hash s) {rands : Nat -> Nat} {name : String}
    {offset length : UInt64} {reply : Reply} (hfit : LengthsFit s)
    (hwrite : s.writeFile hash rands name offset length = Except.ok (reply, s')) :
    (LengthsFit s' ∧ LengthsKept s s') <->
      FitsRecords (recordedLength (blocksNamed hash s name)) offset.toNat length.toNat := by
  rcases writeFile_phases hwf hwrite with
    ⟨s1, s2, d, file, grown, written, c, hwrote, hphases, _⟩
  have hfit' := lengthsFit_iff.mp hfit
  have hnamed := (hwrote.blocksAt_ensured hwf).right
  have hold : forall i, recordedLength (blocksNamed hash s name) i ≤ 2 ^ 20 := by
    rw [hnamed]
    exact hfit' d.inum
  rw [lengthsFit_iff, lengthsKept_iff (hwrote.length_blocksAt_le hwf)]
  constructor
  · rintro ⟨hsmall, hkept⟩
    apply fitsRecords_of_written hold
    intro i
    have hblocks := hwrote.blocksAt_eq hwf d.inum
    rw [if_pos rfl] at hblocks
    rw [← hwrote.recorded hwf hphases, ← hblocks]
    constructor
    · exact hsmall d.inum i
    · rw [hnamed]
      exact hkept d.inum i
  · intro hfits
    constructor
    · intro inum i
      rw [hwrote.blocksAt_eq hwf]
      split
      · rw [hwrote.recorded hwf hphases]
        exact (hfits.written hold i).left
      · exact hfit' inum i
    · intro inum i
      rw [hwrote.blocksAt_eq hwf]
      split
      · rename_i heq
        rw [hwrote.recorded hwf hphases, ← heq, ← hnamed]
        exact (hfits.written hold i).right
      · exact le_refl _

theorem serve_lengths_iff (hwf : WellFormed hash s) (hfit : LengthsFit s) {call : Call}
    {reply : Reply} (hserve : serve hash s call = Except.ok (reply, s')) :
    (LengthsFit s' ∧ WriteKeepsLengths s call s') <-> FitsRecordsCall hash s call := by
  rcases call with ⟨request, rands⟩
  by_cases hwrite : exists name offset length, request = Request.writeFile name offset length
  · rcases hwrite with ⟨name, offset, length, rfl⟩
    have hiff := writeFile_lengths_iff hwf hfit hserve
    show _ <-> FitsRecords (recordedLength (blocksNamed hash s name)) offset.toNat length.toNat
    rw [← hiff]
    constructor
    · rintro ⟨hsmall, hkept⟩
      exact ⟨hsmall, hkept name offset length rfl⟩
    · rintro ⟨hsmall, hkept⟩
      exact ⟨hsmall, fun _ _ _ _ => hkept⟩
  · have hnot : forall name offset length, request ≠ Request.writeFile name offset length :=
      fun name offset length heq => hwrite ⟨name, offset, length, heq⟩
    constructor
    · intro _
      cases request with
      | writeFile name offset length => exact absurd rfl (hnot name offset length)
      | _ => trivial
    · intro _
      constructor
      · exact serve_lengthsFit hwf hserve hnot hfit
      · intro name offset length heq
        exact absurd heq (hnot name offset length)

/--
In a run, every recorded length stays within the block size and no write makes one
smaller exactly if every write fits the records of the file it goes to.
-/
theorem lengths_ordered_iff_fits {calls : List Call} (hreach : Reaches hash calls s) :
    (EveryState (serve hash) MetadataServiceImpl.init calls LengthsFit ∧
      EveryStep (serve hash) MetadataServiceImpl.init calls (fun s call =>
        forall reply s', serve hash s call = Except.ok (reply, s') ->
          WriteKeepsLengths s call s')) <->
      EveryStep (serve hash) MetadataServiceImpl.init calls (FitsRecordsCall hash) := by
  rcases hreach with ⟨replies, hrun⟩
  refine everyState_and_everyStep_iff (WellFormed hash) wellFormed_init lengthsFit_init
    ?_ ?_ hrun
  · intro s call reply s' hwf hserve
    exact serve_wellFormed hwf hserve
  · intro s call reply s' hwf hfit hserve
    exact serve_lengths_iff hwf hfit hserve

instance (hash : String -> UInt64) (s : MetadataServiceImpl) (call : Call) :
    Decidable (FitsRecordsCall hash s call) :=
  match call with
  | ⟨Request.writeFile _ _ _, _⟩ => inferInstanceAs (Decidable (FitsRecords _ _ _))
  | ⟨Request.readFile _ _ _, _⟩ => isTrue trivial
  | ⟨Request.createFile _ _, _⟩ => isTrue trivial
  | ⟨Request.openFile _, _⟩ => isTrue trivial
  | ⟨Request.closeFile _, _⟩ => isTrue trivial
  | ⟨Request.removeFile _, _⟩ => isTrue trivial
  | ⟨Request.readDirectory _, _⟩ => isTrue trivial
  | ⟨Request.registerMemoryRegion _ _ _, _⟩ => isTrue trivial

/-- A file is begun, continued where it ends, and then written over as a whole. -/
def growingCalls : List Call :=
  [(Request.registerMemoryRegion 1 0 16777216).call,
   (Request.writeFile "a" 0 4096).call,
   (Request.writeFile "a" 4096 8192).call,
   (Request.writeFile "a" 0 3145733).call]

theorem lengths_ordered_iff_fits_growing :
    exists s, Reaches byCodes growingCalls s ∧
      (EveryState (serve byCodes) MetadataServiceImpl.init growingCalls LengthsFit ∧
        EveryStep (serve byCodes) MetadataServiceImpl.init growingCalls (fun s call =>
          forall reply s', serve byCodes s call = Except.ok (reply, s') ->
            WriteKeepsLengths s call s')) := by
  have hpass : runPasses byCodes growingCalls (fun _ => true) = true := by
    decide +kernel
  have hmeet : stepsMeet (serve byCodes)
      (fun s call => decide (FitsRecordsCall byCodes s call)) MetadataServiceImpl.init
      growingCalls = true := by
    decide +kernel
  rcases reaches_of_runPasses hpass with ⟨s, hreach, _⟩
  exists s
  constructor
  · exact hreach
  · exact (lengths_ordered_iff_fits hreach).mpr (everyStep_of_stepsMeet hmeet)

/-- The same range, which starts in the middle of a block, is written twice. -/
def overwriteCalls : List Call :=
  [(Request.registerMemoryRegion 1 0 16777216).call,
   (Request.writeFile "a" 4096 1044480).call,
   (Request.writeFile "a" 4096 1044480).call]

/-- A file of one block has 8192 bytes. -/
def beginCalls : List Call :=
  [(Request.registerMemoryRegion 1 0 16777216).call,
   (Request.writeFile "a" 0 8192).call]

/--
Writing the same range twice records nearly two block sizes for one block, and
writing the first half of a file again halves its record.
-/
theorem overwrite_breaks_lengths :
    (exists s, Reaches byCodes overwriteCalls s ∧
      recordedLength (blocksAt s 1) 0 = 2088960 ∧ ¬ LengthsFit s) ∧
    (exists s reply s', Reaches byCodes beginCalls s ∧
      serve byCodes s (Request.writeFile "a" 0 4096).call = Except.ok (reply, s') ∧
      recordedLength (blocksAt s 1) 0 = 8192 ∧ recordedLength (blocksAt s' 1) 0 = 4096 ∧
      ¬ WriteKeepsLengths s (Request.writeFile "a" 0 4096).call s') := by
  constructor
  · have hpass : runPasses byCodes overwriteCalls
        (fun s => decide (recordedLength (blocksAt s 1) 0 = 2088960)) = true := by
      decide +kernel
    rcases reaches_of_runPasses hpass with ⟨s, hreach, htest⟩
    have hlength := of_decide_eq_true htest
    refine ⟨s, hreach, hlength, ?_⟩
    intro hfit
    have hle := lengthsFit_iff.mp hfit 1 0
    omega
  · have hpass : runPasses byCodes beginCalls (fun s =>
        decide ((blocksAt s 1)[0]?.map FileBlockInfo.length = some 8192) &&
        passes (serve byCodes s (Request.writeFile "a" 0 4096).call) (fun result =>
          decide ((blocksAt result.2 1)[0]?.map FileBlockInfo.length = some 4096))) =
          true := by
      decide +kernel
    rcases reaches_of_runPasses hpass with ⟨s, hreach, htest⟩
    rw [Bool.and_eq_true] at htest
    rcases exists_of_passes htest.right with ⟨⟨reply, s'⟩, hserve, hafter⟩
    rcases Option.map_eq_some_iff.mp (of_decide_eq_true htest.left) with ⟨info, hinfo, hold⟩
    rcases Option.map_eq_some_iff.mp (of_decide_eq_true hafter) with ⟨info', hinfo', hnew⟩
    refine ⟨s, reply, s', hreach, hserve, ?_, ?_, ?_⟩
    · rw [recordedLength_of_some hinfo, hold]
      rfl
    · rw [recordedLength_of_some hinfo', hnew]
      rfl
    · intro hkept
      rcases hkept "a" 0 4096 rfl 1 0 info hinfo with ⟨found, hfound, hle⟩
      cases hfound.symm.trans hinfo'
      rw [hold, hnew] at hle
      exact absurd hle (by decide)

end Metadata
end SpongeBob
