import SpongeBob.Metadata.Service

/-!
# Addresses and sizes

The places of a file's blocks never change while the file exists: later calls only
append to its block list.  So a read finds the bytes where an earlier write put them,
provided that the size which the last write recorded does not cut it short.
-/

namespace SpongeBob
namespace Metadata

open Foundation
open Fs
open MetadataServiceImpl

variable {hash : String -> UInt64} {s s' : MetadataServiceImpl}

/-!
# What a write leaves alone
-/

/-- Appending to one inode changes no entry and no other inode. -/
theorem Trace.appends_frame {n : Nat} {inum : UInt64}
    (h : Trace hash s (List.replicate n (Action.append inum)) s') :
    (forall key, s'.child? key = s.child? key) ∧
      forall i, i ≠ inum -> s'.inode? i = s.inode? i := by
  induction n generalizing s with
  | zero =>
      cases h
      exact ⟨fun _ => rfl, fun _ _ => rfl⟩
  | succ n ih =>
      rw [List.replicate_succ] at h
      cases h with
      | cons hact hrest =>
          rcases ih hrest with ⟨hentry, hinode⟩
          cases hact with
          | append hsm htop hfile hroom =>
              refine ⟨?_, ?_⟩
              · intro key
                rw [hentry, child?_appended hfile]
              · intro i hi
                rw [hinode i hi, inode?_appended, if_neg (Ne.symm hi)]

section Write

variable {name : String} {offset length : UInt64} {s1 s2 : MetadataServiceImpl}
variable {d : Dentry} {file grown written : Inode} {extents : List Extent}

theorem Wrote.child?_eq
    (h : Wrote hash name offset length s s1 s2 s' d file grown written extents)
    (key : UInt64) : s'.child? key = s1.child? key := by
  rw [h.next, ← h.appends.appends_frame.left key]
  have hchildren : (written.setSize (offset + length)).children = grown.children :=
    h.rewrites.children
  exact child?_putInode h.grownInode hchildren key

theorem Wrote.inode?_eq
    (h : Wrote hash name offset length s s1 s2 s' d file grown written extents)
    (i : UInt64) :
    s'.inode? i =
      if d.inum = i then some (written.setSize (offset + length)) else s1.inode? i := by
  rw [h.next, inode?_putInode]
  split
  · rfl
  · rename_i hne
    exact h.appends.appends_frame.right i (Ne.symm hne)

/-- The written inode continues the old one, as far as places go. -/
theorem Wrote.continues
    (h : Wrote hash name offset length s s1 s2 s' d file grown written extents) :
    Continues file (written.setSize (offset + length)) := by
  have hgrown := h.grows.continues
  rw [Continues] at hgrown ⊢
  rw [show (written.setSize (offset + length)).blockInfoList = written.blockInfoList from rfl,
    h.rewrites.places]
  exact hgrown

/-- The reply lists the extents that a read of the range would list afterwards. -/
theorem Wrote.readExtents
    (h : Wrote hash name offset length s s1 s2 s' d file grown written extents) :
    exists r, readExtents (written.setSize (offset + length)) offset length = Except.ok r ∧
      r.reply = extents := by
  rcases h.reads with ⟨r, hr, hreply⟩
  have hsame : Continues grown (written.setSize (offset + length)) := by
    have hcontinues := h.rewrites.continues
    exact hcontinues
  exact ⟨r, readExtents_continues hsame hr, hreply⟩

/-- A write to a name that has an entry starts from the state it finds. -/
theorem Wrote.of_present
    (h : Wrote hash name offset length s s1 s2 s' d file grown written extents)
    {d0 : Dentry} (hentry : s.child? (hash name) = some d0) : s1 = s ∧ d = d0 := by
  have hd := h.entry
  cases h.ensured with
  | present hold =>
      rw [hentry] at hd
      cases hd
      exact ⟨rfl, rfl⟩
  | created hold hact =>
      rw [hentry] at hold
      cases hold
  | full hold hact =>
      rw [hentry] at hold
      cases hold

end Write

/-!
# Sizes
-/

/-- A read within the file is not cut. -/
theorem clipLength_of_le {size offset length : UInt64}
    (h : offset.toNat + length.toNat ≤ size.toNat) :
    clipLength size offset length = length := by
  have hsize := size.toNat_lt
  rw [clipLength, if_neg]
  rw [gt_iff_lt, UInt64.lt_iff_toNat_lt, toNat_add_of_lt (by omega)]
  omega

/-- Reads within the file that were answered in full are answered the same way. -/
def ReadsKept (hash : String -> UInt64) (s s' : MetadataServiceImpl) (name : String)
    (size : Nat) : Prop :=
  forall o l extents, o.toNat + l.toNat ≤ size ->
    s.readFile hash name o l = Except.ok (Reply.readFile Status.ok extents l, s) ->
    s'.readFile hash name o l = Except.ok (Reply.readFile Status.ok extents l, s')

/--
A completed write to an existing file takes its size to the maximum of the old size
and the end of the write, and keeps the answers to reads, exactly if it does not end
before the end of the file.
-/
theorem write_keeps_iff {calls : List Call} (hreach : Reaches hash calls s) {name : String}
    {offset length : UInt64} {rands : Nat -> Nat} {d : Dentry} {file : Inode}
    {reply : Reply} (hentry : s.child? (hash name) = some d)
    (hfile : s.inode? d.inum = some file)
    (hend : offset.toNat + length.toNat < 2 ^ 64)
    (hwrite : s.writeFile hash rands name offset length = Except.ok (reply, s')) :
    (exists file', s'.child? (hash name) = some d ∧ s'.inode? d.inum = some file' ∧
      file'.size.toNat = max file.size.toNat (offset.toNat + length.toNat)) ∧
        ReadsKept hash s s' name file.size.toNat <->
      file.size.toNat ≤ offset.toNat + length.toNat := by
  have hwf := hreach.wellFormed
  have hwf' := writeFile_wellFormed hwf hwrite
  rcases writeFile_cases hwf hwrite with
    ⟨s1, s2, d0, file0, grown, written, extents, hwrote, _⟩
  rcases hwrote.of_present hentry with ⟨rfl, rfl⟩
  have hsame := hwrote.inode
  rw [hfile] at hsame
  cases hsame
  have hentry' := (hwrote.child?_eq (hash name)).trans hentry
  have hfile' : s'.inode? d0.inum = some (written.setSize (offset + length)) :=
    (hwrote.inode?_eq d0.inum).trans (if_pos rfl)
  have hsize : (written.setSize (offset + length)).size.toNat =
      offset.toNat + length.toNat := toNat_add_of_lt hend
  constructor
  · rintro ⟨⟨file', _, hnew, hmax⟩, _⟩
    rw [hfile'] at hnew
    cases hnew
    rw [hsize] at hmax
    omega
  · intro hle
    refine ⟨⟨_, hentry', hfile', ?_⟩, ?_⟩
    · rw [hsize]
      omega
    · intro o l es hin hread
      rcases readFile_cases hwf hread with ⟨d1, file1, c, hd, hfile1, hextents, hreply, _⟩
      rw [hentry] at hd
      cases hd
      rw [hfile] at hfile1
      cases hfile1
      rw [clipLength_of_le hin] at hextents hreply
      have hzero := (readExtents_tiles hextents).left
      rw [hzero, UInt64.sub_zero] at hreply
      cases hreply
      have hclip : clipLength (written.setSize (offset + length)).size o l = l :=
        clipLength_of_le (by omega)
      have hextents' := readExtents_continues hwrote.continues hextents
      rw [← hclip] at hextents'
      rw [readFile_of_extents hwf' hentry' hfile' hextents', hclip, hzero, UInt64.sub_zero]

/-- A node registers and twenty bytes are written. -/
def twentyCalls : List Call :=
  [(Request.registerMemoryRegion 1 0 16777216).call, (Request.writeFile "f" 0 20).call]

theorem write_keeps_iff_growing :
    exists s s' d file, Reaches byCodes twentyCalls s ∧ s.child? (byCodes "f") = some d ∧
      s.inode? d.inum = some file ∧ file.size = 20 ∧
      (exists file', s'.child? (byCodes "f") = some d ∧ s'.inode? d.inum = some file' ∧
        file'.size.toNat = max file.size.toNat 35) ∧
      ReadsKept byCodes s s' "f" file.size.toNat := by
  have hpass : runPasses byCodes twentyCalls (fun s =>
      passes (s.writeFile byCodes (fun _ => 0) "f" 5 30) (fun _ =>
        decide (((s.child? (byCodes "f")).bind (fun d => s.inode? d.inum)).map Inode.size =
          some 20))) = true := by
    decide +kernel
  rcases reaches_of_runPasses hpass with ⟨s, hreach, htest⟩
  rcases exists_of_passes htest with ⟨⟨reply, s'⟩, hwrite, hfound⟩
  rcases Option.map_eq_some_iff.mp (of_decide_eq_true hfound) with ⟨file, hbind, hsize⟩
  rcases Option.bind_eq_some_iff.mp hbind with ⟨d, hentry, hfile⟩
  have hkept := (write_keeps_iff hreach hentry hfile (by decide) hwrite).mpr
    (by rw [hsize]; decide)
  exact ⟨s, s', d, file, hreach, hentry, hfile, hsize, hkept.left, hkept.right⟩

/-- A later write of ten bytes at the start cuts the file to ten bytes. -/
theorem overwrite_shrinks_file :
    ¬ (forall (hash : String -> UInt64) (calls : List Call) (s s' : MetadataServiceImpl)
      (name : String) (offset length : UInt64) (rands : Nat -> Nat) (d : Dentry)
      (file : Inode) (reply : Reply),
      Reaches hash calls s -> s.child? (hash name) = some d ->
      s.inode? d.inum = some file -> offset.toNat + length.toNat < 2 ^ 64 ->
      s.writeFile hash rands name offset length = Except.ok (reply, s') ->
      (exists file', s'.child? (hash name) = some d ∧ s'.inode? d.inum = some file' ∧
        file'.size.toNat = max file.size.toNat (offset.toNat + length.toNat)) ∧
        ReadsKept hash s s' name file.size.toNat) := by
  intro hall
  have hpass : runPasses byCodes twentyCalls (fun s =>
      passes (s.writeFile byCodes (fun _ => 0) "f" 0 10) (fun result =>
        decide (((s.child? (byCodes "f")).bind (fun d => s.inode? d.inum)).map Inode.size =
            some 20 ∧
          ((result.2.child? (byCodes "f")).bind (fun d => result.2.inode? d.inum)).map
            Inode.size = some 10))) = true := by
    decide +kernel
  rcases reaches_of_runPasses hpass with ⟨s, hreach, htest⟩
  rcases exists_of_passes htest with ⟨⟨reply, s'⟩, hwrite, hfound⟩
  rcases of_decide_eq_true hfound with ⟨hbefore, hafter⟩
  rcases Option.map_eq_some_iff.mp hbefore with ⟨file, hbind, hsize⟩
  rcases Option.bind_eq_some_iff.mp hbind with ⟨d, hentry, hfile⟩
  rcases (hall byCodes twentyCalls s s' "f" 0 10 (fun _ => 0) d file reply hreach hentry
    hfile (by decide) hwrite).left with ⟨file', hentry', hfile', hmax⟩
  simp only [hentry', hfile', Option.bind_some, Option.map_some, Option.some.injEq] at hafter
  rw [hafter, hsize] at hmax
  exact absurd hmax (by decide)

/-!
# Places
-/

/-- The file of a name is still there, and its block list has at most grown. -/
def Keeps (hash : String -> UInt64) (name : String) (d : Dentry) (file : Inode)
    (s : MetadataServiceImpl) : Prop :=
  s.child? (hash name) = some d ∧
    exists file', s.inode? d.inum = some file' ∧ Continues file file'

/-- Only its own removal takes a file's blocks away. -/
theorem Acts.keeps {a : Action} (hact : Acts hash s a s') (hwf : WellFormed hash s)
    {name : String} {d : Dentry} {file : Inode} (h : Keeps hash name d file s)
    (hnot : forall m, a = Action.remove m -> hash m ≠ hash name) :
    Keeps hash name d file s' := by
  rcases h with ⟨hentry, file0, hfile0, hcontinues⟩
  have hne := hwf.directory.notRoot _ _ hentry
  refine ⟨hact.child?_kept hwf hentry hnot, ?_⟩
  cases hact with
  | create hroot habsent hfree htop =>
      rw [inode?_entered, if_neg (Ne.symm hne), inode?_allocated, if_neg]
      · exact ⟨file0, hfile0, hcontinues⟩
      · rintro rfl
        rw [inode?_eq_none_of_free hwf.balanced (MinHeap.top?_mem htop)] at hfile0
        cases hfile0
  | createFull hroot habsent hfull =>
      rw [inode?_entered, if_neg (Ne.symm hne)]
      exact ⟨file0, hfile0, hcontinues⟩
  | append hsm htop hfile hroom =>
      rw [inode?_appended]
      split
      · rename_i heq
        rw [heq, hfile0] at hfile
        cases hfile
        refine ⟨_, rfl, hcontinues.trans ?_⟩
        rw [Continues, Inode.appendFileBlockInfo, List.map_append]
        exact List.prefix_append _ _
      · exact ⟨file0, hfile0, hcontinues⟩
  | rewrite hfile hsame =>
      rw [inode?_putInode]
      split
      · rename_i heq
        rw [heq, hfile0] at hfile
        cases hfile
        exact ⟨_, rfl, hcontinues.trans hsame.continues⟩
      · exact ⟨file0, hfile0, hcontinues⟩
  | @remove m root file1 dentry hroot hdentry hfile =>
      have hdentry' : s.child? (hash m) = some dentry := (child?_of_root hroot _).trans hdentry
      -- Another entry means another inode.
      have hinum : dentry.inum ≠ d.inum := by
        intro heq
        refine hnot m rfl (hwf.directory.injective _ _ _ _ hdentry' hentry heq ?_)
        intro hno
        rw [hno, inode?_noInum hwf.balanced] at hfile
        cases hfile
      rw [inode?_removed, if_neg hinum, if_neg (Ne.symm hne)]
      exact ⟨file0, hfile0, hcontinues⟩
  | unlink hroot hdentry hgone =>
      rw [inode?_unlinked, if_neg (Ne.symm hne)]
      exact ⟨file0, hfile0, hcontinues⟩
  | register => exact ⟨file0, hfile0, hcontinues⟩
  | descriptors hunlocked => exact ⟨file0, hfile0, hcontinues⟩

theorem serve_keepsFile (hwf : WellFormed hash s) {name : String} {d : Dentry}
    {file : Inode} (h : Keeps hash name d file s) {call : Call} {reply : Reply}
    (hnot : forall m, call.request = Request.removeFile m -> hash m ≠ hash name)
    (hserve : serve hash s call = Except.ok (reply, s')) : Keeps hash name d file s' := by
  refine serve_keeps (Keeps hash name d file) ?_ hwf h hserve
  intro s1 a s2 hwf1 h1 hallows hact
  refine hact.keeps hwf1 h1 ?_
  rintro m rfl
  rcases call with ⟨request, rands⟩
  cases hallows
  exact hnot m rfl

theorem run_keepsFile (hwf : WellFormed hash s) {name : String} {d : Dentry}
    {file : Inode} (h : Keeps hash name d file s) {calls : List Call} {replies : List Reply}
    (hnot : forall call, call ∈ calls ->
      forall m, call.request = Request.removeFile m -> hash m ≠ hash name)
    (hrun : runFrom (serve hash) s calls = Except.ok (replies, s')) :
    Keeps hash name d file s' := by
  refine run_induction (motive := fun calls _ s' => (forall call, call ∈ calls ->
    forall m, call.request = Request.removeFile m -> hash m ≠ hash name) ->
      Keeps hash name d file s') (fun _ => h) ?_ hrun hnot
  intro before outs s1 call reply s2 hbefore ih hstep hnot
  have hkeeps := ih (fun c hc => hnot c (List.mem_append_left _ hc))
  exact serve_keepsFile (run_wellFormed hwf hbefore) hkeeps
    (hnot call (List.mem_append_right _ List.mem_cons_self)) hstep

/-- Blocks start at multiples of the block size. -/
theorem Blocks.aligned (hb : Blocks s) {i : UInt64} {file : Inode}
    (hfile : s.inode? i = some file) {info : FileBlockInfo}
    (hinfo : info ∈ file.blockInfoList) : info.startAddr.toNat % 2 ^ 20 = 0 := by
  rw [(hb.block i file info hfile hinfo).startAddr, UInt64.toNat_mul, fileBlockSize_toNat]
  omega

/-- The reply maps the byte to this address on this node, and to no other. -/
def MapsExactly (reply : List Extent) (k : Nat) (server : UInt64) (addr : Nat) : Prop :=
  forall server' addr', MapsByte reply k server' addr' <-> server' = server ∧ addr' = addr

theorem Tiles.mapsExactly {blocks : List FileBlockInfo} {pos len : Nat}
    {es : List Extent} (htiles : Tiles blocks pos 0 es len)
    (haligned : forall info, info ∈ blocks -> info.startAddr.toNat % 2 ^ 20 = 0)
    {k : Nat} (hk : k < len) {info : FileBlockInfo}
    (hinfo : blocks[(pos + k) / 2 ^ 20]? = some info) :
    MapsExactly es k info.serverId (info.startAddr.toNat + (pos + k) % 2 ^ 20) := by
  intro server addr
  rw [htiles.mapsByte_iff haligned (Nat.zero_le k) (by omega), Nat.sub_zero, hinfo]
  constructor
  · rintro ⟨info', heq, hserver, haddr⟩
    cases heq
    exact ⟨hserver, haddr⟩
  · rintro ⟨hserver, haddr⟩
    exact ⟨info, rfl, hserver, haddr⟩

/--
A read maps each byte to the place where an earlier write of a range around it put
it, whatever happened in between short of the removal of the file.
-/
theorem read_maps_written_bytes {before rest : List Call} (hreach : Reaches hash before s)
    {name : String} {offset length o l : UInt64} {rands : Nat -> Nat}
    {extents extents' : List Extent} {bytes bytes' : UInt64} {replies : List Reply}
    {s1 s2 s3 : MetadataServiceImpl}
    (hwrite : s.writeFile hash rands name offset length =
      Except.ok (Reply.writeFile Status.ok extents bytes, s1))
    (hrest : runFrom (serve hash) s1 rest = Except.ok (replies, s2))
    (hnot : forall call, call ∈ rest -> call.request ≠ Request.removeFile name)
    (hfree : CollisionFree hash (name :: names rest))
    (hread : s2.readFile hash name o l =
      Except.ok (Reply.readFile Status.ok extents' bytes', s3))
    (hstart : offset.toNat ≤ o.toNat)
    (hin : o.toNat + l.toNat ≤ offset.toNat + length.toNat)
    (hsize : forall d file, s2.child? (hash name) = some d ->
      s2.inode? d.inum = some file -> o.toNat + l.toNat ≤ file.size.toNat) :
    forall k, k < l.toNat -> exists server addr,
      MapsExactly extents (o.toNat - offset.toNat + k) server addr ∧
        MapsExactly extents' k server addr := by
  intro k hk
  have hwf := hreach.wellFormed
  rcases writeFile_cases hwf hwrite with
    ⟨_, _, d, file, grown, written, extents0, hwrote, hreply⟩
  cases hreply
  have hwf1 := writeFile_wellFormed hwf hwrite
  have hfile1 : s1.inode? d.inum = some (written.setSize (offset + length)) :=
    (hwrote.inode?_eq d.inum).trans (if_pos rfl)
  have hkeeps1 : Keeps hash name d (written.setSize (offset + length)) s1 :=
    ⟨(hwrote.child?_eq _).trans hwrote.entry, _, hfile1, List.prefix_refl _⟩
  -- No call in between removes a name with this hash.
  have hkept : forall call, call ∈ rest ->
      forall m, call.request = Request.removeFile m -> hash m ≠ hash name := by
    intro call hcall m hm heq
    have hmem : m ∈ names rest :=
      List.mem_filterMap.mpr ⟨call, hcall, by rw [hm]; rfl⟩
    have hsame := hfree m (List.mem_cons_of_mem _ hmem) name List.mem_cons_self heq
    exact hnot call hcall (hsame ▸ hm)
  have hwf2 := run_wellFormed hwf1 hrest
  rcases run_keepsFile hwf1 hkeeps1 hkept hrest with ⟨hentry2, file2, hfile2, hcontinues⟩
  rcases readFile_cases hwf2 hread with ⟨d2, file2', c, hd2, hfile2', hextents, hreply, _⟩
  rw [hentry2] at hd2
  cases hd2
  rw [hfile2] at hfile2'
  cases hfile2'
  rw [clipLength_of_le (hsize d file2 hentry2 hfile2)] at hextents hreply
  cases hreply
  rcases hwrote.readExtents with ⟨r, hr, rfl⟩
  have htiles := (readExtents_tiles hr).right
  have htiles' := (readExtents_tiles hextents).right
  have hpos : offset.toNat + (o.toNat - offset.toNat + k) = o.toNat + k := by omega
  have hk' : o.toNat - offset.toNat + k < length.toNat := by omega
  rcases htiles.exists_block hk' with ⟨info, hinfo⟩
  have hexact := htiles.mapsExactly (fun _ hmem => hwf1.blocks.aligned hfile1 hmem) hk' hinfo
  rw [hpos] at hinfo hexact
  rcases hcontinues.getElem? hinfo with ⟨info', hinfo', hplace⟩
  have hexact' := htiles'.mapsExactly (fun _ hmem => hwf2.blocks.aligned hfile2 hmem) hk hinfo'
  simp only [place, Prod.mk.injEq] at hplace
  rw [hplace.left, hplace.right.left] at hexact'
  exact ⟨_, _, hexact, hexact'⟩

/-- What happens between the write and the read in the case below. -/
def betweenCalls : List Call :=
  [(Request.registerMemoryRegion 2 0 8388608).call,
   (Request.writeFile "gg" 7 2000000).call,
   (Request.writeFile "f" 0 4000000).call,
   (Request.createFile "h" true).call,
   (Request.removeFile "gg").call]

theorem read_maps_written_bytes_between :
    exists (s s1 s2 : MetadataServiceImpl) (extents extents' : List Extent)
      (bytes' : UInt64), Reaches byCodes twentyCalls s ∧
      s.writeFile byCodes (fun _ => 0) "f" 10 3000000 =
        Except.ok (Reply.writeFile Status.ok extents 3000000, s1) ∧
      s2.readFile byCodes "f" 100 2000000 =
        Except.ok (Reply.readFile Status.ok extents' bytes', s2) ∧
      forall k, k < 2000000 -> exists server addr,
        MapsExactly extents (90 + k) server addr ∧ MapsExactly extents' k server addr := by
  have hpass : runPasses byCodes twentyCalls (fun s =>
      passes (s.writeFile byCodes (fun _ => 0) "f" 10 3000000) (fun written =>
        passes (runFrom (serve byCodes) written.2 betweenCalls) (fun later =>
          passes (later.2.readFile byCodes "f" 100 2000000) (fun _ =>
            decide (((later.2.child? (byCodes "f")).bind
              (fun d => later.2.inode? d.inum)).map Inode.size = some 4000000))))) =
        true := by
    decide +kernel
  rcases reaches_of_runPasses hpass with ⟨s, hreach, htest⟩
  rcases exists_of_passes htest with ⟨⟨reply, s1⟩, hwrite, htest⟩
  rcases exists_of_passes htest with ⟨⟨replies, s2⟩, hrest, htest⟩
  rcases exists_of_passes htest with ⟨⟨reply', s3⟩, hread, htest⟩
  rcases Option.map_eq_some_iff.mp (of_decide_eq_true htest) with ⟨file, hbind, hsize⟩
  rcases Option.bind_eq_some_iff.mp hbind with ⟨d, hentry, hfile⟩
  have hwf := hreach.wellFormed
  rcases writeFile_cases hwf hwrite with ⟨_, _, _, _, _, _, extents, _, rfl⟩
  have hwf1 := writeFile_wellFormed hwf hwrite
  rcases readFile_cases (run_wellFormed hwf1 hrest) hread with
    ⟨_, _, c, _, _, _, rfl, rfl⟩
  refine ⟨s, s1, s3, extents, c.reply, _, hreach, hwrite, hread, ?_⟩
  refine read_maps_written_bytes hreach hwrite hrest ?_ ?_ hread (by decide) (by decide) ?_
  · decide +kernel
  · decide +kernel
  · intro d' file' hentry' hfile'
    rw [hentry] at hentry'
    cases hentry'
    rw [hfile] at hfile'
    cases hfile'
    rw [hsize]
    decide

end Metadata
end SpongeBob
