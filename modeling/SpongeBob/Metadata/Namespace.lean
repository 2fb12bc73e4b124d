import SpongeBob.Foundation.TreeMap
import SpongeBob.Metadata.Addressing
import SpongeBob.Metadata.Consistency

/-!
# The namespace as a finite map

What the directory is for: a finite map from names to what is known about a file.
While hashes do not collide and an inode is free for every creation, the server
refines this map, step by step.
-/

namespace SpongeBob
namespace Metadata

open Foundation
open Fs
open MetadataServiceImpl

/-!
# The abstract namespace
-/

/-- What the namespace knows about a file. -/
structure FileInfo where
  inum : UInt64
  isDir : Bool
  size : UInt64
deriving DecidableEq, Repr

/-- A finite map from the live names to their files. -/
abbrev Namespace := Std.ExtTreeMap String FileInfo

namespace Namespace

/-- A number that a new file can get. -/
structure Fresh (ns : Namespace) (inum : UInt64) : Prop where
  notRoot : inum ≠ rootInum
  unused : forall (name : String) (info : FileInfo), ns[name]? = some info -> info.inum ≠ inum

/-- The name is live, or becomes the name of a new empty regular file. -/
inductive Ensures (ns : Namespace) (name : String) : Namespace -> FileInfo -> Prop where
  | live {info : FileInfo} (hlive : ns[name]? = some info) : Ensures ns name ns info
  | created {inum : UInt64} (habsent : ns[name]? = none) (hfresh : Fresh ns inum) :
      Ensures ns name (ns.insert name ⟨inum, false, 0⟩) ⟨inum, false, 0⟩

/-- The list has exactly one item for every live name. -/
structure Listing (ns : Namespace) (infos : List DentryInfo) : Prop where
  once : (infos.map DentryInfo.name).Nodup
  complete : forall info, info ∈ infos <->
    ns[info.name]? = some ⟨info.inum, info.isDir, info.size⟩

/-- What each request does to the namespace, and what it replies. -/
inductive Step (ns : Namespace) : Request -> Reply -> Namespace -> Prop where
  | createLive {name : String} {isDir : Bool} {info : FileInfo}
      (hlive : ns[name]? = some info) :
      Step ns (Request.createFile name isDir) (Reply.createFile Status.ok info.inum) ns
  | create {name : String} {isDir : Bool} {inum : UInt64}
      (habsent : ns[name]? = none) (hfresh : Fresh ns inum) :
      Step ns (Request.createFile name isDir) (Reply.createFile Status.ok inum)
        (ns.insert name ⟨inum, isDir, 0⟩)
  | openFile {name : String} {fd : Int} {ns' : Namespace} {info : FileInfo}
      (hensures : Ensures ns name ns' info) :
      Step ns (Request.openFile name) (Reply.openFile Status.ok fd) ns'
  | writeFile {name : String} {offset length : UInt64} {extents : List Extent}
      {ns' : Namespace} {info : FileInfo} (hensures : Ensures ns name ns' info) :
      Step ns (Request.writeFile name offset length)
        (Reply.writeFile Status.ok extents length)
        (ns'.insert name { info with size := offset + length })
  | removeLive {name : String} {info : FileInfo} (hlive : ns[name]? = some info) :
      Step ns (Request.removeFile name) (Reply.removeFile Status.ok true) (ns.erase name)
  | removeAbsent {name : String} (habsent : ns[name]? = none) :
      Step ns (Request.removeFile name) (Reply.removeFile Status.ok false) ns
  | readDirectory {path : String} {infos : List DentryInfo} (hlisting : Listing ns infos) :
      Step ns (Request.readDirectory path)
        (Reply.readDirectory Status.ok (dotEntries ++ infos)) ns
  | readFile {name : String} {offset length bytes : UInt64} {extents : List Extent}
      {info : FileInfo} (hlive : ns[name]? = some info) :
      Step ns (Request.readFile name offset length)
        (Reply.readFile Status.ok extents bytes) ns
  | closeFile {fd : Int64} {success : Bool} :
      Step ns (Request.closeFile fd) (Reply.closeFile Status.ok success) ns
  | registerMemoryRegion {nodeid addr length : UInt64} :
      Step ns (Request.registerMemoryRegion nodeid addr length)
        (Reply.registerMemoryRegion Status.ok) ns

/-- The steps for a list of calls and their replies, from the empty namespace on. -/
inductive Run : List Call -> List Reply -> Namespace -> Prop where
  | start : Run [] [] ∅
  | step {calls : List Call} {replies : List Reply} {ns ns' : Namespace} {call : Call}
      {reply : Reply} (hrun : Run calls replies ns)
      (hstep : Step ns call.request reply ns') :
      Run (calls ++ [call]) (replies ++ [reply]) ns'

end Namespace

/-!
# Looking names up in the server
-/

/-- What the server knows about a name. -/
def lookup (hash : String -> UInt64) (s : MetadataServiceImpl) (name : String) :
    Option FileInfo :=
  (s.child? (hash name)).bind (fun d =>
    if d.name = name then
      (s.inode? d.inum).map (fun file => ⟨d.inum, file.isDir, file.size⟩)
    else none)

variable {hash : String -> UInt64} {s s' : MetadataServiceImpl}

theorem lookup_of_entry {name : String} {d : Dentry} {file : Inode}
    (hentry : s.child? (hash name) = some d) (hname : d.name = name)
    (hfile : s.inode? d.inum = some file) :
    lookup hash s name = some ⟨d.inum, file.isDir, file.size⟩ := by
  simp [lookup, hentry, hname, hfile]

theorem lookup_of_absent {name : String} (hentry : s.child? (hash name) = none) :
    lookup hash s name = none := by
  simp [lookup, hentry]

theorem lookup_of_twin {name : String} {d : Dentry}
    (hentry : s.child? (hash name) = some d) (hname : d.name ≠ name) :
    lookup hash s name = none := by
  simp [lookup, hentry, hname]

theorem lookup_eq_some {name : String} {info : FileInfo} :
    lookup hash s name = some info <->
      exists d file, s.child? (hash name) = some d ∧ d.name = name ∧
        s.inode? d.inum = some file ∧ info = ⟨d.inum, file.isDir, file.size⟩ := by
  constructor
  · intro h
    rcases Option.bind_eq_some_iff.mp h with ⟨d, hentry, h⟩
    split at h
    · rename_i hname
      rcases Option.map_eq_some_iff.mp h with ⟨file, hfile, rfl⟩
      exact ⟨d, file, hentry, hname, hfile, rfl⟩
    · cases h
  · rintro ⟨d, file, hentry, hname, hfile, rfl⟩
    exact lookup_of_entry hentry hname hfile

/-- The lookup of a name reads nothing but its entry and the inode of the entry. -/
theorem lookup_congr {name : String}
    (hentry : s'.child? (hash name) = s.child? (hash name))
    (hinode : forall d, s.child? (hash name) = some d -> d.name = name ->
      s'.inode? d.inum = s.inode? d.inum) :
    lookup hash s' name = lookup hash s name := by
  unfold lookup
  rw [hentry]
  cases hd : s.child? (hash name) with
  | none => rfl
  | some d =>
      simp only [Option.bind_some]
      split
      · rename_i hname
        rw [hinode d hd hname]
      · rfl

theorem lookup_create (hwf : WellFormed hash s) {name : String} {type : FileType}
    {inum : UInt64} (hact : Acts hash s (Action.create name type inum) s') (n : String) :
    lookup hash s' n =
      if name = n then some ⟨inum, decide (type = FileType.dir), 0⟩
      else lookup hash s n := by
  cases hact with
  | @create _ _ _ root hroot habsent hfree htop =>
      have hne := (free_ne hwf.balanced hwf.directory.root (MinHeap.top?_mem htop)).left
      have hfresh := inode?_eq_none_of_free hwf.balanced (MinHeap.top?_mem htop)
      have hentry : forall key,
          ((s.allocated type inum).entered root ⟨name, hash name, inum⟩).child? key =
            if hash name = key then some ⟨name, hash name, inum⟩ else s.child? key := by
        intro key
        rw [child?_entered, ← child?_of_root hroot]
      by_cases hn : name = n
      · subst hn
        rw [if_pos rfl]
        have hfile : ((s.allocated type inum).entered root ⟨name, hash name, inum⟩).inode? inum =
            some (Inode.make type inum) := by
          rw [inode?_entered, if_neg (Ne.symm hne), inode?_allocated, if_pos rfl]
        exact lookup_of_entry ((hentry _).trans (if_pos rfl)) rfl hfile
      · rw [if_neg hn]
        by_cases hkey : hash name = hash n
        · -- The name has a twin now, and had no entry before.
          rw [lookup_of_twin ((hentry _).trans (if_pos hkey)) hn, lookup_of_absent]
          rw [← hkey]
          exact (child?_of_root hroot _).trans habsent
        · refine lookup_congr ((hentry _).trans (if_neg hkey)) ?_
          intro d hd _
          rw [inode?_entered, if_neg (Ne.symm (hwf.directory.notRoot _ _ hd)),
            inode?_allocated, if_neg]
          -- An entry with a free number would dangle.
          intro heq
          rcases hwf.directory.target _ _ hd with hno | ⟨file, hfile⟩
          · exact (free_ne hwf.balanced hwf.directory.root (MinHeap.top?_mem htop)).right
              (heq.trans hno)
          · rw [← heq, hfresh] at hfile
            cases hfile

theorem lookup_remove (hwf : WellFormed hash s) (hnone : NoneDangling s) {name : String}
    (hact : Acts hash s (Action.remove name) s') {d : Dentry}
    (hentry : s.child? (hash name) = some d) (hname : d.name = name) (n : String) :
    lookup hash s' n = if name = n then none else lookup hash s n := by
  -- Both ways of removing erase the entry and touch no inode but its own.
  have heffect : (forall key, s'.child? key = if hash name = key then none else s.child? key) ∧
      forall i, i ≠ rootInum -> i ≠ d.inum -> s'.inode? i = s.inode? i := by
    cases hact with
    | remove hroot hdentry hfile =>
        have hd := (child?_of_root hroot _).trans hdentry
        have hsame := hd
        rw [hentry] at hsame
        cases hsame
        refine ⟨?_, ?_⟩
        · intro key
          rw [child?_removed (hwf.directory.notRoot _ _ hd), ← child?_of_root hroot]
        · intro i hri hi
          rw [inode?_removed, if_neg (Ne.symm hi), if_neg (Ne.symm hri)]
    | unlink hroot hdentry hgone =>
        refine ⟨?_, ?_⟩
        · intro key
          rw [child?_unlinked, ← child?_of_root hroot]
        · intro i hri _
          rw [inode?_unlinked, if_neg (Ne.symm hri)]
  by_cases hn : name = n
  · subst hn
    rw [if_pos rfl]
    exact lookup_of_absent ((heffect.left _).trans (if_pos rfl))
  · rw [if_neg hn]
    by_cases hkey : hash name = hash n
    · rw [lookup_of_absent ((heffect.left _).trans (if_pos hkey)),
        lookup_of_twin (hkey ▸ hentry) (hname ▸ hn)]
    · refine lookup_congr ((heffect.left _).trans (if_neg hkey)) ?_
      intro d' hd' _
      refine heffect.right _ (hwf.directory.notRoot _ _ hd') ?_
      intro heq
      exact hkey (hwf.directory.injective _ _ _ _ hentry hd' heq.symm (hnone _ _ hentry))

section Write

variable {name : String} {offset length : UInt64} {s1 s2 : MetadataServiceImpl}
variable {d : Dentry} {file grown written : Inode} {extents : List Extent}

/-- A write keeps the type of its file. -/
theorem Wrote.isDir_eq
    (h : Wrote hash name offset length s s1 s2 s' d file grown written extents) :
    (written.setSize (offset + length)).isDir = file.isDir := by
  have htype : written.type = file.type := by
    rw [h.rewrites.type]
    rcases h.grows with ⟨new, _, rfl⟩
    rfl
  simp only [Inode.isDir, Inode.setSize, htype]

theorem lookup_write
    (h : Wrote hash name offset length s s1 s2 s' d file grown written extents)
    (hwf : WellFormed hash s1) (hname : d.name = name) (n : String) :
    lookup hash s' n =
      if name = n then some ⟨d.inum, file.isDir, offset + length⟩
      else lookup hash s1 n := by
  have hentry := h.child?_eq
  by_cases hn : name = n
  · subst hn
    rw [if_pos rfl, ← h.isDir_eq]
    exact lookup_of_entry ((hentry _).trans h.entry) hname
      ((h.inode?_eq d.inum).trans (if_pos rfl))
  · rw [if_neg hn]
    refine lookup_congr (hentry _) ?_
    intro d' hd' hname'
    rw [h.inode?_eq, if_neg]
    -- One inode has one entry, and that one has another name.
    intro heq
    have hlive : d.inum ≠ noInum := by
      intro hno
      have hfile := h.inode
      rw [hno, inode?_noInum hwf.balanced] at hfile
      cases hfile
    have hkey := hwf.directory.injective _ _ _ _ h.entry hd' heq hlive
    rw [← hkey, h.entry] at hd'
    cases hd'
    exact hn (hname.symm.trans hname')

end Write

/-!
# Counting
-/

/-- The number of live names: the entries of the root directory. -/
def liveCount (s : MetadataServiceImpl) : Nat :=
  match s.inode? rootInum with
  | some root => root.children.size
  | none => 0

theorem liveCount_of_root {root : Inode} (hroot : s.inode? rootInum = some root) :
    liveCount s = root.children.size := by
  rw [liveCount, hroot]

/-- Every inode but the root's has its entry. -/
def Counted (s : MetadataServiceImpl) : Prop :=
  s.inodeTable.curSize.toNat = liveCount s + 1

theorem liveCount_putInode {inum : UInt64} {file file' : Inode}
    (hfile : s.inode? inum = some file) (hchildren : file'.children = file.children) :
    liveCount (s.putInode inum file') = liveCount s := by
  unfold liveCount
  rw [inode?_putInode]
  by_cases hroot : inum = rootInum
  · subst hroot
    rw [if_pos rfl, hfile]
    exact congrArg Std.ExtTreeMap.size hchildren
  · rw [if_neg hroot]

theorem liveCount_appended {key : Int} {sm : SpaceManager} {inum : UInt64} {file : Inode}
    {blockNr : UInt64} (hfile : s.inode? inum = some file) :
    liveCount (s.appended key sm inum file blockNr) = liveCount s := by
  unfold liveCount
  rw [inode?_appended]
  by_cases hroot : inum = rootInum
  · subst hroot
    rw [if_pos rfl, hfile]
    rfl
  · rw [if_neg hroot]

theorem Acts.counted {a : Action} (hact : Acts hash s a s') (hwf : WellFormed hash s)
    (hnone : NoneDangling s) (h : Counted s)
    (hnot : forall name, a ≠ Action.createFull name) : Counted s' := by
  have hbound : s.inodeTable.curSize.toNat ≤ 100 := by
    rw [hwf.balanced.curSize]
    exact hwf.balanced.bounded
  cases hact with
  | @create name type inum root hroot habsent hfree htop =>
      have hsize : liveCount ((s.allocated type inum).entered root ⟨name, hash name, inum⟩) =
          liveCount s + 1 := by
        rw [liveCount_of_root ((inode?_entered root _ _).trans (if_pos rfl)),
          liveCount_of_root hroot]
        refine TreeMap.size_insert_of_not_mem ?_
        intro hmem
        rw [Std.ExtTreeMap.mem_iff_isSome_getElem?,
          show root.children[hash name]? = none from habsent] at hmem
        cases hmem
      rw [Counted, hsize, ← h]
      show (s.inodeTable.curSize + 1).toNat = _
      rw [toNat_add_of_lt (show _ + 1 < _ by omega)]
      rfl
  | createFull hroot habsent hfull => exact absurd rfl (hnot _)
  | append hsm htop hfile hroom =>
      rw [Counted, liveCount_appended hfile]
      exact h
  | rewrite hfile hsame =>
      rw [Counted, liveCount_putInode hfile hsame.children]
      exact h
  | @remove name root file dentry hroot hdentry hfile =>
      have hd := (child?_of_root hroot _).trans hdentry
      have hne := hwf.directory.notRoot _ _ hd
      have hsize : liveCount (s.removed root (hash name) dentry.inum file) + 1 =
          liveCount s := by
        rw [liveCount_of_root ((inode?_removed _).trans ((if_neg hne).trans (if_pos rfl))),
          liveCount_of_root hroot]
        exact TreeMap.size_erase_of_mem (Std.ExtTreeMap.mem_iff_isSome_getElem?.mpr
          (Option.isSome_of_eq_some hdentry))
      have hpos : 1 ≤ s.inodeTable.curSize := by
        rw [UInt64.le_iff_toNat_le, h]
        show 1 ≤ liveCount s + 1
        omega
      rw [Counted, hsize]
      show (s.inodeTable.curSize - 1).toNat = _
      rw [UInt64.toNat_sub_of_le _ _ hpos, h]
      rfl
  | unlink hroot hdentry hgone =>
      -- No entry is without an inode.
      have hd := (child?_of_root hroot _).trans hdentry
      rcases hwf.directory.target _ _ hd with hno | ⟨file, hfile⟩
      · exact absurd hno (hnone _ _ hd)
      · rw [hgone] at hfile
        cases hfile
  | register => exact h
  | descriptors hunlocked => exact h

/-!
# Listings
-/

theorem Lists.eq {d : Dentry} {info info' : DentryInfo} (h : Lists s d info)
    (h' : Lists s d info') : info = info' := by
  rcases h with ⟨file, hfile, rfl⟩
  rcases h' with ⟨file', hfile', rfl⟩
  rw [hfile] at hfile'
  cases hfile'
  rfl

theorem mem_listed_iff {ds : List Dentry} {infos : List DentryInfo}
    (h : List.Forall₂ (Lists s) ds infos) (info : DentryInfo) :
    info ∈ infos <-> exists d, d ∈ ds ∧ Lists s d info := by
  induction h with
  | nil => simp
  | @cons d info' ds infos hhead _ ih =>
      rw [List.mem_cons, ih]
      constructor
      · rintro (rfl | ⟨d', hd', hlists⟩)
        · exact ⟨d, List.mem_cons_self, hhead⟩
        · exact ⟨d', List.mem_cons_of_mem _ hd', hlists⟩
      · rintro ⟨d', hd', hlists⟩
        rcases List.mem_cons.mp hd' with rfl | hrest
        · exact Or.inl (hlists.eq hhead)
        · exact Or.inr ⟨d', hrest, hlists⟩

theorem names_listed {ds : List Dentry} {infos : List DentryInfo}
    (h : List.Forall₂ (Lists s) ds infos) :
    infos.map DentryInfo.name = ds.map Dentry.name := by
  induction h with
  | nil => rfl
  | cons hhead _ ih =>
      rcases hhead with ⟨file, _, rfl⟩
      rw [List.map_cons, List.map_cons, ih]

theorem nodup_names (hwf : WellFormed hash s) {root : Inode}
    (hroot : s.inode? rootInum = some root) : (root.getDentryMap.map Dentry.name).Nodup := by
  refine TreeMap.nodup_map_values hash ?_
  intro key d hd
  exact (hwf.directory.key key d ((child?_of_root hroot key).trans hd)).right

theorem mem_getDentryMap (hwf : WellFormed hash s) {root : Inode}
    (hroot : s.inode? rootInum = some root) {d : Dentry} :
    d ∈ root.getDentryMap <-> s.child? (hash d.name) = some d := by
  rw [Inode.getDentryMap, TreeMap.mem_values]
  constructor
  · rintro ⟨key, hd⟩
    have hentry : s.child? key = some d := (child?_of_root hroot key).trans hd
    rw [(hwf.directory.key key d hentry).right]
    exact hentry
  · intro hentry
    exact ⟨hash d.name, (child?_of_root hroot _).symm.trans hentry⟩

/-- What the loop of {lit}`ReadDirectory` collects is a listing of the namespace. -/
theorem listing_of_lists (hwf : WellFormed hash s) {root : Inode}
    (hroot : s.inode? rootInum = some root) {infos : List DentryInfo}
    (hlists : List.Forall₂ (Lists s) root.getDentryMap infos) {ns : Namespace}
    (hlookup : forall n : String, ns[n]? = lookup hash s n) :
    Namespace.Listing ns infos := by
  refine ⟨?_, ?_⟩
  · rw [names_listed hlists]
    exact nodup_names hwf hroot
  · intro info
    rw [mem_listed_iff hlists, hlookup, lookup_eq_some]
    constructor
    · rintro ⟨d, hd, file, hfile, rfl⟩
      exact ⟨d, file, (mem_getDentryMap hwf hroot).mp hd, rfl, hfile, rfl⟩
    · rintro ⟨d, file, hentry, hname, hfile, heq⟩
      rcases info with ⟨name, isDir, inum, size⟩
      cases heq
      cases hname
      exact ⟨d, (mem_getDentryMap hwf hroot).mpr hentry, file, hfile, rfl⟩

/-!
# Refinement
-/

/-- What else holds of the server while it refines the namespace. -/
structure Tidy (used : List String) (s : MetadataServiceImpl) : Prop where
  used : forall key d, s.child? key = some d -> d.name ∈ used
  noneDangling : NoneDangling s
  counted : Counted s

theorem Request.Allows.create_name {request : Request} {name : String} {type : FileType}
    {inum : UInt64} (h : request.Allows (Action.create name type inum)) :
    request.name? = some name := by
  cases h <;> rfl

theorem serve_tidy {used : List String} {call : Call} (hwf : WellFormed hash s)
    (h : Tidy used s) (hused : forall n, call.request.name? = some n -> n ∈ used)
    (hroom : ¬ CreatesWhenFull hash s call) {reply : Reply}
    (hserve : serve hash s call = Except.ok (reply, s')) : Tidy used s' := by
  refine serve_keeps_of_room (Tidy used) ?_ hwf h hroom hserve
  intro s1 a s2 hwf1 h1 hallows hnot hact
  refine ⟨?_, hact.noneDangling hwf1 h1.noneDangling hnot,
    hact.counted hwf1 h1.noneDangling h1.counted hnot⟩
  intro key d hd
  rcases hact.child?_cases hwf1 hd with
    hold | ⟨name, type, inum, rfl, rfl, _⟩ | ⟨name, hfull, _⟩
  · exact h1.used key d hold
  · exact hused name hallows.create_name
  · exact absurd hfull (hnot name)

/-- With fewer than 99 live names there is a free inode. -/
theorem not_createsWhenFull (hwf : WellFormed hash s) (hcounted : Counted s) {call : Call}
    (hlive : forall name, call.request.creates? = some name ->
      s.child? (hash name) = none -> liveCount s < 99) :
    ¬ CreatesWhenFull hash s call := by
  rintro ⟨hfull, name, hcreates, habsent⟩
  have hlt := hlive name hcreates habsent
  have htotal := hwf.balanced.totalSize
  rw [← hfull, hcounted] at htotal
  omega

section Simulation

variable {used : List String} {ns : Namespace}

/-- An entry under the hash of a name in use is the entry of that name. -/
theorem Tidy.live (h : Tidy used s) (hwf : WellFormed hash s)
    (hfree : CollisionFree hash used)
    (hlookup : forall n : String, ns[n]? = lookup hash s n) {name : String}
    (hname : name ∈ used) {d : Dentry} (hentry : s.child? (hash name) = some d) :
    d.name = name ∧ exists file, s.inode? d.inum = some file ∧
      ns[name]? = some ⟨d.inum, file.isDir, file.size⟩ := by
  have hsame : d.name = name :=
    hfree d.name (h.used _ d hentry) name hname (hwf.directory.key _ d hentry).right
  rcases hwf.directory.target _ d hentry with hno | ⟨file, hfile⟩
  · exact absurd hno (h.noneDangling _ d hentry)
  · exact ⟨hsame, file, hfile, (hlookup name).trans (lookup_of_entry hentry hsame hfile)⟩

theorem fresh_of_create (hwf : WellFormed hash s)
    (hlookup : forall n : String, ns[n]? = lookup hash s n) {name : String}
    {type : FileType} {inum : UInt64}
    (hact : Acts hash s (Action.create name type inum) s') : Namespace.Fresh ns inum := by
  cases hact with
  | create hroot habsent hfree htop =>
      have hmem := MinHeap.top?_mem htop
      refine ⟨(free_ne hwf.balanced hwf.directory.root hmem).left, ?_⟩
      intro n info hinfo heq
      rw [hlookup] at hinfo
      rcases lookup_eq_some.mp hinfo with ⟨d, file, _, _, hfile, rfl⟩
      rw [show d.inum = inum from heq, inode?_eq_none_of_free hwf.balanced hmem] at hfile
      cases hfile

/-- Inserting what the lookup of one name changed to. -/
theorem lookup_insert {name : String} {info : FileInfo}
    (hlookup : forall n : String, ns[n]? = lookup hash s n)
    (hnew : forall n, lookup hash s' n = if name = n then some info else lookup hash s n)
    (n : String) : (ns.insert name info)[n]? = lookup hash s' n := by
  rw [hnew, ← hlookup]
  simp [Std.ExtTreeMap.getElem?_insert]

theorem createFile_refines (hwf : WellFormed hash s) (htidy : Tidy used s)
    (hfree : CollisionFree hash used)
    (hlookup : forall n : String, ns[n]? = lookup hash s n) {name : String} {isDir : Bool}
    {rands : Nat -> Nat} (hname : name ∈ used)
    (hroom : ¬ CreatesWhenFull hash s ⟨Request.createFile name isDir, rands⟩)
    {reply : Reply} (hcreate : s.createFile hash name isDir = Except.ok (reply, s')) :
    exists ns', Namespace.Step ns (Request.createFile name isDir) reply ns' ∧
      forall n : String, ns'[n]? = lookup hash s' n := by
  rcases createFile_cases hwf hcreate with
    ⟨d, hentry, rfl, rfl⟩ | ⟨habsent, inum, rfl, hact | ⟨_, hact⟩⟩
  · rcases htidy.live hwf hfree hlookup hname hentry with ⟨_, file, _, hlive⟩
    exact ⟨ns, Namespace.Step.createLive hlive, hlookup⟩
  · have hns : ns[name]? = none := (hlookup name).trans (lookup_of_absent habsent)
    refine ⟨_, Namespace.Step.create hns (fresh_of_create hwf hlookup hact),
      lookup_insert hlookup ?_⟩
    have hnew := lookup_create hwf hact
    have hdir : decide ((if isDir then FileType.dir else FileType.regFile) = FileType.dir) =
        isDir := by
      cases isDir <;> rfl
    rw [hdir] at hnew
    exact hnew
  · exact absurd ⟨hact.createFull_full.left, name, rfl, hact.createFull_full.right⟩ hroom

theorem openFile_refines (hwf : WellFormed hash s) (htidy : Tidy used s)
    (hfree : CollisionFree hash used)
    (hlookup : forall n : String, ns[n]? = lookup hash s n) {name : String}
    {rands : Nat -> Nat} (hname : name ∈ used)
    (hroom : ¬ CreatesWhenFull hash s ⟨Request.openFile name, rands⟩)
    {reply : Reply} (hopen : s.openFile hash name = Except.ok (reply, s')) :
    exists ns', Namespace.Step ns (Request.openFile name) reply ns' ∧
      forall n : String, ns'[n]? = lookup hash s' n := by
  rcases openFile_cases hwf hopen with ⟨s1, fd, fileMap, hensured, _, rfl, rfl⟩
  cases hensured with
  | present hentry =>
      rcases htidy.live hwf hfree hlookup hname hentry with ⟨_, file, _, hlive⟩
      exact ⟨ns, Namespace.Step.openFile (Namespace.Ensures.live hlive), hlookup⟩
  | created habsent hact =>
      have hns : ns[name]? = none := (hlookup name).trans (lookup_of_absent habsent)
      refine ⟨_, Namespace.Step.openFile
        (Namespace.Ensures.created hns (fresh_of_create hwf hlookup hact)), ?_⟩
      exact lookup_insert hlookup (lookup_create hwf hact)
  | full habsent hact =>
      exact absurd ⟨hact.createFull_full.left, name, rfl, hact.createFull_full.right⟩ hroom

theorem writeFile_refines (hwf : WellFormed hash s) (htidy : Tidy used s)
    (hfree : CollisionFree hash used)
    (hlookup : forall n : String, ns[n]? = lookup hash s n) {name : String}
    {offset length : UInt64} {rands : Nat -> Nat} (hname : name ∈ used) {reply : Reply}
    (hwrite : s.writeFile hash rands name offset length = Except.ok (reply, s')) :
    exists ns', Namespace.Step ns (Request.writeFile name offset length) reply ns' ∧
      forall n : String, ns'[n]? = lookup hash s' n := by
  rcases writeFile_cases hwf hwrite with
    ⟨s1, s2, d, file, grown, written, extents, hwrote, rfl⟩
  rcases hwrote.ensured.of_inode hwf hwrote.entry hwrote.inode with rfl | hact
  · rcases htidy.live hwf hfree hlookup hname hwrote.entry with ⟨hsame, file', hfile', hlive⟩
    rw [hwrote.inode] at hfile'
    cases hfile'
    exact ⟨_, Namespace.Step.writeFile (Namespace.Ensures.live hlive),
      lookup_insert hlookup (lookup_write hwrote hwf hsame)⟩
  · have hns : ns[name]? = none := by
      refine (hlookup name).trans (lookup_of_absent ?_)
      cases hact with
      | create hroot habsent _ _ => exact (child?_of_root hroot _).trans habsent
    have hnew := lookup_create hwf hact
    have hlookup1 := lookup_insert hlookup hnew
    -- The entry that the write finds is the one just made.
    have hsame : d.name = name := by
      by_contra hne
      have htwin := lookup_of_twin hwrote.entry hne
      rw [hnew, if_pos rfl] at htwin
      cases htwin
    have hdir : file.isDir = false := by
      have hfound := lookup_of_entry hwrote.entry hsame hwrote.inode
      rw [hnew, if_pos rfl] at hfound
      exact (congrArg FileInfo.isDir (Option.some.inj hfound)).symm
    have hlast := lookup_write hwrote (hact.wellFormed hwf) hsame
    rw [hdir] at hlast
    exact ⟨_, Namespace.Step.writeFile
      (Namespace.Ensures.created hns (fresh_of_create hwf hlookup hact)),
      lookup_insert hlookup1 hlast⟩

theorem removeFile_refines (hwf : WellFormed hash s) (htidy : Tidy used s)
    (hfree : CollisionFree hash used)
    (hlookup : forall n : String, ns[n]? = lookup hash s n) {name : String}
    (hname : name ∈ used) {reply : Reply}
    (hremove : s.removeFile hash name = Except.ok (reply, s')) :
    exists ns', Namespace.Step ns (Request.removeFile name) reply ns' ∧
      forall n : String, ns'[n]? = lookup hash s' n := by
  rcases removeFile_cases hwf hremove with ⟨habsent, rfl, rfl⟩ | ⟨d, hentry, rfl, hact⟩
  · exact ⟨ns, Namespace.Step.removeAbsent
      ((hlookup name).trans (lookup_of_absent habsent)), hlookup⟩
  · rcases htidy.live hwf hfree hlookup hname hentry with ⟨hsame, file, _, hlive⟩
    refine ⟨_, Namespace.Step.removeLive hlive, ?_⟩
    intro n
    rw [lookup_remove hwf htidy.noneDangling hact hentry hsame, ← hlookup]
    simp [Std.ExtTreeMap.getElem?_erase]

/-- One call of the server is one step of the namespace. -/
theorem serve_refines (hwf : WellFormed hash s) (htidy : Tidy used s)
    (hfree : CollisionFree hash used)
    (hlookup : forall n : String, ns[n]? = lookup hash s n) {call : Call}
    (hused : forall n, call.request.name? = some n -> n ∈ used)
    (hroom : ¬ CreatesWhenFull hash s call) {reply : Reply}
    (hserve : serve hash s call = Except.ok (reply, s')) :
    exists ns', Namespace.Step ns call.request reply ns' ∧
      forall n : String, ns'[n]? = lookup hash s' n := by
  rcases call with ⟨request, rands⟩
  cases request with
  | readFile name offset length =>
      rcases readFile_cases hwf hserve with ⟨d, file, c, hentry, _, _, rfl, rfl⟩
      rcases htidy.live hwf hfree hlookup (hused name rfl) hentry with ⟨_, _, _, hlive⟩
      exact ⟨ns, Namespace.Step.readFile hlive, hlookup⟩
  | writeFile name offset length =>
      exact writeFile_refines hwf htidy hfree hlookup (hused name rfl) hserve
  | createFile name isDir =>
      exact createFile_refines hwf htidy hfree hlookup (hused name rfl) hroom hserve
  | openFile name =>
      exact openFile_refines hwf htidy hfree hlookup (hused name rfl) hroom hserve
  | closeFile fd =>
      rcases closeFile_cases hserve with ⟨success, fileMap, _, rfl, rfl⟩
      exact ⟨ns, Namespace.Step.closeFile, hlookup⟩
  | removeFile name =>
      exact removeFile_refines hwf htidy hfree hlookup (hused name rfl) hserve
  | readDirectory path =>
      rcases readDirectory_cases path hwf hserve with
        ⟨root, infos, hroot, hlists, rfl, rfl⟩
      exact ⟨ns, Namespace.Step.readDirectory (listing_of_lists hwf hroot hlists hlookup),
        hlookup⟩
  | registerMemoryRegion nodeid addr length =>
      cases hserve
      exact ⟨ns, Namespace.Step.registerMemoryRegion, hlookup⟩

end Simulation

/-!
# Runs
-/

theorem liveCount_init : liveCount MetadataServiceImpl.init = 0 := by
  rw [liveCount_of_root ((inode?_init rootInum).trans (if_pos rfl))]
  exact Std.ExtTreeMap.size_empty

theorem tidy_init (used : List String) : Tidy used MetadataServiceImpl.init := by
  refine ⟨?_, noneDangling_init, ?_⟩
  · intro key d hd
    rw [child?_init] at hd
    cases hd
  · rw [Counted, liveCount_init]
    rfl

/-- The namespace has as many live names as the directory has entries. -/
theorem size_eq_liveCount (hwf : WellFormed hash s) (hnone : NoneDangling s)
    {ns : Namespace} (hlookup : forall n : String, ns[n]? = lookup hash s n) :
    ns.size = liveCount s := by
  rcases hwf.directory.root with ⟨root, hroot⟩
  have hmem : forall n, n ∈ ns.keys <-> n ∈ root.getDentryMap.map Dentry.name := by
    intro n
    rw [Std.ExtTreeMap.mem_keys, Std.ExtTreeMap.mem_iff_isSome_getElem?,
      Option.isSome_iff_exists, List.mem_map]
    constructor
    · rintro ⟨info, hinfo⟩
      rw [hlookup] at hinfo
      rcases lookup_eq_some.mp hinfo with ⟨d, _, hentry, rfl, _⟩
      exact ⟨d, (mem_getDentryMap hwf hroot).mpr hentry, rfl⟩
    · rintro ⟨d, hd, rfl⟩
      have hentry := (mem_getDentryMap hwf hroot).mp hd
      rcases hwf.directory.target _ d hentry with hno | ⟨file, hfile⟩
      · exact absurd hno (hnone _ d hentry)
      · exact ⟨_, (hlookup _).trans (lookup_of_entry hentry rfl hfile)⟩
  have hperm : ns.keys.Perm (root.getDentryMap.map Dentry.name) :=
    (List.perm_ext_iff_of_nodup Std.ExtTreeMap.nodup_keys (nodup_names hwf hroot)).mpr hmem
  have hlength := hperm.length_eq
  rw [Std.ExtTreeMap.length_keys, List.length_map, Inode.getDentryMap, List.length_map,
    Std.ExtTreeMap.length_toList] at hlength
  rw [hlength, liveCount_of_root hroot]

/-- Every creation of the run happens while fewer than 99 names are live. -/
def CreatesInTime (hash : String -> UInt64) (calls : List Call) : Prop :=
  EveryStep (serve hash) MetadataServiceImpl.init calls (fun s call =>
    forall name, call.request.creates? = some name -> s.child? (hash name) = none ->
      liveCount s < 99)

/--
Over every run whose names do not collide and whose creations happen in time, the
server refines the finite map of names: its replies are replies of the map, and its
directory is the map that results.
-/
theorem namespace_refined {calls : List Call} {replies : List Reply}
    (hrun : runFrom (serve hash) MetadataServiceImpl.init calls = Except.ok (replies, s))
    (hfree : CollisionFree hash (names calls)) (hlive : CreatesInTime hash calls) :
    exists ns : Namespace, Namespace.Run calls replies ns ∧
      (forall name : String, ns[name]? = lookup hash s name) ∧ ns.size = liveCount s := by
  have hsim : exists ns : Namespace, Namespace.Run calls replies ns ∧
      (forall name : String, ns[name]? = lookup hash s name) ∧ Tidy (names calls) s := by
    refine run_induction (motive := fun before outs s => (exists after, calls = before ++ after) ->
      exists ns : Namespace, Namespace.Run before outs ns ∧
        (forall name : String, ns[name]? = lookup hash s name) ∧ Tidy (names calls) s)
      ?_ ?_ hrun ⟨[], (List.append_nil _).symm⟩
    · intro _
      refine ⟨∅, Namespace.Run.start, ?_, tidy_init _⟩
      intro name
      rw [lookup_of_absent (child?_init _)]
      exact Std.ExtTreeMap.getElem?_empty
    · rintro before outs s1 call reply s2 hbefore ih hstep ⟨after, hsplit⟩
      have hsplit' : calls = before ++ call :: after := by
        simpa using hsplit
      rcases ih ⟨call :: after, hsplit'⟩ with ⟨ns, hns, hlookup, htidy⟩
      have hwf := run_wellFormed wellFormed_init hbefore
      have hused : forall n, call.request.name? = some n -> n ∈ names calls := by
        intro n hn
        refine List.mem_filterMap.mpr ⟨call, ?_, hn⟩
        rw [hsplit']
        exact List.mem_append_right _ List.mem_cons_self
      have hroom : ¬ CreatesWhenFull hash s1 call :=
        not_createsWhenFull hwf htidy.counted
          (hlive before call after outs s1 hsplit' hbefore)
      rcases serve_refines hwf htidy hfree hlookup hused hroom hstep with
        ⟨ns', hstep', hlookup'⟩
      exact ⟨ns', Namespace.Run.step hns hstep', hlookup',
        serve_tidy hwf htidy hused hroom hstep⟩
  rcases hsim with ⟨ns, hns, hlookup, htidy⟩
  have hwf := run_wellFormed wellFormed_init hrun
  exact ⟨ns, hns, hlookup, size_eq_liveCount hwf htidy.noneDangling hlookup⟩

/-- Files come and go by all three ways of creating them, and are listed. -/
def listCalls : List Call :=
  [(Request.registerMemoryRegion 1 0 16777216).call,
   (Request.createFile "a" true).call,
   (Request.openFile "b").call,
   (Request.writeFile "c" 3 40).call,
   (Request.writeFile "b" 0 7).call,
   (Request.removeFile "a").call,
   (Request.createFile "d" false).call,
   (Request.createFile "b" true).call,
   (Request.removeFile "a").call,
   (Request.readDirectory "/").call]

theorem namespace_refined_list :
    exists (replies : List Reply) (s : MetadataServiceImpl) (ns : Namespace),
      runFrom (serve byCodes) MetadataServiceImpl.init listCalls =
        Except.ok (replies, s) ∧ liveCount s = 3 ∧ Namespace.Run listCalls replies ns ∧
      (forall name : String, ns[name]? = lookup byCodes s name) ∧
      ns.size = liveCount s := by
  have hpass : passes (runFrom (serve byCodes) MetadataServiceImpl.init listCalls)
      (fun result => decide (liveCount result.2 = 3)) = true := by
    decide +kernel
  have hsteps : stepsPass (serve byCodes) (fun s => decide (liveCount s < 99))
      MetadataServiceImpl.init listCalls = true := by
    decide +kernel
  rcases exists_of_passes hpass with ⟨⟨replies, s⟩, hrun, hcount⟩
  have hlive : CreatesInTime byCodes listCalls := by
    intro before call after outs s1 hsplit hbefore _ _ _
    exact of_decide_eq_true (everyStep_of_stepsPass hsteps before call after outs s1 hsplit hbefore)
  rcases namespace_refined hrun (by decide +kernel) hlive with ⟨ns, hns, hlookup, hsize⟩
  exact ⟨replies, s, ns, hrun, of_decide_eq_true hcount, hns, hlookup, hsize⟩

end Metadata
end SpongeBob
