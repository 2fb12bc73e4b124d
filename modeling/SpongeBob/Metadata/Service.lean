import SpongeBob.Metadata.Handlers

/-!
# Whole calls and whole runs

A completed call is a sequence of actions that its request allows.  An invariant
that every allowed action keeps is therefore kept by every run.
-/

namespace SpongeBob
namespace Metadata

open Foundation
open Fs
open MetadataServiceImpl

/-- The actions that the handler of a request can perform. -/
inductive Request.Allows : Request -> Action -> Prop where
  | create (name : String) (isDir : Bool) (inum : UInt64) :
      Allows (Request.createFile name isDir)
        (Action.create name (if isDir then FileType.dir else FileType.regFile) inum)
  | createFull (name : String) (isDir : Bool) :
      Allows (Request.createFile name isDir) (Action.createFull name)
  | openCreate (name : String) (inum : UInt64) :
      Allows (Request.openFile name) (Action.create name FileType.regFile inum)
  | openFull (name : String) : Allows (Request.openFile name) (Action.createFull name)
  | openFile (name : String) : Allows (Request.openFile name) Action.descriptors
  | closeFile (fd : Int64) : Allows (Request.closeFile fd) Action.descriptors
  | writeCreate (name : String) (offset length inum : UInt64) :
      Allows (Request.writeFile name offset length)
        (Action.create name FileType.regFile inum)
  | append (name : String) (offset length inum : UInt64) :
      Allows (Request.writeFile name offset length) (Action.append inum)
  | rewrite (name : String) (offset length inum : UInt64) :
      Allows (Request.writeFile name offset length) (Action.rewrite inum)
  | remove (name : String) : Allows (Request.removeFile name) (Action.remove name)
  | register (nodeid addr length : UInt64) :
      Allows (Request.registerMemoryRegion nodeid addr length)
        (Action.register nodeid addr length)

variable {hash : String -> UInt64} {s s' : MetadataServiceImpl}

/-!
# Traces of calls
-/

theorem Trace.append {s s1 s2 : MetadataServiceImpl} {acts acts' : List Action}
    (h : Trace hash s acts s1) (h' : Trace hash s1 acts' s2) :
    Trace hash s (acts ++ acts') s2 := by
  induction h with
  | nil s => exact h'
  | cons hact _ ih => exact Trace.cons hact (ih h')

theorem Trace.single {a : Action} (hact : Acts hash s a s') : Trace hash s [a] s' :=
  Trace.cons hact (Trace.nil s')

/-- An action that makes an entry without an inode leaves nothing to write to. -/
theorem child?_createFull (hb : s.inodeTable.Balanced 100) {name : String}
    (hact : Acts hash s (Action.createFull name) s') (key : UInt64) :
    s'.child? key =
      if hash name = key then some ⟨name, hash name, noInum⟩ else s.child? key := by
  cases hact with
  | createFull hroot habsent hfull =>
      rw [child?_entered, totalSize_eq hb, child?_of_root hroot]

/-- A write goes to a file that has an inode: an old one, or one created for it. -/
theorem Ensured.of_inode (hwf : WellFormed hash s) {name : String} {d : Dentry}
    {file : Inode} (h : Ensured hash name s s') (hentry : s'.child? (hash name) = some d)
    (hfile : s'.inode? d.inum = some file) :
    s' = s ∨ Acts hash s (Action.create name FileType.regFile d.inum) s' := by
  cases h with
  | present hold => exact Or.inl rfl
  | created hold hact =>
      right
      cases hact with
      | create hroot habsent hfree htop =>
          rw [child?_entered, if_pos rfl] at hentry
          cases hentry
          exact Acts.create hroot habsent hfree htop
  | full hold hact =>
      -- The entry just made points to a number outside the table.
      have hwf' := hact.wellFormed hwf
      rw [child?_createFull hwf.balanced hact, if_pos rfl] at hentry
      cases hentry
      rw [inode?_noInum hwf'.balanced] at hfile
      cases hfile

theorem createFile_trace (hwf : WellFormed hash s) {name : String} {isDir : Bool}
    {reply : Reply} (hcreate : s.createFile hash name isDir = Except.ok (reply, s')) :
    exists acts, Trace hash s acts s' ∧
      forall a, a ∈ acts -> (Request.createFile name isDir).Allows a := by
  rcases createFile_cases hwf hcreate with
    ⟨_, _, _, rfl⟩ | ⟨_, inum, _, hact | ⟨_, hact⟩⟩
  · exact ⟨[], Trace.nil _, fun a ha => by cases ha⟩
  · refine ⟨_, Trace.single hact, fun a ha => ?_⟩
    rw [List.mem_singleton.mp ha]
    exact Request.Allows.create name isDir inum
  · refine ⟨_, Trace.single hact, fun a ha => ?_⟩
    rw [List.mem_singleton.mp ha]
    exact Request.Allows.createFull name isDir

theorem openFile_trace (hwf : WellFormed hash s) {name : String} {reply : Reply}
    (hopen : s.openFile hash name = Except.ok (reply, s')) :
    exists acts, Trace hash s acts s' ∧
      forall a, a ∈ acts -> (Request.openFile name).Allows a := by
  rcases openFile_cases hwf hopen with ⟨s1, fd, fileMap, hensured, halloc, _, rfl⟩
  have hlock := allocateFD_unlocked (hensured.wellFormed hwf).unlocked.descriptors halloc
  have hlast : Acts hash s1 Action.descriptors { s1 with fileMap := fileMap } :=
    Acts.descriptors hlock
  cases hensured with
  | present hentry =>
      refine ⟨_, Trace.single hlast, fun a ha => ?_⟩
      rw [List.mem_singleton.mp ha]
      exact Request.Allows.openFile name
  | @created inum _ hentry hact =>
      refine ⟨_, Trace.cons hact (Trace.single hlast), fun a ha => ?_⟩
      rcases List.mem_cons.mp ha with rfl | ha
      · exact Request.Allows.openCreate name inum
      · rw [List.mem_singleton.mp ha]
        exact Request.Allows.openFile name
  | full hentry hact =>
      refine ⟨_, Trace.cons hact (Trace.single hlast), fun a ha => ?_⟩
      rcases List.mem_cons.mp ha with rfl | ha
      · exact Request.Allows.openFull name
      · rw [List.mem_singleton.mp ha]
        exact Request.Allows.openFile name

theorem closeFile_trace (hwf : WellFormed hash s) {fd : Int64} {reply : Reply}
    (hclose : s.closeFile fd = Except.ok (reply, s')) :
    Trace hash s [Action.descriptors] s' := by
  rcases closeFile_cases hclose with ⟨success, fileMap, hreclaim, _, rfl⟩
  exact Trace.single
    (Acts.descriptors (reclaimFD_unlocked hwf.unlocked.descriptors hreclaim))

section Write

variable {name : String} {offset length : UInt64} {s1 s2 : MetadataServiceImpl}
variable {d : Dentry} {file grown written : Inode} {extents : List Extent}

/-- The last step of a write puts the inode back with new sizes. -/
theorem Wrote.rewrite
    (h : Wrote hash name offset length s s1 s2 s' d file grown written extents) :
    Acts hash s2 (Action.rewrite d.inum) s' := by
  rw [h.next]
  exact Acts.rewrite h.grownInode
    ⟨h.rewrites.inum, h.rewrites.type, h.rewrites.children, h.rewrites.places⟩

/-- After the name is ensured, a write only appends and rewrites. -/
theorem Wrote.trace
    (h : Wrote hash name offset length s s1 s2 s' d file grown written extents) :
    Trace hash s1 (List.replicate
      (newBlocksNum file.getBlockNum (blocksNeeded offset length)) (Action.append d.inum) ++
      [Action.rewrite d.inum]) s' :=
  h.appends.append (Trace.single h.rewrite)

theorem Wrote.allows (name : String) (offset length inum : UInt64) (n : Nat) {a : Action}
    (ha : a ∈ List.replicate n (Action.append inum) ++ [Action.rewrite inum]) :
    (Request.writeFile name offset length).Allows a := by
  rcases List.mem_append.mp ha with happend | hrewrite
  · rw [List.eq_of_mem_replicate happend]
    exact Request.Allows.append name offset length inum
  · rw [List.mem_singleton.mp hrewrite]
    exact Request.Allows.rewrite name offset length inum

theorem writeFile_trace (hwf : WellFormed hash s) {rands : Nat -> Nat} {reply : Reply}
    (hwrite : s.writeFile hash rands name offset length = Except.ok (reply, s')) :
    exists acts, Trace hash s acts s' ∧
      forall a, a ∈ acts -> (Request.writeFile name offset length).Allows a := by
  rcases writeFile_cases hwf hwrite with
    ⟨s1, s2, d, file, grown, written, extents, hwrote, _⟩
  rcases hwrote.ensured.of_inode hwf hwrote.entry hwrote.inode with rfl | hact
  · exact ⟨_, hwrote.trace, fun a ha => Wrote.allows name offset length d.inum _ ha⟩
  · refine ⟨_, Trace.cons hact hwrote.trace, fun a ha => ?_⟩
    rcases List.mem_cons.mp ha with rfl | ha
    · exact Request.Allows.writeCreate name offset length d.inum
    · exact Wrote.allows name offset length d.inum _ ha

theorem writeFile_wellFormed (hwf : WellFormed hash s) {rands : Nat -> Nat} {reply : Reply}
    (hwrite : s.writeFile hash rands name offset length = Except.ok (reply, s')) :
    WellFormed hash s' := by
  rcases writeFile_trace hwf hwrite with ⟨acts, htrace, _⟩
  exact htrace.wellFormed hwf

end Write

theorem serve_register {nodeid addr length : UInt64} {rands : Nat -> Nat} {reply : Reply}
    (hserve : serve hash s ⟨Request.registerMemoryRegion nodeid addr length, rands⟩ =
      Except.ok (reply, s')) :
    s' = (s.registerMemoryRegion nodeid addr length).2 := by
  cases hserve
  rfl

/-- Every completed call is a trace of actions that its request allows. -/
theorem serve_trace (hwf : WellFormed hash s) {call : Call} {reply : Reply}
    (hserve : serve hash s call = Except.ok (reply, s')) :
    exists acts, Trace hash s acts s' ∧ forall a, a ∈ acts -> call.request.Allows a := by
  rcases call with ⟨request, rands⟩
  cases request with
  | readFile name offset length =>
      rcases readFile_cases hwf hserve with ⟨_, _, _, _, _, _, _, rfl⟩
      exact ⟨[], Trace.nil _, fun a ha => by cases ha⟩
  | writeFile name offset length => exact writeFile_trace hwf hserve
  | createFile name isDir => exact createFile_trace hwf hserve
  | openFile name => exact openFile_trace hwf hserve
  | closeFile fd =>
      refine ⟨_, closeFile_trace hwf hserve, fun a ha => ?_⟩
      rw [List.mem_singleton.mp ha]
      exact Request.Allows.closeFile fd
  | removeFile name =>
      rcases removeFile_cases hwf hserve with ⟨_, _, rfl⟩ | ⟨_, _, _, hact⟩
      · exact ⟨[], Trace.nil _, fun a ha => by cases ha⟩
      · refine ⟨_, Trace.single hact, fun a ha => ?_⟩
        rw [List.mem_singleton.mp ha]
        exact Request.Allows.remove name
  | readDirectory path =>
      rcases readDirectory_cases path hwf hserve with ⟨_, _, _, _, _, rfl⟩
      exact ⟨[], Trace.nil _, fun a ha => by cases ha⟩
  | registerMemoryRegion nodeid addr length =>
      cases hserve
      have hact : Acts hash s (Action.register nodeid addr length)
          (s.registerMemoryRegion nodeid addr length).2 := Acts.register
      refine ⟨_, Trace.single hact, fun a ha => ?_⟩
      rw [List.mem_singleton.mp ha]
      exact Request.Allows.register nodeid addr length

/-!
# Invariants of the service
-/

theorem serve_wellFormed (hwf : WellFormed hash s) {call : Call} {reply : Reply}
    (hserve : serve hash s call = Except.ok (reply, s')) : WellFormed hash s' := by
  rcases serve_trace hwf hserve with ⟨acts, htrace, _⟩
  exact htrace.wellFormed hwf

theorem run_wellFormed (hwf : WellFormed hash s) {calls : List Call}
    {replies : List Reply}
    (hrun : runFrom (serve hash) s calls = Except.ok (replies, s')) :
    WellFormed hash s' :=
  run_invariant hwf (fun _ _ _ _ hwf hstep => serve_wellFormed hwf hstep) hrun

theorem Reaches.wellFormed {calls : List Call} (h : Reaches hash calls s) :
    WellFormed hash s := by
  rcases h with ⟨replies, hrun⟩
  exact run_wellFormed wellFormed_init hrun

theorem Reaches.concat {calls : List Call} (h : Reaches hash calls s) {call : Call}
    {reply : Reply} (hserve : serve hash s call = Except.ok (reply, s')) :
    Reaches hash (calls ++ [call]) s' := by
  rcases h with ⟨replies, hrun⟩
  exact ⟨_, runFrom_concat.mpr ⟨replies, s, reply, hrun, hserve, rfl⟩⟩

/-- A property that every allowed action keeps is kept by a completed call. -/
theorem serve_keeps (Inv : MetadataServiceImpl -> Prop) {call : Call}
    (keep : forall s a s', WellFormed hash s -> Inv s -> call.request.Allows a ->
      Acts hash s a s' -> Inv s')
    (hwf : WellFormed hash s) (hinv : Inv s) {reply : Reply}
    (hserve : serve hash s call = Except.ok (reply, s')) : Inv s' := by
  rcases serve_trace hwf hserve with ⟨acts, htrace, hallowed⟩
  clear hserve
  induction htrace with
  | nil s => exact hinv
  | @cons s s1 s2 a rest hact _ ih =>
      refine ih (hact.wellFormed hwf) ?_ (fun b hb => hallowed b (List.mem_cons_of_mem a hb))
      exact keep s a s1 hwf hinv (hallowed a List.mem_cons_self) hact

/-- An entry that the state has is not the one of an absent name. -/
theorem ne_of_absent {root : Inode} {name : String} {key : UInt64} {d : Dentry}
    (hroot : s.inode? rootInum = some root) (habsent : root.getDentry hash name = none)
    (hd : s.child? key = some d) : hash name ≠ key := by
  rintro rfl
  cases hd.symm.trans ((child?_of_root hroot _).trans habsent)

/-- An action leaves alone every entry that it does not remove. -/
theorem Acts.child?_kept {a : Action} (hact : Acts hash s a s') (hwf : WellFormed hash s)
    {key : UInt64} {d : Dentry} (hd : s.child? key = some d)
    (hnot : forall m, a = Action.remove m -> hash m ≠ key) : s'.child? key = some d := by
  cases hact with
  | create hroot habsent hfree htop =>
      rw [child?_entered, if_neg (ne_of_absent hroot habsent hd), ← child?_of_root hroot]
      exact hd
  | createFull hroot habsent hfull =>
      rw [child?_entered, if_neg (ne_of_absent hroot habsent hd), ← child?_of_root hroot]
      exact hd
  | append hsm htop hfile hroom => exact (child?_appended hfile key).trans hd
  | rewrite hfile hsame => exact (child?_putInode hfile hsame.children key).trans hd
  | @remove m root file dentry hroot hdentry hfile =>
      have hne := hwf.directory.notRoot _ _ ((child?_of_root hroot _).trans hdentry)
      rw [child?_removed hne, if_neg (hnot m rfl), ← child?_of_root hroot]
      exact hd
  | @unlink m root dentry hroot hdentry hgone =>
      rw [child?_unlinked, if_neg (hnot m rfl), ← child?_of_root hroot]
      exact hd
  | register => exact hd
  | descriptors hunlocked => exact hd

theorem serve_child?_kept (hwf : WellFormed hash s) {call : Call} {reply : Reply}
    (hserve : serve hash s call = Except.ok (reply, s')) {key : UInt64} {d : Dentry}
    (hd : s.child? key = some d)
    (hnot : forall m, call.request = Request.removeFile m -> hash m ≠ key) :
    s'.child? key = some d := by
  refine serve_keeps (fun s => s.child? key = some d) ?_ hwf hd hserve
  intro s1 a s2 hwf1 h1 hallows hact
  refine hact.child?_kept hwf1 h1 ?_
  rintro m rfl
  rcases call with ⟨request, rands⟩
  cases hallows
  exact hnot m rfl

/-!
# The names that a run uses
-/

def Request.name? : Request -> Option String
  | Request.readFile name _ _ => some name
  | Request.writeFile name _ _ => some name
  | Request.createFile name _ => some name
  | Request.openFile name => some name
  | Request.removeFile name => some name
  | _ => none

def names (calls : List Call) : List String :=
  calls.filterMap (fun call => call.request.name?)

/-- No two of the names have the same hash. -/
def CollisionFree (hash : String -> UInt64) (used : List String) : Prop :=
  forall m, m ∈ used -> forall n, n ∈ used -> hash m = hash n -> m = n

instance (hash : String -> UInt64) (used : List String) :
    Decidable (CollisionFree hash used) :=
  inferInstanceAs (Decidable (forall m, m ∈ used -> _))

theorem collisionFree_of_nodup {used : List String} (h : (used.map hash).Nodup) :
    CollisionFree hash used :=
  fun _ hm _ hn heq => List.inj_on_of_nodup_map h hm hn heq

/-!
# Calls with fixed numbers

For runs on fixed inputs: a hash that adds up the characters of a name, and calls
for which {lit}`rand` always returns 0.
-/

def byCodes (name : String) : UInt64 :=
  UInt64.ofNat (name.toList.map Char.toNat).sum

def Request.call (request : Request) : Call where
  request := request
  rands := fun _ => 0

/-- Whether a run from the start completes in a state that passes a test. -/
def runPasses (hash : String -> UInt64) (calls : List Call)
    (test : MetadataServiceImpl -> Bool) : Bool :=
  passes (runFrom (serve hash) MetadataServiceImpl.init calls) (fun result => test result.2)

theorem reaches_of_runPasses {calls : List Call} {test : MetadataServiceImpl -> Bool}
    (hpass : runPasses hash calls test = true) :
    exists s, Reaches hash calls s ∧ test s = true := by
  rcases exists_of_passes hpass with ⟨⟨replies, s⟩, hrun, htest⟩
  exact ⟨s, ⟨replies, hrun⟩, htest⟩

end Metadata
end SpongeBob
