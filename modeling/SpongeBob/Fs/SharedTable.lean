import SpongeBob.Foundation.Run
import SpongeBob.Fs.InodeTable

/-!
# The inode table under concurrent callers

{lit}`GetInode` checks under the lock that a number is in the table, releases the
lock, and only then reads {lit}`table_[inum]`, which enters a null pointer for a
number that is no longer there.  The callers interleave: each section under the
lock is one step, and each such access is one more.
-/

namespace SpongeBob
namespace Fs

open Foundation

/-- The table with entries that can be null, and the accesses that are still to come. -/
structure SharedTable where
  totalSize : UInt64
  curSize : UInt64
  tableLock : Bool
  table : Std.ExtTreeMap UInt64 (Option Inode)
  freeList : MinHeap UInt64
  pending : List UInt64

namespace SharedTable

/-!
# Steps
-/

inductive Event where
  | allocateFreeInode (type : FileType)
  | deleteInode (inum : UInt64)
  /-- The section of {lit}`GetInode` under the lock. -/
  | getInode (inum : UInt64)
  /-- The access after it, for one of the calls that have come so far. -/
  | access (call : Nat)

inductive Outcome where
  | allocated (inum : UInt64)
  | deleted (success : Bool)
  | checked (found : Bool)
  | pointer (inode : Option Inode)
  | idle

/-- A table that no caller is looking at. -/
def ofTable (t : InodeTable) : SharedTable where
  totalSize := t.totalSize
  curSize := t.curSize
  tableLock := t.tableLock
  table := t.table.map (fun _ inode => some inode)
  freeList := t.freeList
  pending := []

def make (size : UInt64) : SharedTable :=
  ofTable (InodeTable.make size)

def step (s : SharedTable) : Event -> Except Fault (Outcome × SharedTable)
  | Event.allocateFreeInode type => do
      let _ ← lock s.tableLock
      if s.curSize = s.totalSize then
        pure (Outcome.allocated (s.totalSize + 1), s)
      else
        let newInum ← top s.freeList
        pure (Outcome.allocated newInum,
          { s with
            freeList := s.freeList.pop
            curSize := s.curSize + 1
            table := s.table.insert newInum (some (Inode.make type newInum)) })
  | Event.deleteInode inum => do
      let _ ← lock s.tableLock
      match s.table[inum]? with
      | none => pure (Outcome.deleted false, s)
      | some _ =>
          pure (Outcome.deleted true,
            { s with
              table := s.table.erase inum
              freeList := s.freeList.push inum
              curSize := s.curSize - 1 })
  | Event.getInode inum => do
      let held ← lock s.tableLock
      match s.table[inum]? with
      | none => pure (Outcome.checked false, { s with tableLock := held })
      | some _ => pure (Outcome.checked true, { s with pending := s.pending ++ [inum] })
  | Event.access call =>
      match s.pending[call]? with
      | none => pure (Outcome.idle, s)
      | some inum =>
          let pending := s.pending.eraseIdx call
          match s.table[inum]? with
          | some pointer => pure (Outcome.pointer pointer, { s with pending := pending })
          | none =>
              -- {lit}`operator[]` makes an entry for a key that it does not find.
              pure (Outcome.pointer none,
                { s with pending := pending, table := s.table.insert inum none })

/-- The table with the top of the free list, which is {lit}`inum`, in use. -/
def taken (s : SharedTable) (type : FileType) (inum : UInt64) : SharedTable :=
  { s with
    freeList := s.freeList.pop
    curSize := s.curSize + 1
    table := s.table.insert inum (some (Inode.make type inum)) }

/-- The table with {lit}`inum` given back. -/
def released (s : SharedTable) (inum : UInt64) : SharedTable :=
  { s with
    table := s.table.erase inum
    freeList := s.freeList.push inum
    curSize := s.curSize - 1 }

/-- What each event can do, one constructor for each way it can go. -/
inductive Moves (s : SharedTable) : Event -> Outcome -> SharedTable -> Prop where
  | full (type : FileType) (hfull : s.curSize = s.totalSize) :
      Moves s (Event.allocateFreeInode type) (Outcome.allocated (s.totalSize + 1)) s
  | allocate (type : FileType) {inum : UInt64} (hfree : s.curSize ≠ s.totalSize)
      (htop : s.freeList.top? = some inum) :
      Moves s (Event.allocateFreeInode type) (Outcome.allocated inum) (s.taken type inum)
  | missing {inum : UInt64} (habsent : inum ∉ s.table) :
      Moves s (Event.deleteInode inum) (Outcome.deleted false) s
  | delete {inum : UInt64} (hpresent : inum ∈ s.table) :
      Moves s (Event.deleteInode inum) (Outcome.deleted true) (s.released inum)
  | stuck {inum : UInt64} (habsent : inum ∉ s.table) :
      Moves s (Event.getInode inum) (Outcome.checked false) { s with tableLock := true }
  | check {inum : UInt64} (hpresent : inum ∈ s.table) :
      Moves s (Event.getInode inum) (Outcome.checked true)
        { s with pending := s.pending ++ [inum] }
  | idle {call : Nat} (hnone : s.pending[call]? = none) :
      Moves s (Event.access call) Outcome.idle s
  | read {call : Nat} {inum : UInt64} {pointer : Option Inode}
      (hpending : s.pending[call]? = some inum) (hpresent : s.table[inum]? = some pointer) :
      Moves s (Event.access call) (Outcome.pointer pointer)
        { s with pending := s.pending.eraseIdx call }
  | insert {call : Nat} {inum : UInt64} (hpending : s.pending[call]? = some inum)
      (habsent : inum ∉ s.table) :
      Moves s (Event.access call) (Outcome.pointer none)
        { s with pending := s.pending.eraseIdx call, table := s.table.insert inum none }

theorem mem_of_getElem? {m : Std.ExtTreeMap UInt64 (Option Inode)} {i : UInt64}
    {p : Option Inode} (h : m[i]? = some p) : i ∈ m :=
  Std.ExtTreeMap.mem_iff_isSome_getElem?.mpr (Option.isSome_of_eq_some h)

theorem not_mem_of_getElem? {m : Std.ExtTreeMap UInt64 (Option Inode)} {i : UInt64}
    (h : m[i]? = none) : i ∉ m := by
  rw [Std.ExtTreeMap.mem_iff_isSome_getElem?, h]
  exact Bool.false_ne_true

theorem lock_eq_ok {held held' : Bool} (h : lock held = Except.ok held') :
    held = false ∧ held' = true := by
  cases held with
  | true => cases h
  | false =>
      cases h
      exact ⟨rfl, rfl⟩

theorem step_moves {s s' : SharedTable} {event : Event} {out : Outcome}
    (hstep : s.step event = Except.ok (out, s')) : Moves s event out s' := by
  cases event with
  | allocateFreeInode type =>
      rcases bind_eq_ok.mp hstep with ⟨held, _, hrest⟩
      split at hrest
      · rename_i hfull
        cases hrest
        exact Moves.full type hfull
      · rename_i hfree
        rcases bind_eq_ok.mp hrest with ⟨inum, htop, hpure⟩
        cases hpure
        exact Moves.allocate type hfree (top_eq_ok.mp htop)
  | deleteInode inum =>
      rcases bind_eq_ok.mp hstep with ⟨held, _, hrest⟩
      cases hfound : s.table[inum]? with
      | none =>
          rw [hfound] at hrest
          cases hrest
          exact Moves.missing (not_mem_of_getElem? hfound)
      | some pointer =>
          rw [hfound] at hrest
          cases hrest
          exact Moves.delete (mem_of_getElem? hfound)
  | getInode inum =>
      rcases bind_eq_ok.mp hstep with ⟨held, hlock, hrest⟩
      rcases lock_eq_ok hlock with ⟨_, rfl⟩
      cases hfound : s.table[inum]? with
      | none =>
          rw [hfound] at hrest
          cases hrest
          exact Moves.stuck (not_mem_of_getElem? hfound)
      | some pointer =>
          rw [hfound] at hrest
          cases hrest
          exact Moves.check (mem_of_getElem? hfound)
  | access call =>
      rw [step] at hstep
      cases hpending : s.pending[call]? with
      | none =>
          rw [hpending] at hstep
          cases hstep
          exact Moves.idle hpending
      | some inum =>
          rw [hpending] at hstep
          dsimp only at hstep
          cases hfound : s.table[inum]? with
          | none =>
              rw [hfound] at hstep
              cases hstep
              exact Moves.insert hpending (not_mem_of_getElem? hfound)
          | some pointer =>
              rw [hfound] at hstep
              cases hstep
              exact Moves.read hpending hfound

/-- Without other callers in between, the two steps are the lookup of the sequential table. -/
theorem getInode_ofTable {t : InodeTable} (hlock : t.tableLock = false) {inum : UInt64}
    {inode : Inode} (hinode : t.table[inum]? = some inode) :
    t.getInode inum = Except.ok (some inode, t) ∧
      runFrom step (ofTable t) [Event.getInode inum, Event.access 0] =
        Except.ok ([Outcome.checked true, Outcome.pointer (some inode)], ofTable t) := by
  refine ⟨InodeTable.getInode_of_some hlock hinode, ?_⟩
  have hfound : (ofTable t).table[inum]? = some (some inode) := by
    show (t.table.map _)[inum]? = _
    rw [Std.ExtTreeMap.getElem?_map, hinode]
    rfl
  have hcheck : (ofTable t).step (Event.getInode inum) =
      Except.ok (Outcome.checked true, { ofTable t with pending := [inum] }) := by
    rw [step, lock_of_free (show (ofTable t).tableLock = false from hlock), ok_bind, hfound]
    rfl
  refine runFrom_cons.mpr ⟨_, _, _, hcheck, ?_, rfl⟩
  refine runFrom_cons.mpr ⟨_, ofTable t, [], ?_, rfl, rfl⟩
  rw [step]
  show (match (ofTable t).table[inum]? with
    | some pointer => _
    | none => _) = _
  rw [hfound]
  rfl

/-!
# Soundness
-/

/-- No number is both in use and free, none is free twice, and the counter is right. -/
structure Sound (s : SharedTable) : Prop where
  disjoint : forall i, i ∈ s.table -> i ∉ s.freeList
  freeNodup : s.freeList.elems.Nodup
  curSize : s.curSize.toNat = s.table.size

/-- An access, if it is one, finds its number in the table. -/
def AccessesPresent (s : SharedTable) (event : Event) : Prop :=
  forall call inum, event = Event.access call -> s.pending[call]? = some inum ->
    inum ∈ s.table

/-- The table is the sequential one; only accesses are still to come. -/
structure Mirrors (s : SharedTable) (t : InodeTable) : Prop where
  table : s.table = t.table.map (fun _ inode => some inode)
  freeList : s.freeList = t.freeList
  curSize : s.curSize = t.curSize
  totalSize : s.totalSize = t.totalSize

/-- The numbers up to {lit}`n` are divided between the table and its free list. -/
def Balanced (n : Nat) (s : SharedTable) : Prop :=
  exists t, InodeTable.Balanced n t ∧ Mirrors s t

/-- What was looked up is still somewhere, deleted or not. -/
def PendingKnown (s : SharedTable) : Prop :=
  forall i, i ∈ s.pending -> i ∈ s.table ∨ i ∈ s.freeList

section Invariants

variable {s s' : SharedTable} {event : Event} {out : Outcome} {n : Nat}

theorem Mirrors.mem_iff {t : InodeTable} (h : Mirrors s t) (i : UInt64) :
    i ∈ s.table <-> i ∈ t.table := by
  rw [h.table, Std.ExtTreeMap.mem_map]

theorem Balanced.sound (h : Balanced n s) : Sound s := by
  rcases h with ⟨t, hb, hmirrors⟩
  refine ⟨?_, ?_, ?_⟩
  · intro i hi hfree
    rw [hmirrors.freeList] at hfree
    exact hb.freeFresh i hfree ((hmirrors.mem_iff i).mp hi)
  · rw [hmirrors.freeList]
    exact hb.freeNodup
  · rw [hmirrors.curSize, hb.curSize, hmirrors.table, Std.ExtTreeMap.size_map]

theorem balanced_make (size : UInt64) (hpos : 1 ≤ size.toNat) :
    Balanced size.toNat (make size) :=
  ⟨InodeTable.make size, InodeTable.balanced_make size hpos, rfl, rfl, rfl, rfl⟩

/-- Every step but the entering of a null pointer keeps the balance. -/
theorem Balanced.step (h : Balanced n s) (hmoves : Moves s event out s')
    (haccess : AccessesPresent s event) : Balanced n s' := by
  rcases h with ⟨t, hb, hmirrors⟩
  cases hmoves with
  | full type hfull => exact ⟨t, hb, hmirrors⟩
  | @allocate type inum hfree htop =>
      have hfree' : t.curSize ≠ t.totalSize := by
        rw [← hmirrors.curSize, ← hmirrors.totalSize]
        exact hfree
      have htop' : t.freeList.top? = some inum := by
        rw [← hmirrors.freeList]
        exact htop
      refine ⟨t.allocated type inum, hb.allocated hfree' htop' type, ?_, ?_, ?_, ?_⟩
      · show s.table.insert inum (some (Inode.make type inum)) = (t.table.insert inum _).map _
        rw [TreeMap.map_insert, hmirrors.table]
      · exact congrArg MinHeap.pop hmirrors.freeList
      · exact congrArg (· + 1) hmirrors.curSize
      · exact hmirrors.totalSize
  | missing habsent => exact ⟨t, hb, hmirrors⟩
  | @delete inum hpresent =>
      have hpresent' : inum ∈ t.table := (hmirrors.mem_iff inum).mp hpresent
      refine ⟨t.deleted inum, hb.deleted hpresent', ?_, ?_, ?_, ?_⟩
      · show s.table.erase inum = (t.table.erase inum).map _
        rw [TreeMap.map_erase, hmirrors.table]
      · exact congrArg (MinHeap.push · inum) hmirrors.freeList
      · exact congrArg (· - 1) hmirrors.curSize
      · exact hmirrors.totalSize
  | stuck habsent =>
      exact ⟨t, hb, hmirrors.table, hmirrors.freeList, hmirrors.curSize, hmirrors.totalSize⟩
  | check hpresent =>
      exact ⟨t, hb, hmirrors.table, hmirrors.freeList, hmirrors.curSize, hmirrors.totalSize⟩
  | idle hnone => exact ⟨t, hb, hmirrors⟩
  | read hpending hpresent =>
      exact ⟨t, hb, hmirrors.table, hmirrors.freeList, hmirrors.curSize, hmirrors.totalSize⟩
  | insert hpending habsent => exact absurd (haccess _ _ rfl hpending) habsent

theorem pendingKnown_make (size : UInt64) : PendingKnown (make size) := by
  intro i hi
  cases hi

theorem PendingKnown.step (h : PendingKnown s) (hmoves : Moves s event out s') :
    PendingKnown s' := by
  intro i hi
  cases hmoves with
  | full type hfull => exact h i hi
  | @allocate type inum hfree htop =>
      show i ∈ s.table.insert inum _ ∨ i ∈ s.freeList.pop
      rw [Std.ExtTreeMap.mem_insert]
      rcases h i hi with htable | hfree
      · exact Or.inl (Or.inr htable)
      · rw [MinHeap.mem_def, MinHeap.elems_of_top? htop] at hfree
        rcases List.mem_cons.mp hfree with rfl | hrest
        · exact Or.inl (Or.inl (Std.compare_eq_iff_eq.mpr rfl))
        · exact Or.inr hrest
  | missing habsent => exact h i hi
  | @delete inum hpresent =>
      show i ∈ s.table.erase inum ∨ i ∈ s.freeList.push inum
      rw [Std.ExtTreeMap.mem_erase, MinHeap.mem_push]
      by_cases heq : i = inum
      · exact Or.inr (Or.inl heq)
      · rcases h i hi with htable | hfree
        · exact Or.inl ⟨fun hcmp => heq (Std.compare_eq_iff_eq.mp hcmp).symm, htable⟩
        · exact Or.inr (Or.inr hfree)
  | stuck habsent => exact h i hi
  | check hpresent =>
      rcases List.mem_append.mp hi with hold | hnew
      · exact h i hold
      · rw [List.mem_singleton.mp hnew]
        exact Or.inl hpresent
  | idle hnone => exact h i hi
  | read hpending hpresent => exact h i (List.mem_of_mem_eraseIdx hi)
  | insert hpending habsent =>
      rcases h i (List.mem_of_mem_eraseIdx hi) with htable | hfree
      · left
        rw [Std.ExtTreeMap.mem_insert]
        exact Or.inr htable
      · exact Or.inr hfree

/-- An access to a number that was deleted puts it both in the table and in the free list. -/
theorem accessesPresent_of_sound (h : PendingKnown s) (hmoves : Moves s event out s')
    (hsound : Sound s') : AccessesPresent s event := by
  rintro call inum rfl hpending
  cases hmoves with
  | idle hnone =>
      rw [hpending] at hnone
      cases hnone
  | read hpending' hpresent =>
      rw [hpending] at hpending'
      cases hpending'
      exact mem_of_getElem? hpresent
  | insert hpending' habsent =>
      rw [hpending] at hpending'
      cases hpending'
      rcases h inum (List.mem_of_getElem? hpending) with htable | hfree
      · exact absurd htable habsent
      · refine absurd hfree (hsound.disjoint inum ?_)
        rw [Std.ExtTreeMap.mem_insert]
        exact Or.inl (Std.compare_eq_iff_eq.mpr rfl)

theorem Moves.mem_of_mem (hmoves : Moves s event out s') {i : UInt64} (hi : i ∈ s.table) :
    i ∈ s'.table ∨ (Event.deleteInode i, Outcome.deleted true) = (event, out) := by
  cases hmoves with
  | full type hfull => exact Or.inl hi
  | allocate type hfree htop =>
      left
      show i ∈ s.table.insert _ _
      rw [Std.ExtTreeMap.mem_insert]
      exact Or.inr hi
  | missing habsent => exact Or.inl hi
  | @delete inum hpresent =>
      by_cases heq : inum = i
      · rw [heq]
        exact Or.inr rfl
      · left
        show i ∈ s.table.erase inum
        rw [Std.ExtTreeMap.mem_erase]
        exact ⟨fun hcmp => heq (Std.compare_eq_iff_eq.mp hcmp), hi⟩
  | stuck habsent => exact Or.inl hi
  | check hpresent => exact Or.inl hi
  | idle hnone => exact Or.inl hi
  | read hpending hpresent => exact Or.inl hi
  | insert hpending habsent =>
      left
      show i ∈ s.table.insert _ _
      rw [Std.ExtTreeMap.mem_insert]
      exact Or.inr hi

/-- A number in use stays in use until it is deleted. -/
theorem in_use_or_deleted {i : UInt64} (hi : i ∈ s.table) {events : List Event}
    {outs : List Outcome} (hrun : runFrom SharedTable.step s events = Except.ok (outs, s')) :
    i ∈ s'.table ∨ (Event.deleteInode i, Outcome.deleted true) ∈ events.zip outs :=
  run_until (fun _ => True) (fun s => i ∈ s.table) (fun _ _ _ _ h _ => h)
    (fun _ _ _ _ _ hi hstep => (step_moves hstep).mem_of_mem hi) trivial hi hrun

/-- A number given out by a balanced table was free before and is in use after. -/
theorem Balanced.given (h : Balanced n s) {type : FileType} {inum : UInt64}
    (hmoves : Moves s (Event.allocateFreeInode type) (Outcome.allocated inum) s')
    (hreal : inum ≠ UInt64.ofNat n + 1) : inum ∉ s.table ∧ inum ∈ s'.table := by
  cases hmoves with
  | full _ hfull =>
      rcases h with ⟨t, hb, hmirrors⟩
      refine absurd ?_ hreal
      rw [hmirrors.totalSize, ← hb.totalSize, UInt64.ofNat_toNat]
  | allocate _ hfree htop =>
      constructor
      · intro htable
        exact h.sound.disjoint inum htable (MinHeap.top?_mem htop)
      · show inum ∈ s.table.insert inum _
        rw [Std.ExtTreeMap.mem_insert]
        exact Or.inl (Std.compare_eq_iff_eq.mpr rfl)

end Invariants

/--
In a run of any calls, all states are sound exactly if every access finds its number
still in the table.  Then no number is given out twice without a deletion in
between.
-/
theorem sound_iff_accessesPresent (size : UInt64) (hpos : 1 ≤ size.toNat)
    {events : List Event} {outs : List Outcome} {s : SharedTable}
    (hrun : runFrom step (make size) events = Except.ok (outs, s)) :
    (EveryState step (make size) events Sound <->
      EveryStep step (make size) events AccessesPresent) ∧
    (EveryStep step (make size) events AccessesPresent ->
      forall before middle after outs1 outs2 type type' inum s1 s2 s3 s4,
      events = before ++ Event.allocateFreeInode type ::
        (middle ++ Event.allocateFreeInode type' :: after) ->
      runFrom step (make size) before = Except.ok (outs1, s1) ->
      s1.step (Event.allocateFreeInode type) = Except.ok (Outcome.allocated inum, s2) ->
      runFrom step s2 middle = Except.ok (outs2, s3) ->
      s3.step (Event.allocateFreeInode type') = Except.ok (Outcome.allocated inum, s4) ->
      inum ≠ size + 1 ->
      (Event.deleteInode inum, Outcome.deleted true) ∈ middle.zip outs2) := by
  constructor
  · exact everyState_iff_everyStep PendingKnown (Balanced size.toNat) (pendingKnown_make size)
      (balanced_make size hpos) (fun _ _ _ _ h hstep => h.step (step_moves hstep))
      (fun _ _ h => h.sound)
      (fun _ _ _ _ h hstep hsound => accessesPresent_of_sound h (step_moves hstep) hsound)
      (fun _ _ _ _ _ hstep h haccess => h.step (step_moves hstep) haccess) hrun
  · intro hsteps before middle after outs1 outs2 type type' inum s1 s2 s3 s4 hsplit hbefore
      hfirst hmiddle hsecond hreal
    have hall : EveryState step (make size) events (Balanced size.toNat) :=
      hsteps.everyState (balanced_make size hpos)
        (fun _ _ _ _ h haccess hstep => h.step (step_moves hstep) haccess)
    have hb1 : Balanced size.toNat s1 :=
      hall before (Event.allocateFreeInode type :: (middle ++
        Event.allocateFreeInode type' :: after)) outs1 s1 hsplit hbefore
    have hb3 : Balanced size.toNat s3 := by
      refine hall (before ++ Event.allocateFreeInode type :: middle)
        (Event.allocateFreeInode type' :: after)
        (outs1 ++ Outcome.allocated inum :: outs2) s3 (by rw [hsplit]; simp) ?_
      exact runFrom_append.mpr ⟨outs1, s1, _, hbefore,
        runFrom_cons.mpr ⟨_, s2, outs2, hfirst, hmiddle, rfl⟩, rfl⟩
    have hreal' : inum ≠ UInt64.ofNat size.toNat + 1 := by
      rw [UInt64.ofNat_toNat]
      exact hreal
    have hfresh := (hb3.given (step_moves hsecond) hreal').left
    have hused := (hb1.given (step_moves hfirst) hreal').right
    rcases in_use_or_deleted hused hmiddle with hlast | hdeleted
    · exact absurd hlast hfresh
    · exact hdeleted

/-- A lookup with a deletion between its two parts. -/
def lateAccess : List Event :=
  [Event.allocateFreeInode FileType.regFile, Event.getInode 1, Event.deleteInode 1,
    Event.access 0]

/-- The same calls with the deletion after the lookup. -/
theorem sound_iff_accessesPresent_prompt : exists outs s,
    runFrom step (make 2) [Event.allocateFreeInode FileType.regFile, Event.getInode 1,
      Event.access 0, Event.deleteInode 1] = Except.ok (outs, s) ∧
    EveryState step (make 2) [Event.allocateFreeInode FileType.regFile, Event.getInode 1,
      Event.access 0, Event.deleteInode 1] Sound := by
  have hpass : passes (runFrom step (make 2) [Event.allocateFreeInode FileType.regFile,
      Event.getInode 1]) (fun first => decide (first.2.pending = [1] ∧ 1 ∈ first.2.table) &&
        passes (runFrom step first.2 [Event.access 0, Event.deleteInode 1])
          (fun _ => true)) = true := by
    decide +kernel
  rcases exists_of_passes hpass with ⟨⟨outs1, s1⟩, hfirst, htest⟩
  rcases (Bool.and_eq_true _ _).mp htest with ⟨hstate, hsecond⟩
  rcases of_decide_eq_true hstate with ⟨hpending, hpresent⟩
  rcases exists_of_passes hsecond with ⟨⟨outs2, s2⟩, hsecond, _⟩
  have hrun := runFrom_append.mpr ⟨outs1, s1, outs2, hfirst, hsecond, rfl⟩
  refine ⟨_, s2, hrun, ?_⟩
  refine (sound_iff_accessesPresent 2 (by decide) hrun).left.mpr ?_
  -- The only access comes third, and what it looks for is in the table.
  intro before event after outs s hsplit hbefore call inum hevent hfound
  subst hevent
  match before, hsplit with
  | [_, _], hsplit =>
      cases hsplit
      rw [hfirst] at hbefore
      cases hbefore
      rw [hpending] at hfound
      cases hfound
      exact hpresent
  | [], hsplit => cases hsplit
  | [_], hsplit => cases hsplit
  | [_, _, _], hsplit => cases hsplit
  | _ :: _ :: _ :: _ :: rest, hsplit => simp at hsplit

/-- The late access leaves the deleted number both in the table and in the free list. -/
theorem late_access_unsound :
    ¬ (forall (size : UInt64) (events : List Event) (outs : List Outcome) (s : SharedTable),
      1 ≤ size.toNat -> runFrom step (make size) events = Except.ok (outs, s) ->
      (forall out, out ∈ outs -> out ≠ Outcome.checked false) ->
      EveryState step (make size) events Sound) := by
  intro hall
  have hpass : passes (runFrom step (make 2) lateAccess) (fun result =>
      result.1.all (fun out =>
        match out with
        | Outcome.checked found => found
        | _ => true) &&
      decide (1 ∈ result.2.table ∧ 1 ∈ result.2.freeList.elems)) = true := by
    decide +kernel
  rcases exists_of_passes hpass with ⟨⟨outs, s⟩, hrun, htest⟩
  rcases (Bool.and_eq_true _ _).mp htest with ⟨hchecked, hboth⟩
  rcases of_decide_eq_true hboth with ⟨htable, hfree⟩
  have hfound : forall out, out ∈ outs -> out ≠ Outcome.checked false := by
    rintro out hout rfl
    have := List.all_eq_true.mp hchecked _ hout
    cases this
  exact ((hall 2 lateAccess outs s (by decide) hrun hfound).last hrun).disjoint 1 htable hfree

end SharedTable
end Fs
end SpongeBob
