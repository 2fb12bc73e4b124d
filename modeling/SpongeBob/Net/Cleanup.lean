import SpongeBob.Net.Resources

/-!
# After a refusal

What {lit}`CreateResources` gives back when the driver refuses something.  Every handle
that is live goes back once; but the members are not null from the start, and those that
have not been assigned are given back as well.
-/

namespace SpongeBob
namespace Net
namespace Resources

open Foundation

variable {driver : Driver} {memory : Memory} {cqNum : Nat} {live : Finset Handle}
  {zero : Handle -> Bool} {deviceName : Option String} {h : Handle}

/-!
# Giving back
-/

theorem mem_cleanupOrder : h ∈ cleanupOrder cqNum <->
    (exists i, i < cqNum ∧ h = Handle.queue i) ∨ h = Handle.domain ∨ h = Handle.context ∨
      h = Handle.devices := by
  simp [cleanupOrder, eq_comm]

theorem nodup_cleanupOrder (cqNum : Nat) : (cleanupOrder cqNum).Nodup := by
  unfold cleanupOrder
  apply List.Nodup.append
  · exact List.nodup_range.map (fun i j heq => Handle.queue.inj heq)
  · decide
  · intro h hqueue hlast
    rcases List.mem_map.mp hqueue with ⟨i, _, rfl⟩
    simp at hlast

theorem holds_member_keeping {h' : Handle} :
    (keeping live zero deviceName).member h = Ref.holds h' <-> h ∈ live ∧ h = h' := by
  by_cases hlive : h ∈ live
  · rw [member_keeping hlive]
    simp [hlive]
  · rw [member_keeping_of_notMem hlive]
    cases hzero : zero h with
    | false => simp [Ref.unassigned, hlive]
    | true => simp [Ref.unassigned, hlive]

theorem stray_member_keeping :
    (keeping live zero deviceName).member h = Ref.stray <-> h ∉ live ∧ zero h = false := by
  by_cases hlive : h ∈ live
  · rw [member_keeping hlive]
    simp [hlive]
  · rw [member_keeping_of_notMem hlive]
    cases hzero : zero h with
    | false => simp [Ref.unassigned, hlive]
    | true => simp [Ref.unassigned, hlive]

theorem holds_mem_members {order : List Handle} :
    Ref.holds h ∈ order.map (keeping live zero deviceName).member <-> h ∈ order ∧ h ∈ live := by
  rw [List.mem_map]
  constructor
  · intro hmem
    rcases hmem with ⟨h', horder, hholds⟩
    rcases holds_member_keeping.mp hholds with ⟨hlive, rfl⟩
    exact ⟨horder, hlive⟩
  · intro hmem
    exact ⟨h, hmem.left, member_keeping hmem.right⟩

/-- Each variable holds a handle of its own. -/
theorem returnable_members {order : List Handle} (horder : order.Nodup)
    (htaken : forall h, h ∈ order -> h ∈ live -> forall others, others ⊆ live ->
      driver.lets h others = true) :
    Returnable driver.lets live (order.map (keeping live zero deviceName).member) where
  mem := fun h hmem => (holds_mem_members.mp hmem).right
  once := by
    rw [List.pairwise_map]
    apply horder.imp
    intro h h' hne g hholds hholds'
    exact hne ((holds_member_keeping.mp hholds).right.trans
      (holds_member_keeping.mp hholds').right.symm)
  taken := fun h hmem =>
    htaken h (holds_mem_members.mp hmem).left (holds_mem_members.mp hmem).right

/-- The members after the cleanup, when nothing is live any more. -/
def cleaned (live : Finset Handle) (zero : Handle -> Bool) (deviceName : Option String) :
    Held where
  live := ∅
  member := fun h =>
    if h = Handle.domain ∨ h = Handle.context ∨ h = Handle.devices then Ref.null
    else (keeping live zero deviceName).member h
  deviceName := deviceName

theorem region_notMem_cleanupOrder : Handle.region ∉ cleanupOrder cqNum := by
  simp [mem_cleanupOrder]

theorem pair_notMem_cleanupOrder (sock j : Nat) : Handle.pair sock j ∉ cleanupOrder cqNum := by
  simp [mem_cleanupOrder]

/-- Before the region is registered, nothing that is live needs anything else. -/
theorem returnable_cleanup (hdoc : driver.Documented)
    (hlive : forall h, h ∈ live -> h ∈ cleanupOrder cqNum) :
    Returnable driver.lets live
      ((cleanupOrder cqNum).map (keeping live zero deviceName).member) := by
  apply returnable_members (nodup_cleanupOrder cqNum)
  intro h _ _ others hsub
  have hregion : Handle.region ∉ others :=
    fun hmem => region_notMem_cleanupOrder (hlive _ (hsub hmem))
  have hpair : forall sock j, Handle.pair sock j ∉ others :=
    fun sock j hmem => pair_notMem_cleanupOrder sock j (hlive _ (hsub hmem))
  cases h with
  | domain => exact hdoc.domain others hregion hpair
  | queue i => exact hdoc.queue i others hpair
  | devices => exact hdoc.other _ others (by simp) (by simp)
  | context => exact hdoc.other _ others (by simp) (by simp)
  | region => exact hdoc.other _ others (by simp) (by simp)
  | pair sock j => exact hdoc.other _ others (by simp) (by simp)

theorem stray_notMem_members {order : List Handle} :
    Ref.stray ∉ order.map (keeping live zero deviceName).member <->
      forall h, h ∈ order -> h ∈ live ∨ zero h = true := by
  simp only [List.mem_map, stray_member_keeping, not_exists, not_and, Bool.not_eq_false]
  constructor
  · intro hassigned h horder
    by_cases hmem : h ∈ live
    · exact Or.inl hmem
    · exact Or.inr (hassigned h horder hmem)
  · intro hassigned h horder hmem
    exact (hassigned h horder).resolve_left hmem

/-- The cleanup reads every member, also the ones that were not assigned. -/
theorem cleanup_ok_iff (hdoc : driver.Documented)
    (hlive : forall h, h ∈ live -> h ∈ cleanupOrder cqNum) {s : Held} :
    cleanup driver cqNum (keeping live zero deviceName) = Except.ok s <->
      (forall h, h ∈ cleanupOrder cqNum -> h ∈ live ∨ zero h = true) ∧
        s = cleaned live zero deviceName := by
  have hnone : live.filter (fun h =>
      Ref.holds h ∉ (cleanupOrder cqNum).map (keeping live zero deviceName).member) = ∅ := by
    apply Finset.filter_eq_empty_iff.mpr
    intro h hmem hnot
    exact hnot (holds_mem_members.mpr ⟨hlive h hmem, hmem⟩)
  rw [← stray_notMem_members]
  unfold cleanup
  rw [bind_eq_ok]
  constructor
  · intro hok
    rcases hok with ⟨live', hlive', hs⟩
    have hgiven := (giveBackAll_ok_iff (returnable_cleanup hdoc hlive)).mp hlive'
    rw [hnone] at hgiven
    rw [hgiven.right] at hs
    exact ⟨hgiven.left, (Except.ok.inj hs).symm⟩
  · intro hassigned
    refine ⟨∅, (giveBackAll_ok_iff (returnable_cleanup hdoc hlive)).mpr
      ⟨hassigned.left, hnone.symm⟩, ?_⟩
    rw [hassigned.right]
    rfl

/-!
# At each refusal
-/

theorem reachesOpen_of_reachesDomain (hdomain : driver.reachesDomain cqNum = true) :
    driver.reachesOpen = true := by
  simp only [Driver.reachesDomain, Bool.and_eq_true] at hdomain
  exact hdomain.left.left.left

theorem Acquired.mem_order (ha : Acquired driver memory cqNum false live zero) (hlive : h ∈ live) :
    h ∈ cleanupOrder cqNum := by
  have hqueues : forall {k : Nat}, k ≤ cqNum -> h ∈ withQueues k -> h ∈ cleanupOrder cqNum := by
    intro k hk hmem
    simp only [withQueues, Finset.mem_insert, Finset.mem_image, Finset.mem_range] at hmem
    cases hmem with
    | inl heq => simp [mem_cleanupOrder, heq]
    | inr hqueue =>
        rcases hqueue with ⟨i, hi, rfl⟩
        exact mem_cleanupOrder.mpr (Or.inl ⟨i, by omega, rfl⟩)
  cases ha with
  | noDevice hopen hsub => simp [mem_cleanupOrder, Finset.mem_singleton.mp (hsub hlive)]
  | noContext hopen hrefuses => simp [mem_cleanupOrder, Finset.mem_singleton.mp hlive]
  | noQueues hopen hk hdomain => exact hqueues hk hlive
  | noDomain hdomain hrefuses => exact hqueues (Nat.le_refl cqNum) hlive
  | noRegion hdomain hallocates hrefuses =>
      cases Finset.mem_insert.mp hlive with
      | inl heq => simp [mem_cleanupOrder, heq]
      | inr hmem => exact hqueues (Nat.le_refl cqNum) hmem

theorem forall_mem_cleanupOrder {P : Handle -> Prop} :
    (forall h, h ∈ cleanupOrder cqNum -> P h) <->
      (forall i, i < cqNum -> P (Handle.queue i)) ∧ P Handle.domain ∧ P Handle.context ∧
        P Handle.devices := by
  constructor
  · intro hall
    refine ⟨fun i hi => hall _ (mem_cleanupOrder.mpr (Or.inl ⟨i, hi, rfl⟩)), ?_, ?_, ?_⟩
    · exact hall _ (by simp [mem_cleanupOrder])
    · exact hall _ (by simp [mem_cleanupOrder])
    · exact hall _ (by simp [mem_cleanupOrder])
  · intro hall h hmem
    rcases mem_cleanupOrder.mp hmem with ⟨i, hi, rfl⟩ | rfl | rfl | rfl
    · exact hall.left i hi
    · exact hall.right.left
    · exact hall.right.right.left
    · exact hall.right.right.right

/-- The device and the domain are the members that a refusal can leave unassigned. -/
theorem Acquired.assigned_iff (ha : Acquired driver memory cqNum false live zero) :
    (forall h, h ∈ cleanupOrder cqNum -> h ∈ live ∨ zero h = true) <->
      (driver.reachesOpen = true ∨ memory.ctx = true) ∧
        (driver.reachesDomain cqNum = true ∨ memory.pd = true) := by
  rw [forall_mem_cleanupOrder]
  have hqueue : forall i, i < cqNum -> memory.zero cqNum (Handle.queue i) = true :=
    fun i hi => decide_eq_true hi
  cases ha with
  | noDevice hopen hsub =>
      have hdomain : driver.reachesDomain cqNum = false := by
        simp [Driver.reachesDomain, hopen]
      have hcontext : Handle.context ∉ live :=
        fun hmem => Handle.noConfusion (Finset.mem_singleton.mp (hsub hmem))
      have hpd : Handle.domain ∉ live :=
        fun hmem => Handle.noConfusion (Finset.mem_singleton.mp (hsub hmem))
      simp only [hopen, hdomain, hcontext, hpd, Bool.false_eq_true, false_or]
      constructor
      · intro hall
        exact ⟨hall.right.right.left, hall.right.left⟩
      · intro hall
        exact ⟨fun i hi => Or.inr (hqueue i hi), hall.right, hall.left, Or.inr rfl⟩
  | noContext hopen hrefuses =>
      have hdomain : driver.reachesDomain cqNum = false := by
        simp [Driver.reachesDomain, hrefuses]
      simp only [hopen, hdomain, Bool.false_eq_true, false_or, true_or, true_and]
      constructor
      · intro hall
        simpa [Memory.zero] using hall.right.left
      · intro hpd
        refine ⟨fun i hi => Or.inr ?_, ?_, ?_, ?_⟩
        · simpa using hqueue i hi
        · simp [Memory.zero, hpd]
        · simp
        · simp
  | noQueues hopen hk hdomain =>
      simp only [hopen, hdomain, Bool.false_eq_true, false_or, true_or, true_and]
      constructor
      · intro hall
        simpa [withQueues, Memory.zero] using hall.right.left
      · intro hpd
        exact ⟨fun i hi => Or.inr (hqueue i hi), Or.inr hpd, Or.inl (context_mem_withQueues _),
          Or.inr rfl⟩
  | noDomain hdomain hrefuses =>
      simp only [reachesOpen_of_reachesDomain hdomain, hdomain, true_or, and_true, iff_true]
      refine ⟨fun i hi => Or.inr ?_, ?_, Or.inl (context_mem_withQueues _), ?_⟩
      · simpa using hqueue i hi
      · simp
      · simp [Memory.zero]
  | noRegion hdomain hallocates hrefuses =>
      simp only [reachesOpen_of_reachesDomain hdomain, hdomain, true_or, and_true, iff_true]
      refine ⟨fun i hi => Or.inr ?_, Or.inl (Finset.mem_insert_self _ _), Or.inl ?_, ?_⟩
      · simpa using hqueue i hi
      · exact Finset.mem_insert_of_mem (context_mem_withQueues _)
      · simp [Memory.zero]

/-- A refusal and the members after its cleanup. -/
structure Refused (driver : Driver) (memory : Memory) (cqNum : Nat) (s : Held) : Prop where
  grants : driver.grants cqNum = false
  live : s.live = ∅
  context : s.member Handle.context = Ref.null
  domain : s.member Handle.domain = Ref.null
  region : s.member Handle.region = Ref.unassigned
    (driver.reachesDomain cqNum && driver.allocatesDomain || memory.mr)

theorem Acquired.refused (ha : Acquired driver memory cqNum false live zero)
    (deviceName : Option String) :
    Refused driver memory cqNum (cleaned live zero deviceName) where
  grants := by
    cases ha with
    | noDevice hopen hsub => simp [Driver.grants, Driver.reachesDomain, hopen]
    | noContext hopen hrefuses => simp [Driver.grants, Driver.reachesDomain, hrefuses]
    | noQueues hopen hk hdomain => simp [Driver.grants, hdomain]
    | noDomain hdomain hrefuses => simp [Driver.grants, hrefuses]
    | noRegion hdomain hallocates hrefuses => simp [Driver.grants, hrefuses]
  live := rfl
  context := rfl
  domain := rfl
  region := by
    have hregion : Handle.region ∉ live := by
      intro hmem
      simpa [mem_cleanupOrder] using ha.mem_order hmem
    show (keeping live zero deviceName).member Handle.region = _
    rw [member_keeping_of_notMem hregion]
    congr 1
    cases ha with
    | noDevice hopen hsub => simp [Driver.reachesDomain, hopen, Memory.zero]
    | noContext hopen hrefuses => simp [Driver.reachesDomain, hrefuses, Memory.zero]
    | noQueues hopen hk hdomain => simp [hdomain, Memory.zero]
    | noDomain hdomain hrefuses => simp [hrefuses, Memory.zero]
    | noRegion hdomain hallocates hrefuses => simp [hdomain, hallocates]

/-- The constructor ends with everything, or with nothing, or not at all. -/
theorem construct_cases (hdoc : driver.Documented) (memory : Memory) (cqNum : Nat) :
    (driver.grants cqNum = true ∧ exists deviceName, construct driver memory cqNum =
      Except.ok (true, keeping (everything cqNum) (memory.zero cqNum) deviceName)) ∨
    (driver.grants cqNum = false ∧
      ((driver.reachesOpen = true ∨ memory.ctx = true) ∧
        (driver.reachesDomain cqNum = true ∨ memory.pd = true)) ∧
      exists s, construct driver memory cqNum = Except.ok (false, s) ∧
        Refused driver memory cqNum s) ∨
    (driver.grants cqNum = false ∧
      ¬ ((driver.reachesOpen = true ∨ memory.ctx = true) ∧
        (driver.reachesDomain cqNum = true ∨ memory.pd = true)) ∧
      construct driver memory cqNum = Except.error ()) := by
  have hlets : forall live, driver.lets Handle.devices live = true :=
    fun live => hdoc.other Handle.devices live (by simp) (by simp)
  rcases acquire_acquired hlets memory cqNum with ⟨ok, live, zero, deviceName, hrun, ha⟩
  unfold construct createResources
  rw [hrun, ok_bind]
  cases ok with
  | true =>
      cases ha with
      | all hgrants => exact Or.inl ⟨hgrants, deviceName, rfl⟩
  | false =>
      have hrefused := ha.refused deviceName
      right
      simp only [Bool.false_eq_true, if_false]
      by_cases hassigned : forall h, h ∈ cleanupOrder cqNum -> h ∈ live ∨ zero h = true
      · have hok : cleanup driver cqNum (keeping live zero deviceName) =
            Except.ok (cleaned live zero deviceName) :=
          (cleanup_ok_iff hdoc (fun h => ha.mem_order)).mpr ⟨hassigned, rfl⟩
        left
        rw [hok]
        exact ⟨hrefused.grants, ha.assigned_iff.mp hassigned, _, rfl, hrefused⟩
      · right
        refine ⟨hrefused.grants, fun hiff => hassigned (ha.assigned_iff.mpr hiff), ?_⟩
        cases hclean : cleanup driver cqNum (keeping live zero deviceName) with
        | error e => rfl
        | ok s =>
            exact absurd ((cleanup_ok_iff hdoc (fun h => ha.mem_order)).mp hclean).left hassigned

/--
The constructor comes to its end exactly when the members that its cleanup reads have been
assigned or were null.  Then everything is live, or nothing is.
-/
theorem constructs_iff (hdoc : driver.Documented) (memory : Memory) (cqNum : Nat) :
    ((exists out, construct driver memory cqNum = Except.ok out) <->
      (driver.reachesOpen = true ∨ memory.ctx = true) ∧
        (driver.reachesDomain cqNum = true ∨ memory.pd = true)) ∧
    forall ok s, construct driver memory cqNum = Except.ok (ok, s) ->
      ok = driver.grants cqNum ∧
        s.live = if driver.grants cqNum then everything cqNum else ∅ := by
  rcases construct_cases hdoc memory cqNum with ⟨hgrants, deviceName, hrun⟩ |
    ⟨hgrants, hassigned, s, hrun, hrefused⟩ | ⟨hgrants, hnot, hrun⟩
  · have hdomain : driver.reachesDomain cqNum = true := by
      simp only [Driver.grants, Bool.and_eq_true] at hgrants
      exact hgrants.left.left
    constructor
    · constructor
      · intro _
        exact ⟨Or.inl (reachesOpen_of_reachesDomain hdomain), Or.inl hdomain⟩
      · intro _
        exact ⟨_, hrun⟩
    · intro ok s hok
      rw [hrun] at hok
      cases hok
      rw [hgrants]
      exact ⟨rfl, rfl⟩
  · constructor
    · constructor
      · intro _
        exact hassigned
      · intro _
        exact ⟨_, hrun⟩
    · intro ok s' hok
      rw [hrun] at hok
      cases hok
      rw [hgrants]
      exact ⟨rfl, hrefused.live⟩
  · constructor
    · constructor
      · intro hok
        rcases hok with ⟨out, hok⟩
        rw [hrun] at hok
        cases hok
      · intro hassigned
        exact absurd hassigned hnot
    · intro ok s hok
      rw [hrun] at hok
      cases hok

/-- Whether a handle is created on the protection domain. -/
def Handle.onDomain : Handle -> Bool
  | Handle.region => true
  | Handle.pair _ _ => true
  | _ => false

/-- What is in use is refused. -/
def letsUnused : Handle -> Finset Handle -> Bool
  | Handle.domain, live => decide (forall h, h ∈ live -> h.onDomain = false)
  | Handle.queue _, live => decide (forall h, h ∈ live -> h = Handle.region ∨ h.onDomain = false)
  | _, _ => true

/-- A driver that grants everything but the memory region, if it is told to refuse that. -/
def plainDriver (registersRegion : Bool) : Driver where
  names := some ["mlx5_0", "mlx5_1"]
  opensDevice := true
  queriesPort := true
  createsQueue := fun _ => true
  allocatesDomain := true
  registersRegion := registersRegion
  createsPair := fun _ _ => true
  lets := letsUnused

theorem plainDriver_documented (registersRegion : Bool) :
    (plainDriver registersRegion).Documented where
  domain := by
    intro live hregion hpair
    apply decide_eq_true
    intro h hmem
    cases h with
    | region => exact absurd hmem hregion
    | pair sock j => exact absurd hmem (hpair sock j)
    | devices => rfl
    | context => rfl
    | queue i => rfl
    | domain => rfl
  queue := by
    intro i live hpair
    apply decide_eq_true
    intro h hmem
    cases h with
    | region => exact Or.inl rfl
    | pair sock j => exact absurd hmem (hpair sock j)
    | devices => exact Or.inr rfl
    | context => exact Or.inr rfl
    | queue i => exact Or.inr rfl
    | domain => exact Or.inr rfl
  other := by
    intro h live hdomain hqueue
    cases h with
    | domain => exact absurd rfl hdomain
    | queue i => exact absurd rfl (hqueue i)
    | devices => rfl
    | context => rfl
    | region => rfl
    | pair sock j => rfl

/-- Nothing was zero before. -/
def usedMemory : Memory where
  ctx := false
  pd := false
  mr := false
  peers := fun _ => false
  qp := fun _ _ => false

theorem constructs_iff_noRegion :
    exists s, construct (plainDriver false) usedMemory 3 = Except.ok (false, s) ∧ s.live = ∅ := by
  have hiff := constructs_iff (plainDriver_documented false) usedMemory 3
  rcases hiff.left.mpr ⟨Or.inl (by decide), Or.inl (by decide)⟩ with ⟨⟨ok, s⟩, hrun⟩
  have hend := hiff.right ok s hrun
  have hgrants : (plainDriver false).grants 3 = false := by
    decide
  rw [hgrants] at hend
  rw [hend.left] at hrun
  exact ⟨s, hrun, hend.right⟩

end Resources
end Net
end SpongeBob
