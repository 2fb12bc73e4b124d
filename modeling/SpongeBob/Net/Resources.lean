import SpongeBob.Foundation.Handles
import Mathlib.Data.Finset.Range
import Mathlib.Data.Finset.Image

/-!
# What the driver hands out

The constructor of {lit}`RdmaSocket` opens a device and creates completion queues, a
protection domain and a memory region on it.  When the driver refuses one of them,
{lit}`CreateResources` gives back what it has, as far as the members of the class tell:
those that are assigned later still hold what their memory held before.
-/

namespace SpongeBob
namespace Net
namespace Resources

open Foundation

/-!
# The driver
-/

inductive Handle where
  | devices
  | context
  | queue (i : Nat)
  | domain
  | region
  | pair (sock j : Nat)
deriving DecidableEq, Repr

/-- What the driver answers. -/
structure Driver where
  /-- The names of {lit}`ibv_get_device_list`, unless it fails. -/
  names : Option (List String)
  opensDevice : Bool
  queriesPort : Bool
  createsQueue : Nat -> Bool
  allocatesDomain : Bool
  registersRegion : Bool
  createsPair : Nat -> Nat -> Bool
  /-- Whether a handle is taken back while others are live. -/
  lets : Handle -> Finset Handle -> Bool

/-- A handle that nothing needs is taken back. -/
structure Driver.Documented (driver : Driver) : Prop where
  domain : forall live, Handle.region ∉ live -> (forall sock j, Handle.pair sock j ∉ live) ->
    driver.lets Handle.domain live = true
  queue : forall i live, (forall sock j, Handle.pair sock j ∉ live) ->
    driver.lets (Handle.queue i) live = true
  other : forall h live, h ≠ Handle.domain -> (forall i, h ≠ Handle.queue i) ->
    driver.lets h live = true

/-!
# Creating
-/

/-- The handles that are live, and the variables that are meant for them. -/
structure Held where
  live : Finset Handle
  /-- {lit}`DeviceList`, {lit}`ctx`, the array {lit}`cq`, {lit}`pd` and {lit}`mr`. -/
  member : Handle -> Ref Handle
  deviceName : Option String

/-- Ask the driver for a handle. -/
def create (granted : Bool) (h : Handle) (s : Held) : Bool × Held :=
  if granted then
    (true, { s with live := insert h s.live, member := Function.update s.member h (Ref.holds h) })
  else (false, { s with member := Function.update s.member h Ref.null })

/-- The names of the device that is searched and of the one that is found. -/
def findDevice : Option String -> List String -> Option String × Option String
  | deviceName, [] => (deviceName, none)
  | deviceName, name :: rest =>
      let wanted := deviceName.getD name
      if name = wanted then (some wanted, some name) else findDevice (some wanted) rest

def getDevices (driver : Driver) (s : Held) : Except Unit (Bool × Held) :=
  let (ok, s) := create driver.names.isSome Handle.devices s
  let names := driver.names.getD []
  if ok && !names.isEmpty then
    let (deviceName, dev) := findDevice s.deviceName names
    Except.ok (dev.isSome, { s with deviceName := deviceName })
  else Except.ok (false, s)

/-- The list of the devices is freed once the device is open. -/
def openDevice (driver : Driver) (s : Held) : Except Unit (Bool × Held) := do
  let (ok, s) := create driver.opensDevice Handle.context s
  if ok then
    let answer ← giveBack driver.lets s.live (s.member Handle.devices)
    pure (true,
      { s with
        live := answer.2
        member := Function.update s.member Handle.devices Ref.null })
  else pure (false, s)

def queryPort (driver : Driver) (s : Held) : Except Unit (Bool × Held) := do
  let _ ← (s.member Handle.context).use s.live
  pure (driver.queriesPort, s)

/-- The loop that creates the completion queues from {lit}`i` on. -/
def createQueues (driver : Driver) : Nat -> Nat -> Held -> Except Unit (Bool × Held)
  | 0, _, s => Except.ok (true, s)
  | todo + 1, i, s => do
      let _ ← (s.member Handle.context).use s.live
      let (ok, s) := create (driver.createsQueue i) (Handle.queue i) s
      if ok then createQueues driver todo (i + 1) s else pure (false, s)

def allocateDomain (driver : Driver) (s : Held) : Except Unit (Bool × Held) := do
  let _ ← (s.member Handle.context).use s.live
  pure (create driver.allocatesDomain Handle.domain s)

def registerRegion (driver : Driver) (s : Held) : Except Unit (Bool × Held) := do
  let _ ← (s.member Handle.domain).use s.live
  pure (create driver.registersRegion Handle.region s)

/-- Go on unless the driver has refused. -/
def orExit (stage next : Held -> Except Unit (Bool × Held)) (s : Held) :
    Except Unit (Bool × Held) := do
  let answer ← stage s
  if answer.1 then next answer.2 else pure answer

/-- {lit}`CreateResources` up to its label. -/
def acquire (driver : Driver) (cqNum : Nat) : Held -> Except Unit (Bool × Held) :=
  orExit (getDevices driver) <|
    orExit (openDevice driver) <|
      orExit (queryPort driver) <|
        orExit (createQueues driver cqNum 0) <|
          orExit (allocateDomain driver) (registerRegion driver)

/-- The order in which the handles are given back after a refusal. -/
def cleanupOrder (cqNum : Nat) : List Handle :=
  (List.range cqNum).map Handle.queue ++ [Handle.domain, Handle.context, Handle.devices]

/-- The queues are given back, but the array {lit}`cq` still holds them. -/
def cleanup (driver : Driver) (cqNum : Nat) (s : Held) : Except Unit Held := do
  let live ← giveBackAll driver.lets s.live ((cleanupOrder cqNum).map s.member)
  pure
    { s with
      live := live
      member := fun h =>
        if h = Handle.domain ∨ h = Handle.context ∨ h = Handle.devices then Ref.null
        else s.member h }

def createResources (driver : Driver) (cqNum : Nat) (s : Held) :
    Except Unit (Bool × Held) := do
  let answer ← acquire driver cqNum s
  if answer.1 then pure answer
  else
    let s ← cleanup driver cqNum answer.2
    pure (false, s)

/-!
# The constructor
-/

/-- Whether the memory of an object was zero where a member is not assigned at first. -/
structure Memory where
  ctx : Bool
  pd : Bool
  mr : Bool
  peers : UInt16 -> Bool
  /-- The array {lit}`qp` of the peer of a connection. -/
  qp : Nat -> Nat -> Bool

/-- The members that are null or were zero; the array {lit}`cq` has {lit}`cqNum` entries. -/
def Memory.zero (memory : Memory) (cqNum : Nat) : Handle -> Bool
  | Handle.devices => true
  | Handle.context => memory.ctx
  | Handle.queue i => decide (i < cqNum)
  | Handle.domain => memory.pd
  | Handle.region => memory.mr
  | Handle.pair sock j => memory.qp sock j

/-- The variables hold the handles that are live, and the others hold none. -/
def keeping (live : Finset Handle) (zero : Handle -> Bool) (deviceName : Option String) : Held where
  live := live
  member := fun h => if h ∈ live then Ref.holds h else Ref.unassigned (zero h)
  deviceName := deviceName

/-- The constructor, which does not look at what {lit}`CreateResources` returns. -/
def construct (driver : Driver) (memory : Memory) (cqNum : Nat) :
    Except Unit (Bool × Held) :=
  createResources driver cqNum (keeping ∅ (memory.zero cqNum) none)

/-- There is a device to open. -/
def Driver.reachesOpen (driver : Driver) : Bool :=
  driver.names.isSome && !(driver.names.getD []).isEmpty

/-- Everything is granted before the protection domain. -/
def Driver.reachesDomain (driver : Driver) (cqNum : Nat) : Bool :=
  driver.reachesOpen && driver.opensDevice && driver.queriesPort &&
    (List.range cqNum).all driver.createsQueue

def Driver.grants (driver : Driver) (cqNum : Nat) : Bool :=
  driver.reachesDomain cqNum && driver.allocatesDomain && driver.registersRegion

/-!
# Stage by stage
-/

/-- The device is open and has some queues. -/
def withQueues (k : Nat) : Finset Handle :=
  insert Handle.context ((Finset.range k).image Handle.queue)

/-- What a socket works with. -/
def everything (cqNum : Nat) : Finset Handle :=
  insert Handle.region (insert Handle.domain (withQueues cqNum))

/-- Where {lit}`CreateResources` can come to its label, with what is live then. -/
inductive Acquired (driver : Driver) (memory : Memory) (cqNum : Nat) :
    Bool -> Finset Handle -> (Handle -> Bool) -> Prop where
  | noDevice {live : Finset Handle} (hopen : driver.reachesOpen = false)
      (hlive : live ⊆ {Handle.devices}) :
      Acquired driver memory cqNum false live (memory.zero cqNum)
  | noContext (hopen : driver.reachesOpen = true) (hrefuses : driver.opensDevice = false) :
      Acquired driver memory cqNum false {Handle.devices}
        (Function.update (memory.zero cqNum) Handle.context true)
  | noQueues {k : Nat} (hopen : driver.reachesOpen = true) (hk : k ≤ cqNum)
      (hdomain : driver.reachesDomain cqNum = false) :
      Acquired driver memory cqNum false (withQueues k) (memory.zero cqNum)
  | noDomain (hdomain : driver.reachesDomain cqNum = true)
      (hrefuses : driver.allocatesDomain = false) :
      Acquired driver memory cqNum false (withQueues cqNum)
        (Function.update (memory.zero cqNum) Handle.domain true)
  | noRegion (hdomain : driver.reachesDomain cqNum = true)
      (hallocates : driver.allocatesDomain = true) (hrefuses : driver.registersRegion = false) :
      Acquired driver memory cqNum false (insert Handle.domain (withQueues cqNum))
        (Function.update (memory.zero cqNum) Handle.region true)
  | all (hgrants : driver.grants cqNum = true) :
      Acquired driver memory cqNum true (everything cqNum) (memory.zero cqNum)

variable {driver : Driver} {memory : Memory} {cqNum : Nat} {live : Finset Handle}
  {zero : Handle -> Bool} {deviceName : Option String} {h : Handle} {granted : Bool}

theorem member_keeping (hlive : h ∈ live) :
    (keeping live zero deviceName).member h = Ref.holds h :=
  if_pos hlive

theorem member_keeping_of_notMem (hlive : h ∉ live) :
    (keeping live zero deviceName).member h = Ref.unassigned (zero h) :=
  if_neg hlive

theorem use_keeping (hlive : h ∈ live) :
    ((keeping live zero deviceName).member h).use (keeping live zero deviceName).live =
      Except.ok h := by
  rw [member_keeping hlive]
  exact use_holds hlive

/-- The member is assigned in any case. -/
theorem create_keeping (hlive : h ∉ live) :
    create granted h (keeping live zero deviceName) =
      if granted then (true, keeping (insert h live) zero deviceName)
      else (false, keeping live (Function.update zero h true) deviceName) := by
  unfold create keeping
  cases granted with
  | false =>
      simp only [Bool.false_eq_true, if_false]
      congr 2
      funext h'
      by_cases heq : h' = h
      · subst heq
        simp [hlive, Ref.unassigned]
      · simp [heq]
  | true =>
      simp only [if_true]
      congr 2
      funext h'
      by_cases heq : h' = h
      · subst heq
        simp
      · simp [heq]

/-- A member that is null already stays null when its handle is refused. -/
theorem create_keeping_zero (hlive : h ∉ live) (hzero : zero h = true) :
    create granted h (keeping live zero deviceName) =
      (granted, keeping (if granted then insert h live else live) zero deviceName) := by
  have hupdate : Function.update zero h true = zero := by
    rw [← hzero, Function.update_eq_self]
  rw [create_keeping hlive, hupdate]
  cases granted with
  | false => rfl
  | true => rfl

theorem findDevice_none (name : String) (rest : List String) :
    findDevice none (name :: rest) = (some name, some name) := by
  simp [findDevice]

/-- A socket takes the first device. -/
theorem getDevices_keeping (driver : Driver) (hzero : zero Handle.devices = true) :
    (driver.reachesOpen = true ∧
      exists name, getDevices driver (keeping ∅ zero none) =
        Except.ok (true, keeping {Handle.devices} zero name)) ∨
    (driver.reachesOpen = false ∧
      exists live, live ⊆ {Handle.devices} ∧ getDevices driver (keeping ∅ zero none) =
        Except.ok (false, keeping live zero none)) := by
  have hcreate : create driver.names.isSome Handle.devices (keeping ∅ zero none) =
      (driver.names.isSome,
        keeping (if driver.names.isSome then insert Handle.devices ∅ else ∅) zero none) :=
    create_keeping_zero (Finset.notMem_empty Handle.devices) hzero
  unfold getDevices Driver.reachesOpen
  rw [hcreate]
  cases driver.names with
  | none => exact Or.inr ⟨rfl, ∅, Finset.empty_subset _, rfl⟩
  | some names =>
      cases names with
      | nil => exact Or.inr ⟨rfl, {Handle.devices}, Finset.Subset.refl _, rfl⟩
      | cons name rest =>
          refine Or.inl ⟨rfl, some name, ?_⟩
          simp [findDevice_none, keeping]

theorem context_mem_withQueues (k : Nat) : Handle.context ∈ withQueues k :=
  Finset.mem_insert_self _ _

theorem queue_mem_withQueues {i k : Nat} : Handle.queue i ∈ withQueues k <-> i < k := by
  simp [withQueues]

theorem withQueues_succ (k : Nat) :
    insert (Handle.queue k) (withQueues k) = withQueues (k + 1) := by
  unfold withQueues
  rw [Finset.range_add_one, Finset.image_insert, Finset.insert_comm]

theorem openDevice_keeping (hlets : forall live, driver.lets Handle.devices live = true)
    (hzero : zero Handle.devices = true) :
    openDevice driver (keeping {Handle.devices} zero deviceName) =
      Except.ok (if driver.opensDevice then (true, keeping (withQueues 0) zero deviceName)
        else (false,
          keeping {Handle.devices} (Function.update zero Handle.context true) deviceName)) := by
  unfold openDevice
  rw [create_keeping (by decide)]
  cases driver.opensDevice with
  | false => rfl
  | true =>
      have hmem : Handle.devices ∈ ({Handle.context, Handle.devices} : Finset Handle) := by
        decide
      have herase : ({Handle.context, Handle.devices} : Finset Handle).erase Handle.devices =
          withQueues 0 := by
        decide
      have hback : giveBack driver.lets {Handle.context, Handle.devices}
          (Ref.holds Handle.devices) = Except.ok (true, withQueues 0) := by
        unfold giveBack
        rw [use_holds hmem, ok_bind, hlets, herase]
        rfl
      simp only [if_true]
      rw [member_keeping hmem]
      show (giveBack driver.lets {Handle.context, Handle.devices}
        (Ref.holds Handle.devices) >>= _) = _
      rw [hback, ok_bind]
      -- The list is null again, as it was before it was asked for.
      have hmember : Function.update
          (keeping {Handle.context, Handle.devices} zero deviceName).member
            Handle.devices Ref.null = (keeping (withQueues 0) zero deviceName).member := by
        funext h
        by_cases heq : h = Handle.devices
        · subst heq
          rw [Function.update_self, member_keeping_of_notMem (by decide), hzero]
          rfl
        · rw [Function.update_of_ne heq]
          simp [keeping, withQueues, heq]
      rw [hmember]
      rfl

theorem queryPort_keeping (hlive : Handle.context ∈ live) :
    queryPort driver (keeping live zero deviceName) =
      Except.ok (driver.queriesPort, keeping live zero deviceName) := by
  unfold queryPort
  rw [use_keeping hlive]
  rfl

/-- The loop ends at the first queue that is refused. -/
theorem createQueues_keeping (driver : Driver) (deviceName : Option String)
    (hzero : forall i, i < cqNum -> zero (Handle.queue i) = true)
    (todo k : Nat) (hk : k + todo = cqNum) :
    (((List.range' k todo).all driver.createsQueue = true ∧
      createQueues driver todo k (keeping (withQueues k) zero deviceName) =
        Except.ok (true, keeping (withQueues cqNum) zero deviceName))) ∨
    ((List.range' k todo).all driver.createsQueue = false ∧ exists k', k' ≤ cqNum ∧
      createQueues driver todo k (keeping (withQueues k) zero deviceName) =
        Except.ok (false, keeping (withQueues k') zero deviceName)) := by
  induction todo generalizing k with
  | zero =>
      subst hk
      exact Or.inl ⟨rfl, rfl⟩
  | succ todo ih =>
      have hnew : Handle.queue k ∉ withQueues k :=
        fun hmem => Nat.lt_irrefl k (queue_mem_withQueues.mp hmem)
      have hrange : List.range' k (todo + 1) = k :: List.range' (k + 1) todo :=
        List.range'_succ
      have hstep : createQueues driver (todo + 1) k (keeping (withQueues k) zero deviceName) =
          if driver.createsQueue k then
            createQueues driver todo (k + 1) (keeping (withQueues (k + 1)) zero deviceName)
          else Except.ok (false, keeping (withQueues k) zero deviceName) := by
        conv => lhs; unfold createQueues
        rw [use_keeping (context_mem_withQueues k), ok_bind,
          create_keeping_zero hnew (hzero k (by omega)), withQueues_succ]
        cases driver.createsQueue k with
        | false => rfl
        | true => rfl
      rw [hstep, hrange, List.all_cons]
      cases driver.createsQueue k with
      | false => exact Or.inr ⟨rfl, k, by omega, rfl⟩
      | true =>
          simp only [Bool.true_and, if_true]
          exact ih (k + 1) (by omega)

theorem allocateDomain_keeping (hcontext : Handle.context ∈ live)
    (hlive : Handle.domain ∉ live) :
    allocateDomain driver (keeping live zero deviceName) =
      Except.ok (if driver.allocatesDomain then
          (true, keeping (insert Handle.domain live) zero deviceName)
        else (false, keeping live (Function.update zero Handle.domain true) deviceName)) := by
  unfold allocateDomain
  rw [use_keeping hcontext, create_keeping hlive]
  rfl

theorem registerRegion_keeping (hdomain : Handle.domain ∈ live)
    (hlive : Handle.region ∉ live) :
    registerRegion driver (keeping live zero deviceName) =
      Except.ok (if driver.registersRegion then
          (true, keeping (insert Handle.region live) zero deviceName)
        else (false, keeping live (Function.update zero Handle.region true) deviceName)) := by
  unfold registerRegion
  rw [use_keeping hdomain, create_keeping hlive]
  rfl

/-- What is live at the label. -/
theorem acquire_acquired (hlets : forall live, driver.lets Handle.devices live = true)
    (memory : Memory) (cqNum : Nat) :
    exists ok live zero deviceName,
      acquire driver cqNum (keeping ∅ (memory.zero cqNum) none) =
        Except.ok (ok, keeping live zero deviceName) ∧
      Acquired driver memory cqNum ok live zero := by
  have hqueues : forall i, i < cqNum -> memory.zero cqNum (Handle.queue i) = true :=
    fun i hi => decide_eq_true hi
  unfold acquire orExit
  have hnull : memory.zero cqNum Handle.devices = true := rfl
  cases getDevices_keeping driver hnull with
  | inr hdevices =>
      rcases hdevices with ⟨hopen, live, hlive, hrun⟩
      rw [hrun]
      exact ⟨false, live, _, none, rfl, Acquired.noDevice hopen hlive⟩
  | inl hdevices =>
  rcases hdevices with ⟨hopen, name, hrun⟩
  rw [hrun, ok_bind]
  simp only [if_true]
  rw [openDevice_keeping hlets rfl]
  cases hopens : driver.opensDevice with
  | false => exact ⟨false, _, _, name, rfl, Acquired.noContext hopen hopens⟩
  | true =>
  simp only [if_true, ok_bind]
  rw [queryPort_keeping (context_mem_withQueues 0)]
  cases hport : driver.queriesPort with
  | false =>
      refine ⟨false, _, _, name, rfl, Acquired.noQueues hopen (Nat.zero_le cqNum) ?_⟩
      simp [Driver.reachesDomain, hport]
  | true =>
  simp only [if_true, ok_bind]
  cases createQueues_keeping driver name hqueues cqNum 0 (Nat.zero_add cqNum) with
  | inr hrefused =>
      rcases hrefused with ⟨hall, k, hk, hrun⟩
      rw [hrun]
      refine ⟨false, _, _, name, rfl, Acquired.noQueues hopen hk ?_⟩
      rw [Driver.reachesDomain, List.range_eq_range', hall, Bool.and_false]
  | inl hcreated =>
  rw [hcreated.right]
  have hdomain : driver.reachesDomain cqNum = true := by
    rw [Driver.reachesDomain, List.range_eq_range', hcreated.left, hopen, hopens, hport]
    rfl
  simp only [if_true, ok_bind]
  rw [allocateDomain_keeping (context_mem_withQueues cqNum) (by simp [withQueues])]
  cases hallocates : driver.allocatesDomain with
  | false => exact ⟨false, _, _, name, rfl, Acquired.noDomain hdomain hallocates⟩
  | true =>
  simp only [if_true, ok_bind]
  rw [registerRegion_keeping (Finset.mem_insert_self _ _) (by simp [withQueues])]
  cases hregisters : driver.registersRegion with
  | false => exact ⟨false, _, _, name, rfl, Acquired.noRegion hdomain hallocates hregisters⟩
  | true =>
      refine ⟨true, _, _, name, rfl, Acquired.all ?_⟩
      rw [Driver.grants, hdomain, hallocates, hregisters]
      rfl

end Resources
end Net
end SpongeBob
