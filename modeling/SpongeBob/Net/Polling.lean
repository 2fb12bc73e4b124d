import Mathlib.Data.List.Count

/-!
# Polling for completions

{lit}`PollCompletion` and {lit}`PollWithCQ` poll a completion queue until they have
counted enough entries.  They add whatever the poll returns to the count, error codes
included, and look at the status of the last entry alone.
-/

namespace SpongeBob
namespace Net
namespace Polling

/-!
# Polls
-/

/-- A work completion. -/
structure Wc where
  wrID : Nat
  status : Nat
deriving DecidableEq, Repr

def wcSuccess : Nat := 0

/-- What {lit}`ibv_poll_cq` does when it is asked for one entry. -/
inductive Poll where
  | error (code : Nat)
  | empty
  | completion (wc : Wc)
deriving DecidableEq, Repr

namespace Poll

/-- The return value: the number of entries, or a negative error code. -/
def count : Poll -> Int
  | error code => -(code + 1)
  | empty => 0
  | completion _ => 1

/-- The work completion afterwards, which only an entry overwrites. -/
def write (wc : Wc) : Poll -> Wc
  | completion new => new
  | _ => wc

def failed : Poll -> Bool
  | error _ => true
  | _ => false

def isCompletion : Poll -> Bool
  | completion _ => true
  | _ => false

end Poll

/-- The number of entries that some polls take. -/
def completions (polls : List Poll) : Nat :=
  polls.countP Poll.isCompletion

/-!
# The loop
-/

/--
The loop, given the answers of the device from here on; with it come the answers that
are left.  Without a further answer it is still polling.
-/
def pollLoop (pollNumber : Int) (count : Int) (wc : Wc) :
    List Poll -> Option (Int × Wc × List Poll)
  | [] => none
  | poll :: rest =>
      if count + poll.count < pollNumber then
        pollLoop pollNumber (count + poll.count) (poll.write wc) rest
      else
        some (count + poll.count, poll.write wc, rest)

/-- The return value once the loop is over. -/
def checkStatus (count : Int) (wc : Wc) : Int :=
  if count < 0 then -1 else if wc.status ≠ wcSuccess then -1 else count

def pollQueue (polls : List Poll) (pollNumber : Int) (wc : Wc) : Option (Int × List Poll) :=
  (pollLoop pollNumber 0 wc polls).map (fun (count, wc, rest) => (checkStatus count wc, rest))

/-- The completion queues of a socket. -/
structure Queues where
  /-- The answers of each queue to the polls to come. -/
  polls : Nat -> List Poll
  /-- The queue of each peer. -/
  peers : UInt16 -> Nat
  /-- The queues by the order in which they were created. -/
  cq : Nat -> Nat

def pollCompletion (s : Queues) (nodeID : UInt16) (pollNumber : Int) (wc : Wc) :
    Option (Int × List Poll) :=
  pollQueue (s.polls (s.peers nodeID)) pollNumber wc

def pollWithCQ (s : Queues) (cqPtr : Nat) (pollNumber : Int) (wc : Wc) :
    Option (Int × List Poll) :=
  pollQueue (s.polls (s.cq cqPtr)) pollNumber wc

/-!
# What is expected
-/

/--
The call takes {lit}`n` entries if no poll fails, and then returns; it returns -1 right
after a poll that fails; a count that is not negative means that all entries it took
were successes.
-/
structure PollsRight (n : Nat) (polls : List Poll) (result : Option (Int × List Poll)) :
    Prop where
  takes : forall value rest, result = some (value, rest) -> exists used,
    polls = used ++ rest ∧
      ((forall poll, poll ∈ used -> poll.failed = false) -> completions used = n) ∧
      (0 ≤ value -> forall wc, Poll.completion wc ∈ used -> wc.status = wcSuccess)
  returns : (forall poll, poll ∈ polls -> poll.failed = false) -> n ≤ completions polls ->
    result ≠ none
  fails : forall before code after, polls = before ++ Poll.error code :: after ->
    (forall poll, poll ∈ before -> poll.failed = false) -> completions before < n ->
    result = some (-1, after)

/--
No poll fails before {lit}`n` entries have been taken, and the last of them is a failure
if any is.
-/
structure Clean (n : Nat) (polls : List Poll) : Prop where
  noError : forall before code after, polls = before ++ Poll.error code :: after ->
    n ≤ completions before
  lastFails : forall before last after, polls = before ++ Poll.completion last :: after ->
    completions before + 1 = n -> last.status = wcSuccess ->
    forall wc, Poll.completion wc ∈ before -> wc.status = wcSuccess

/-!
# Runs of the loop
-/

section Loop

variable {n : Nat} {polls before rest : List Poll} {wc : Wc}

@[simp] theorem completions_nil : completions [] = 0 :=
  rfl

@[simp] theorem completions_append (polls polls' : List Poll) :
    completions (polls ++ polls') = completions polls + completions polls' :=
  List.countP_append

@[simp] theorem completions_error (code : Nat) (polls : List Poll) :
    completions (Poll.error code :: polls) = completions polls := by
  simp [completions, Poll.isCompletion]

@[simp] theorem completions_empty (polls : List Poll) :
    completions (Poll.empty :: polls) = completions polls := by
  simp [completions, Poll.isCompletion]

@[simp] theorem completions_completion (wc : Wc) (polls : List Poll) :
    completions (Poll.completion wc :: polls) = completions polls + 1 :=
  List.countP_cons_of_pos rfl

/-- No poll of the list fails. -/
def NoneFails (polls : List Poll) : Prop :=
  forall poll, poll ∈ polls -> poll.failed = false

theorem NoneFails.tail {poll : Poll} (h : NoneFails (poll :: polls)) : NoneFails polls :=
  fun p hp => h p (List.mem_cons_of_mem poll hp)

theorem noneFails_append :
    NoneFails (before ++ polls) ↔ NoneFails before ∧ NoneFails polls :=
  List.forall_mem_append

theorem not_noneFails_error {code : Nat} : ¬ NoneFails (Poll.error code :: polls) := by
  intro h
  cases h _ List.mem_cons_self

/-- A poll after which entries are still missing is followed by the next one. -/
theorem pollLoop_cons {poll : Poll} {count : Int} (hfew : count + poll.count < n) :
    pollLoop n count wc (poll :: rest) =
      pollLoop n (count + poll.count) (poll.write wc) rest :=
  if_pos hfew

/-- As long as nothing fails and entries are missing, the loop goes on. -/
theorem pollLoop_append (count : Nat) (wc : Wc) (rest : List Poll) (hclean : NoneFails before)
    (hfew : count + completions before < n) :
    exists wc', pollLoop n count wc (before ++ rest) =
      pollLoop n (count + completions before : Nat) wc' rest := by
  induction before generalizing count wc with
  | nil => exact ⟨wc, rfl⟩
  | cons poll before ih =>
      cases poll with
      | error code => exact absurd hclean not_noneFails_error
      | empty =>
          rw [completions_empty] at hfew ⊢
          rcases ih count wc hclean.tail hfew with ⟨wc', hloop⟩
          exists wc'
          have hcount : (count : Int) + Poll.empty.count = count := Int.add_zero _
          rw [List.cons_append, pollLoop_cons (by rw [hcount]; omega), hcount]
          exact hloop
      | completion new =>
          rw [completions_completion] at hfew ⊢
          rcases ih (count + 1) new hclean.tail (by omega) with ⟨wc', hloop⟩
          exists wc'
          have hcount : (count : Int) + (Poll.completion new).count = (count + 1 : Nat) := rfl
          rw [List.cons_append, pollLoop_cons (by rw [hcount]; omega), hcount,
            show count + (completions before + 1) = count + 1 + completions before by omega]
          exact hloop

/-- The loop ends with the entry that makes up the number. -/
theorem pollQueue_taken {last : Wc} (hclean : NoneFails before)
    (hcount : completions before + 1 = n) :
    pollQueue (before ++ Poll.completion last :: rest) n wc =
      some (checkStatus n last, rest) := by
  rcases pollLoop_append 0 wc (Poll.completion last :: rest) hclean
    (show 0 + completions before < n by omega) with ⟨wc', hloop⟩
  have hlast : ((0 + completions before : Nat) : Int) + (Poll.completion last).count = n := by
    show ((0 + completions before : Nat) : Int) + 1 = n
    omega
  unfold pollQueue
  rw [show (0 : Int) = ((0 : Nat) : Int) from rfl, hloop, pollLoop, hlast,
    if_neg (Int.lt_irrefl _)]
  rfl

/-- With too few entries the call is still polling. -/
theorem pollQueue_waits (hclean : NoneFails polls) (hfew : completions polls < n) :
    pollQueue polls n wc = none := by
  rcases pollLoop_append 0 wc [] hclean
    (show 0 + completions polls < n by omega) with ⟨wc', hloop⟩
  rw [List.append_nil] at hloop
  unfold pollQueue
  rw [show (0 : Int) = ((0 : Nat) : Int) from rfl, hloop]
  rfl

/-- The loop makes at least one poll. -/
theorem length_of_pollLoop {count value : Int} {wc' : Wc}
    (hloop : pollLoop n count wc polls = some (value, wc', rest)) :
    rest.length < polls.length := by
  induction polls generalizing count wc with
  | nil => cases hloop
  | cons poll polls ih =>
      rw [pollLoop] at hloop
      split at hloop
      · exact Nat.lt_trans (ih hloop) (Nat.lt_succ_self _)
      · cases hloop
        exact Nat.lt_succ_self _

/-- After a poll that fails too early the call polls again. -/
theorem pollQueue_error {code : Nat} (hclean : NoneFails before) (hfew : completions before < n)
    (value : Int) :
    pollQueue (before ++ Poll.error code :: rest) n wc ≠ some (value, rest) := by
  intro heq
  rcases pollLoop_append 0 wc (Poll.error code :: rest) hclean
    (show 0 + completions before < n by omega) with ⟨wc', hloop⟩
  have hmore : ((0 + completions before : Nat) : Int) + (Poll.error code).count < n := by
    show ((0 + completions before : Nat) : Int) + -((code : Int) + 1) < n
    omega
  rw [pollLoop_cons hmore] at hloop
  unfold pollQueue at heq
  rw [show (0 : Int) = ((0 : Nat) : Int) from rfl, hloop] at heq
  rcases Option.map_eq_some_iff.mp heq with ⟨⟨count, wc1, rest1⟩, hrest, hvalue⟩
  cases hvalue
  exact absurd (length_of_pollLoop hrest) (Nat.lt_irrefl _)

end Loop

/-!
# How a sequence of polls goes
-/

/-- What comes first: the last of {lit}`n` entries, the end of the polls, or a failure. -/
inductive Ending (n : Nat) : List Poll -> Prop where
  | taken (before : List Poll) (last : Wc) (rest : List Poll) (hclean : NoneFails before)
      (hcount : completions before + 1 = n) :
      Ending n (before ++ Poll.completion last :: rest)
  | waits (polls : List Poll) (hclean : NoneFails polls) (hfew : completions polls < n) :
      Ending n polls
  | fails (before : List Poll) (code : Nat) (after : List Poll) (hclean : NoneFails before)
      (hfew : completions before < n) : Ending n (before ++ Poll.error code :: after)

section Endings

variable {n : Nat} {polls before rest : List Poll} {wc last : Wc}

theorem noneFails_nil : NoneFails [] := by
  intro poll hpoll
  cases hpoll

theorem NoneFails.cons {poll : Poll} (hpoll : poll.failed = false) (h : NoneFails polls) :
    NoneFails (poll :: polls) := by
  intro p hp
  cases List.mem_cons.mp hp with
  | inl heq =>
      rw [heq]
      exact hpoll
  | inr hmem => exact h p hmem

/-- A poll that does not fail, put before the others. -/
theorem Ending.cons {poll : Poll} {k : Nat} (hpoll : poll.failed = false)
    (hcount : forall polls, completions (poll :: polls) = completions polls + k)
    (h : Ending n polls) : Ending (n + k) (poll :: polls) := by
  cases h with
  | taken before last rest hclean hn =>
      apply Ending.taken (poll :: before) last rest (hclean.cons hpoll)
      rw [hcount]
      omega
  | waits _ hclean hfew =>
      apply Ending.waits _ (hclean.cons hpoll)
      rw [hcount]
      omega
  | fails before code after hclean hfew =>
      apply Ending.fails (poll :: before) code after (hclean.cons hpoll)
      rw [hcount]
      omega

theorem ending (hn : 1 ≤ n) (polls : List Poll) : Ending n polls := by
  induction polls generalizing n with
  | nil => exact Ending.waits [] noneFails_nil hn
  | cons poll polls ih =>
      cases poll with
      | error code => exact Ending.fails [] code polls noneFails_nil hn
      | empty =>
          exact (ih hn).cons rfl (fun polls => (completions_empty polls).trans
            (Nat.add_zero _).symm)
      | completion new =>
          cases Nat.eq_or_lt_of_le hn with
          | inl hone => exact Ending.taken [] new polls noneFails_nil hone
          | inr hmore =>
              have hprev := ih (n := n - 1) (by omega)
              have hcons := hprev.cons rfl (completions_completion new)
              rw [Nat.sub_add_cancel hn] at hcons
              exact hcons

/-- The n-th entry of a sequence of polls is at one place only. -/
theorem split_unique {before' rest' : List Poll} {last' : Wc}
    (heq : before ++ Poll.completion last :: rest = before' ++ Poll.completion last' :: rest')
    (hcount : completions before = completions before') :
    before = before' ∧ last = last' ∧ rest = rest' := by
  induction before generalizing before' with
  | nil =>
      cases before' with
      | nil =>
          cases heq
          exact ⟨rfl, rfl, rfl⟩
      | cons poll before' =>
          cases heq
          rw [completions_completion] at hcount
          cases hcount
  | cons poll before ih =>
      cases before' with
      | nil =>
          cases heq
          rw [completions_completion] at hcount
          cases hcount
      | cons poll' before' =>
          rcases List.cons.inj heq with ⟨hpoll, htail⟩
          subst hpoll
          have hrest : completions before = completions before' := by
            cases poll with
            | error code => exact hcount
            | empty => exact hcount
            | completion new =>
                rw [completions_completion, completions_completion] at hcount
                exact Nat.succ.inj hcount
          rcases ih htail hrest with ⟨hbefore, hlast⟩
          exact ⟨by rw [hbefore], hlast⟩

/-- No failing poll comes while entries are missing if none precedes the last of them. -/
theorem enough_before_error (hclean : NoneFails before) (hcount : completions before + 1 = n)
    {first : List Poll} {code : Nat} {after : List Poll}
    (heq : before ++ Poll.completion last :: rest = first ++ Poll.error code :: after) :
    n ≤ completions first := by
  rcases List.append_eq_append_iff.mp heq with ⟨middle, hfirst, htail⟩ | ⟨middle, hbefore, htail⟩
  · cases middle with
    | nil => cases htail
    | cons poll middle =>
        cases htail
        rw [hfirst, completions_append, completions_completion]
        omega
  · cases middle with
    | nil => cases htail
    | cons poll middle =>
        cases htail
        have herror := hclean (Poll.error code) (by simp [hbefore])
        cases herror

/-!
# Polling for a number of entries
-/

/-- The status that is looked at is that of the last entry. -/
theorem checkStatus_nonneg : 0 ≤ checkStatus n last ↔ last.status = wcSuccess := by
  unfold checkStatus
  rw [if_neg (by omega)]
  by_cases hstatus : last.status = wcSuccess
  · rw [if_neg (not_not_intro hstatus)]
    exact ⟨fun _ => hstatus, fun _ => by omega⟩
  · rw [if_pos hstatus]
    exact ⟨fun h => absurd h (by decide), fun h => absurd h hstatus⟩

theorem completions_last (hcount : completions before + 1 = n) :
    completions (before ++ [Poll.completion last]) = n := by
  rw [completions_append, completions_completion]
  exact hcount

/-- All of the entries up to the last one are successes. -/
def AllSucceed (before : List Poll) (last : Wc) : Prop :=
  forall wc, Poll.completion wc ∈ before ++ [Poll.completion last] -> wc.status = wcSuccess

/-- A call that has taken all entries is right if the last of them tells of the others. -/
theorem pollsRight_taken (hclean : NoneFails before) (hcount : completions before + 1 = n) :
    PollsRight n (before ++ Poll.completion last :: rest) (some (checkStatus n last, rest)) ↔
      (last.status = wcSuccess -> AllSucceed before last) := by
  constructor
  · intro h hstatus
    rcases h.takes _ rest rfl with ⟨used, hused, _, hall⟩
    have heq : used = before ++ [Poll.completion last] := by
      have happend : used ++ rest = before ++ [Poll.completion last] ++ rest := by
        rw [← hused, List.append_assoc]
        rfl
      exact List.append_cancel_right happend
    rw [heq] at hall
    exact hall (checkStatus_nonneg.mpr hstatus)
  · intro h
    constructor
    · intro value rest' hresult
      cases hresult
      exists before ++ [Poll.completion last]
      constructor
      · rw [List.append_assoc]
        rfl
      constructor
      · intro _
        exact completions_last hcount
      · intro hvalue
        exact h (checkStatus_nonneg.mp hvalue)
    · intro _ _ hnone
      cases hnone
    · intro first code after heq _ hfew
      exact absurd (enough_before_error hclean hcount heq) (by omega)

theorem clean_taken (hclean : NoneFails before) (hcount : completions before + 1 = n) :
    Clean n (before ++ Poll.completion last :: rest) ↔
      (last.status = wcSuccess -> AllSucceed before last) := by
  constructor
  · intro h hstatus wc hwc
    cases List.mem_append.mp hwc with
    | inl hbefore => exact h.lastFails before last rest rfl hcount hstatus wc hbefore
    | inr hlast =>
        cases List.mem_singleton.mp hlast
        exact hstatus
  · intro h
    constructor
    · intro first code after heq
      exact enough_before_error hclean hcount heq
    · intro first last' after heq hfirst hstatus wc hwc
      rcases split_unique heq (by omega) with ⟨hbefore, hlast, _⟩
      subst hbefore
      subst hlast
      exact h hstatus wc (List.mem_append_left _ hwc)

/-- A call that is still polling has done nothing wrong. -/
theorem pollsRight_waits (hclean : NoneFails polls) (hfew : completions polls < n) :
    PollsRight n polls none := by
  constructor
  · intro value rest hresult
    cases hresult
  · intro _ hmany
    omega
  · intro first code after heq
    subst heq
    exact absurd (noneFails_append.mp hclean).2 not_noneFails_error

theorem clean_waits (hclean : NoneFails polls) (hfew : completions polls < n) :
    Clean n polls := by
  constructor
  · intro first code after heq
    subst heq
    exact absurd (noneFails_append.mp hclean).2 not_noneFails_error
  · intro first last after heq hcount
    subst heq
    rw [completions_append, completions_completion] at hfew
    omega

/-- The queue is polled as expected exactly when nothing fails that goes unnoticed. -/
theorem pollQueue_right_iff (hn : 1 ≤ n) (polls : List Poll) (wc : Wc) :
    PollsRight n polls (pollQueue polls n wc) ↔ Clean n polls := by
  cases ending hn polls with
  | taken before last rest hclean hcount =>
      rw [pollQueue_taken hclean hcount]
      exact (pollsRight_taken hclean hcount).trans (clean_taken hclean hcount).symm
  | waits _ hclean hfew =>
      rw [pollQueue_waits hclean hfew]
      exact iff_of_true (pollsRight_waits hclean hfew) (clean_waits hclean hfew)
  | fails before code after hclean hfew =>
      apply iff_of_false
      · intro h
        exact pollQueue_error hclean hfew (-1) (h.fails before code after rfl hclean hfew)
      · intro h
        exact absurd (h.noError before code after rfl) (by omega)

end Endings

/--
For every number of entries and all answers of the device, both calls do what is expected
of them exactly when no poll fails before the entries have been taken, and the last of
these fails if any does.
-/
theorem polls_right_iff {n : Nat} (hn : 1 ≤ n) (s : Queues) (wc : Wc) :
    (forall nodeID,
      PollsRight n (s.polls (s.peers nodeID)) (pollCompletion s nodeID n wc) ↔
        Clean n (s.polls (s.peers nodeID))) ∧
      (forall cqPtr,
        PollsRight n (s.polls (s.cq cqPtr)) (pollWithCQ s cqPtr n wc) ↔
          Clean n (s.polls (s.cq cqPtr))) := by
  constructor
  · intro nodeID
    exact pollQueue_right_iff hn _ wc
  · intro cqPtr
    exact pollQueue_right_iff hn _ wc

/-- Two entries, of which the first one is a failure. -/
def failedFirst : List Poll :=
  [Poll.completion ⟨0, 12⟩, Poll.completion ⟨1, wcSuccess⟩]

/-- A failure of the first entry is reported as success. -/
theorem pollCompletion_misses_failure :
    ¬ forall (s : Queues) (n : Nat) (nodeID : UInt16) (wc : Wc), 1 ≤ n ->
      PollsRight n (s.polls (s.peers nodeID)) (pollCompletion s nodeID n wc) := by
  intro h
  rcases (h ⟨fun _ => failedFirst, fun _ => 0, fun _ => 0⟩ 2 0 ⟨0, 0⟩ (by decide)).takes
    2 [] rfl with ⟨used, hused, _, hall⟩
  rw [List.append_nil] at hused
  subst hused
  exact absurd (hall (by decide) ⟨0, 12⟩ List.mem_cons_self) (by decide)

/-- Two entries that succeed are taken. -/
theorem polls_right_iff_two :
    1 ≤ 2 ∧ pollCompletion ⟨fun _ => [Poll.empty, Poll.completion ⟨0, 0⟩,
        Poll.completion ⟨1, 0⟩], fun _ => 0, fun _ => 0⟩ 0 2 ⟨0, 0⟩ = some (2, []) ∧
      (PollsRight 2 [Poll.empty, Poll.completion ⟨0, 0⟩, Poll.completion ⟨1, 0⟩]
        (some (2, [])) ↔
          Clean 2 [Poll.empty, Poll.completion ⟨0, 0⟩, Poll.completion ⟨1, 0⟩]) := by
  constructor
  · decide
  constructor
  · rfl
  · exact (polls_right_iff (by decide) ⟨fun _ => [Poll.empty, Poll.completion ⟨0, 0⟩,
      Poll.completion ⟨1, 0⟩], fun _ => 0, fun _ => 0⟩ ⟨0, 0⟩).1 0

end Polling
end Net
end SpongeBob
