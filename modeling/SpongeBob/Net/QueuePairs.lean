import SpongeBob.Net.Agreement
import Mathlib.Logic.Function.Basic

/-!
# Bringing the queue pairs up

{lit}`ConnectQueuePair` at both ends of one connection: the ends exchange their
identities, create their queue pairs, exchange the numbers and addresses that the other
needs, and bring one queue pair after another from {lit}`RESET` to {lit}`RTS`.  The
statements of the ends interleave in any way, and the driver can refuse.
-/

namespace SpongeBob
namespace Net
namespace QueuePairs

open Foundation

/-!
# Queue pairs
-/

inductive QPState where
  | reset
  | init
  | rtr
  | rts
deriving DecidableEq, Repr

/-- The transitions that {lit}`ibv_modify_qp` knows. -/
def QPState.allows : QPState -> QPState -> Bool
  | reset, init => true
  | init, init => true
  | init, rtr => true
  | rtr, rts => true
  | rts, rts => true
  | _, _ => false

/-- The access of the peer is set. -/
def QPState.opened : QPState -> Bool
  | reset => false
  | _ => true

/-- The queue pair of the peer is set. -/
def QPState.towards : QPState -> Bool
  | rtr => true
  | rts => true
  | _ => false

structure QP where
  qpNum : UInt32
  state : QPState
  remoteRead : Bool
  remoteWrite : Bool
  remoteAtomic : Bool
  destQpNum : UInt32
  dlid : UInt16
  rqPsn : UInt32
  sqPsn : UInt32
deriving DecidableEq, Repr

def QP.create (qpNum : UInt32) : QP where
  qpNum := qpNum
  state := QPState.reset
  remoteRead := false
  remoteWrite := false
  remoteAtomic := false
  destQpNum := 0
  dlid := 0
  rqPsn := 0
  sqPsn := 0

/-- A queue pair that the driver does not change is as before. -/
def ibvModifyQP (accepts : Bool) (target : QPState) (change : QP -> QP) (qp : QP) : Bool × QP :=
  if accepts && qp.state.allows target then (true, { change qp with state := target })
  else (false, qp)

/-- The packets of both directions are numbered from here. -/
def firstPsn : UInt32 := 3185

/-- In mode 0 the peer may read, write and use atomic operations, in mode 1 it may write. -/
def modifyQPtoInit (mode : Nat) (accepts : Bool) (qp : QP) : Bool × QP :=
  ibvModifyQP accepts QPState.init (fun qp =>
    { qp with
      remoteRead := decide (mode = 0)
      remoteWrite := decide (mode = 0 ∨ mode = 1)
      remoteAtomic := decide (mode = 0) }) qp

def modifyQPtoRTR (remoteQpn : UInt32) (dlid : UInt16) (accepts : Bool) (qp : QP) : Bool × QP :=
  ibvModifyQP accepts QPState.rtr (fun qp =>
    { qp with destQpNum := remoteQpn, dlid := dlid, rqPsn := firstPsn }) qp

def modifyQPtoRTS (accepts : Bool) (qp : QP) : Bool × QP :=
  ibvModifyQP accepts QPState.rts (fun qp => { qp with sqPsn := firstPsn }) qp

/-!
# The ends
-/

inductive Side where
  | left
  | right
deriving DecidableEq, Repr

def Side.other : Side -> Side
  | left => right
  | right => left

structure ExchangeMeta where
  rkey : UInt32
  qpNum : Nat -> UInt32
  lid : UInt16
  registeredMemory : UInt64

/-- What an end is given from outside: its memory, and what its driver answers. -/
structure Node where
  mode : Nat
  mm : UInt64
  rkey : UInt32
  lid : UInt16
  /-- The numbers of the queue pairs that it creates. -/
  qpNum : Nat -> UInt32
  /-- Whether {lit}`ibv_query_gid` succeeds. -/
  gid : Bool
  /-- Whether {lit}`ibv_modify_qp` accepts to bring a queue pair to a state. -/
  accepts : Nat -> QPState -> Bool
  /-- What the memory of {lit}`LocalMeta` held before. -/
  stray : ExchangeMeta

/-- The peer, with the queue pairs towards it. -/
structure Peer where
  nodeID : UInt16
  qp : Nat -> Option QP
  qpNum : Nat -> UInt32
  lid : UInt16
  rkey : UInt32
  registeredMemory : UInt64

/-- Where an end is in {lit}`ConnectQueuePair`. -/
inductive Phase where
  | start
  /-- The identity has been written to the socket. -/
  | sentID
  /-- The queue pairs are there. -/
  | created
  /-- The numbers of the queue pairs have been written to the socket. -/
  | sentMeta
  /-- Before the queue pair {lit}`i` is brought to the next state. -/
  | modifying (i : Nat) (target : QPState)
  | returned (ok : Bool)
deriving DecidableEq, Repr

structure End where
  socket : RdmaSocket
  peer : Peer
  phase : Phase

/-- The ends and what each of them has written to the socket. -/
structure State where
  ends : Side -> End
  ids : Side -> Option ExchangeID
  metas : Side -> Option ExchangeMeta

def End.queuePairs (e : End) : Nat :=
  e.socket.queuePairs e.peer.nodeID

/-- A client does not fill in the key of its memory region. -/
def localMeta (node : Node) (e : End) : ExchangeMeta where
  rkey := if e.socket.isServer then node.rkey else node.stray.rkey
  qpNum := fun i =>
    match e.peer.qp i with
    | some qp => qp.qpNum
    | none => node.stray.qpNum i
  lid := node.lid
  registeredMemory := node.mm

def End.receiveID (node : Node) (e : End) (remoteID : ExchangeID) : End :=
  let (nodeID, socket) := e.socket.receiveID e.peer.nodeID remoteID
  { socket := socket
    peer :=
      { e.peer with
        nodeID := nodeID
        qp := fun i =>
          if i < socket.queuePairs nodeID then some (QP.create (node.qpNum i)) else none }
    phase := if node.gid then Phase.created else Phase.returned false }

def Peer.receiveMeta (peer : Peer) (remoteMeta : ExchangeMeta) : Peer :=
  { peer with
    rkey := remoteMeta.rkey
    qpNum := remoteMeta.qpNum
    lid := remoteMeta.lid
    registeredMemory := remoteMeta.registeredMemory }

/-- Bring the queue pair {lit}`i` to a state. -/
def modifyQP (node : Node) (peer : Peer) (i : Nat) (target : QPState) (qp : QP) : Bool × QP :=
  match target with
  | QPState.reset => (true, qp)
  | QPState.init => modifyQPtoInit node.mode (node.accepts i target) qp
  | QPState.rtr => modifyQPtoRTR (peer.qpNum i) peer.lid (node.accepts i target) qp
  | QPState.rts => modifyQPtoRTS (node.accepts i target) qp

/-- The phase after a queue pair has come to a state. -/
def nextPhase (i : Nat) : QPState -> Phase
  | QPState.reset => Phase.modifying i QPState.init
  | QPState.init => Phase.modifying i QPState.rtr
  | QPState.rtr => Phase.modifying i QPState.rts
  | QPState.rts => Phase.modifying (i + 1) QPState.init

/-- A round of the loop over the queue pairs, one state at a time. -/
def End.modify (node : Node) (e : End) (i : Nat) (target : QPState) :
    Except Unit (Option Bool × End) :=
  if i < e.queuePairs then
    match e.peer.qp i with
    | none => Except.error ()
    | some qp =>
        let (ok, qp) := modifyQP node e.peer i target qp
        Except.ok (if ok then none else some false,
          { e with
            peer := { e.peer with qp := Function.update e.peer.qp i (some qp) }
            phase := if ok then nextPhase i target else Phase.returned false })
  else Except.ok (some true, { e with phase := Phase.returned true })

def State.setEnd (s : State) (side : Side) (e : End) : State :=
  { s with ends := Function.update s.ends side e }

/-- The next statement of an end, with what {lit}`ConnectQueuePair` returns if it does. -/
def step (node : Side -> Node) (s : State) (side : Side) : Except Unit (Option Bool × State) :=
  let e := s.ends side
  match e.phase with
  | Phase.start =>
      Except.ok (none,
        { s.setEnd side { e with phase := Phase.sentID } with
          ids := Function.update s.ids side (some e.socket.localID) })
  | Phase.sentID =>
      match s.ids side.other with
      | none => Except.error ()
      | some remoteID =>
          Except.ok (if (node side).gid then none else some false,
            s.setEnd side (e.receiveID (node side) remoteID))
  | Phase.created =>
      Except.ok (none,
        { s.setEnd side { e with phase := Phase.sentMeta } with
          metas := Function.update s.metas side (some (localMeta (node side) e)) })
  | Phase.sentMeta =>
      match s.metas side.other with
      | none => Except.error ()
      | some remoteMeta =>
          Except.ok (none,
            s.setEnd side
              { e with
                peer := e.peer.receiveMeta remoteMeta
                phase := Phase.modifying 0 QPState.init })
  | Phase.modifying i target => do
      let (out, e) ← e.modify (node side) i target
      pure (out, s.setEnd side e)
  | Phase.returned _ => Except.error ()

/-- The ends before the first statement. -/
def State.start (socket : Side -> RdmaSocket) (peer : Side -> Peer) : State where
  ends := fun side => ⟨socket side, peer side, Phase.start⟩
  ids := fun _ => none
  metas := fun _ => none

/-!
# What the ends make of each other
-/

section Ends

variable (node : Side -> Node) (socket : Side -> RdmaSocket) (peer : Side -> Peer)

/-- An end that has received the identity of the other one. -/
def metEnd (side : Side) : End :=
  (End.mk (socket side) (peer side) Phase.sentID).receiveID (node side)
    (socket side.other).localID

/-- The number of queue pairs of an end. -/
def pairs (side : Side) : Nat :=
  (metEnd node socket peer side).queuePairs

/-- What an end writes to the socket about its queue pairs. -/
def ownMeta (side : Side) : ExchangeMeta :=
  localMeta (node side) (metEnd node socket peer side)

/-- What an end keeps about the other one. -/
def metPeer (side : Side) : Peer :=
  (metEnd node socket peer side).peer.receiveMeta (ownMeta node socket peer side.other)

/-- A queue pair that has come to a state. -/
def brought (node : Node) (peer : Peer) (i : Nat) (state : QPState) : QP where
  qpNum := node.qpNum i
  state := state
  remoteRead := state.opened && decide (node.mode = 0)
  remoteWrite := state.opened && decide (node.mode = 0 ∨ node.mode = 1)
  remoteAtomic := state.opened && decide (node.mode = 0)
  destQpNum := if state.towards then peer.qpNum i else 0
  dlid := if state.towards then peer.lid else 0
  rqPsn := if state.towards then firstPsn else 0
  sqPsn := if state = QPState.rts then firstPsn else 0

/-- The state from which a queue pair is brought to the next one. -/
def before : QPState -> QPState
  | QPState.reset => QPState.reset
  | QPState.init => QPState.reset
  | QPState.rtr => QPState.init
  | QPState.rts => QPState.rtr

/-- The queue pairs before {lit}`i` are up, this one is in a state, and the others are new. -/
def reached (i : Nat) (state : QPState) (j : Nat) : QPState :=
  if j < i then QPState.rts else if j = i then state else QPState.reset

/-- An end while it brings up its queue pairs. -/
def endAt (side : Side) (i : Nat) (state : QPState) (phase : Phase) : End where
  socket := (metEnd node socket peer side).socket
  peer :=
    { metPeer node socket peer side with
      qp := fun j =>
        if j < pairs node socket peer side then
          some (brought (node side) (metPeer node socket peer side) j (reached i state j))
        else none }
  phase := phase

/-- An end, with what it has written to the socket, and the numbers of the other end. -/
inductive EndOk (side : Side) : End -> Option ExchangeID -> Option ExchangeMeta ->
    Option ExchangeMeta -> Prop where
  | start {theirs : Option ExchangeMeta} :
      EndOk side ⟨socket side, peer side, Phase.start⟩ none none theirs
  | sentID {theirs : Option ExchangeMeta} :
      EndOk side ⟨socket side, peer side, Phase.sentID⟩ (some (socket side).localID) none theirs
  | noGid {theirs : Option ExchangeMeta} (hgid : (node side).gid = false) :
      EndOk side (metEnd node socket peer side) (some (socket side).localID) none theirs
  | created {theirs : Option ExchangeMeta} (hgid : (node side).gid = true) :
      EndOk side (metEnd node socket peer side) (some (socket side).localID) none theirs
  | sentMeta {theirs : Option ExchangeMeta} :
      EndOk side { metEnd node socket peer side with phase := Phase.sentMeta }
        (some (socket side).localID) (some (ownMeta node socket peer side)) theirs
  | modifying {i : Nat} {t : QPState} (hreset : t ≠ QPState.reset)
      (hle : i ≤ pairs node socket peer side)
      (hlt : t ≠ QPState.init -> i < pairs node socket peer side) :
      EndOk side (endAt node socket peer side i (before t) (Phase.modifying i t))
        (some (socket side).localID) (some (ownMeta node socket peer side))
        (some (ownMeta node socket peer side.other))
  | refused {i : Nat} {t : QPState} (hlt : i < pairs node socket peer side)
      (hrefuses : (node side).accepts i t = false) :
      EndOk side (endAt node socket peer side i (before t) (Phase.returned false))
        (some (socket side).localID) (some (ownMeta node socket peer side))
        (some (ownMeta node socket peer side.other))
  | up :
      EndOk side (endAt node socket peer side (pairs node socket peer side) QPState.reset
        (Phase.returned true)) (some (socket side).localID)
        (some (ownMeta node socket peer side)) (some (ownMeta node socket peer side.other))

end Ends

section Steps

variable {node : Side -> Node} {socket : Side -> RdmaSocket} {peer : Side -> Peer}
  {side : Side} {s s' : State} {out : Option Bool} {i : Nat} {target : QPState}

/-- The driver brings a queue pair from a state to the next one, or leaves it. -/
theorem modifyQP_brought {node : Node} {peer peer' : Peer} (hreset : target ≠ QPState.reset)
    (hnum : peer'.qpNum = peer.qpNum) (hlid : peer'.lid = peer.lid) :
    modifyQP node peer' i target (brought node peer i (before target)) =
      if node.accepts i target then (true, brought node peer i target)
      else (false, brought node peer i (before target)) := by
  cases target with
  | reset => exact absurd rfl hreset
  | init =>
      unfold modifyQP modifyQPtoInit ibvModifyQP
      cases node.accepts i QPState.init with
      | false => rfl
      | true => rfl
  | rtr =>
      unfold modifyQP modifyQPtoRTR ibvModifyQP
      rw [hnum, hlid]
      cases node.accepts i QPState.rtr with
      | false => rfl
      | true => rfl
  | rts =>
      unfold modifyQP modifyQPtoRTS ibvModifyQP
      cases node.accepts i QPState.rts with
      | false => rfl
      | true => rfl

theorem reached_self (state : QPState) : reached i state i = state := by
  unfold reached
  rw [if_neg (Nat.lt_irrefl i), if_pos rfl]

/-- The queue pair that is up is one of those before the next one. -/
theorem reached_next (j : Nat) :
    reached i QPState.rts j = reached (i + 1) QPState.reset j := by
  unfold reached
  by_cases hlt : j < i
  · rw [if_pos hlt, if_pos (Nat.lt_succ_of_lt hlt)]
  · rw [if_neg hlt]
    by_cases heq : j = i
    · rw [if_pos heq, if_pos (heq ▸ Nat.lt_succ_self j)]
    · rw [if_neg heq, if_neg (show ¬ j < i + 1 by omega)]
      split
      · rfl
      · rfl

theorem endAt_next (phase : Phase) : endAt node socket peer side i QPState.rts phase =
    endAt node socket peer side (i + 1) QPState.reset phase := by
  unfold endAt
  simp only [reached_next]

/-- When the numbers have come, all queue pairs are new. -/
theorem endAt_zero (phase : Phase) :
    { metEnd node socket peer side with
      peer := (metEnd node socket peer side).peer.receiveMeta
        (ownMeta node socket peer side.other)
      phase := phase } = endAt node socket peer side 0 QPState.reset phase := by
  have hreset : forall j, reached 0 QPState.reset j = QPState.reset := by
    intro j
    unfold reached
    rw [if_neg (Nat.not_lt_zero j)]
    split
    · rfl
    · rfl
  unfold endAt
  simp only [hreset]
  rfl

/-- Only the queue pair {lit}`i` comes to another state. -/
theorem update_endAt {state state' : QPState} {phase phase' : Phase}
    (hlt : i < pairs node socket peer side) :
    { endAt node socket peer side i state phase with
      peer := { (endAt node socket peer side i state phase).peer with
        qp := Function.update (endAt node socket peer side i state phase).peer.qp i
          (some (brought (node side) (metPeer node socket peer side) i state')) }
      phase := phase' } = endAt node socket peer side i state' phase' := by
  unfold endAt
  dsimp only
  congr 2
  funext j
  by_cases hj : j = i
  · subst hj
    rw [Function.update_self, if_pos hlt, reached_self]
  · rw [Function.update_of_ne hj]
    unfold reached
    rw [if_neg hj, if_neg hj]

theorem endAt_qp (state : QPState) (phase : Phase) (hlt : i < pairs node socket peer side) :
    (endAt node socket peer side i state phase).peer.qp i =
      some (brought (node side) (metPeer node socket peer side) i state) := by
  unfold endAt
  dsimp only
  rw [if_pos hlt, reached_self]

/-- Both ends are as expected. -/
def EndsOk (node : Side -> Node) (socket : Side -> RdmaSocket) (peer : Side -> Peer)
    (s : State) : Prop :=
  forall side, EndOk node socket peer side (s.ends side) (s.ids side) (s.metas side)
    (s.metas side.other)

theorem EndsOk.start : EndsOk node socket peer (State.start socket peer) :=
  fun _ => EndOk.start

section Written

variable {e : End} {id : Option ExchangeID} {own theirs : Option ExchangeMeta}

theorem EndOk.id_eq {remoteID : ExchangeID}
    (h : EndOk node socket peer side e (some remoteID) own theirs) :
    remoteID = (socket side).localID := by
  generalize hid : some remoteID = sent at h
  cases h with
  | start => cases hid
  | _ => exact Option.some.inj hid

theorem EndOk.meta_eq {remoteMeta : ExchangeMeta}
    (h : EndOk node socket peer side e id (some remoteMeta) theirs) :
    remoteMeta = ownMeta node socket peer side := by
  generalize hmeta : some remoteMeta = sent at h
  cases h with
  | start => cases hmeta
  | sentID => cases hmeta
  | noGid _ => cases hmeta
  | created _ => cases hmeta
  | _ => exact Option.some.inj hmeta

/-- An end that has not seen the numbers of the other one does not mind them. -/
theorem EndOk.of_none (h : EndOk node socket peer side e id own none)
    (theirs : Option ExchangeMeta) : EndOk node socket peer side e id own theirs := by
  cases h with
  | start => exact EndOk.start
  | sentID => exact EndOk.sentID
  | noGid hgid => exact EndOk.noGid hgid
  | created hgid => exact EndOk.created hgid
  | sentMeta => exact EndOk.sentMeta

end Written

theorem Side.eq_other {side other : Side} (h : other ≠ side) : other = side.other := by
  cases side with
  | left =>
      cases other with
      | left => exact absurd rfl h
      | right => rfl
  | right =>
      cases other with
      | left => rfl
      | right => exact absurd rfl h

theorem Side.other_ne (side : Side) : side.other ≠ side := by
  cases side with
  | left => decide
  | right => decide

theorem Side.other_other (side : Side) : side.other.other = side := by
  cases side with
  | left => rfl
  | right => rfl

/-- The other end has not changed. -/
theorem EndsOk.set (h : EndsOk node socket peer s) {e : End}
    (hends : s'.ends = Function.update s.ends side e)
    (hids : forall other, other ≠ side -> s'.ids other = s.ids other)
    (hmetas : forall other, other ≠ side -> s'.metas other = s.metas other)
    (hown : s'.metas side = s.metas side ∨ s.metas side = none)
    (hside : EndOk node socket peer side e (s'.ids side) (s'.metas side)
      (s.metas side.other)) : EndsOk node socket peer s' := by
  intro other
  rw [hends]
  by_cases hother : other = side
  · subst hother
    rw [Function.update_self, hmetas other.other (Side.other_ne other)]
    exact hside
  · rw [Function.update_of_ne hother, hids other hother, hmetas other hother]
    cases Side.eq_other hother
    have hbefore := h side.other
    rw [Side.other_other] at hbefore ⊢
    rcases hown with hsame | hnone
    · rw [hsame]
      exact hbefore
    · rw [hnone] at hbefore
      exact hbefore.of_none _

/-- A round with a queue pair, if there is one. -/
theorem modify_endAt (hreset : target ≠ QPState.reset)
    (hlt : i < pairs node socket peer side) :
    (endAt node socket peer side i (before target) (Phase.modifying i target)).modify
      (node side) i target =
      if (node side).accepts i target then
        Except.ok (none, endAt node socket peer side i target (nextPhase i target))
      else
        Except.ok (some false,
          endAt node socket peer side i (before target) (Phase.returned false)) := by
  have hpairs : (endAt node socket peer side i (before target)
      (Phase.modifying i target)).queuePairs = pairs node socket peer side := rfl
  unfold End.modify
  have hmodify : modifyQP (node side)
      (endAt node socket peer side i (before target) (Phase.modifying i target)).peer i target
      (brought (node side) (metPeer node socket peer side) i (before target)) =
        if (node side).accepts i target then
          (true, brought (node side) (metPeer node socket peer side) i target)
        else (false, brought (node side) (metPeer node socket peer side) i (before target)) :=
    modifyQP_brought hreset rfl rfl
  rw [hpairs, if_pos hlt, endAt_qp _ _ hlt]
  dsimp only
  rw [hmodify]
  cases (node side).accepts i target with
  | true => exact congrArg (fun e => Except.ok (none, e)) (update_endAt hlt)
  | false => exact congrArg (fun e => Except.ok (some false, e)) (update_endAt hlt)

theorem modify_endAt_end :
    (endAt node socket peer side (pairs node socket peer side) QPState.reset
      (Phase.modifying (pairs node socket peer side) QPState.init)).modify (node side)
        (pairs node socket peer side) QPState.init =
      Except.ok (some true, endAt node socket peer side (pairs node socket peer side)
        QPState.reset (Phase.returned true)) := by
  have hpairs : (endAt node socket peer side (pairs node socket peer side) QPState.reset
      (Phase.modifying (pairs node socket peer side) QPState.init)).queuePairs =
        pairs node socket peer side := rfl
  unfold End.modify
  rw [hpairs, if_neg (Nat.lt_irrefl _)]
  rfl

/-- An end after a round. -/
theorem EndOk.modify {e : End} (hreset : target ≠ QPState.reset)
    (hle : i ≤ pairs node socket peer side)
    (hlt : target ≠ QPState.init -> i < pairs node socket peer side)
    (hmodify : (endAt node socket peer side i (before target)
      (Phase.modifying i target)).modify (node side) i target = Except.ok (out, e)) :
    EndOk node socket peer side e (some (socket side).localID)
      (some (ownMeta node socket peer side)) (some (ownMeta node socket peer side.other)) := by
  by_cases hpair : i < pairs node socket peer side
  · rw [modify_endAt hreset hpair] at hmodify
    cases haccepts : (node side).accepts i target with
    | false =>
        rw [haccepts] at hmodify
        cases hmodify
        exact EndOk.refused hpair haccepts
    | true =>
        rw [haccepts] at hmodify
        cases hmodify
        cases target with
        | reset => exact absurd rfl hreset
        | init =>
            exact EndOk.modifying (t := QPState.rtr) (by decide) hle (fun _ => hpair)
        | rtr =>
            exact EndOk.modifying (t := QPState.rts) (by decide) hle (fun _ => hpair)
        | rts =>
            rw [endAt_next]
            exact EndOk.modifying (t := QPState.init) (by decide) hpair (fun h => absurd rfl h)
  · have hinit : target = QPState.init := by
      by_contra hne
      exact hpair (hlt hne)
    have hend : i = pairs node socket peer side :=
      Nat.le_antisymm hle (Nat.le_of_not_lt hpair)
    subst hinit hend
    cases modify_endAt_end.symm.trans hmodify
    exact EndOk.up

/-- Both ends are as expected after each statement. -/
theorem EndsOk.step (h : EndsOk node socket peer s)
    (hstep : QueuePairs.step node s side = Except.ok (out, s')) :
    EndsOk node socket peer s' := by
  have hside := h side
  have hother := h side.other
  unfold QueuePairs.step at hstep
  generalize hend : s.ends side = e at hside hstep
  generalize hid : s.ids side = id at hside
  generalize hmeta : s.metas side = own at hside
  generalize htheirs : s.metas side.other = theirs at hside
  cases hside with
  | start =>
      cases hstep
      refine h.set rfl (fun _ hne => Function.update_of_ne hne _ _) (fun _ _ => rfl)
        (Or.inl rfl) ?_
      show EndOk _ _ _ _ _ (Function.update s.ids side _ side) (s.metas side) _
      rw [Function.update_self, hmeta]
      exact EndOk.sentID
  | sentID =>
      dsimp only at hstep
      split at hstep
      · cases hstep
      · rename_i remoteID hremote
        rw [hremote] at hother
        rw [hother.id_eq] at hstep
        cases hstep
        refine h.set rfl (fun _ _ => rfl) (fun _ _ => rfl) (Or.inl rfl) ?_
        show EndOk _ _ _ _ (metEnd node socket peer side) (s.ids side) (s.metas side) _
        rw [hid, hmeta]
        cases hgid : (node side).gid with
        | false => exact EndOk.noGid hgid
        | true => exact EndOk.created hgid
  | noGid hgid =>
      have hphase : (metEnd node socket peer side).phase = Phase.returned false := by
        unfold metEnd End.receiveID
        rw [hgid]
        rfl
      dsimp only at hstep
      rw [hphase] at hstep
      cases hstep
  | created hgid =>
      have hphase : (metEnd node socket peer side).phase = Phase.created := by
        unfold metEnd End.receiveID
        rw [hgid]
        rfl
      dsimp only at hstep
      rw [hphase] at hstep
      cases hstep
      refine h.set rfl (fun _ _ => rfl) (fun _ hne => Function.update_of_ne hne _ _)
        (Or.inr hmeta) ?_
      show EndOk _ _ _ _ _ (s.ids side) (Function.update s.metas side _ side) _
      rw [hid, Function.update_self]
      exact EndOk.sentMeta
  | sentMeta =>
      dsimp only at hstep
      split at hstep
      · cases hstep
      · rename_i remoteMeta hremote
        rw [hremote] at hother
        rw [hother.meta_eq] at hstep
        cases hstep
        refine h.set rfl (fun _ _ => rfl) (fun _ _ => rfl) (Or.inl rfl) ?_
        show EndOk _ _ _ _ _ (s.ids side) (s.metas side) (s.metas side.other)
        rw [hid, hmeta, hremote, hother.meta_eq]
        have hfirst := EndOk.modifying (t := QPState.init) (by decide)
          (Nat.zero_le (pairs node socket peer side)) (fun h => absurd rfl h)
        rw [show before QPState.init = QPState.reset from rfl, ← endAt_zero] at hfirst
        exact hfirst
  | @modifying i target hreset hle hlt =>
      rcases bind_eq_ok.mp hstep with ⟨⟨out1, e1⟩, hmodify, hpure⟩
      cases hpure
      refine h.set rfl (fun _ _ => rfl) (fun _ _ => rfl) (Or.inl rfl) ?_
      show EndOk _ _ _ _ e1 (s.ids side) (s.metas side) (s.metas side.other)
      rw [hid, hmeta, htheirs]
      exact EndOk.modify hreset hle hlt hmodify
  | refused _ _ => cases hstep
  | up => cases hstep

end Steps

end QueuePairs
end Net
end SpongeBob
