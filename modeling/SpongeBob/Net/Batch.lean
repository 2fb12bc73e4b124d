import Mathlib.Data.List.Range

/-!
# Batches of operations

The batched operations assemble a linked list of work requests and post it at once.
Only every 32nd request of a peer asks for a completion, and a client takes the one
before it from the completion queue first.  Apart from what their requests say, the
three batched operations are the same function.
-/

namespace SpongeBob
namespace Net
namespace Batch

def maxPostList : Nat := 24

def qpsMaxDepth : Nat := 128

def signalBatch : UInt64 := 31

/-!
# Work requests
-/

/-- What is done, with the immediate data that go along. -/
inductive Opcode where
  | sendWithImm (immData : UInt32)
  | rdmaRead
  | rdmaWrite
  | rdmaWriteWithImm (immData : UInt32)
deriving DecidableEq, Repr

/-- The memory of the other node that a request reads or writes. -/
structure Rdma where
  remoteAddr : UInt64
  rkey : UInt32
deriving DecidableEq, Repr

structure WorkRequest where
  addr : UInt64
  length : UInt32
  lkey : UInt32
  wrID : UInt64
  opcode : Opcode
  signaled : Bool
  rdma : Option Rdma
deriving DecidableEq, Repr

def WorkRequest.unsignaled (r : WorkRequest) : WorkRequest :=
  { r with signaled := false }

/-- What an operation does, step by step. -/
inductive Verb where
  | pollCompletion
  | postSend (qp : Nat) (requests : List WorkRequest)
deriving DecidableEq, Repr

structure Socket where
  isServer : Bool
  myNodeID : UInt16
  lkey : UInt32
deriving DecidableEq, Repr

structure PeerSockData where
  counter : UInt64
  registeredMemory : UInt64
  rkey : UInt32
deriving DecidableEq, Repr

/-- A size of a batch for which there is room on the stack, and something to post. -/
structure BatchSize where
  val : Nat
  pos : 1 ≤ val
  le : val ≤ maxPostList
deriving DecidableEq, Repr

/-!
# The loop of a batch
-/

/-- Whether a request asks for a completion, given the number of requests before it. -/
def signals (counter : UInt64) : Bool :=
  decide (counter &&& signalBatch = 0)

/-- Whether a completion is taken before a request is assembled. -/
def polls (s : Socket) (counter : UInt64) : Bool :=
  signals counter && decide (0 < counter) && !s.isServer

/-- Assemble {lit}`n` requests from the number {lit}`i` on. -/
def assemble (s : Socket) (request : Nat -> Bool -> WorkRequest) :
    Nat -> Nat -> UInt64 -> List Verb × List WorkRequest
  | 0, _, _ => ([], [])
  | n + 1, i, counter =>
      let (verbs, requests) := assemble s request n (i + 1) (counter + 1)
      (if polls s counter then Verb.pollCompletion :: verbs else verbs,
        request i (signals counter) :: requests)

/-- A batch takes the completions while it is assembled, and is posted afterwards. -/
def rdmaBatch (s : Socket) (peer : PeerSockData) (request : Nat -> Bool -> WorkRequest)
    (batchSize : BatchSize) : List Verb × PeerSockData :=
  let (verbs, requests) := assemble s request batchSize.val 0 peer.counter
  (verbs ++ [Verb.postSend 0 requests],
    { peer with counter := peer.counter + UInt64.ofNat batchSize.val })

/-!
# The operations

Each returns whether its {lit}`ibv_post_send` succeeded.
-/

/-- {lit}`_RdmaBatchSend` -/
def rdmaBatchSend (s : Socket) (peer : PeerSockData) (sourceBuffer bufferSize : UInt64)
    (batchSize : BatchSize) : List Verb × PeerSockData :=
  rdmaBatch s peer
    (fun i signaled =>
      { addr := sourceBuffer + UInt64.ofNat (i * 4096)
        length := bufferSize.toUInt32
        lkey := s.lkey
        wrID := 0
        opcode := Opcode.sendWithImm s.myNodeID.toUInt32
        signaled := signaled
        rdma := none })
    batchSize

/-- {lit}`_RdmaBatchRead`, whose requests all read from the same place -/
def rdmaBatchRead (s : Socket) (peer : PeerSockData)
    (sourceBuffer desBuffer bufferSize : UInt64) (batchSize : BatchSize) :
    List Verb × PeerSockData :=
  rdmaBatch s peer
    (fun i signaled =>
      { addr := sourceBuffer + UInt64.ofNat (i * 8)
        length := bufferSize.toUInt32
        lkey := s.lkey
        wrID := 0
        opcode := Opcode.rdmaRead
        signaled := signaled
        rdma := some ⟨desBuffer + peer.registeredMemory, peer.rkey⟩ })
    batchSize

/-- {lit}`_RdmaBatchWrite` -/
def rdmaBatchWrite (s : Socket) (peer : PeerSockData)
    (sourceBuffer desBuffer bufferSize : UInt64) (imm : UInt32) (batchSize : BatchSize) :
    List Verb × PeerSockData :=
  rdmaBatch s peer
    (fun i signaled =>
      { addr := sourceBuffer + UInt64.ofNat (i * 4096)
        length := bufferSize.toUInt32
        lkey := s.lkey
        wrID := 0
        opcode := if imm.toInt32 = 0 then Opcode.rdmaWrite else Opcode.rdmaWriteWithImm imm
        signaled := signaled
        rdma := some ⟨desBuffer + peer.registeredMemory + UInt64.ofNat (i * 4096),
          peer.rkey⟩ })
    batchSize

/-- {lit}`RdmaWrite` -/
def rdmaWrite (s : Socket) (peer : PeerSockData) (sourceBuffer desBuffer bufferSize : UInt64)
    (imm : UInt32) (taskID : Nat) : List Verb :=
  [Verb.postSend taskID
    [{ addr := sourceBuffer
       length := bufferSize.toUInt32
       lkey := s.lkey
       wrID := 0
       opcode := if imm.toInt32 = -1 then Opcode.rdmaWrite else Opcode.rdmaWriteWithImm imm
       signaled := true
       rdma := some ⟨desBuffer + peer.registeredMemory, peer.rkey⟩ }]]

/-!
# What is posted
-/

def Verb.posted : Verb -> List (Nat × WorkRequest)
  | pollCompletion => []
  | postSend qp requests => requests.map (fun r => (qp, r))

/-- The requests that are posted, with their queue pairs, in order. -/
def posted (verbs : List Verb) : List (Nat × WorkRequest) :=
  verbs.flatMap Verb.posted

/-- The same, whether or not they ask for a completion. -/
def postedUnsignaled (verbs : List Verb) : List (Nat × WorkRequest) :=
  (posted verbs).map (fun p => (p.1, p.2.unsignaled))

theorem assemble_verbs (s : Socket) (request : Nat -> Bool -> WorkRequest) (n i : Nat)
    (counter : UInt64) : posted (assemble s request n i counter).1 = [] := by
  induction n generalizing i counter with
  | zero => rfl
  | succ n ih =>
      rw [assemble]
      dsimp only
      split
      · exact ih (i + 1) (counter + 1)
      · exact ih (i + 1) (counter + 1)

/-- The requests of a batch differ from given ones in the signalled flag only. -/
theorem assemble_requests (s : Socket) {request : Nat -> Bool -> WorkRequest}
    {plain : Nat -> WorkRequest}
    (hplain : forall i signaled, (request i signaled).unsignaled = plain i) (n i : Nat)
    (counter : UInt64) :
    (assemble s request n i counter).2.map WorkRequest.unsignaled =
      (List.range' i n).map plain := by
  induction n generalizing i counter with
  | zero => rfl
  | succ n ih =>
      rw [List.range'_succ, List.map_cons, ← ih (i + 1) (counter + 1), ← hplain i _]
      rfl

theorem postedUnsignaled_rdmaBatch (s : Socket) (peer : PeerSockData)
    {request : Nat -> Bool -> WorkRequest} {plain : Nat -> WorkRequest}
    (hplain : forall i signaled, (request i signaled).unsignaled = plain i)
    (batchSize : BatchSize) :
    postedUnsignaled (rdmaBatch s peer request batchSize).1 =
      (List.range batchSize.val).map (fun i => (0, plain i)) := by
  have hrequests := assemble_requests s hplain batchSize.val 0 peer.counter
  have hposted : posted (rdmaBatch s peer request batchSize).1 =
      (assemble s request batchSize.val 0 peer.counter).2.map (fun r => (0, r)) := by
    unfold rdmaBatch posted
    dsimp only
    rw [List.flatMap_append]
    show posted _ ++ _ = _
    rw [assemble_verbs]
    exact List.append_nil _
  unfold postedUnsignaled
  rw [hposted, List.map_map]
  calc (assemble s request batchSize.val 0 peer.counter).2.map (fun r => (0, r.unsignaled))
    _ = ((assemble s request batchSize.val 0 peer.counter).2.map
          WorkRequest.unsignaled).map (fun r => (0, r)) := List.map_map.symm
    _ = ((List.range batchSize.val).map plain).map (fun r => (0, r)) := by
        rw [hrequests, List.range_eq_range']
    _ = (List.range batchSize.val).map (fun i => (0, plain i)) := List.map_map

/-!
# A batch of writes and the single writes
-/

/-- The writes of one page after another that a batch stands for. -/
def rdmaWrites (s : Socket) (peer : PeerSockData) (sourceBuffer desBuffer bufferSize : UInt64)
    (imm : UInt32) (n : Nat) : List Verb :=
  (List.range n).flatMap (fun i =>
    rdmaWrite s peer (sourceBuffer + UInt64.ofNat (4096 * i))
      (desBuffer + UInt64.ofNat (4096 * i)) bufferSize imm 0)

/-- The request for page {lit}`i`, up to its opcode. -/
def pageRequest (s : Socket) (peer : PeerSockData) (sourceBuffer desBuffer bufferSize : UInt64)
    (opcode : Opcode) (i : Nat) : WorkRequest where
  addr := sourceBuffer + UInt64.ofNat (i * 4096)
  length := bufferSize.toUInt32
  lkey := s.lkey
  wrID := 0
  opcode := opcode
  signaled := false
  rdma := some ⟨desBuffer + peer.registeredMemory + UInt64.ofNat (i * 4096), peer.rkey⟩

section Writes

variable (s : Socket) (peer : PeerSockData) (sourceBuffer desBuffer bufferSize : UInt64)
variable (imm : UInt32)

theorem postedUnsignaled_batchWrite (batchSize : BatchSize) :
    postedUnsignaled
        (rdmaBatchWrite s peer sourceBuffer desBuffer bufferSize imm batchSize).1 =
      (List.range batchSize.val).map (fun i => (0, pageRequest s peer sourceBuffer desBuffer
        bufferSize (if imm.toInt32 = 0 then Opcode.rdmaWrite else Opcode.rdmaWriteWithImm imm)
        i)) := by
  apply postedUnsignaled_rdmaBatch
  intro i signaled
  rfl

theorem postedUnsignaled_writes (n : Nat) :
    postedUnsignaled (rdmaWrites s peer sourceBuffer desBuffer bufferSize imm n) =
      (List.range n).map (fun i => (0, pageRequest s peer sourceBuffer desBuffer bufferSize
        (if imm.toInt32 = -1 then Opcode.rdmaWrite else Opcode.rdmaWriteWithImm imm) i)) := by
  unfold postedUnsignaled posted rdmaWrites
  rw [List.flatMap_assoc, List.map_flatMap, List.map_eq_flatMap]
  apply List.flatMap_congr
  intro i _
  have hremote : desBuffer + UInt64.ofNat (4096 * i) + peer.registeredMemory =
      desBuffer + peer.registeredMemory + UInt64.ofNat (i * 4096) := by
    rw [UInt64.add_assoc, UInt64.add_comm (UInt64.ofNat _), ← UInt64.add_assoc, Nat.mul_comm]
  show [(0, WorkRequest.mk _ _ _ _ _ false (some ⟨_, _⟩))] = [(0, _)]
  rw [hremote, Nat.mul_comm 4096 i]
  rfl

end Writes

theorem toInt32_eq_zero {imm : UInt32} : imm.toInt32 = 0 <-> imm = 0 := by
  constructor
  · intro h
    exact congrArg Int32.toUInt32 h
  · intro h
    rw [h]
    rfl

theorem toInt32_eq_neg_one {imm : UInt32} : imm.toInt32 = -1 <-> imm = 0xFFFFFFFF := by
  constructor
  · intro h
    exact congrArg Int32.toUInt32 h
  · intro h
    rw [h]
    rfl

/-- The two ways to choose the opcode agree where neither chooses the plain write. -/
theorem opcode_eq_iff (imm : UInt32) :
    (if imm.toInt32 = 0 then Opcode.rdmaWrite else Opcode.rdmaWriteWithImm imm) =
        (if imm.toInt32 = -1 then Opcode.rdmaWrite else Opcode.rdmaWriteWithImm imm) <->
      imm ≠ 0 ∧ imm ≠ 0xFFFFFFFF := by
  simp only [toInt32_eq_zero, toInt32_eq_neg_one]
  by_cases hzero : imm = 0
  · rw [hzero]
    decide
  · rw [if_neg hzero]
    by_cases hall : imm = 0xFFFFFFFF
    · rw [if_pos hall]
      constructor
      · intro heq
        cases heq
      · intro hne
        exact absurd hall hne.right
    · rw [if_neg hall]
      exact ⟨fun _ => ⟨hzero, hall⟩, fun _ => rfl⟩

/--
A batch of writes posts what the single writes of its pages post, apart from the
signalled flags, exactly if the immediate data are neither 0 nor -1.
-/
theorem batchWrite_eq_writes_iff (s : Socket) (peer : PeerSockData)
    (sourceBuffer desBuffer bufferSize : UInt64) (imm : UInt32) (batchSize : BatchSize) :
    postedUnsignaled
        (rdmaBatchWrite s peer sourceBuffer desBuffer bufferSize imm batchSize).1 =
      postedUnsignaled
        (rdmaWrites s peer sourceBuffer desBuffer bufferSize imm batchSize.val) <->
      imm ≠ 0 ∧ imm ≠ 0xFFFFFFFF := by
  rw [postedUnsignaled_batchWrite, postedUnsignaled_writes, ← opcode_eq_iff]
  constructor
  · intro heq
    have hfirst := congrArg List.head? heq
    have hrange : (List.range batchSize.val).head? = some 0 := by
      rw [List.head?_range, if_neg (Nat.ne_of_gt batchSize.pos)]
    rw [List.head?_map, List.head?_map, hrange] at hfirst
    have hpage := congrArg Prod.snd (Option.some.inj hfirst)
    exact congrArg WorkRequest.opcode hpage
  · intro heq
    rw [heq]

/-- A plain write becomes one with immediate data in a batch of one page. -/
theorem batchWrite_sends_immediate :
    posted (rdmaBatchWrite ⟨false, 1, 7⟩ ⟨0, 65536, 9⟩ 4096 8192 64 0xFFFFFFFF
        ⟨1, by decide, by decide⟩).1 =
      [(0, ⟨4096, 64, 7, 0, Opcode.rdmaWriteWithImm 0xFFFFFFFF, true, some ⟨73728, 9⟩⟩)] ∧
    posted (rdmaWrites ⟨false, 1, 7⟩ ⟨0, 65536, 9⟩ 4096 8192 64 0xFFFFFFFF 1) =
      [(0, ⟨4096, 64, 7, 0, Opcode.rdmaWrite, true, some ⟨73728, 9⟩⟩)] ∧
    postedUnsignaled (rdmaBatchWrite ⟨false, 1, 7⟩ ⟨0, 65536, 9⟩ 4096 8192 64 0xFFFFFFFF
        ⟨1, by decide, by decide⟩).1 ≠
      postedUnsignaled (rdmaWrites ⟨false, 1, 7⟩ ⟨0, 65536, 9⟩ 4096 8192 64 0xFFFFFFFF 1) := by
  decide +kernel

end Batch
end Net
end SpongeBob
