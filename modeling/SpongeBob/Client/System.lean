import SpongeBob.Client.Client
import SpongeBob.Metadata.Service
import Mathlib.Logic.Function.Basic

/-!
# Many clients

A read or a write is not one step: the metadata request, the server's work on it, the
arrival of the reply and each transfer happen at different times, and anything that
other clients do may come in between.  Run without interruption, the steps of one
operation do what {lit}`write` and {lit}`read` do.
-/

namespace SpongeBob
namespace Client

open Foundation
open Fs
open Metadata

inductive Direction where
  | read
  | write
deriving DecidableEq, Repr

/-- The arguments of a read or a write, less the buffer. -/
structure Operation where
  direction : Direction
  filename : String
  offset : UInt64
  length : UInt64
deriving DecidableEq, Repr

def Operation.request (op : Operation) : Request :=
  match op.direction with
  | Direction.read => Request.readFile op.filename op.offset op.length
  | Direction.write => Request.writeFile op.filename op.offset op.length

/-- How far a client has come with its operation. -/
inductive Session where
  | idle
  | requested (op : Operation) (userBuf : Buffer)
  | replied (op : Operation) (userBuf : Buffer) (reply : Reply)
  | moving (op : Operation) (userBuf : Buffer) (blocks : List Extent)
      (localOffset bytes : UInt64)

structure System where
  server : MetadataServiceImpl
  memory : Memory
  sessions : Nat -> Session

def System.start (memory : Memory) : System where
  server := MetadataServiceImpl.init
  memory := memory
  sessions := fun _ => Session.idle

def System.setSession (s : System) (client : Nat) (session : Session) : System :=
  { s with sessions := Function.update s.sessions client session }

/-!
# Steps
-/

/-- What happens next: {lit}`serve` is a call that no transfer follows. -/
inductive Event where
  | serve (call : Call)
  | request (client : Nat) (op : Operation) (userBuf : Buffer)
  | handle (client : Nat) (rands : Nat -> Nat)
  | receive (client : Nat)
  | transfer (client : Nat)
  | finish (client : Nat)

/-- The part of a node's memory that a transfer on behalf of a file reads or writes. -/
structure Transfer where
  filename : String
  nodeID : UInt16
  bufferReceive : UInt64
  size : UInt64
deriving DecidableEq, Repr

/-- What a step shows. -/
inductive Outcome where
  | quiet
  | served (call : Call) (reply : Reply)
  | moved (t : Transfer)
  | returned (count : Int) (userBuf : Buffer)

/-- Why an event cannot happen: the server faults, or the client is not at that point. -/
inductive Stop where
  | fault (f : Fault)
  | notReady
deriving DecidableEq, Repr

/-- The server works on one call. -/
def System.serve (hash : String -> UInt64) (s : System) (call : Call) :
    Except Stop (Reply × System) :=
  match Metadata.serve hash s.server call with
  | Except.ok (reply, server) => Except.ok (reply, { s with server := server })
  | Except.error f => Except.error (Stop.fault f)

/-- The transfer that an operation makes for an extent. -/
def Operation.transferOf (op : Operation) (block : Extent) : Transfer where
  filename := op.filename
  nodeID := block.serverid.toUInt16
  bufferReceive := block.memOffset
  size := block.length

/-- One round of the loop of a read or a write. -/
def System.transfer (s : System) (client : Nat) (op : Operation) (userBuf : Buffer)
    (block : Extent) (rest : List Extent) (localOffset bytes : UInt64) : System :=
  match op.direction with
  | Direction.read =>
      s.setSession client (Session.moving op
        (remoteRead 0 block.serverid.toUInt16 block.memOffset block.length s.memory userBuf)
        rest (localOffset + block.length) bytes)
  | Direction.write =>
      { s.setSession client
          (Session.moving op userBuf rest (localOffset + block.length) bytes) with
        memory := remoteWrite userBuf 0 block.serverid.toUInt16 block.memOffset block.length
          s.memory }

def step (hash : String -> UInt64) (s : System) : Event -> Except Stop (Outcome × System)
  | Event.serve call => do
      let (reply, s) ← s.serve hash call
      pure (Outcome.served call reply, s)
  | Event.request client op userBuf =>
      match s.sessions client with
      | Session.idle =>
          Except.ok (Outcome.quiet, s.setSession client (Session.requested op userBuf))
      | _ => Except.error Stop.notReady
  | Event.handle client rands =>
      match s.sessions client with
      | Session.requested op userBuf => do
          let (reply, s) ← s.serve hash ⟨op.request, rands⟩
          pure (Outcome.served ⟨op.request, rands⟩ reply,
            s.setSession client (Session.replied op userBuf reply))
      | _ => Except.error Stop.notReady
  | Event.receive client =>
      match s.sessions client with
      | Session.replied op userBuf reply =>
          let (blocks, bytes) := blockInfoList reply
          Except.ok (Outcome.quiet,
            s.setSession client (Session.moving op userBuf blocks 0 bytes))
      | _ => Except.error Stop.notReady
  | Event.transfer client =>
      match s.sessions client with
      | Session.moving op userBuf (block :: rest) localOffset bytes =>
          Except.ok (Outcome.moved (op.transferOf block),
            s.transfer client op userBuf block rest localOffset bytes)
      | _ => Except.error Stop.notReady
  | Event.finish client =>
      match s.sessions client with
      | Session.moving _ userBuf [] _ bytes =>
          Except.ok (Outcome.returned (Word.toInt bytes) userBuf,
            s.setSession client Session.idle)
      | _ => Except.error Stop.notReady

/-!
# What a step can do
-/

/-- The extents that a client has been given and not yet moved, each with its file. -/
def Session.pending : Session -> List (String × Extent)
  | Session.replied op _ reply => (blockInfoList reply).1.map (fun e => (op.filename, e))
  | Session.moving op _ blocks _ _ => blocks.map (fun e => (op.filename, e))
  | _ => []

/-- Whether the event is the server's work on the client's request. -/
def Event.handles (client : Nat) : Event -> Bool
  | Event.handle client' _ => client' == client
  | _ => false

def Outcome.call? : Outcome -> Option Call
  | Outcome.served call _ => some call
  | _ => none

/-- The calls that the server has worked on. -/
def calls (outs : List Outcome) : List Call :=
  outs.filterMap Outcome.call?

variable {hash : String -> UInt64} {s s' : System}

theorem serve_eq_ok {call : Call} {reply : Reply} :
    s.serve hash call = Except.ok (reply, s') <-> exists server,
      Metadata.serve hash s.server call = Except.ok (reply, server) ∧
        s' = { s with server := server } := by
  unfold System.serve
  cases hserve : Metadata.serve hash s.server call with
  | error f =>
      constructor
      · intro h
        cases h
      · rintro ⟨server, h, _⟩
        cases h
  | ok result =>
      constructor
      · intro h
        cases h
        exact ⟨result.2, rfl, rfl⟩
      · rintro ⟨server, h, rfl⟩
        cases h
        rfl

theorem transfer_server (client : Nat) (op : Operation) (userBuf : Buffer) (block : Extent)
    (rest : List Extent) (localOffset bytes : UInt64) :
    (s.transfer client op userBuf block rest localOffset bytes).server = s.server := by
  unfold System.transfer
  cases op.direction <;> rfl

theorem transfer_sessions (client : Nat) (op : Operation) (userBuf : Buffer)
    (block : Extent) (rest : List Extent) (localOffset bytes : UInt64) :
    exists userBuf', (s.transfer client op userBuf block rest localOffset bytes).sessions =
      Function.update s.sessions client
        (Session.moving op userBuf' rest (localOffset + block.length) bytes) := by
  unfold System.transfer
  cases op.direction with
  | read => exact ⟨_, rfl⟩
  | write => exact ⟨_, rfl⟩

/--
The server works on a call, or on a client's request, or it does nothing and some
client goes on with extents that it already had.
-/
theorem step_cases {event : Event} {out : Outcome}
    (hstep : step hash s event = Except.ok (out, s')) :
    (exists call reply, event = Event.serve call ∧ out = Outcome.served call reply ∧
      Metadata.serve hash s.server call = Except.ok (reply, s'.server) ∧
      s'.sessions = s.sessions) ∨
    (exists client rands op userBuf reply, event = Event.handle client rands ∧
      out = Outcome.served ⟨op.request, rands⟩ reply ∧
      Metadata.serve hash s.server ⟨op.request, rands⟩ = Except.ok (reply, s'.server) ∧
      s'.sessions = Function.update s.sessions client (Session.replied op userBuf reply)) ∨
    (exists client session, (forall c, event.handles c = false) ∧ out.call? = none ∧
      s'.server = s.server ∧ s'.sessions = Function.update s.sessions client session ∧
      session.pending ⊆ (s.sessions client).pending) := by
  cases event with
  | serve call =>
      rcases bind_eq_ok.mp hstep with ⟨⟨reply, s1⟩, hserve, hpure⟩
      rcases serve_eq_ok.mp hserve with ⟨server, hserver, rfl⟩
      cases hpure
      exact Or.inl ⟨call, reply, rfl, rfl, hserver, rfl⟩
  | request client op userBuf =>
      right; right
      rw [step] at hstep
      split at hstep
      · cases hstep
        exact ⟨client, _, fun _ => rfl, rfl, rfl, rfl, List.nil_subset _⟩
      · cases hstep
  | handle client rands =>
      right; left
      rw [step] at hstep
      split at hstep
      · rename_i op userBuf hsession
        rcases bind_eq_ok.mp hstep with ⟨⟨reply, s1⟩, hserve, hpure⟩
        rcases serve_eq_ok.mp hserve with ⟨server, hserver, rfl⟩
        cases hpure
        exact ⟨client, rands, op, userBuf, reply, rfl, rfl, hserver, rfl⟩
      · cases hstep
  | receive client =>
      right; right
      rw [step] at hstep
      split at hstep
      · rename_i op userBuf reply hsession
        cases hstep
        refine ⟨client, _, fun _ => rfl, rfl, rfl, rfl, ?_⟩
        rw [hsession]
        exact List.Subset.refl _
      · cases hstep
  | transfer client =>
      right; right
      rw [step] at hstep
      split at hstep
      · rename_i op userBuf block rest localOffset bytes hsession
        cases hstep
        rcases transfer_sessions (s := s) client op userBuf block rest localOffset bytes with
          ⟨userBuf', hsessions⟩
        refine ⟨client, _, fun _ => rfl, rfl, transfer_server _ _ _ _ _ _ _, hsessions, ?_⟩
        rw [hsession]
        exact List.subset_cons_self _ _
      · cases hstep
  | finish client =>
      right; right
      rw [step] at hstep
      split at hstep
      · cases hstep
        exact ⟨client, _, fun _ => rfl, rfl, rfl, rfl, List.nil_subset _⟩
      · cases hstep

/-- The server of the system is a server that worked on these calls. -/
theorem run_reaches {memory : Memory} {events : List Event} {outs : List Outcome}
    (hrun : runFrom (step hash) (System.start memory) events = Except.ok (outs, s)) :
    Reaches hash (calls outs) s.server := by
  refine run_induction (motive := fun _ outs s => Reaches hash (calls outs) s.server)
    ⟨[], rfl⟩ ?_ hrun
  intro before outs s event out s' _ hreach hstep
  have hcalls : calls (outs ++ [out]) = calls outs ++ out.call?.toList := by
    rw [calls, List.filterMap_append, List.filterMap_cons]
    cases out.call? <;> rfl
  rw [hcalls]
  rcases step_cases hstep with ⟨call, reply, _, rfl, hserve, _⟩ |
    ⟨client, rands, op, userBuf, reply, _, rfl, hserve, _⟩ | ⟨_, _, _, hnone, hserver, _⟩
  · exact hreach.concat hserve
  · exact hreach.concat hserve
  · rw [hnone, hserver]
    simpa using hreach

/-!
# Without interruption
-/

/-- A read or a write in one go, with the buffer that it leaves. -/
def perform (hash : String -> UInt64) (rands : Nat -> Nat) (c : Cluster) (op : Operation)
    (userBuf : Buffer) : Except Fault (Int × Buffer × Cluster) :=
  match op.direction with
  | Direction.read => read hash c op.filename userBuf op.offset op.length
  | Direction.write => do
      let (count, c) ← write hash rands c op.filename userBuf op.offset op.length
      pure (count, userBuf, c)

/-- The memory and the buffer after the transfers of an operation. -/
def Operation.move (op : Operation) (blocks : List Extent) (localOffset : UInt64)
    (memory : Memory) (userBuf : Buffer) : Memory × Buffer :=
  match op.direction with
  | Direction.read => (memory, readLoop memory blocks localOffset userBuf)
  | Direction.write => (writeLoop userBuf blocks localOffset memory, userBuf)

/-- The events of one operation, one after another. -/
def soloEvents (client : Nat) (op : Operation) (userBuf : Buffer) (rands : Nat -> Nat)
    (n : Nat) : List Event :=
  [Event.request client op userBuf, Event.handle client rands, Event.receive client] ++
    (List.replicate n (Event.transfer client) ++ [Event.finish client])

theorem setSession_setSession (client : Nat) (session session' : Session) :
    (s.setSession client session).setSession client session' =
      s.setSession client session' := by
  simp [System.setSession]

theorem sessions_setSession (client : Nat) (session : Session) :
    (s.setSession client session).sessions client = session := by
  simp [System.setSession]

theorem setSession_self {client : Nat} {session : Session}
    (h : s.sessions client = session) : s.setSession client session = s := by
  rw [System.setSession, ← h, Function.update_eq_self]

/-- One transfer moves the bytes of the first extent. -/
theorem transfer_move (client : Nat) (op : Operation) (userBuf : Buffer) (block : Extent)
    (rest : List Extent) (localOffset bytes : UInt64) (session : Session) :
    (s.setSession client session).transfer client op userBuf block rest localOffset bytes =
      { s with memory := (op.move [block] localOffset s.memory userBuf).1 }.setSession client
        (Session.moving op (op.move [block] localOffset s.memory userBuf).2 rest
          (localOffset + block.length) bytes) := by
  unfold System.transfer Operation.move
  cases op.direction with
  | read => exact setSession_setSession client session _
  | write => simp [System.setSession, writeLoop]

theorem move_cons (op : Operation) (block : Extent) (rest : List Extent)
    (localOffset : UInt64) (memory : Memory) (userBuf : Buffer) :
    op.move (block :: rest) localOffset memory userBuf =
      op.move rest (localOffset + block.length)
        (op.move [block] localOffset memory userBuf).1
        (op.move [block] localOffset memory userBuf).2 := by
  unfold Operation.move
  cases op.direction <;> rfl

/-- The transfers of an operation run one after another are its loop. -/
theorem run_transfers (client : Nat) (op : Operation) (blocks : List Extent)
    (userBuf : Buffer) (localOffset bytes : UInt64) :
    exists outs localOffset', runFrom (step hash)
      (s.setSession client (Session.moving op userBuf blocks localOffset bytes))
      (List.replicate blocks.length (Event.transfer client)) =
        Except.ok (outs,
          { s with memory := (op.move blocks localOffset s.memory userBuf).1 }.setSession client
            (Session.moving op (op.move blocks localOffset s.memory userBuf).2 []
              localOffset' bytes)) := by
  induction blocks generalizing s userBuf localOffset with
  | nil =>
      refine ⟨[], localOffset, ?_⟩
      unfold Operation.move
      cases op.direction <;> rfl
  | cons block rest ih =>
      have hone : step hash
          (s.setSession client (Session.moving op userBuf (block :: rest) localOffset bytes))
          (Event.transfer client) =
            Except.ok (Outcome.moved (op.transferOf block),
              { s with memory := (op.move [block] localOffset s.memory userBuf).1 }.setSession
                client (Session.moving op (op.move [block] localOffset s.memory userBuf).2 rest
                  (localOffset + block.length) bytes)) := by
        rw [step, sessions_setSession, ← transfer_move]
      rcases ih (s := { s with memory := (op.move [block] localOffset s.memory userBuf).1 })
        (op.move [block] localOffset s.memory userBuf).2 (localOffset + block.length) with
        ⟨outs, localOffset', hrest⟩
      refine ⟨Outcome.moved (op.transferOf block) :: outs, localOffset', ?_⟩
      rw [List.length_cons, List.replicate_succ, move_cons op block rest]
      exact runFrom_cons.mpr ⟨_, _, outs, hone, hrest, rfl⟩

/-- The operation in one go is its request followed by its transfers. -/
theorem perform_eq_ok {rands : Nat -> Nat} {op : Operation} {userBuf userBuf' : Buffer}
    {c c' : Cluster} {count : Int}
    (h : perform hash rands c op userBuf = Except.ok (count, userBuf', c')) :
    exists reply server, serve hash c.server ⟨op.request, rands⟩ = Except.ok (reply, server) ∧
      count = Word.toInt (blockInfoList reply).2 ∧
      c' = ⟨server, (op.move (blockInfoList reply).1 0 c.memory userBuf).1⟩ ∧
      userBuf' = (op.move (blockInfoList reply).1 0 c.memory userBuf).2 := by
  rcases op with ⟨direction, filename, offset, length⟩
  cases direction with
  | read =>
      rcases bind_eq_ok.mp h with ⟨⟨reply, server⟩, hread, hpure⟩
      have hresult := Except.ok.inj hpure
      simp only [Prod.mk.injEq] at hresult
      rcases hresult with ⟨hcount, hbuf, hc⟩
      exact ⟨reply, server, hread, hcount.symm, hc.symm, hbuf.symm⟩
  | write =>
      rcases bind_eq_ok.mp h with ⟨⟨n, c1⟩, hwrite, hpure⟩
      rcases bind_eq_ok.mp hwrite with ⟨⟨reply, server⟩, hserve, hpure'⟩
      have hresult := Except.ok.inj hpure
      have hresult' := Except.ok.inj hpure'
      simp only [Prod.mk.injEq] at hresult hresult'
      rcases hresult with ⟨hcount, hbuf, hc⟩
      rcases hresult' with ⟨hcount', hc'⟩
      exact ⟨reply, server, hserve, (hcount'.trans hcount).symm, (hc'.trans hc).symm,
        hbuf.symm⟩

/-- A client that is not interrupted does what {lit}`read` and {lit}`write` do. -/
theorem run_solo {client : Nat} (hidle : s.sessions client = Session.idle)
    {rands : Nat -> Nat} {op : Operation} {userBuf userBuf' : Buffer} {c : Cluster}
    {count : Int}
    (h : perform hash rands ⟨s.server, s.memory⟩ op userBuf =
      Except.ok (count, userBuf', c)) :
    exists n outs, runFrom (step hash) s (soloEvents client op userBuf rands n) =
      Except.ok (outs ++ [Outcome.returned count userBuf'],
        { s with server := c.server, memory := c.memory }) := by
  rcases perform_eq_ok h with ⟨reply, server, hserve, hcount, rfl, rfl⟩
  rw [hcount]
  rcases @run_transfers hash { s with server := server } client op (blockInfoList reply).1
    userBuf 0 (blockInfoList reply).2 with ⟨outs, localOffset, hmoves⟩
  refine ⟨(blockInfoList reply).1.length, [Outcome.quiet,
    Outcome.served ⟨op.request, rands⟩ reply, Outcome.quiet] ++ outs, ?_⟩
  have hrequest : step hash s (Event.request client op userBuf) =
      Except.ok (Outcome.quiet, s.setSession client (Session.requested op userBuf)) := by
    rw [step, hidle]
  have hhandle : step hash (s.setSession client (Session.requested op userBuf))
      (Event.handle client rands) = Except.ok (Outcome.served ⟨op.request, rands⟩ reply,
        { s with server := server }.setSession client (Session.replied op userBuf reply)) := by
    rw [step, sessions_setSession]
    refine bind_eq_ok.mpr ⟨_, serve_eq_ok.mpr ⟨server, hserve, rfl⟩, ?_⟩
    simp [System.setSession, pure, Except.pure]
  have hreceive : step hash
      ({ s with server := server }.setSession client (Session.replied op userBuf reply))
      (Event.receive client) = Except.ok (Outcome.quiet,
        { s with server := server }.setSession client
          (Session.moving op userBuf (blockInfoList reply).1 0 (blockInfoList reply).2)) := by
    rw [step, sessions_setSession]
    simp [setSession_setSession]
  rw [soloEvents, List.append_assoc]
  refine runFrom_cons.mpr ⟨_, _, _, hrequest, ?_, rfl⟩
  refine runFrom_cons.mpr ⟨_, _, _, hhandle, ?_, rfl⟩
  refine runFrom_cons.mpr ⟨_, _, _, hreceive, ?_, rfl⟩
  refine runFrom_concat.mpr ⟨outs, _, _, hmoves, ?_, rfl⟩
  rw [step, sessions_setSession, setSession_setSession]
  rw [setSession_self (s := { s with
    server := server
    memory := (op.move (blockInfoList reply).1 0 s.memory userBuf).1 }) hidle]

end Client
end SpongeBob
