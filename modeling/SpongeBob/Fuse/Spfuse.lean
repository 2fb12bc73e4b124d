import SpongeBob.Client.MetaClient
import Mathlib.Logic.Function.Basic

/-!
# The mounted file system

The upcalls of a mounted SpongeBob, on any number of hosts that share the metadata
server and the memory of the storage nodes.  An upcall runs to its end before another
one begins.  What comes from outside is the value of {lit}`errno`, the answers of the
function that fills a directory buffer, and the random numbers of the server.
-/

namespace SpongeBob
namespace Fuse

open Foundation
open Fs
open Metadata
open Client
open Client.FullStack (transfer)
open Net.Transfer

/-- The memory of a host and the operations on its queue pairs. -/
structure Host where
  memory : Bytes.Memory
  requests : QueuePair -> List Net.Completion.WorkRequest

structure FileSystem where
  server : MetadataServiceImpl
  /-- The memories of the storage nodes. -/
  remote : UInt16 -> Bytes.Memory
  hosts : Nat -> Host

/-- The sockets of the hosts and their network cards. -/
structure Hardware where
  socket : Nat -> Socket
  device : Nat -> Device

def FileSystem.start (remote : UInt16 -> Bytes.Memory) (hosts : Nat -> Host) : FileSystem where
  server := MetadataServiceImpl.init
  remote := remote
  hosts := hosts

/-- The machine that a host sees. -/
def FileSystem.machine (fs : FileSystem) (host : Nat) : Machine where
  memory := (fs.hosts host).memory
  remote := fs.remote
  requests := (fs.hosts host).requests

/-- The file system after transfers of a host. -/
def FileSystem.withMachine (fs : FileSystem) (host : Nat) (m : Machine) : FileSystem where
  server := fs.server
  remote := m.remote
  hosts := Function.update fs.hosts host ⟨m.memory, m.requests⟩

/-- The fields of {lit}`struct stat` that an upcall sets, zero to begin with. -/
structure Stat where
  mode : Nat := 0
  size : Nat := 0
  nlink : Nat := 0
  uid : Nat := 0
  gid : Nat := 0
  rdev : Nat := 0
  atime : Nat := 0
  mtime : Nat := 0
  ctime : Nat := 0
deriving DecidableEq, Repr

def sIfdir : Nat := 0o040000

def sIfreg : Nat := 0o100000

/-- The upcalls that return zero and do nothing else. -/
inductive Ignored where
  | access
  | flush
  | utimens
  | setxattr
  | fgetattr
  | fallocate
deriving DecidableEq, Repr

inductive Upcall where
  | getattr (path : String)
  | readdir (path : String)
  | read (path : String) (buf size : UInt64) (offset : Int64)
  | write (path : String) (buf size : UInt64) (offset : Int64)
  | open (path : String)
  | create (path : String)
  | release (path : String) (fh : UInt64)
  | unlink (path : String)
  | mkdir (path : String)
  | rmdir (path : String)
  | statfs (path : String)
  | ignored (upcall : Ignored)
deriving DecidableEq, Repr

/-- The value that an upcall returns, with what it has put behind its pointers. -/
inductive Result where
  | code (res : Int)
  | attributes (res : Int) (st : Stat)
  | opened (res : Int) (fh : Option UInt64)
  | filled (res : Int) (entries : List (String × Stat))
  | fileSystem (res : Int) (bsize : Nat)
deriving DecidableEq, Repr

/-- Why an upcall does not return: the server faults, or the polling never ends. -/
inductive Stop where
  | fault (f : Fault)
  | polls
deriving DecidableEq, Repr

/-- What an upcall gets from outside. -/
structure Surroundings where
  rands : Nat -> Nat
  errno : Int
  /-- Whether the directory buffer is full after each entry. -/
  filler : Nat -> Bool

/-!
# The functions
-/

/-- {lit}`path + 1` -/
def newPath (path : String) : String :=
  String.ofList path.toList.tail

/-- What a method of the stub does to the file system. -/
def ask {alpha : Type} (fs : FileSystem)
    (method : MetadataServiceImpl -> Except Fault (alpha × MetadataServiceImpl)) :
    Except Stop (alpha × FileSystem) :=
  match method fs.server with
  | Except.ok (result, server) => Except.ok (result, { fs with server := server })
  | Except.error f => Except.error (Stop.fault f)

/-- {lit}`Client::read` and {lit}`Client::write` on a host. -/
def perform (hash : String -> UInt64) (rands : Nat -> Nat) (hw : Hardware) (host : Nat)
    (fs : FileSystem) (op : Operation) (buf : UInt64) : Except Stop (Int × FileSystem) := do
  let (reply, fs) ← ask fs (fun server => serve hash server ⟨op.request, rands⟩)
  match transfer (hw.socket host) (hw.device host) op.direction buf reply (fs.machine host) with
  | some (bytes, m) => pure (bytes, fs.withMachine host m)
  | none => Except.error Stop.polls

section Upcalls

variable (hash : String -> UInt64) (env : Surroundings) (hw : Hardware) (host : Nat)
  (fs : FileSystem)

def fuseOpen (path : String) : Except Stop (Result × FileSystem) := do
  let (res, fs) ← ask fs (fun server =>
    MetadataClient.openFile hash env.rands server (newPath path))
  if res = -1 then pure (Result.opened (-env.errno) none, fs)
  else pure (Result.opened 0 (some (UInt64.ofInt res)), fs)

def fuseCreate (path : String) : Except Stop (Result × FileSystem) := do
  let (res, fs) ← ask fs (fun server =>
    MetadataClient.openFile hash env.rands server (newPath path))
  if res = -1 then pure (Result.opened (-env.errno) none, fs)
  else pure (Result.opened 0 (some (UInt64.ofInt res)), fs)

def fuseGetattr (path : String) : Result :=
  if path = "/" then
    Result.attributes 0 { mode := sIfdir ||| 0o755, size := 0, nlink := 1 }
  else
    Result.attributes 0 { mode := sIfreg ||| 0o755, size := 123, nlink := 1 }

def fuseRelease (fh : UInt64) : Except Stop (Result × FileSystem) := do
  let (success, fs) ← ask fs (fun server =>
    MetadataClient.closeFile hash env.rands server fh.toInt64)
  if success then pure (Result.code 0, fs) else pure (Result.code (-env.errno), fs)

/-- Fill in the entries until the buffer is full. -/
def fillEntries : (Nat -> Bool) -> List DentryInfo -> List (String × Stat)
  | _, [] => []
  | filler, info :: rest =>
      (info.name, { mode := if info.isDir then sIfdir else sIfreg }) ::
        if filler 0 then [] else fillEntries (fun k => filler (k + 1)) rest

/-- The result of {lit}`ReadDirectory` is not looked at. -/
def fuseReaddir (path : String) : Except Stop (Result × FileSystem) := do
  let ((_, dentryList), fs) ← ask fs (fun server =>
    MetadataClient.readDirectory hash env.rands server (newPath path))
  pure (Result.filled 0 (fillEntries env.filler dentryList), fs)

def fuseRead (path : String) (buf size : UInt64) (offset : Int64) :
    Except Stop (Result × FileSystem) := do
  let (bytesRead, fs) ← perform hash env.rands hw host fs
    ⟨Direction.read, newPath path, offset.toUInt64, size⟩ buf
  pure (Result.code bytesRead, fs)

def fuseWrite (path : String) (buf size : UInt64) (offset : Int64) :
    Except Stop (Result × FileSystem) := do
  let (bytesWrite, fs) ← perform hash env.rands hw host fs
    ⟨Direction.write, newPath path, offset.toUInt64, size⟩ buf
  pure (Result.code bytesWrite, fs)

def fuseUnlink (path : String) : Except Stop (Result × FileSystem) := do
  let (res, fs) ← ask fs (fun server =>
    MetadataClient.removeFile hash env.rands server (newPath path))
  if res then pure (Result.code 0, fs) else pure (Result.code (-env.errno), fs)

/-- The result of {lit}`CreateDiretory` is taken for a flag. -/
def fuseMkdir (path : String) : Except Stop (Result × FileSystem) := do
  let (res, fs) ← ask fs (fun server =>
    MetadataClient.createDiretory hash env.rands server (newPath path))
  if res ≠ 0 then pure (Result.code 0, fs) else pure (Result.code (-env.errno), fs)

def fuseRmdir (path : String) : Except Stop (Result × FileSystem) := do
  let (res, fs) ← ask fs (fun server =>
    MetadataClient.removeFile hash env.rands server (newPath path))
  if res then pure (Result.code 0, fs) else pure (Result.code (-env.errno), fs)

def fuseStatfs : Result :=
  Result.fileSystem 0 12345

/-- The table {lit}`fuse_oper`. -/
def fuseOper : Upcall -> Except Stop (Result × FileSystem)
  | Upcall.getattr path => pure (fuseGetattr path, fs)
  | Upcall.readdir path => fuseReaddir hash env fs path
  | Upcall.read path buf size offset => fuseRead hash env hw host fs path buf size offset
  | Upcall.write path buf size offset => fuseWrite hash env hw host fs path buf size offset
  | Upcall.open path => fuseOpen hash env fs path
  | Upcall.create path => fuseCreate hash env fs path
  | Upcall.release _ fh => fuseRelease hash env fs fh
  | Upcall.unlink path => fuseUnlink hash env fs path
  | Upcall.mkdir path => fuseMkdir hash env fs path
  | Upcall.rmdir path => fuseRmdir hash env fs path
  | Upcall.statfs _ => pure (fuseStatfs, fs)
  | Upcall.ignored _ => pure (Result.code 0, fs)

end Upcalls

/-!
# Steps
-/

/-- An upcall on a host, or a request of a program that uses the metadata server itself. -/
inductive Input where
  | upcall (host : Nat) (env : Surroundings) (upcall : Upcall)
  | serve (call : Call)

/-- One step, with the result if it is an upcall. -/
def step (hash : String -> UInt64) (hw : Hardware) (fs : FileSystem) :
    Input -> Except Stop (Option Result × FileSystem)
  | Input.upcall host env upcall => do
      let (result, fs) ← fuseOper hash env hw host fs upcall
      pure (some result, fs)
  | Input.serve call => do
      let (_, fs) ← ask fs (fun server => serve hash server call)
      pure (none, fs)

/-!
# What a step can do
-/

/-- The read or write that an upcall asks the client for, and the address of its buffer. -/
def Upcall.operation : Upcall -> Option (Operation × UInt64)
  | Upcall.read path buf size offset =>
      some (⟨Direction.read, newPath path, offset.toUInt64, size⟩, buf)
  | Upcall.write path buf size offset =>
      some (⟨Direction.write, newPath path, offset.toUInt64, size⟩, buf)
  | _ => none

/-- The request that an upcall makes. -/
def Upcall.request : Upcall -> Option Request
  | Upcall.getattr _ => none
  | Upcall.readdir path => some (Request.readDirectory (newPath path))
  | Upcall.read path _ size offset =>
      some (Request.readFile (newPath path) offset.toUInt64 size)
  | Upcall.write path _ size offset =>
      some (Request.writeFile (newPath path) offset.toUInt64 size)
  | Upcall.open path => some (Request.openFile (newPath path))
  | Upcall.create path => some (Request.openFile (newPath path))
  | Upcall.release _ fh => some (Request.closeFile fh.toInt64)
  | Upcall.unlink path => some (Request.removeFile (newPath path))
  | Upcall.mkdir path => some (Request.createFile (newPath path) true)
  | Upcall.rmdir path => some (Request.removeFile (newPath path))
  | Upcall.statfs _ => none
  | Upcall.ignored _ => none

def openResult (env : Surroundings) (fd : Int) : Result :=
  if fd = -1 then Result.opened (-env.errno) none
  else Result.opened 0 (some (UInt64.ofInt fd))

def flagResult (env : Surroundings) (success : Bool) : Result :=
  if success then Result.code 0 else Result.code (-env.errno)

/-- The result of an upcall that only asks the server, from the reply. -/
def Upcall.answer (env : Surroundings) (reply : Reply) : Upcall -> Result
  | Upcall.open _ => openResult env (MetadataClient.replyFd reply)
  | Upcall.create _ => openResult env (MetadataClient.replyFd reply)
  | Upcall.readdir _ =>
      Result.filled 0 (fillEntries env.filler (MetadataClient.replyDentries reply).2)
  | Upcall.mkdir _ => Result.code (-env.errno)
  | _ => flagResult env (MetadataClient.replySuccess reply)

/-- The result of an upcall that asks nobody. -/
def Upcall.fixed : Upcall -> Result
  | Upcall.getattr path => fuseGetattr path
  | Upcall.statfs _ => fuseStatfs
  | _ => Result.code 0

/-- The call of the server that a step makes. -/
def Input.call? : Input -> Option Call
  | Input.upcall _ env u => u.request.map (fun request => ⟨request, env.rands⟩)
  | Input.serve call => some call

/-- The calls of a run. -/
def calls (inputs : List Input) : List Call :=
  inputs.filterMap Input.call?

/-- What a step can do. -/
inductive Takes (hash : String -> UInt64) (hw : Hardware) (fs : FileSystem) :
    Input -> Option Result -> FileSystem -> Prop where
  | fixed {host : Nat} {env : Surroundings} {upcall : Upcall} (hnone : upcall.request = none) :
      Takes hash hw fs (Input.upcall host env upcall) (some upcall.fixed) fs
  | asked {host : Nat} {env : Surroundings} {upcall : Upcall} {request : Request}
      {reply : Reply} {server : MetadataServiceImpl}
      (hrequest : upcall.request = some request) (hnone : upcall.operation = none)
      (hserve : serve hash fs.server ⟨request, env.rands⟩ = Except.ok (reply, server)) :
      Takes hash hw fs (Input.upcall host env upcall) (some (upcall.answer env reply))
        { fs with server := server }
  | moved {host : Nat} {env : Surroundings} {upcall : Upcall} {op : Operation} {buf : UInt64}
      {reply : Reply} {server : MetadataServiceImpl} {bytes : Int} {m : Machine}
      (hrequest : upcall.request = some op.request)
      (hoperation : upcall.operation = some (op, buf))
      (hserve : serve hash fs.server ⟨op.request, env.rands⟩ = Except.ok (reply, server))
      (htransfer : transfer (hw.socket host) (hw.device host) op.direction buf reply
        (fs.machine host) = some (bytes, m)) :
      Takes hash hw fs (Input.upcall host env upcall) (some (Result.code bytes))
        ({ fs with server := server }.withMachine host m)
  | served {call : Call} {reply : Reply} {server : MetadataServiceImpl}
      (hserve : serve hash fs.server call = Except.ok (reply, server)) :
      Takes hash hw fs (Input.serve call) none { fs with server := server }

section Inversion

variable {hash : String -> UInt64} {env : Surroundings} {hw : Hardware} {host : Nat}
  {fs fs' : FileSystem}

/-- A method of the stub is one call of the server and a function of the reply. -/
theorem ask_eq_ok {alpha : Type} {call : Call} {field : Reply -> alpha} {result : alpha}
    (h : ask fs (fun server => do
      let (reply, server) ← serve hash server call
      pure (field reply, server)) = Except.ok (result, fs')) :
    exists reply server, serve hash fs.server call = Except.ok (reply, server) ∧
      result = field reply ∧ fs' = { fs with server := server } := by
  unfold ask at h
  dsimp only at h
  cases hserve : serve hash fs.server call with
  | error f =>
      rw [hserve] at h
      cases h
  | ok pair =>
      rw [hserve] at h
      cases h
      exact ⟨pair.1, pair.2, rfl, rfl, rfl⟩

/-- An upcall that asks the server and turns the reply into its result. -/
theorem Takes.of_asked {alpha : Type} {upcall : Upcall} {request : Request}
    (hrequest : upcall.request = some request) (hnone : upcall.operation = none)
    {field : Reply -> alpha} {rest : alpha × FileSystem -> Except Stop (Result × FileSystem)}
    (hrest : forall reply fs1,
      rest (field reply, fs1) = Except.ok (upcall.answer env reply, fs1))
    {result : Result}
    (h : ask fs (fun server => do
      let (reply, server) ← serve hash server ⟨request, env.rands⟩
      pure (field reply, server)) >>= rest = Except.ok (result, fs')) :
    Takes hash hw fs (Input.upcall host env upcall) (some result) fs' := by
  rcases bind_eq_ok.mp h with ⟨⟨value, fs1⟩, hask, hresult⟩
  rcases ask_eq_ok hask with ⟨reply, server, hserve, rfl, rfl⟩
  rw [hrest] at hresult
  cases hresult
  exact Takes.asked hrequest hnone hserve

/-- An upcall that reads or writes. -/
theorem Takes.of_performed {upcall : Upcall} {op : Operation} {buf : UInt64}
    (hrequest : upcall.request = some op.request)
    (hoperation : upcall.operation = some (op, buf)) {result : Result}
    (h : perform hash env.rands hw host fs op buf >>=
      (fun (bytes, fs) => pure (Result.code bytes, fs)) = Except.ok (result, fs')) :
    Takes hash hw fs (Input.upcall host env upcall) (some result) fs' := by
  rcases bind_eq_ok.mp h with ⟨⟨bytes, fs1⟩, hperform, hpure⟩
  cases hpure
  rcases bind_eq_ok.mp hperform with ⟨⟨reply, fs2⟩, hask, hmatch⟩
  dsimp only at hmatch
  cases htransfer : transfer (hw.socket host) (hw.device host) op.direction buf reply
      (fs2.machine host) with
  | none =>
      rw [htransfer] at hmatch
      cases hmatch
  | some moved =>
      rw [htransfer] at hmatch
      cases hmatch
      unfold ask at hask
      split at hask
      · rename_i _ server hserve
        cases hask
        exact Takes.moved hrequest hoperation hserve htransfer
      · cases hask

theorem opened_eq (reply : Reply) (fs1 : FileSystem) :
    (if MetadataClient.replyFd reply = -1 then
      pure (Result.opened (-env.errno) none, fs1)
    else pure (Result.opened 0 (some (UInt64.ofInt (MetadataClient.replyFd reply))), fs1)) =
      (Except.ok (openResult env (MetadataClient.replyFd reply), fs1) :
        Except Stop (Result × FileSystem)) := by
  unfold openResult
  split
  · rfl
  · rfl

theorem flagged_eq (reply : Reply) (fs1 : FileSystem) :
    (if MetadataClient.replySuccess reply then pure (Result.code 0, fs1)
    else pure (Result.code (-env.errno), fs1)) =
      (Except.ok (flagResult env (MetadataClient.replySuccess reply), fs1) :
        Except Stop (Result × FileSystem)) := by
  unfold flagResult
  split
  · rfl
  · rfl

theorem fuseOper_takes {upcall : Upcall} {result : Result}
    (h : fuseOper hash env hw host fs upcall = Except.ok (result, fs')) :
    Takes hash hw fs (Input.upcall host env upcall) (some result) fs' := by
  cases upcall with
  | getattr path =>
      cases h
      exact Takes.fixed rfl
  | readdir path =>
      unfold fuseOper fuseReaddir MetadataClient.readDirectory at h
      apply Takes.of_asked rfl rfl ?_ h
      intro reply fs1
      rfl
  | read path buf size offset => exact Takes.of_performed rfl rfl h
  | write path buf size offset => exact Takes.of_performed rfl rfl h
  | «open» path =>
      unfold fuseOper fuseOpen MetadataClient.openFile at h
      exact Takes.of_asked rfl rfl opened_eq h
  | create path =>
      unfold fuseOper fuseCreate MetadataClient.openFile at h
      exact Takes.of_asked rfl rfl opened_eq h
  | release path fh =>
      unfold fuseOper fuseRelease MetadataClient.closeFile at h
      exact Takes.of_asked rfl rfl flagged_eq h
  | unlink path =>
      unfold fuseOper fuseUnlink MetadataClient.removeFile at h
      exact Takes.of_asked rfl rfl flagged_eq h
  | mkdir path =>
      unfold fuseOper fuseMkdir MetadataClient.createDiretory at h
      refine @Takes.of_asked hash env hw host fs fs' Int (Upcall.mkdir path) _ rfl rfl
        (fun _ => 0) _ ?_ result h
      intro reply fs1
      rfl
  | rmdir path =>
      unfold fuseOper fuseRmdir MetadataClient.removeFile at h
      exact Takes.of_asked rfl rfl flagged_eq h
  | statfs path =>
      cases h
      exact Takes.fixed rfl
  | ignored upcall =>
      cases h
      exact Takes.fixed rfl

theorem step_takes {input : Input} {out : Option Result}
    (h : step hash hw fs input = Except.ok (out, fs')) : Takes hash hw fs input out fs' := by
  cases input with
  | upcall host env upcall =>
      rcases bind_eq_ok.mp h with ⟨⟨result, fs1⟩, hoper, hpure⟩
      cases hpure
      exact fuseOper_takes hoper
  | serve call =>
      rcases bind_eq_ok.mp h with ⟨⟨reply, fs1⟩, hask, hpure⟩
      cases hpure
      unfold ask at hask
      split at hask
      · rename_i reply' server hserve
        cases hask
        exact Takes.served hserve
      · cases hask

/-- A step makes one call of the server, or none. -/
theorem Takes.serves {input : Input} {out : Option Result} (h : Takes hash hw fs input out fs') :
    (input.call? = none ∧ fs'.server = fs.server) ∨
    exists call reply, input.call? = some call ∧
      serve hash fs.server call = Except.ok (reply, fs'.server) := by
  cases h with
  | @fixed host env u hnone =>
      left
      constructor
      · show u.request.map _ = none
        rw [hnone]
        rfl
      · rfl
  | @asked host env u request reply server hrequest hnone hserve =>
      right
      refine ⟨⟨request, env.rands⟩, reply, ?_, hserve⟩
      show u.request.map _ = _
      rw [hrequest]
      rfl
  | @moved host env u op buf reply server bytes m hrequest hoperation hserve htransfer =>
      right
      refine ⟨⟨op.request, env.rands⟩, reply, ?_, hserve⟩
      show u.request.map _ = _
      rw [hrequest]
      rfl
  | @served call reply server hserve => exact Or.inr ⟨call, reply, rfl, hserve⟩

end Inversion

theorem calls_concat (inputs : List Input) (input : Input) :
    calls (inputs ++ [input]) = calls inputs ++ input.call?.toList := by
  unfold calls
  rw [List.filterMap_append]
  cases hcall : input.call? with
  | none => simp [hcall]
  | some call => simp [hcall]

/-- The server of the file system is a server that worked on the calls of the run. -/
theorem run_reaches {hash : String -> UInt64} {hw : Hardware} {remote : UInt16 -> Bytes.Memory}
    {hosts : Nat -> Host} {inputs : List Input} {outs : List (Option Result)} {fs : FileSystem}
    (hrun : runFrom (step hash hw) (FileSystem.start remote hosts) inputs =
      Except.ok (outs, fs)) : Reaches hash (calls inputs) fs.server := by
  refine run_induction (motive := fun inputs _ fs => Reaches hash (calls inputs) fs.server)
    ⟨[], rfl⟩ ?_ hrun
  intro before outs fs input out fs' _ hreach hstep
  rw [calls_concat]
  rcases (step_takes hstep).serves with ⟨hnone, hserver⟩ | ⟨call, reply, hcall, hserve⟩
  · rw [hnone, hserver]
    simpa using hreach
  · rw [hcall]
    exact hreach.concat hserve

end Fuse
end SpongeBob
