import SpongeBob.Client.FullStack

/-!
# The stub of the metadata service

Each method sends one request and takes its result from the reply.  A field that the
server has not set has its default value, so a method that does not look at the status
gets zero, or false, from a reply that is not {lit}`ok`.
-/

namespace SpongeBob
namespace Client
namespace MetadataClient

open Foundation
open Fs
open Metadata

/-!
# Fields of the replies
-/

/-- The descriptor of a reply to {lit}`OpenFile`. -/
def replyFd : Reply -> Int
  | Reply.openFile Status.ok fd => fd
  | _ => 0

/-- The flag of a reply to {lit}`CloseFile` or {lit}`RemoveFile`. -/
def replySuccess : Reply -> Bool
  | Reply.closeFile Status.ok success => success
  | Reply.removeFile Status.ok success => success
  | _ => false

/-- The result of {lit}`ReadDirectory` and the items that it adds to the list. -/
def replyDentries : Reply -> Int × List DentryInfo
  | Reply.readDirectory Status.ok dentryInfo => (0, dentryInfo)
  | _ => (-1, [])

/-- The result of {lit}`RegisterMemoryRegion`. -/
def replyRegistered : Reply -> Int
  | Reply.registerMemoryRegion Status.ok => 0
  | _ => -1

/-!
# Methods
-/

section Methods

variable (hash : String -> UInt64) (rands : Nat -> Nat) (server : MetadataServiceImpl)

/-- Zero, whatever the reply is. -/
def createFile (filename : String) : Except Fault (Int × MetadataServiceImpl) := do
  let (_, server) ← serve hash server ⟨Request.createFile filename false, rands⟩
  pure (0, server)

/-- Zero, whatever the reply is. -/
def createDiretory (path : String) : Except Fault (Int × MetadataServiceImpl) := do
  let (_, server) ← serve hash server ⟨Request.createFile path true, rands⟩
  pure (0, server)

def openFile (filename : String) : Except Fault (Int × MetadataServiceImpl) := do
  let (reply, server) ← serve hash server ⟨Request.openFile filename, rands⟩
  pure (replyFd reply, server)

def closeFile (fd : Int64) : Except Fault (Bool × MetadataServiceImpl) := do
  let (reply, server) ← serve hash server ⟨Request.closeFile fd, rands⟩
  pure (replySuccess reply, server)

def removeFile (filename : String) : Except Fault (Bool × MetadataServiceImpl) := do
  let (reply, server) ← serve hash server ⟨Request.removeFile filename, rands⟩
  pure (replySuccess reply, server)

def readDirectory (path : String) :
    Except Fault ((Int × List DentryInfo) × MetadataServiceImpl) := do
  let (reply, server) ← serve hash server ⟨Request.readDirectory path, rands⟩
  pure (replyDentries reply, server)

def registerMemoryRegion (nodeid addr length : UInt64) :
    Except Fault (Int × MetadataServiceImpl) := do
  let (reply, server) ←
    serve hash server ⟨Request.registerMemoryRegion nodeid addr length, rands⟩
  pure (replyRegistered reply, server)

end Methods

end MetadataClient
end Client
end SpongeBob
