import SpongeBob.Net.Lifetimes

/-!
# What is left when a socket is destroyed

{lit}`ResourcesDestroy` reads the entry of every server in {lit}`peers` and all queue pairs
of the peer there, whether they were assigned or not.  What it does not find stays with
the driver: the completion queues, and the queue pairs of clients, of attempts that
failed, and of peers whose number was taken by a later one.
-/

namespace SpongeBob
namespace Net
namespace Resources

open Foundation

section Destroying

variable {driver : Driver} {memory : Memory} {cqNum : Nat} {first : RdmaSocket}
  {outs : List Notice} {s : Life} {h : Handle}

/-!
# The entries of the servers
-/

end Destroying

end Resources
end Net
end SpongeBob
