import LayoutBus.Alias.Table
import LayoutBus.Memory.Queue
import LayoutBus.Message.Assembly
import LayoutBus.Message.Store
import LayoutBus.Outbox

/-!
# What an interface shares

The state that reception, the clock and the main loop of an interface all touch: frames to send,
message buffers, the queues of messages that came in and that are to go out, the messages under
assembly, and the aliases of the nodes.

* `Resources.deliver` hands a message to the application, or frees it when the queue is full.
-/

namespace LayoutBus

/-- The shared state of an interface. -/
structure Resources where
  outbox : Outbox
  messages : MessageStore
  /-- Complete messages from the bus. -/
  ingress : Queue Handle Limits.messageDepth
  /-- Messages to be sent. -/
  egress : Queue Handle Limits.messageDepth
  assemblies : Assemblies
  aliases : AliasTable
deriving DecidableEq, Repr

namespace Resources

/-- The state of an interface that has done nothing yet. -/
def empty (streams : Bool) : Resources :=
  ⟨.empty, .empty streams, .empty, .empty, .empty, .empty⟩

/-- Hands a complete message to the application, and says whether there was room. -/
def deliver (r : Resources) (h : Handle) : Resources × Bool :=
  match r.ingress.push h with
  | some ingress => ({ r with ingress }, true)
  | none => ({ r with messages := r.messages.free h }, false)

end Resources

end LayoutBus
