/-!
# Sizes and time limits

The depth of every pool, queue and table, the capacity of every size of message, and the two
waits that are counted in ticks of 100 ms.  Nothing grows beyond these numbers while an interface
runs.
-/

namespace LayoutBus.Limits

/-- Frames that can wait for transmission. -/
def frameDepth : Nat := 10

/-- Messages of the smallest size. -/
def basicDepth : Nat := 32

/-- Messages of the size of a datagram. -/
def datagramDepth : Nat := 4

/-- Messages of the size of a node information reply. -/
def snipDepth : Nat := 4

/-- Messages of stream data, in an interface that supports streams. -/
def streamDepth : Nat := 1

/-- Messages of all sizes together, streams included; the depth of the message queues and of the
list of messages under assembly. -/
def messageDepth : Nat := basicDepth + datagramDepth + snipDepth + streamDepth

/-- Payload bytes of the smallest message. -/
def basicLength : Nat := 16

/-- Payload bytes of a datagram. -/
def datagramLength : Nat := 72

/-- Payload bytes of a node information reply. -/
def snipLength : Nat := 256

/-- Payload bytes of a stream message. -/
def streamLength : Nat := 512

/-- Nodes that one interface hosts. -/
def nodeDepth : Nat := 4

/-- Aliases that one interface holds: one for each node. -/
def aliasDepth : Nat := nodeDepth

/-- Events that one node produces. -/
def producerDepth : Nat := 32

/-- Events that one node consumes. -/
def consumerDepth : Nat := 32

/-- Independent cursors over the nodes. -/
def cursorCount : Nat := 4

/-- Ticks between the last check of an alias and its reservation: strictly more than 200 ms. -/
def loginWait : Nat := 3

/-- Ticks after which a message that is still incomplete is given up. -/
def assemblyTimeout : Nat := 30

end LayoutBus.Limits
