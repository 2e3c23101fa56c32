/-!
# Assigned numbers

The numbers that the protocol assigns, as far as an interface looks at them: message types (`Mti`),
bits of a protocol support reply (`Support`), codes of a rejection (`Rejection`) and the spaces of
configuration memory (`Space`).  An interface carries all other messages without a look at their type.
-/

namespace LayoutBus

namespace Mti

/-- The bit of message types that carry a destination alias. -/
def destBit : Nat := 0x0008

/-- Messages of this type are directed to one node. -/
def isAddressed (mti : Nat) : Bool := mti / destBit % 2 == 1

def initializationComplete : Nat := 0x0100
def initializationCompleteSimple : Nat := 0x0101
def optionalInteractionRejected : Nat := 0x0068

def consumerIdentifiedUnknown : Nat := 0x04C7
def consumerIdentifiedSet : Nat := 0x04C4
def consumerIdentifiedClear : Nat := 0x04C5
def producerIdentifiedUnknown : Nat := 0x0547
def producerIdentifiedSet : Nat := 0x0544
def producerIdentifiedClear : Nat := 0x0545

/-- An event report that carries data after its event id.  It spans frames, whose identifiers
carry `eventReportFirst`, `eventReportMiddle` and `eventReportLast`; all three stand for this
message type. -/
def eventReportWithPayload : Nat := 0x0F14
def eventReportFirst : Nat := 0x0F16
def eventReportMiddle : Nat := 0x0F15
def eventReportLast : Nat := 0x0F14

def nodeInfoReply : Nat := 0x0A08

/-- The type of messages that hold stream data; it never travels in an identifier. -/
def streamData : Nat := 0xF000

/-- The type of messages that hold a datagram; it never travels in an identifier. -/
def datagram : Nat := 0x1C48
def datagramRejected : Nat := 0x0A48

-- Types of messages that an interface carries without a look at them.
def verifyNodeIdAddressed : Nat := 0x0488
def verifyNodeIdGlobal : Nat := 0x0490
def protocolSupportReply : Nat := 0x0668
def eventReport : Nat := 0x05B4

end Mti

namespace Support

/-- A simple node, which announces itself with `Mti.initializationCompleteSimple`. -/
def simple : Nat := 0x800000

/-- The protocols `bits` include the one with the single bit `bit`. -/
def includes (bits bit : Nat) : Bool := bits / bit % 2 == 1

end Support

namespace Rejection

def bufferUnavailable : Nat := 0x2020
def endWithoutStart : Nat := 0x2041
def startBeforeEnd : Nat := 0x2042

end Rejection

namespace Space

/-- The text that describes a node's configuration. -/
def configurationDefinition : Nat := 0xFF

/-- All memory of a node. -/
def allMemory : Nat := 0xFE

/-- The memory that holds a node's configuration. -/
def configurationMemory : Nat := 0xFD

end Space

end LayoutBus
