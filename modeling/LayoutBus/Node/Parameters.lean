import LayoutBus.Wire.Codes

/-!
# What the application says about a node

The identification texts, the protocols the node takes part in, the numbers of events it starts
with, and its three spaces of configuration memory.  `NodeParameters.ofSupport` fills in all that
an application does not care about.
-/

namespace LayoutBus

/-- A space of configuration memory. -/
structure AddressSpace where
  present : Bool
  readOnly : Bool
  lowAddressValid : Bool
  space : Nat
  highestAddress : Nat
  lowAddress : Nat
  description : String
deriving DecidableEq, Repr

/-- The texts of a node information reply. -/
structure NodeInfo where
  manufacturerVersion : Nat
  name : String
  model : String
  hardwareVersion : String
  softwareVersion : String
  userVersion : Nat
deriving DecidableEq, Repr

/-- What the application says about a node. -/
structure NodeParameters where
  info : NodeInfo
  /-- The bits of a protocol support reply. -/
  support : Nat
  /-- How many events the node consumes from the start. -/
  consumers : Nat
  /-- How many events the node produces from the start. -/
  producers : Nat
  configurationDefinition : AddressSpace
  allMemory : AddressSpace
  configurationMemory : AddressSpace
deriving DecidableEq, Repr

namespace NodeParameters

/-- An address space that the node does not have. -/
def absent (space : Nat) (readOnly : Bool) (description : String) : AddressSpace :=
  ⟨false, readOnly, false, space, 0, 0, description⟩

/-- A node that takes part in the protocols of `support` and has nothing else to say. -/
def ofSupport (support : Nat) : NodeParameters where
  info := ⟨4, "", "", "", "", 2⟩
  support := support
  consumers := 0
  producers := 0
  configurationDefinition :=
    absent Space.configurationDefinition true "Configuration definition info"
  allMemory := absent Space.allMemory true "All memory Info"
  configurationMemory := absent Space.configurationMemory false "Configuration memory storage"

/-- The description of a space. -/
def addressSpace? (p : NodeParameters) (space : Nat) : Option AddressSpace :=
  if space = Space.configurationDefinition then some p.configurationDefinition
  else if space = Space.allMemory then some p.allMemory
  else if space = Space.configurationMemory then some p.configurationMemory
  else none

end NodeParameters

end LayoutBus
