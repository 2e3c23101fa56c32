import LayoutBus.Memory.Removal
import LayoutBus.Message.Basic

/-!
# Messages under assembly

The list of the messages that arrive in several frames and are not complete yet.  Sender,
destination and message type tell them apart.

* `Assemblies.find?` is the view.
* `Assemblies.add` refuses a key that is listed and a list that is full.
* `Assemblies.release` takes a message from the list; its buffer stays in use.
-/

namespace LayoutBus

/-- What tells messages under assembly apart. -/
structure AssemblyKey where
  source : Nat
  dest : Nat
  mti : Nat
deriving DecidableEq, Repr

/-- Why a message is not put under assembly. -/
inductive AssemblyError where
  /-- A message with this key is under assembly, in the given buffer. -/
  | duplicateKey (handle : Handle)
  /-- The list is full. -/
  | full
deriving DecidableEq, Repr

/-- The text of the error. -/
def AssemblyError.message : AssemblyError → String
  | duplicateKey h => s!"A message with the same key is already being assembled ({h.describe})"
  | full => "The assembly list is full"

/-- The messages under assembly, with their keys. -/
structure Assemblies where
  entries : List (AssemblyKey × Handle)
deriving DecidableEq, Repr

namespace Assemblies

/-- The list without entries. -/
def empty : Assemblies := ⟨[]⟩

/-- The message with this key. -/
def find? (a : Assemblies) (key : AssemblyKey) : Option Handle :=
  (a.entries.find? fun e => e.1 = key).map Prod.snd

/-- Puts a message under assembly. -/
def add (a : Assemblies) (key : AssemblyKey) (h : Handle) : Except AssemblyError Assemblies :=
  match a.find? key with
  | some existing => .error (.duplicateKey existing)
  | none =>
    if a.entries.length < Limits.messageDepth then .ok ⟨a.entries ++ [(key, h)]⟩ else .error .full

/-- The position of a message. -/
def position? (a : Assemblies) (h : Handle) : Option Nat := a.entries.findIdx? fun e => e.2 = h

/-- The message is listed. -/
def contains (a : Assemblies) (h : Handle) : Bool := (a.position? h).isSome

/-- The list without the first entry of a message. -/
def release (a : Assemblies) (h : Handle) : Assemblies :=
  match a.position? h with
  | some i => ⟨moveLastTo a.entries i⟩
  | none => a

/-- The message at a position. -/
def handleAt (a : Assemblies) (i : Nat) : Option Handle := a.entries[i]?.map Prod.snd

end Assemblies

end LayoutBus
