/-!
# Events of a node

The events that a node produces or consumes, with their last known state and a cursor that
announces them one at a time.

* `EventList.push` adds an event, if there is room.
* `EventList.next` announces the event at the cursor.
-/

namespace LayoutBus

/-- What is known of an event. -/
inductive EventStatus where
  | unknown
  | set
  | clear
deriving DecidableEq, Repr

/-- An event and what is known of it. -/
structure Event where
  id : Nat
  status : EventStatus
deriving DecidableEq, Repr

/-- At most `n` events and a cursor. -/
structure EventList (n : Nat) where
  events : List Event
  /-- The position of the next event to announce. -/
  cursor : Nat
  length_le : events.length ≤ n
deriving DecidableEq, Repr

namespace EventList

variable {n : Nat}

/-- The list without events. -/
def empty : EventList n := ⟨[], 0, Nat.zero_le n⟩

/-- Adds an event of unknown state, if there is room. -/
def push (l : EventList n) (id : Nat) : Option (EventList n) :=
  if h : l.events.length < n then
    some ⟨l.events ++ [⟨id, .unknown⟩], l.cursor, by simpa using Nat.succ_le_of_lt h⟩
  else none

/-- Adds events, each if there is room. -/
def pushAll (l : EventList n) (ids : List Nat) : EventList n :=
  ids.foldl (fun l id => (l.push id).getD l) l

/-- The position of the first event with this id. -/
def position? (l : EventList n) (id : Nat) : Option Nat := l.events.findIdx? fun e => e.id = id

/-- Notes the state of the first event with this id. -/
def setStatus (l : EventList n) (id : Nat) (status : EventStatus) : EventList n :=
  match l.position? id with
  | some i => ⟨l.events.modify i fun e => { e with status }, l.cursor, by simpa using l.length_le⟩
  | none => l

/-- The event at the cursor, which moves on; nothing once all events have been announced. -/
def next (l : EventList n) : Option (Event × EventList n) :=
  match l.events[l.cursor]? with
  | some e => some (e, { l with cursor := l.cursor + 1 })
  | none => none

/-- Starts the announcements over. -/
def rewind (l : EventList n) : EventList n := { l with cursor := 0 }

end EventList

end LayoutBus
