import LayoutBus.Message.Basic
import Mathlib.Algebra.Group.Nat.Defs
import Mathlib.Order.Basic

/-!
# Editing a message

A message is edited like a list of bytes that cannot grow beyond the buffer, whatever was in the
buffer before.

* `Message.Edit` : the changes; `Message.apply` is what a change does to a message and
  `Message.returned` what it returns.
* `Message.fitting` : the longest part of some data that still fits (`Message.fitting_longest`).
* `Message.written` : the list of bytes that a row of changes makes.
* `Message.Spells` : a message has a list of bytes for its payload.  `Message.Spells.apply` is what
  one change does to it, `Message.Spells.foldl` what a row of them does.
* `Message.append_append` : data in two pieces, or in one.
* `Message.editing_refines` : **editing refines a bounded list.**

The bound holds for buffers of every size.  Where the count is kept in 16 bits, it is exact for
buffers of up to 65535 bytes.
-/

namespace LayoutBus.Message

/-- A change to a message. -/
inductive Edit where
  /-- New addresses, and no payload. -/
  | load (mti source sourceId dest destId : Nat)
  /-- Data behind the payload. -/
  | append (data : List UInt8)
  /-- Data in place of the payload. -/
  | replace (data : List UInt8)
  | word (w : Nat)
  | nodeId (id : Nat)
  | eventId (id : Nat)
  /-- No payload, and zeros in the buffer. -/
  | clear
deriving DecidableEq, Repr

/-- The message after a change. -/
def apply (m : Message) : Edit → Message
  | .load mti source sourceId dest destId => m.load mti source sourceId dest destId
  | .append data => m.append data
  | .replace data => m.truncate.append data
  | .word w => m.append (wordBytes w)
  | .nodeId id => m.append (nodeIdBytes id)
  | .eventId id => m.append (eventIdBytes id)
  | .clear => m.clear

/-- What the change returns. -/
def returned (m : Message) : Edit → Option Nat
  | .load .. | .clear => none
  | .append data => some (m.accepts data)
  | .replace data => some (m.truncate.accepts data)
  | .word w => some (m.accepts (wordBytes w))
  | .nodeId id => some (m.accepts (nodeIdBytes id))
  | .eventId id => some (m.accepts (eventIdBytes id))

/-- An empty message in a buffer of `n` bytes after these changes. -/
def edited (n : Nat) (es : List Edit) : Message := es.foldl apply (blank n)

/-! ### The bounded list -/

namespace Edit

/-- The change gives up the payload that was there. -/
def restarts : Edit → Bool
  | load .. | replace _ | clear => true
  | append _ | word _ | nodeId _ | eventId _ => false

/-- What the change adds, if it adds anything. -/
def data : Edit → Option (List UInt8)
  | load .. | clear => none
  | append bytes | replace bytes => some bytes
  | word w => some (BigEndian.encode 2 w)
  | nodeId id => some (BigEndian.encode 6 id)
  | eventId id => some (BigEndian.encode 8 id)

/-- The bytes that the change leaves, before it adds any. -/
def base (e : Edit) (bytes : List UInt8) : List UInt8 := if e.restarts then [] else bytes

end Edit

/-- The part of `data` that fits behind `bytes` if there is room for `n` bytes. -/
def fitting (n : Nat) (bytes data : List UInt8) : List UInt8 := data.take (n - bytes.length)

/-- The bytes after a change. -/
def write (n : Nat) (bytes : List UInt8) (e : Edit) : List UInt8 :=
  e.base bytes ++ fitting n (e.base bytes) (e.data.getD [])

/-- A change that adds nothing leaves nothing. -/
theorem write_of_data {n : Nat} {bytes : List UInt8} {e : Edit} (hr : e.restarts = true)
    (hd : e.data = none) : write n bytes e = [] := by
  simp [write, Edit.base, fitting, hr, hd]

/-- The bytes after these changes. -/
def written (n : Nat) (es : List Edit) : List UInt8 := es.foldl (write n) []

variable {n : Nat} {m : Message} {bytes data : List UInt8}

/-- No longer part of the data fits. -/
theorem fitting_longest (h : bytes.length ≤ n) :
    fitting n bytes data <+: data ∧ (bytes ++ fitting n bytes data).length ≤ n ∧
      ∀ p, p <+: data → (bytes ++ p).length ≤ n → p <+: fitting n bytes data := by
  refine ⟨List.take_prefix _ _, ?_, fun p hp hlen => ?_⟩
  · rw [List.length_append, fitting, List.length_take]
    omega
  · rw [List.length_append] at hlen
    exact List.prefix_take_iff.2 ⟨hp, by omega⟩

/-! ### One change -/

/-- The message has a buffer of `n` bytes, and these are its payload. -/
structure Spells (n : Nat) (m : Message) (bytes : List UInt8) : Prop where
  capacity : m.capacity = n
  count : m.header.count = bytes.length
  payload : m.payload = bytes

theorem spells_blank (n : Nat) : (blank n).Spells n [] where
  capacity := List.length_replicate ..
  count := rfl
  payload := rfl

namespace Spells

variable (h : m.Spells n bytes)
include h

theorem length_le : bytes.length ≤ n := by
  rw [← h.payload, length_payload, ← h.capacity]
  exact Nat.min_le_right _ _

theorem start_eq : m.start = bytes.length := by rw [← h.payload, length_payload]

/-- The number of bytes that an append returns is the number of bytes that it adds. -/
theorem accepts_eq (data : List UInt8) : m.accepts data = (fitting n bytes data).length := by
  rw [accepts, h.capacity, h.start_eq, fitting, List.length_take, Nat.min_comm]

theorem append (data : List UInt8) : (m.append data).Spells n (bytes ++ fitting n bytes data) where
  capacity := (capacity_append m data).trans h.capacity
  count := by
    rw [List.length_append, ← h.start_eq, ← h.accepts_eq]
    rfl
  payload := by
    have hall : data.take (m.accepts data) = fitting n bytes data := by
      rw [h.accepts_eq, fitting, List.length_take, List.take_eq_take_iff]
      omega
    rw [payload_append, h.payload, hall]

theorem load (mti source sourceId dest destId : Nat) :
    (m.load mti source sourceId dest destId).Spells n [] where
  capacity := (capacity_load ..).trans h.capacity
  count := rfl
  payload := payload_load ..

theorem truncate : m.truncate.Spells n [] where
  capacity := (capacity_truncate m).trans h.capacity
  count := rfl
  payload := payload_truncate m

theorem clear : m.clear.Spells n [] where
  capacity := (capacity_clear m).trans h.capacity
  count := rfl
  payload := payload_clear m

/-- What one change does. -/
theorem apply (e : Edit) : (m.apply e).Spells n (write n bytes e) := by
  cases e with
  | load mti source sourceId dest destId =>
    rw [write_of_data rfl rfl]
    exact h.load ..
  | clear =>
    rw [write_of_data rfl rfl]
    exact h.clear
  | append data => exact h.append data
  | replace data => exact h.truncate.append data
  | word w => exact h.append _
  | nodeId id => exact h.append _
  | eventId id => exact h.append _

/-- What one change returns. -/
theorem returned_eq (e : Edit) :
    m.returned e = e.data.map fun data => (fitting n (e.base bytes) data).length := by
  cases e with
  | load mti source sourceId dest destId => rfl
  | clear => rfl
  | append data => exact congrArg some (h.accepts_eq data)
  | replace data => exact congrArg some (h.truncate.accepts_eq data)
  | word w => exact congrArg some (h.accepts_eq _)
  | nodeId id => exact congrArg some (h.accepts_eq _)
  | eventId id => exact congrArg some (h.accepts_eq _)

omit h in
/-- What a row of changes does. -/
theorem foldl (es : List Edit) (h : m.Spells n bytes) :
    (es.foldl Message.apply m).Spells n (es.foldl (write n) bytes) := by
  induction es generalizing m bytes with
  | nil => exact h
  | cons e es ih => exact ih (h.apply e)

end Spells

theorem spells_edited (n : Nat) (es : List Edit) : (edited n es).Spells n (written n es) :=
  (spells_blank n).foldl es

/-! ### Data in pieces -/

theorem payload_eq_take (m : Message) : m.payload = m.bytes.take m.start := by
  simp [start, payload, capacity, List.take_eq_take_iff]

theorem append_eq (m : Message) (data : List UInt8) : m.append data =
    ⟨{ m.header with count := m.start + m.accepts data },
      m.payload ++ data.take (m.accepts data) ++ m.bytes.drop (m.start + m.accepts data)⟩ := by
  rw [append, payload_eq_take]

theorem start_append (m : Message) (data : List UInt8) :
    (m.append data).start = m.start + m.accepts data := by
  have hle : m.start + m.accepts data ≤ m.capacity := by
    simp only [accepts, start]
    omega
  rw [start, capacity_append]
  exact Nat.min_eq_left hle

/-- Behind the payload the buffer is left as it was. -/
theorem drop_append (m : Message) (data : List UInt8) (k : Nat) :
    (m.append data).bytes.drop (m.start + m.accepts data + k) =
      m.bytes.drop (m.start + m.accepts data + k) := by
  have hlen : (m.payload ++ data.take (m.accepts data)).length = m.start + m.accepts data := by
    rw [← payload_append, length_payload, start_append]
  rw [append_eq, ← hlen, List.drop_length_add_append, List.drop_drop]

/-- To add data in two pieces is to add it at once, also where the buffer ends within it.  The two
messages agree in the bytes behind the payload, too. -/
theorem append_append (m : Message) (x y : List UInt8) :
    (m.append x).append y = m.append (x ++ y) := by
  have haccepts : m.accepts (x ++ y) = m.accepts x + (m.append x).accepts y := by
    simp only [accepts, start_append, capacity_append, List.length_append]
    omega
  have htake : (x ++ y).take (m.accepts (x ++ y)) =
      x.take (m.accepts x) ++ y.take ((m.append x).accepts y) := by
    -- If the first piece is cut, nothing of the second fits.
    have hcut : m.accepts x = x.length ∨ (m.append x).accepts y = 0 := by
      simp only [accepts, start_append, capacity_append]
      omega
    rw [haccepts]
    rcases hcut with hall | hnone
    · rw [hall, List.take_length_add_append, List.take_length]
    · have hle : m.accepts x ≤ x.length := Nat.min_le_left _ _
      rw [hnone, Nat.add_zero, List.take_zero, List.append_nil, List.take_append_of_le_length hle]
  rw [append_eq (m.append x), append_eq m (x ++ y), payload_append, start_append, drop_append,
    htake, haccepts, List.append_assoc m.payload, Nat.add_assoc]
  rfl

/-! ### Reading back -/

/-- Changes that add something do not touch the payload that is there. -/
theorem prefix_apply (m : Message) {e : Edit} (h : e.restarts = false) :
    m.payload <+: (m.apply e).payload := by
  have happend (data : List UInt8) : m.payload <+: (m.append data).payload := by
    rw [payload_append]
    exact List.prefix_append _ _
  cases e with
  | load mti source sourceId dest destId => cases h
  | replace data => cases h
  | clear => cases h
  | append data => exact happend data
  | word w => exact happend _
  | nodeId id => exact happend _
  | eventId id => exact happend _

theorem prefix_foldl (m : Message) {es : List Edit} (h : ∀ e ∈ es, e.restarts = false) :
    m.payload <+: (es.foldl apply m).payload := by
  induction es generalizing m with
  | nil => exact List.prefix_refl _
  | cons e es ih =>
    exact (prefix_apply m (h e List.mem_cons_self)).trans
      (ih (m.apply e) fun e' he' => h e' (List.mem_cons_of_mem e he'))

/-- A field that was added in full is read back where it was added, whatever was added later. -/
theorem readAt_foldl (m : Message) {width v : Nat} (hv : v < BigEndian.span width)
    (hfull : m.accepts (BigEndian.encode width v) = width) {later : List Edit}
    (hlater : ∀ e ∈ later, e.restarts = false) :
    BigEndian.readAt width m.payload.length
      (later.foldl apply (m.append (BigEndian.encode width v))).payload = some v := by
  obtain ⟨after, hafter⟩ := prefix_foldl (m.append (BigEndian.encode width v)) hlater
  have hpayload : (m.append (BigEndian.encode width v)).payload =
      m.payload ++ BigEndian.encode width v := by
    rw [payload_append, hfull, List.take_of_length_le (by simp)]
  rw [← hafter, hpayload, BigEndian.readAt_encode, Nat.mod_eq_of_lt hv]

/-! ### All changes -/

/-- What is promised of an empty message in a buffer of `n` bytes after the changes `es`. -/
structure Refines (n : Nat) (es : List Edit) : Prop where
  capacity : (edited n es).capacity = n
  count_le : (edited n es).header.count ≤ n
  count : (edited n es).header.count = (edited n es).payload.length
  payload : (edited n es).payload = written n es
  /-- A change that adds data returns how much of it was added. -/
  returned : ∀ e : Edit, (edited n es).returned e =
    e.data.map fun data => (fitting n (e.base (written n es)) data).length
  pieces : ∀ x y, edited n (es ++ [.append x, .append y]) = edited n (es ++ [.append (x ++ y)])
  word : ∀ w later, w < 2 ^ 16 → (edited n es).returned (.word w) = some 2 →
    (∀ e ∈ later, e.restarts = false) →
      (edited n (es ++ .word w :: later)).word (written n es).length = some w
  nodeId : ∀ id later, id < 2 ^ 48 → (edited n es).returned (.nodeId id) = some 6 →
    (∀ e ∈ later, e.restarts = false) →
      (edited n (es ++ .nodeId id :: later)).nodeId (written n es).length = some id
  /-- An event id is read from the start of the payload only. -/
  eventId : ∀ id later, id < 2 ^ 64 → written n es = [] →
    (edited n es).returned (.eventId id) = some 8 → (∀ e ∈ later, e.restarts = false) →
      (edited n (es ++ .eventId id :: later)).eventId = some id

theorem edited_append (n : Nat) (es later : List Edit) :
    edited n (es ++ later) = later.foldl apply (edited n es) := List.foldl_append ..

/-- **Editing refines a bounded list.**  Whatever the size of the buffer and whatever the changes, a
message is the list of bytes that they write, cut where the buffer ends. -/
theorem editing_refines (n : Nat) (es : List Edit) : Refines n es where
  capacity := (spells_edited n es).capacity
  count_le := (spells_edited n es).count.trans_le (spells_edited n es).length_le
  count := by rw [(spells_edited n es).count, (spells_edited n es).payload]
  payload := (spells_edited n es).payload
  returned := (spells_edited n es).returned_eq
  pieces x y := by
    rw [edited_append, edited_append]
    exact append_append ..
  word w later hw hfull hlater := by
    rw [edited_append, ← (spells_edited n es).payload]
    exact readAt_foldl _ hw (Option.some.inj hfull) hlater
  nodeId id later hid hfull hlater := by
    rw [edited_append, ← (spells_edited n es).payload]
    exact readAt_foldl _ hid (Option.some.inj hfull) hlater
  eventId id later hid hempty hfull hlater := by
    have hread := readAt_foldl _ hid (Option.some.inj hfull) hlater
    rw [(spells_edited n es).payload, hempty] at hread
    rw [edited_append]
    exact hread

-- Sixteen bytes take an event id, a word and a node id, and none of the last word.
example :
    let m := edited 16
      [.eventId 0x0501010107FF0025, .word 0x06BE, .nodeId 0x010203040506, .word 0xABCD]
    m.header.count = 16 ∧ m.word 8 = some 0x06BE ∧ m.nodeId 10 = some 0x010203040506 := by
  decide

end LayoutBus.Message
