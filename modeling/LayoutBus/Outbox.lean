import LayoutBus.Limits
import LayoutBus.Memory.Pool
import LayoutBus.Memory.Queue
import LayoutBus.Wire.Frame

/-!
# Frames waiting for transmission

Frames wait in buffers; a queue of handles gives their order.

* `Outbox.frames` is the view: the frames in order.
* `Outbox.post` takes a buffer first and gives it back when the queue is full; the answers to
  control frames go this way.
* `Outbox.offer` asks the queue first; the frames of messages go this way.
-/

namespace LayoutBus

/-- Names one frame buffer. -/
structure FrameHandle where
  /-- The slot in the pool. -/
  index : Nat
deriving DecidableEq, Repr

/-- Frame buffers and the order in which they are to be sent. -/
structure Outbox where
  buffers : Pool Frame
  queue : Queue FrameHandle Limits.frameDepth
deriving DecidableEq, Repr

namespace Outbox

/-- The outbox without frames. -/
def empty : Outbox := ⟨.empty Limits.frameDepth, .empty⟩

/-- The frame in a buffer in use. -/
def frame? (o : Outbox) (h : FrameHandle) : Option Frame := o.buffers.get? h.index

/-- The frames in the order of the queue. -/
def frames (o : Outbox) : List Frame := o.queue.toList.filterMap o.frame?

/-- Copies a frame into a free buffer. -/
def allocate (o : Outbox) (f : Frame) : Option (FrameHandle × Outbox) :=
  match o.buffers.allocate f with
  | some (i, buffers) => some (⟨i⟩, { o with buffers })
  | none => none

/-- Frees a buffer. -/
def free (o : Outbox) (h : FrameHandle) : Outbox := { o with buffers := o.buffers.free h.index }

/-- Takes the handle at the front of the queue; its buffer stays in use. -/
def pop (o : Outbox) : Option (FrameHandle × Outbox) :=
  match o.queue.pop with
  | some (h, queue) => some (h, { o with queue })
  | none => none

/-- Puts a frame at the back, and says whether there was room. -/
def post (o : Outbox) (f : Frame) : Outbox × Bool :=
  match o.allocate f with
  | none => (o, false)
  | some (h, o) =>
    match o.queue.push h with
    | some queue => ({ o with queue }, true)
    | none => (o.free h, false)

/-- Puts frames at the back, each if there is room. -/
def postAll (o : Outbox) (fs : List Frame) : Outbox := fs.foldl (fun o f => (o.post f).1) o

/-- Puts a frame at the back, if queue and buffers have room. -/
def offer (o : Outbox) (f : Frame) : Option Outbox :=
  if o.queue.isFull then none
  else
    match o.allocate f with
    | none => none
    | some (h, o) =>
      match o.queue.push h with
      | some queue => some { o with queue }
      | none => none

end Outbox

end LayoutBus
