import LayoutBus.Proofs.Interface.Gathering

/-!
# Messages from end to end

The frames of a message, sent to a driver that may refuse any of them any number of times, arrive
at another interface among any other requests, and are put together to the message that was sent.

* `Session.Conveys` : requests that bring the frames of a message to an interface, with what the
  message needs to be taken.
* `Session.Hands` : the message is handed to the application by its last frame, and nothing is by
  the others.
* `Session.Conveys.hands` : **delivery.**  A message of any kind that is supported is handed to the
  application as it was sent.

The proof follows the frames: after frame `i` the message is under assembly with the pieces
`0 .. i` of its payload, and what comes between two frames leaves it alone.
-/

namespace LayoutBus

/-- The ticks that pass with the requests. -/
def Request.ticksOf : List Request → Nat
  | [] => 0
  | req :: reqs => req.ticks + ticksOf reqs

theorem Request.ticksOf_cons (req : Request) (reqs : List Request) :
    ticksOf (req :: reqs) = req.ticks + ticksOf reqs := rfl

theorem Request.ticksOf_append (xs ys : List Request) :
    ticksOf (xs ++ ys) = ticksOf xs + ticksOf ys := by
  induction xs with
  | nil => exact (Nat.zero_add _).symm
  | cons req xs ih => rw [List.cons_append, ticksOf_cons, ticksOf_cons, ih, Nat.add_assoc]

theorem Request.ticksOf_between_lt {pre mid post : List Request} {req : Request} {n : Nat}
    (h : ticksOf (pre ++ req :: (mid ++ post)) < n) : ticksOf mid < n := by
  rw [ticksOf_append, ticksOf_cons, ticksOf_append] at h
  omega

/-- The frames with the key come in time for a message of this age. -/
def Request.Timely (key : AssemblyKey) (age : Nat) (reqs : List Request) : Prop :=
  ∀ pre f post, reqs = pre ++ .receive f :: post → f.assemblyKey = key →
    age + ticksOf pre < Limits.assemblyTimeout

theorem Request.Timely.later {key : AssemblyKey} {age : Nat} {pre post : List Request} {f : Frame}
    (h : Timely key age (pre ++ .receive f :: post)) : Timely key (age + ticksOf pre) post := by
  intro pre' g post' heq hg
  have hage := h (pre ++ .receive f :: pre') g post' (by rw [heq, List.append_assoc]; rfl) hg
  rw [ticksOf_append, ticksOf_cons] at hage
  have hzero : (Request.receive f).ticks = 0 := rfl
  omega

/-- Two places in a list are the same, or one comes before the other. -/
theorem append_cons_cases {α : Type} {xs ys xs' ys' : List α} {a b : α}
    (h : xs ++ a :: ys = xs' ++ b :: ys') :
    (xs = xs' ∧ a = b ∧ ys = ys') ∨ (∃ zs, xs' = xs ++ a :: zs ∧ ys = zs ++ b :: ys') ∨
      ∃ zs, xs = xs' ++ b :: zs ∧ ys' = zs ++ a :: ys := by
  rcases List.append_eq_append_iff.1 h with ⟨zs, rfl, hzs⟩ | ⟨zs, rfl, hzs⟩
  · cases zs with
    | nil =>
      obtain ⟨rfl, rfl⟩ := List.cons.inj hzs
      exact .inl ⟨(List.append_nil xs).symm, rfl, rfl⟩
    | cons z zs =>
      obtain ⟨rfl, rfl⟩ := List.cons.inj hzs
      exact .inr (.inl ⟨zs, rfl, rfl⟩)
  · cases zs with
    | nil =>
      obtain ⟨rfl, rfl⟩ := List.cons.inj hzs
      exact .inl ⟨List.append_nil xs', rfl, rfl⟩
    | cons z zs =>
      obtain ⟨rfl, rfl⟩ := List.cons.inj hzs
      exact .inr (.inr ⟨zs, rfl, rfl⟩)

namespace Session

variable {streams : Bool} {σ : Session} {key : AssemblyKey} {c : SizeClass} {payload : List UInt8}
  {f : Frame} {fs : List Frame} {reqs pre post : List Request} {m : Message} {age : Nat}

/-! ### Between two frames -/

/-- Requests that bring no frame of a message under assembly leave it there, unless it becomes too
old. -/
theorem after_gathers {data : List UInt8} (hs : σ.Sound streams) (ha : σ.Allows streams reqs)
    (hreqs : ∀ req ∈ reqs, req.frameOf key = none)
    (hage : age + Request.ticksOf reqs < Limits.assemblyTimeout)
    (hg : σ.interface.resources.Gathers key c data age) :
    (σ.after streams reqs).interface.resources.Gathers key c data
      (age + Request.ticksOf reqs) := by
  induction reqs generalizing σ age with
  | nil => exact hg
  | cons req reqs ih =>
    rw [Request.ticksOf_cons, ← Nat.add_assoc] at hage ⊢
    have hstep := step_gathers hs ha.1 (hreqs req List.mem_cons_self) (by omega) hg
    exact ih (hs.step ha.1) ha.2 (fun r hr => hreqs r (List.mem_cons_of_mem req hr)) hage hstep

theorem after_find?_eq_none (hs : σ.Sound streams) (ha : σ.Allows streams reqs)
    (hreqs : ∀ req ∈ reqs, req.frameOf key = none)
    (hnone : σ.interface.resources.assemblies.find? key = none) :
    (σ.after streams reqs).interface.resources.assemblies.find? key = none := by
  induction reqs generalizing σ with
  | nil => exact hnone
  | cons req reqs ih =>
    have hstep := step_find?_eq_none hs ha.1 (hreqs req List.mem_cons_self) hnone
    exact ih (hs.step ha.1) ha.2 (fun r hr => hreqs r (List.mem_cons_of_mem req hr)) hstep

/-! ### What the requests bring, and what comes of it -/

/-- The requests bring the frames `fs` of the message with the key, in this order, and no others of
the message.  Whenever one of them comes, the destination of a directed message is a node of the
interface. -/
structure Brings (streams : Bool) (σ : Session) (key : AssemblyKey) (reqs : List Request)
    (fs : List Frame) : Prop where
  allowed : σ.Allows streams reqs
  frames : reqs.filterMap (Request.frameOf key) = fs
  known : Mti.isAddressed key.mti = true → ∀ pre f post, reqs = pre ++ .receive f :: post →
    f.assemblyKey = key →
      ((σ.after streams pre).interface.resources.aliases.find? key.dest).isSome

/-- The requests bring the frames of a message, a buffer of size `c` is free when the first of them
comes, and the others come in time. -/
structure Conveys (streams : Bool) (σ : Session) (key : AssemblyKey) (c : SizeClass)
    (reqs : List Request) (fs : List Frame) : Prop
    extends Brings streams σ key reqs fs where
  room : ∀ pre f post, reqs = pre ++ .receive f :: post → f.assemblyKey = key →
    (∀ req ∈ pre, req.frameOf key = none) →
      ((σ.after streams pre).interface.resources.messages.allocate c).isSome
  prompt : ∀ pre f mid g post, reqs = pre ++ .receive f :: (mid ++ .receive g :: post) →
    f.assemblyKey = key → g.assemblyKey = key →
      Request.ticksOf mid < Limits.assemblyTimeout

/-- The last frame of the message hands it to the application, with this payload, and the frames
before do not hand anything to the application. -/
def Hands (streams : Bool) (σ : Session) (key : AssemblyKey) (payload : List UInt8)
    (reqs : List Request) : Prop :=
  ∃ pre f post, reqs = pre ++ .receive f :: post ∧ f.assemblyKey = key ∧
    (∀ req ∈ post, req.frameOf key = none) ∧
    (σ.after streams pre).interface.resources.Delivers
      ((σ.after streams pre).step streams (.receive f)).interface.resources key payload ∧
    ∀ pre' g mid, pre = pre' ++ .receive g :: mid → g.assemblyKey = key →
      ((σ.after streams pre').step streams (.receive g)).interface.resources.ingress =
        (σ.after streams pre').interface.resources.ingress

/-- Up to the first frame of the message, and from there on. -/
theorem Brings.cons (h : σ.Brings streams key reqs (f :: fs)) :
    ∃ pre post, reqs = pre ++ .receive f :: post ∧ f.assemblyKey = key ∧
      (∀ req ∈ pre, req.frameOf key = none) ∧ σ.Allows streams pre ∧
      ((σ.after streams pre).step streams (.receive f)).Brings streams key post fs := by
  obtain ⟨pre, req, post, rfl, hpre, hreq, hpost⟩ := List.filterMap_eq_cons_iff.1 h.frames
  obtain ⟨rfl, hkey⟩ := Request.eq_of_frameOf hreq
  obtain ⟨ha, -, ha'⟩ := allows_append.1 h.allowed
  refine ⟨pre, post, rfl, hkey, hpre, ha, ha', hpost, fun hadd pre' g post' heq hg => ?_⟩
  rw [← after_cons, ← after_append]
  refine h.known hadd (pre ++ .receive f :: pre') g post' ?_ hg
  rw [heq, List.append_assoc]
  rfl

theorem Brings.foreign (h : σ.Brings streams key reqs []) :
    ∀ req ∈ reqs, req.frameOf key = none :=
  List.filterMap_eq_nil_iff.1 h.frames

/-- The frames of a directed message are for one of the nodes of the interface. -/
theorem Brings.isForUs (h : σ.Brings streams key (pre ++ .receive f :: post) fs)
    (hadd : Mti.isAddressed key.mti = true) (hkey : f.assemblyKey = key) :
    (σ.after streams pre).interface.resources.isForUs f = true := by
  have hsome := h.known hadd pre f post rfl hkey
  subst hkey
  exact hsome

/-- All frames behind the first come in time. -/
theorem Conveys.timely (h : σ.Conveys streams key c (pre ++ .receive f :: post) fs)
    (hkey : f.assemblyKey = key) : Request.Timely key 0 post := by
  intro pre' g post' heq hg
  rw [Nat.zero_add]
  exact h.prompt pre f pre' g post' (by rw [heq]) hkey hg

theorem Hands.of_last (hpre : ∀ req ∈ pre, req.frameOf key = none)
    (hpost : ∀ req ∈ post, req.frameOf key = none) (hkey : f.assemblyKey = key)
    (hd : (σ.after streams pre).interface.resources.Delivers
      ((σ.after streams pre).step streams (.receive f)).interface.resources key payload) :
    σ.Hands streams key payload (pre ++ .receive f :: post) := by
  refine ⟨pre, f, post, rfl, hkey, hpost, hd, ?_⟩
  rintro pre' g mid rfl hg
  have hnone := hpre (.receive g) (List.mem_append_right _ List.mem_cons_self)
  exact absurd hg.symm (Request.ne_of_frameOf hnone)

/-- A frame that does not hand anything to the application, with the other requests before. -/
theorem Hands.later (hpre : ∀ req ∈ pre, req.frameOf key = none)
    (hquiet : ((σ.after streams pre).step streams (.receive f)).interface.resources.ingress =
      (σ.after streams pre).interface.resources.ingress)
    (h : ((σ.after streams pre).step streams (.receive f)).Hands streams key payload post) :
    σ.Hands streams key payload (pre ++ .receive f :: post) := by
  obtain ⟨pre₂, g, post₂, rfl, hkey, hpost, hd, hbefore⟩ := h
  refine ⟨pre ++ .receive f :: pre₂, g, post₂, ?_, hkey, hpost, ?_, ?_⟩
  · rw [List.append_assoc]
    rfl
  · rw [after_append, after_cons]
    exact hd
  · intro pre' k mid heq hk
    -- the earlier frame is not before `f`; it is `f`, or it comes between `f` and the last one
    obtain ⟨rfl, hreq, -⟩ | ⟨xs, rfl, hpre₂⟩ | ⟨xs, rfl, -⟩ := append_cons_cases heq
    · cases hreq
      exact hquiet
    · rw [after_append, after_cons]
      exact hbefore xs k mid hpre₂ hk
    · have hnone := hpre (.receive k) (List.mem_append_right _ List.mem_cons_self)
      exact absurd hk.symm (Request.ne_of_frameOf hnone)

/-! ### The frames of one message -/

theorem resources_receive (σ : Session) (f : Frame) :
    (σ.step streams (.receive f)).interface.resources =
      σ.interface.resources.receive streams f := rfl

section Frames

variable {i : Nat} (hm : m.Carried)
  (hdest : m.header.isAddressed = true → m.header.dest < 0x1000)
  (hknown : m.header.isAddressed = true →
    (σ.interface.resources.aliases.find? m.header.dest).isSome) (hs : σ.Sound streams)

include hm

/-- The next piece fits into the buffer. -/
theorem length_take_chunk_le (i : Nat) :
    (m.payload.take (m.cursorAt i)).length + (m.chunk (m.cursorAt i) m.width).length ≤
      m.receivedIn.capacity := by
  rw [← List.length_append, ← Message.take_cursorAt_succ hm.count]
  exact Nat.le_trans (List.length_take_le' ..) hm.length_le

theorem take_cursorAt_one : m.chunk (m.cursorAt 0) m.width = m.payload.take (m.cursorAt 1) := by
  rw [Message.take_cursorAt_succ hm.count, Message.cursorAt_zero, List.take_zero, List.nil_append]

include hdest hknown hs

theorem receive_only (hp : m.place 0 = .only)
    (hnone : σ.interface.resources.assemblies.find? m.key = none)
    (hfree : (σ.interface.resources.messages.allocate m.receivedIn).isSome) :
    σ.interface.resources.Delivers
      (σ.step streams (.receive (m.part 0))).interface.resources m.key
      (m.payload.take (m.cursorAt 1)) := by
  have hkey := Message.assemblyKey_part hm hdest 0
  have hdata := Message.dataFrom_part hm 0
  have hfit := length_take_chunk_le hm 0
  have hd := Resources.acceptOnly_delivers m.dataOffset hs (hkey ▸ hnone) hfree
    (by rw [hdata]; omega)
  rw [hkey, hdata, take_cursorAt_one hm] at hd
  rw [resources_receive, Message.receive_part hm hdest hknown, hp]
  exact hd

theorem receive_first (hp : m.place 0 = .first)
    (hnone : σ.interface.resources.assemblies.find? m.key = none)
    (hfree : (σ.interface.resources.messages.allocate m.receivedIn).isSome) :
    (σ.step streams (.receive (m.part 0))).interface.resources.Gathers m.key m.receivedIn
        (m.payload.take (m.cursorAt 1)) 0 ∧
      (σ.step streams (.receive (m.part 0))).interface.resources.ingress =
        σ.interface.resources.ingress := by
  have hkey := Message.assemblyKey_part hm hdest 0
  have hdata := Message.dataFrom_part hm 0
  have hfit := length_take_chunk_le hm 0
  have hg := Resources.acceptFirst_gathers m.dataOffset hs (hkey ▸ hnone) hfree
    (by rw [hdata]; omega)
  rw [hkey, hdata, take_cursorAt_one hm] at hg
  rw [resources_receive, Message.receive_part hm hdest hknown, hp]
  exact hg

theorem receive_middle (hp : m.place i = .middle)
    (hg : σ.interface.resources.Gathers m.key m.receivedIn (m.payload.take (m.cursorAt i)) age) :
    (σ.step streams (.receive (m.part i))).interface.resources.Gathers m.key m.receivedIn
        (m.payload.take (m.cursorAt (i + 1))) age ∧
      (σ.step streams (.receive (m.part i))).interface.resources.ingress =
        σ.interface.resources.ingress := by
  have hkey := Message.assemblyKey_part hm hdest i
  have hdata := Message.dataFrom_part hm i
  have hnext := Resources.acceptMiddle_gathers m.dataOffset hs (hkey ▸ hg)
    (hdata ▸ length_take_chunk_le hm i)
  rw [hkey, hdata, ← Message.take_cursorAt_succ hm.count] at hnext
  rw [resources_receive, Message.receive_part hm hdest hknown, hp]
  exact hnext

theorem receive_last (hp : m.place i = .last)
    (hg : σ.interface.resources.Gathers m.key m.receivedIn (m.payload.take (m.cursorAt i)) age) :
    σ.interface.resources.Delivers
      (σ.step streams (.receive (m.part i))).interface.resources m.key
      (m.payload.take (m.cursorAt (i + 1))) := by
  have hkey := Message.assemblyKey_part hm hdest i
  have hdata := Message.dataFrom_part hm i
  have hd := Resources.acceptLast_delivers m.dataOffset hs (hkey ▸ hg)
    (hdata ▸ length_take_chunk_le hm i)
  rw [hkey, hdata, ← Message.take_cursorAt_succ hm.count] at hd
  rw [resources_receive, Message.receive_part hm hdest hknown, hp]
  exact hd

end Frames

/-- The destination of a message is a node of the interface when a frame of the message comes. -/
theorem Brings.known_dest (h : σ.Brings streams m.key (pre ++ .receive f :: post) fs)
    (hkey : f.assemblyKey = m.key) (ha : m.header.isAddressed = true) :
    ((σ.after streams pre).interface.resources.aliases.find? m.header.dest).isSome := by
  rw [← Message.dest_key ha]
  exact h.known ha pre f post rfl hkey

/-- From a message under assembly to the message that is handed to the application, in `n + 1` more
frames. -/
theorem hands_of_gathers (hm : m.Carried)
    (hdest : m.header.isAddressed = true → m.header.dest < 0x1000) (n : Nat) {i : Nat} (hi : 0 < i)
    (hn : i + (n + 1) = m.parts) (hs : σ.Sound streams)
    (hg : σ.interface.resources.Gathers m.key m.receivedIn (m.payload.take (m.cursorAt i)) age)
    (h : σ.Brings streams m.key reqs ((List.range' i (n + 1)).map m.part))
    (hprompt : Request.Timely m.key age reqs) : σ.Hands streams m.key m.payload reqs := by
  -- on the frames left; what comes before the next one leaves the message alone
  induction n generalizing i σ reqs age with
  | zero =>
    obtain ⟨pre, post, rfl, hkey, hpre, ha, hrest⟩ := h.cons
    have hg' := after_gathers hs ha hpre (hprompt pre _ post rfl hkey) hg
    have hlast : m.place i = .last := by
      unfold Message.place
      rw [if_neg (by omega), if_neg (by omega), if_neg (by omega)]
    have hd := receive_last hm hdest (h.known_dest hkey) (hs.after ha) hlast hg'
    rw [hn, Message.take_cursorAt_parts hm.count hm.count_le] at hd
    exact .of_last hpre hrest.foreign hkey hd
  | succ n ih =>
    obtain ⟨pre, post, rfl, hkey, hpre, ha, hrest⟩ := h.cons
    have hg' := after_gathers hs ha hpre (hprompt pre _ post rfl hkey) hg
    have hmiddle : m.place i = .middle := by
      unfold Message.place
      rw [if_neg (by omega), if_neg (by omega), if_pos (by omega)]
    obtain ⟨hnext, hquiet⟩ :=
      receive_middle hm hdest (h.known_dest hkey) (hs.after ha) hmiddle hg'
    exact .later hpre hquiet
      (ih (by omega) (by omega) ((hs.after ha).step trivial) hnext hrest hprompt.later)

/-- **Delivery.** A message of a kind that is supported is sent to a driver that refuses frames at
will, and its frames come to another interface, in order, among whatever else that interface and
an application that respects ownership do; no message with the same key is under assembly there,
a buffer is free when the first frame comes, and the others come in time.  Then the last frame
hands the message to the application as it was sent, and the others hand it nothing. -/
theorem Conveys.hands {sending : Bool} {answers : List Bool} (hσ : σ.Reachable streams)
    (hm : m.Carried) (hsent : m.completes (m.transmit sending answers) = true)
    (hnone : σ.interface.resources.assemblies.find? m.key = none)
    (h : σ.Conveys streams m.key m.receivedIn reqs (m.transmit sending answers).accepted) :
    σ.Hands streams m.key m.payload reqs := by
  have hs := hσ.sound
  obtain ⟨n, hn⟩ : ∃ n, m.parts = n + 1 := ⟨m.parts - 1, by have := m.parts_pos; omega⟩
  have hb := h.toBrings
  rw [Message.accepted_of_completes hm.not_stream hm.count hsent, Message.frames,
    List.range_eq_range', hn, List.range'_succ, List.map_cons] at hb
  obtain ⟨pre, post, rfl, hkey, hpre, ha, hrest⟩ := hb.cons
  -- a destination that a frame can name
  have hdest (hadd : m.header.isAddressed = true) : m.header.dest < 0x1000 := by
    rw [← Message.dest_key hadd, ← hkey]
    exact Frame.dest_lt _
  have hnone' := after_find?_eq_none hs ha hpre hnone
  have hfree := h.room pre _ post rfl hkey hpre
  cases n with
  | zero =>
    have hp : m.place 0 = .only := Message.place_eq_only_iff.2 hn
    have hd := receive_only hm hdest (hb.known_dest hkey) (hs.after ha) hp hnone' hfree
    have hall := Message.take_cursorAt_parts hm.count hm.count_le
    rw [hn, Nat.zero_add] at hall
    rw [hall] at hd
    exact .of_last hpre hrest.foreign hkey hd
  | succ n =>
    have hp : m.place 0 = .first := by
      unfold Message.place
      rw [if_neg (by omega), if_pos rfl]
    obtain ⟨hg, hquiet⟩ :=
      receive_first hm hdest (hb.known_dest hkey) (hs.after ha) hp hnone' hfree
    exact .later hpre hquiet (hands_of_gathers hm hdest n Nat.one_pos (by omega)
      ((hs.after ha).step trivial) hg hrest (h.timely hkey))

/-! ### A datagram among other traffic -/

/-- A datagram of three frames. -/
def greeting : Message :=
  ⟨{ mti := Mti.datagram, source := 0x123, dest := 1, count := 20, size := .datagram },
    List.replicate 72 7⟩

/-- An interface whose node has taken the alias 1. -/
def host : Session :=
  (start false).after false (.register 1 (.ofSupport 0) :: List.replicate 3 (.run true))

theorem host_reachable : host.Reachable false :=
  Reachable.start.after (allows_of_forall fun req hreq σ => by
    rcases List.mem_cons.1 hreq with rfl | hrun
    · trivial
    · rw [List.eq_of_mem_replicate hrun]
      trivial)

/-- What holds after each of the finitely many prefixes of the requests. -/
theorem of_take {P : Session → Prop}
    (hall : ∀ k ≤ reqs.length, P (σ.after streams (reqs.take k))) (heq : reqs = pre ++ post) :
    P (σ.after streams pre) := by
  have htake := hall pre.length (by rw [heq, List.length_append]; omega)
  rwa [heq, List.take_left] at htake

/-- The frames of the datagram, with frames of other messages, ticks and other work in between. -/
def crossing : List Request :=
  [.receive (greeting.part 0), .tick,
    .receive (.messageData .standard Mti.eventReportFirst 0x456 (List.replicate 8 1) (by decide)),
    .run true, .receive (greeting.part 1),
    .receive (.messageData .datagramFirst 1 0x456 (List.replicate 8 2) (by decide)),
    .popIngress, .tick, .receive (greeting.part 2), .run false]

/-- A driver that refuses three times. -/
def refusals : List Bool := [false, true, false, false, true, true]

theorem hands_crossing :
    host.Reachable false ∧ greeting.Carried ∧
      greeting.completes (greeting.transmit false refusals) = true ∧
      host.interface.resources.assemblies.find? greeting.key = none ∧
      host.Conveys false greeting.key greeting.receivedIn crossing
        (greeting.transmit false refusals).accepted ∧
      host.Hands false greeting.key greeting.payload crossing := by
  have hcarried : greeting.Carried :=
    ⟨by decide, by decide, .datagram rfl (by decide)⟩
  have hall : ∀ pre post, crossing = pre ++ post →
      ((host.after false pre).interface.resources.aliases.find? 1).isSome ∧
        ((host.after false pre).interface.resources.messages.allocate greeting.receivedIn).isSome :=
    fun _ _ => of_take (P := fun σ => (σ.interface.resources.aliases.find? 1).isSome ∧
      (σ.interface.resources.messages.allocate greeting.receivedIn).isSome) (by decide +kernel)
  have hc : host.Conveys false greeting.key greeting.receivedIn crossing
      (greeting.transmit false refusals).accepted := by
    have hticks : Request.ticksOf crossing < Limits.assemblyTimeout := by decide
    exact {
      allowed := ⟨trivial, trivial, trivial, trivial, trivial, trivial, trivial, trivial, trivial,
        trivial, trivial⟩
      frames := by decide +kernel
      known := fun _ pre f post heq _ => (hall pre _ heq).1
      room := fun pre f post heq _ _ => (hall pre _ heq).2
      prompt := fun pre f mid g post heq _ _ => Request.ticksOf_between_lt (heq ▸ hticks) }
  have hsent : greeting.completes (greeting.transmit false refusals) = true := by decide
  have hnone : host.interface.resources.assemblies.find? greeting.key = none := by decide +kernel
  exact ⟨host_reachable, hcarried, hsent, hnone, hc,
    hc.hands host_reachable hcarried hsent hnone⟩

end Session

end LayoutBus
