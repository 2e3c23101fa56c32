import LayoutBus.Proofs.Interface.Delivery
import LayoutBus.Proofs.Interface.Rejection

/-!
# Messages that outgrow their buffers

A message of several frames gathers in a buffer of the size that its type calls for.  If its data
turn out to be too long for the buffer, the message is given up with the first frame that does not
fit, and this frame and all that follow are rejected.

* `Frame.Marks` : how a frame of a message to one of our nodes says which place it has.
* `Session.Outgrows` : requests that bring the frames of a message that is too long.
* `Resources.Fares` : what becomes of one frame, given the data that have come before it.
* `Session.Progress` : what a prefix of the requests has made of the message.
* `Session.Outgrows.overflows` : **overflow.**  No part of a message that is too long is handed to
  the application.
-/

namespace LayoutBus

/-! ### Buffers -/

namespace MessageStore

variable {s : MessageStore} {c : SizeClass} {h : Handle}

theorem isSome_allocate_iff :
    (s.allocate c).isSome ↔ ∃ i < (s.pool c).capacity, s.get? ⟨c, i⟩ = none := by
  rw [← Option.ne_none_iff_isSome, ne_eq, allocate_eq_none_iff]
  simp

/-- A buffer that is free stays free when another is given back. -/
theorem isSome_allocate_free (h : Handle) (hfree : (s.allocate c).isSome) :
    ((s.free h).allocate c).isSome := by
  obtain ⟨i, hi, hnone⟩ := isSome_allocate_iff.1 hfree
  refine isSome_allocate_iff.2 ⟨i, by rwa [capacity_pool_free], ?_⟩
  rw [get?_free, hnone]
  split <;> rfl

/-- A buffer that is given back is free. -/
theorem isSome_allocate_freed (hh : (s.get? h).isSome) : ((s.free h).allocate h.size).isSome := by
  obtain ⟨m, hm⟩ := Option.isSome_iff_exists.1 hh
  refine isSome_allocate_iff.2 ⟨h.index, ?_, ?_⟩
  · rw [capacity_pool_free]
    exact Pool.lt_capacity hm
  · rw [get?_free, if_pos rfl]

end MessageStore

theorem SizeClass.capacity_injective : Function.Injective SizeClass.capacity := by
  intro c d h
  cases c <;> cases d <;> first | rfl | exact absurd h (by decide)

/-- The size of the buffer in which a message of several frames to one of our nodes gathers. -/
def AssemblyKey.size (key : AssemblyKey) : SizeClass :=
  if key.mti = Mti.datagram then .datagram
  else if key.mti = Mti.nodeInfoReply then .snip
  else .basic

/-! ### Places -/

/-- The frame says that it has the place in a message to one of our nodes: an addressed message in
its first byte, a datagram in its identifier. -/
def Frame.Marks (f : Frame) (p : Place) : Prop :=
  f.isAddressed = true ∧ f.framing = p.framing ∨ f.kind = .message p.datagramType

instance (f : Frame) (p : Place) : Decidable (f.Marks p) := inferInstanceAs (Decidable (_ ∨ _))

namespace Frame

variable {f : Frame} {p : Place}

theorem isDatagram_of_kind (h : f.kind = .message p.datagramType) : f.isDatagram = true := by
  unfold isDatagram
  rw [h]
  cases p <;> decide

theorem mti_ne_datagram (h : f.isAddressed = true) : f.mti ≠ Mti.datagram := by
  rw [ne_eq, mti_eq_datagram_iff, isDatagram, kind_of_isAddressed h]
  decide

theorem isAddressed_mti (h : f.isAddressed = true) : Mti.isAddressed f.mti = true := by
  have hkind := kind_of_isAddressed h
  have hfield := (isAddressed_standard hkind).symm.trans h
  rwa [mti_of_isAddressed hkind hfield]

/-- The buffer for a message whose frames name their destination. -/
theorem size_of_isAddressed (h : f.isAddressed = true) :
    f.assemblyKey.size = if f.mti = Mti.nodeInfoReply then .snip else .basic := by
  rw [AssemblyKey.size, if_neg (show f.assemblyKey.mti ≠ _ from mti_ne_datagram h)]
  rfl

/-- The type of a message whose frames say their place is that of a message to one node. -/
theorem Marks.isAddressed_mti (h : f.Marks p) : Mti.isAddressed f.mti = true := by
  rcases h with ⟨ha, -⟩ | hk
  · exact Frame.isAddressed_mti ha
  · rw [mti_eq_datagram_iff.2 (isDatagram_of_kind hk)]
    decide

end Frame

namespace Resources

variable {streams : Bool} {r s : Resources} {f : Frame} {p : Place}

/-- A frame that says its place is taken at it. -/
theorem receive_of_marks (hf : f.Marks p) (hp : p ≠ .only) (hus : r.isForUs f = true) :
    r.receive streams f = r.accept f f.dataOffset f.assemblyKey.size p := by
  rcases hf with ⟨ha, hframing⟩ | hk
  · have hkind := Frame.kind_of_isAddressed ha
    have htake := Message.receiveAddressed_of_framing (r := r) hframing fun _ => hp
    rw [if_neg hp, ← Frame.size_of_isAddressed ha] at htake
    rw [receive, hkind, Frame.dataOffset, if_pos ha, ← htake]
    simp [receiveMessage, ha, hus]
  · have hmti := Frame.mti_eq_datagram_iff.2 (Frame.isDatagram_of_kind hk)
    have hsize : f.assemblyKey.size = .datagram := if_pos hmti
    rw [hsize, receive, hk]
    cases p with
    | only => exact absurd rfl hp
    | first | middle | last =>
      rw [Frame.dataOffset_of_kind hk (by decide)]
      simp [Place.datagramType, receiveMessage, hus, accept]

/-! ### One frame of a message that is too long -/

/-- What becomes of a frame of the message with the key when the data `come` have come before it:
it is gathered, or its message is given up, or there is no message any more. -/
inductive Fares (r s : Resources) (key : AssemblyKey) (come : List UInt8) (f : Frame) : Prop where
  /-- The data fit: the message holds them, and nothing is handed to the application. -/
  | gathered {age : Nat} (fits : come.length + f.data.length ≤ key.size.capacity)
      (holds : s.Gathers key key.size (come ++ f.data) age) (quiet : s.ingress = r.ingress)
  /-- The data are the first that do not fit: the message is taken off the list, its buffer is freed,
  and the frame is rejected once. -/
  | abandoned {h k : Handle} {m : Message} (held : come.length ≤ key.size.capacity)
      (excess : key.size.capacity < come.length + f.data.length)
      (listed : (key, h) ∈ r.assemblies.entries) (gone : s.assemblies.find? key = none)
      (rejected : (r.abandon h).RejectsOnce s f Rejection.bufferUnavailable k m)
  /-- The message has been given up: the frame is rejected once. -/
  | late {k : Handle} {m : Message} (excess : key.size.capacity < come.length)
      (gone : s.assemblies.find? key = none)
      (rejected : r.RejectsOnce s f Rejection.endWithoutStart k m)

variable {outside : List Handle} {come : List UInt8} {age : Nat}

theorem receive_first (hs : r.Sound streams outside) (hf : f.Marks .first)
    (hus : r.isForUs f = true) (hnone : r.assemblies.find? f.assemblyKey = none)
    (hfree : (r.messages.allocate f.assemblyKey.size).isSome) :
    (r.receive streams f).Gathers f.assemblyKey f.assemblyKey.size f.data 0 ∧
      (r.receive streams f).ingress = r.ingress := by
  rw [receive_of_marks hf (by decide) hus]
  exact acceptFirst_gathers f.dataOffset hs hnone hfree (length_dataFrom_le f _ _)

theorem receive_middle (hs : r.Sound streams outside) (hf : f.Marks .middle)
    (hus : r.isForUs f = true) (hg : r.Gathers f.assemblyKey f.assemblyKey.size come age)
    (hfit : come.length + f.data.length ≤ f.assemblyKey.size.capacity) :
    (r.receive streams f).Gathers f.assemblyKey f.assemblyKey.size (come ++ f.data) age ∧
      (r.receive streams f).ingress = r.ingress := by
  rw [receive_of_marks hf (by decide) hus]
  exact acceptMiddle_gathers f.dataOffset hs hg hfit

/-- A later frame that does not fit. -/
theorem receive_abandoned (hs : r.Sound streams outside) (hf : f.Marks p)
    (hp : p = .middle ∨ p = .last) (hus : r.isForUs f = true)
    (hg : r.Gathers f.assemblyKey f.assemblyKey.size come age)
    (hheld : come.length ≤ f.assemblyKey.size.capacity)
    (hover : f.assemblyKey.size.capacity < come.length + f.data.length)
    (hspare : (r.messages.allocate .basic).isSome ∨ f.assemblyKey.size = .basic) :
    r.Fares (r.receive streams f) f.assemblyKey come f := by
  obtain ⟨h, m, hmem, hm, hh⟩ := hg
  have hlisted := (Assemblies.find?_eq_some_iff (Ledger.keys hs)).2 hmem
  have haway : r.TurnsAway f f.dataOffset f.assemblyKey.size p Rejection.bufferUnavailable
      (r.abandon h) := by
    refine .long hp hlisted hm ?_
    rw [hh.payload, hh.capacity]
    exact hover
  -- the buffer that is given back will do, if it is of the right size
  have hfree : ((r.abandon h).messages.allocate .basic).isSome := by
    rcases hspare with hfree | hbasic
    · exact MessageStore.isSome_allocate_free h hfree
    · have hsize : h.size = .basic := SizeClass.capacity_injective
        ((Ledger.suits hs h m hm).capacity.symm.trans (hbasic ▸ hh.capacity))
      rw [← hsize]
      exact MessageStore.isSome_allocate_freed (by rw [hm]; rfl)
  obtain ⟨k, m', honce⟩ := reject_once (haway.sound hs) f Rejection.bufferUnavailable hfree
  have heq : r.receive streams f = (r.abandon h).reject f Rejection.bufferUnavailable := by
    rw [receive_of_marks hf (by rcases hp with rfl | rfl <;> decide) hus,
      accept_of_turnsAway haway]
  rw [heq]
  refine .abandoned hheld hover hmem ?_ honce
  rw [honce.rest]
  exact Assemblies.find?_release (Ledger.keys hs) (Ledger.handles_nodup hs) hmem

/-- A later frame when the message has been given up. -/
theorem receive_late (hs : r.Sound streams outside) (hf : f.Marks p)
    (hp : p = .middle ∨ p = .last) (hus : r.isForUs f = true)
    (hnone : r.assemblies.find? f.assemblyKey = none)
    (hover : f.assemblyKey.size.capacity < come.length)
    (hspare : (r.messages.allocate .basic).isSome) :
    r.Fares (r.receive streams f) f.assemblyKey come f := by
  obtain ⟨k, m, honce⟩ := reject_once hs f Rejection.endWithoutStart hspare
  have heq : r.receive streams f = r.reject f Rejection.endWithoutStart := by
    rw [receive_of_marks hf (by rcases hp with rfl | rfl <;> decide) hus,
      accept_of_unlisted f.dataOffset _ hp hnone]
  rw [heq]
  refine .late hover ?_ honce
  rw [honce.rest]
  exact hnone

end Resources

/-! ### Data among requests -/

/-- The data that the requests bring to the message with the key. -/
def Request.brought (key : AssemblyKey) (reqs : List Request) : List UInt8 :=
  (reqs.filterMap (Request.frameOf key)).flatMap Frame.data

namespace Request

variable {key : AssemblyKey} {reqs pre post : List Request} {req : Request} {f : Frame} {n : Nat}

theorem brought_append (pre post : List Request) :
    brought key (pre ++ post) = brought key pre ++ brought key post := by
  rw [brought, List.filterMap_append, List.flatMap_append]
  rfl

theorem brought_singleton (h : req.frameOf key = some f) : brought key [req] = f.data := by
  simp [brought, h]

theorem brought_eq_nil (h : reqs.filterMap (Request.frameOf key) = []) : brought key reqs = [] := by
  rw [brought, h, List.flatMap_nil]

theorem brought_of_foreign (h : req.frameOf key = none) : brought key [req] = [] :=
  brought_eq_nil (List.filterMap_cons_none h)

theorem frameOf_receive (h : f.assemblyKey = key) :
    (Request.receive f).frameOf key = some f := if_pos h

/-- Where the data become more than `n` bytes. -/
theorem exists_frame_of_lt (h : n < (brought key reqs).length) :
    ∃ pre f post, reqs = pre ++ .receive f :: post ∧ f.assemblyKey = key ∧
      (brought key pre).length ≤ n ∧ n < (brought key pre).length + f.data.length := by
  induction reqs using List.reverseRecOn with
  | nil => exact absurd h (Nat.not_lt_zero n)
  | append_singleton pre req ih =>
    by_cases hpre : n < (brought key pre).length
    · obtain ⟨pre', f, post, rfl, hf⟩ := ih hpre
      exact ⟨pre', f, post ++ [req], by simp, hf⟩
    · rw [brought_append, List.length_append] at h
      cases hreq : req.frameOf key with
      | none =>
        rw [brought_of_foreign hreq, List.length_nil] at h
        omega
      | some f =>
        obtain ⟨rfl, hkey⟩ := eq_of_frameOf hreq
        rw [brought_singleton hreq] at h
        exact ⟨pre, f, [], rfl, hkey, by omega, h⟩

end Request

/-- The frames say that they are the first of a message, any number in the middle of it, and the
last. -/
def InPlace (fs : List Frame) : Prop :=
  ∃ f mids l, fs = f :: (mids ++ [l]) ∧ f.Marks .first ∧ (∀ g ∈ mids, g.Marks .middle) ∧
    l.Marks .last

theorem InPlace.marks {xs ys : List Frame} {f : Frame} (h : InPlace (xs ++ f :: ys)) :
    f.Marks (if xs = [] then .first else if ys = [] then .last else .middle) := by
  obtain ⟨g, mids, l, heq, hfirst, hmid, hlast⟩ := h
  cases xs with
  | nil =>
    obtain ⟨rfl, -⟩ := List.cons.inj heq
    exact hfirst
  | cons x xs =>
    rw [List.cons_append, List.cons.injEq] at heq
    obtain ⟨-, heq⟩ := heq
    rw [if_neg (List.cons_ne_nil x xs)]
    rcases List.eq_nil_or_concat' ys with rfl | ⟨ys, y, rfl⟩
    · obtain ⟨-, hl⟩ := List.append_inj' heq rfl
      obtain rfl : f = l := by simpa using hl
      rw [if_pos rfl]
      exact hlast
    · rw [← List.cons_append, ← List.append_assoc] at heq
      obtain ⟨rfl, -⟩ := List.append_inj' heq rfl
      rw [if_neg (by simp)]
      exact hmid f (by simp)

namespace Session

variable {streams : Bool} {σ : Session} {key : AssemblyKey} {f : Frame} {fs : List Frame}
  {reqs pre post : List Request} {req : Request}

/-- The requests bring the frames of a message to one of our nodes that is too long for the buffer
in which it gathers.  When a frame comes that is to be rejected, there is a basic buffer for the
rejection; for the first one, that of the message may do. -/
structure Outgrows (streams : Bool) (σ : Session) (key : AssemblyKey) (reqs : List Request)
    (fs : List Frame) : Prop extends Conveys streams σ key key.size reqs fs where
  places : InPlace fs
  exceeds : key.size.capacity < (fs.flatMap Frame.data).length
  spare : ∀ pre f post, reqs = pre ++ .receive f :: post → f.assemblyKey = key →
    key.size.capacity < (Request.brought key pre).length + f.data.length →
      ((σ.after streams pre).interface.resources.messages.allocate .basic).isSome ∨
        (Request.brought key pre).length ≤ key.size.capacity ∧ key.size = .basic

/-- What the requests `pre` have made of the message: it is under assembly, with all the data that
have come, from its first frame until the data are too long. -/
structure Progress (streams : Bool) (σ : Session) (key : AssemblyKey) (pre : List Request) :
    Prop where
  before : pre.filterMap (Request.frameOf key) = [] →
    (σ.after streams pre).interface.resources.assemblies.find? key = none
  under : ∀ pre₀ f mid, pre = pre₀ ++ .receive f :: mid → f.assemblyKey = key →
    (∀ req ∈ pre₀, req.frameOf key = none) →
      (Request.brought key pre).length ≤ key.size.capacity →
        (σ.after streams pre).interface.resources.Gathers key key.size (Request.brought key pre)
          (Request.ticksOf mid)
  gone : key.size.capacity < (Request.brought key pre).length →
    (σ.after streams pre).interface.resources.assemblies.find? key = none

namespace Outgrows

theorem over_brought (h : σ.Outgrows streams key reqs fs) :
    key.size.capacity < (Request.brought key reqs).length := by
  rw [Request.brought, h.frames]
  exact h.exceeds

theorem marks (h : σ.Outgrows streams key (pre ++ .receive f :: post) fs)
    (hkey : f.assemblyKey = key) :
    f.Marks (if pre.filterMap (Request.frameOf key) = [] then .first
      else if post.filterMap (Request.frameOf key) = [] then .last else .middle) := by
  have hplaces := h.places
  rw [← h.frames, List.filterMap_append,
    List.filterMap_cons_some (Request.frameOf_receive hkey)] at hplaces
  exact hplaces.marks

theorem isForUs (h : σ.Outgrows streams key (pre ++ .receive f :: post) fs)
    (hkey : f.assemblyKey = key) :
    (σ.after streams pre).interface.resources.isForUs f = true :=
  h.toBrings.isForUs (hkey ▸ (h.marks hkey).isAddressed_mti) hkey

/-- As long as the data fit, another frame is to come. -/
theorem more (h : σ.Outgrows streams key (pre ++ post) fs)
    (hfits : (Request.brought key pre).length ≤ key.size.capacity) :
    post.filterMap (Request.frameOf key) ≠ [] := by
  intro hnil
  have hover := h.over_brought
  rw [Request.brought_append, Request.brought_eq_nil hnil, List.append_nil] at hover
  omega

/-- As long as the data fit, the next frame comes in time. -/
theorem in_time {pre₀ mid : List Request} {f₀ : Frame}
    (h : σ.Outgrows streams key (pre₀ ++ .receive f₀ :: (mid ++ post)) fs)
    (hkey : f₀.assemblyKey = key)
    (hfits : (Request.brought key (pre₀ ++ .receive f₀ :: mid)).length ≤ key.size.capacity) :
    Request.ticksOf mid < Limits.assemblyTimeout := by
  have hall : σ.Outgrows streams key ((pre₀ ++ .receive f₀ :: mid) ++ post) fs := by
    simpa using h
  obtain ⟨g, gs, hgs⟩ := List.exists_cons_of_ne_nil (hall.more hfits)
  obtain ⟨xs, req, ys, rfl, -, hreq, -⟩ := List.filterMap_eq_cons_iff.1 hgs
  obtain ⟨rfl, hg⟩ := Request.eq_of_frameOf hreq
  have hticks := h.prompt pre₀ f₀ (mid ++ xs) g ys (by simp) hkey hg
  rw [Request.ticksOf_append] at hticks
  omega

end Outgrows

/-- A request that brings no frame of the message. -/
theorem Progress.foreign (hs : (σ.after streams pre).Sound streams)
    (hp : (σ.after streams pre).Permits req) (h : σ.Outgrows streams key (pre ++ req :: post) fs)
    (hreq : req.frameOf key = none) (hpre : σ.Progress streams key pre) :
    σ.Progress streams key (pre ++ [req]) := by
  have hbrought : Request.brought key (pre ++ [req]) = Request.brought key pre := by
    rw [Request.brought_append, Request.brought_of_foreign hreq, List.append_nil]
  have hafter : σ.after streams (pre ++ [req]) = (σ.after streams pre).step streams req :=
    after_append ..
  refine ⟨fun hnil => ?_, fun pre₀ f mid heq hkey hpre₀ hfits => ?_, fun hover => ?_⟩
  · rw [List.filterMap_append, List.append_eq_nil_iff] at hnil
    rw [hafter]
    exact step_find?_eq_none hs hp hreq (hpre.before hnil.1)
  · -- the request is not the first frame, so it has come after it
    rcases List.eq_nil_or_concat' mid with rfl | ⟨mid, x, rfl⟩
    · obtain ⟨-, hx⟩ := List.append_inj' heq rfl
      rw [List.singleton_inj.1 hx, Request.frameOf_receive hkey] at hreq
      cases hreq
    · rw [← List.cons_append, ← List.append_assoc] at heq
      obtain ⟨rfl, hx⟩ := List.append_inj' heq rfl
      obtain rfl := List.singleton_inj.1 hx
      have hall : σ.Outgrows streams key (pre₀ ++ .receive f :: ((mid ++ [req]) ++ post)) fs := by
        simpa using h
      have htime := hall.in_time hkey (by simpa using hfits)
      have hticks : Request.ticksOf (mid ++ [req]) = Request.ticksOf mid + req.ticks :=
        Request.ticksOf_append mid [req]
      rw [hticks] at htime ⊢
      rw [hbrought] at hfits ⊢
      rw [hafter]
      exact step_gathers hs hp hreq htime (hpre.under pre₀ f mid rfl hkey hpre₀ hfits)
  · rw [hbrought] at hover
    rw [hafter]
    exact step_find?_eq_none hs hp hreq (hpre.gone hover)

/-- What has come with one more frame of the message. -/
theorem brought_receive (hkey : f.assemblyKey = key) :
    Request.brought key (pre ++ [.receive f]) = Request.brought key pre ++ f.data := by
  rw [Request.brought_append, Request.brought_singleton (Request.frameOf_receive hkey)]

/-- The frame is the last that has come, or another has come first. -/
theorem eq_or_eq_of_append {pre₀ mid : List Request} {f₀ : Frame}
    (heq : pre ++ [.receive f] = pre₀ ++ .receive f₀ :: mid) :
    (pre₀ = pre ∧ f₀ = f ∧ mid = []) ∨
      ∃ mid', mid = mid' ++ [.receive f] ∧ pre = pre₀ ++ .receive f₀ :: mid' := by
  obtain ⟨rfl, hreq, rfl⟩ | ⟨zs, -, hnil⟩ | ⟨zs, rfl, rfl⟩ := append_cons_cases heq
  · cases hreq
    exact .inl ⟨rfl, rfl, rfl⟩
  · exact absurd hnil.symm (List.append_ne_nil_of_right_ne_nil zs (List.cons_ne_nil _ _))
  · exact .inr ⟨zs, rfl, rfl⟩

/-- A frame with which the message is given up, or that comes after it. -/
theorem Progress.of_gone (hkey : f.assemblyKey = key)
    (hover : key.size.capacity < (Request.brought key pre).length + f.data.length)
    (hgone : ((σ.after streams pre).step streams
      (.receive f)).interface.resources.assemblies.find? key = none) :
    σ.Progress streams key (pre ++ [.receive f]) := by
  rw [← List.length_append, ← brought_receive hkey] at hover
  refine ⟨fun hnil => ?_, fun _ _ _ _ _ _ hfits => absurd hover (Nat.not_lt.2 hfits), fun _ => ?_⟩
  · rw [List.filterMap_append, List.append_eq_nil_iff] at hnil
    simp [Request.frameOf_receive hkey] at hnil
  · rw [after_append]
    exact hgone

/-- The first frame of the message. -/
theorem Progress.first (hs : (σ.after streams pre).Sound streams)
    (h : σ.Outgrows streams key (pre ++ .receive f :: post) fs) (hkey : f.assemblyKey = key)
    (hpre : σ.Progress streams key pre) (hnil : pre.filterMap (Request.frameOf key) = []) :
    (σ.after streams pre).interface.resources.Fares
        ((σ.after streams pre).step streams (.receive f)).interface.resources key
        (Request.brought key pre) f ∧
      σ.Progress streams key (pre ++ [.receive f]) := by
  have hforeign := List.filterMap_eq_nil_iff.1 hnil
  have hempty := Request.brought_eq_nil hnil
  have hmarks := h.marks hkey
  rw [if_pos hnil] at hmarks
  have hroom := h.room pre f post rfl hkey hforeign
  have hus := h.isForUs hkey
  have hnone := hpre.before hnil
  subst hkey
  obtain ⟨hholds, hquiet⟩ := Resources.receive_first hs hmarks hus hnone hroom
  have hfits := Resources.length_dataFrom_le f f.dataOffset f.assemblyKey.size
  rw [← List.nil_append f.data, ← hempty] at hholds
  refine ⟨.gathered ?_ hholds hquiet, fun hnil' => ?_, fun pre₀ f₀ mid heq hkey hpre₀ _ => ?_,
    fun hover => ?_⟩
  · rw [hempty, List.length_nil, Nat.zero_add]
    exact hfits
  · rw [List.filterMap_append, List.append_eq_nil_iff] at hnil'
    simp [Request.frameOf_receive] at hnil'
  · obtain ⟨-, -, rfl⟩ | ⟨mid', -, rfl⟩ := eq_or_eq_of_append heq
    · rw [after_append, brought_receive rfl]
      exact hholds
    · have hnone := hforeign (.receive f₀) (List.mem_append_right _ List.mem_cons_self)
      rw [Request.frameOf_receive hkey] at hnone
      cases hnone
  · rw [brought_receive rfl, hempty, List.nil_append] at hover
    exact absurd hover (Nat.not_lt.2 hfits)

/-- One of the frames that have come was the first. -/
theorem exists_first (hsome : pre.filterMap (Request.frameOf key) ≠ []) :
    ∃ pre₀ f mid, pre = pre₀ ++ .receive f :: mid ∧ f.assemblyKey = key ∧
      ∀ req ∈ pre₀, req.frameOf key = none := by
  obtain ⟨f, fs, hfs⟩ := List.exists_cons_of_ne_nil hsome
  obtain ⟨pre₀, req, mid, rfl, hpre₀, hreq, -⟩ := List.filterMap_eq_cons_iff.1 hfs
  obtain ⟨rfl, hkey⟩ := Request.eq_of_frameOf hreq
  exact ⟨pre₀, f, mid, rfl, hkey, hpre₀⟩

/-- A later frame that fits is not the last. -/
theorem Outgrows.marks_middle (h : σ.Outgrows streams key (pre ++ .receive f :: post) fs)
    (hkey : f.assemblyKey = key) (hsome : pre.filterMap (Request.frameOf key) ≠ [])
    (hfits : (Request.brought key pre).length + f.data.length ≤ key.size.capacity) :
    f.Marks .middle := by
  have hmarks := h.marks hkey
  rw [List.append_cons] at h
  have hmore := h.more (by rwa [brought_receive hkey, List.length_append])
  rwa [if_neg hsome, if_neg hmore] at hmarks

/-- A later frame that fits. -/
theorem Progress.middle (hs : (σ.after streams pre).Sound streams)
    (h : σ.Outgrows streams key (pre ++ .receive f :: post) fs) (hkey : f.assemblyKey = key)
    (hpre : σ.Progress streams key pre) (hsome : pre.filterMap (Request.frameOf key) ≠ [])
    (hfits : (Request.brought key pre).length + f.data.length ≤ key.size.capacity) :
    (σ.after streams pre).interface.resources.Fares
        ((σ.after streams pre).step streams (.receive f)).interface.resources key
        (Request.brought key pre) f ∧
      σ.Progress streams key (pre ++ [.receive f]) := by
  have hmarks := h.marks_middle hkey hsome hfits
  have hus := h.isForUs hkey
  obtain ⟨pre₀, f₀, mid, hsplit, hkey₀, hpre₀⟩ := exists_first hsome
  have hheld : (Request.brought key pre).length ≤ key.size.capacity := by omega
  have htake {age : Nat} (hg : (σ.after streams pre).interface.resources.Gathers key key.size
      (Request.brought key pre) age) :
      ((σ.after streams pre).step streams (.receive f)).interface.resources.Gathers key key.size
          (Request.brought key pre ++ f.data) age ∧
        ((σ.after streams pre).step streams (.receive f)).interface.resources.ingress =
          (σ.after streams pre).interface.resources.ingress := by
    subst hkey
    exact Resources.receive_middle hs hmarks hus hg hfits
  obtain ⟨hholds, hquiet⟩ := htake (hpre.under pre₀ f₀ mid hsplit hkey₀ hpre₀ hheld)
  refine ⟨.gathered hfits hholds hquiet, fun hnil => ?_, fun pre₁ f₁ mid₁ heq hkey₁ hpre₁ _ => ?_,
    fun hover => ?_⟩
  · rw [List.filterMap_append, List.append_eq_nil_iff] at hnil
    exact absurd hnil.1 hsome
  · obtain ⟨rfl, -, -⟩ | ⟨mid', rfl, hsplit'⟩ := eq_or_eq_of_append heq
    · exact absurd (List.filterMap_eq_nil_iff.2 hpre₁) hsome
    · rw [after_append, brought_receive hkey, Request.ticksOf_append]
      exact (htake (hpre.under pre₁ f₁ mid' hsplit' hkey₁ hpre₁ hheld)).1
  · rw [brought_receive hkey, List.length_append] at hover
    omega

/-- A later frame that does not fit. -/
theorem Progress.beyond (hs : (σ.after streams pre).Sound streams)
    (h : σ.Outgrows streams key (pre ++ .receive f :: post) fs) (hkey : f.assemblyKey = key)
    (hpre : σ.Progress streams key pre) (hsome : pre.filterMap (Request.frameOf key) ≠ [])
    (hover : key.size.capacity < (Request.brought key pre).length + f.data.length) :
    (σ.after streams pre).interface.resources.Fares
        ((σ.after streams pre).step streams (.receive f)).interface.resources key
        (Request.brought key pre) f ∧
      σ.Progress streams key (pre ++ [.receive f]) := by
  obtain ⟨p, hp, hmarks⟩ : ∃ p, (p = .middle ∨ p = .last) ∧ f.Marks p := by
    have hmarks := h.marks hkey
    rw [if_neg hsome] at hmarks
    refine ⟨_, ?_, hmarks⟩
    split
    · exact .inr rfl
    · exact .inl rfl
  have hus := h.isForUs hkey
  have hspare := h.spare pre f post rfl hkey hover
  obtain ⟨pre₀, f₀, mid, hsplit, hkey₀, hpre₀⟩ := exists_first hsome
  have hfares : (σ.after streams pre).interface.resources.Fares
      ((σ.after streams pre).step streams (.receive f)).interface.resources key
      (Request.brought key pre) f := by
    by_cases hheld : (Request.brought key pre).length ≤ key.size.capacity
    · have hg := hpre.under pre₀ f₀ mid hsplit hkey₀ hpre₀ hheld
      subst hkey
      exact Resources.receive_abandoned hs hmarks hp hus hg hheld hover (hspare.imp_right And.right)
    · have hnone := hpre.gone (Nat.lt_of_not_le hheld)
      subst hkey
      exact Resources.receive_late hs hmarks hp hus hnone (Nat.lt_of_not_le hheld)
        (hspare.resolve_right fun hbasic => hheld hbasic.1)
  refine ⟨hfares, .of_gone hkey hover ?_⟩
  cases hfares with
  | gathered hfits _ _ => omega
  | abandoned _ _ _ hgone _ => exact hgone
  | late _ hgone _ => exact hgone

theorem Progress.receive (hs : (σ.after streams pre).Sound streams)
    (h : σ.Outgrows streams key (pre ++ .receive f :: post) fs) (hkey : f.assemblyKey = key)
    (hpre : σ.Progress streams key pre) :
    (σ.after streams pre).interface.resources.Fares
        ((σ.after streams pre).step streams (.receive f)).interface.resources key
        (Request.brought key pre) f ∧
      σ.Progress streams key (pre ++ [.receive f]) := by
  by_cases hnil : pre.filterMap (Request.frameOf key) = []
  · exact hpre.first hs h hkey hnil
  · by_cases hfits : (Request.brought key pre).length + f.data.length ≤ key.size.capacity
    · exact hpre.middle hs h hkey hnil hfits
    · exact hpre.beyond hs h hkey hnil (Nat.lt_of_not_le hfits)

/-- What the requests have made of the message, after each of them. -/
theorem Outgrows.progress (hs : σ.Sound streams)
    (hnone : σ.interface.resources.assemblies.find? key = none) (pre : List Request)
    (h : σ.Outgrows streams key (pre ++ post) fs) : σ.Progress streams key pre := by
  induction pre using List.reverseRecOn generalizing post with
  | nil =>
    refine ⟨fun _ => hnone, fun pre₀ f mid heq => ?_, fun hover => absurd hover (Nat.not_lt_zero _)⟩
    simp at heq
  | append_singleton pre req ih =>
    rw [List.append_assoc, List.singleton_append] at h
    obtain ⟨ha, hp, -⟩ := allows_append.1 h.allowed
    cases hreq : req.frameOf key with
    | none => exact (ih h).foreign (hs.after ha) hp h hreq
    | some f =>
      obtain ⟨rfl, hkey⟩ := Request.eq_of_frameOf hreq
      exact ((ih h).receive (hs.after ha) h hkey).2

/-- What becomes of a message that is too long. -/
structure Overflows (streams : Bool) (σ : Session) (key : AssemblyKey) (reqs : List Request) :
    Prop where
  /-- What becomes of each of its frames follows from the data that have come. -/
  fares : ∀ pre f post, reqs = pre ++ .receive f :: post → f.assemblyKey = key →
    (σ.after streams pre).interface.resources.Fares
      ((σ.after streams pre).step streams (.receive f)).interface.resources key
      (Request.brought key pre) f
  /-- One of its frames is the first that does not fit. -/
  ends : ∃ pre f post, reqs = pre ++ .receive f :: post ∧ f.assemblyKey = key ∧
    (Request.brought key pre).length ≤ key.size.capacity ∧
      key.size.capacity < (Request.brought key pre).length + f.data.length
  /-- From the first frame on, as long as the data fit, all of them are under assembly. -/
  under : ∀ pre post, reqs = pre ++ post → pre.filterMap (Request.frameOf key) ≠ [] →
    (Request.brought key pre).length ≤ key.size.capacity →
      ∃ age, (σ.after streams pre).interface.resources.Gathers key key.size
        (Request.brought key pre) age
  /-- After that, nothing is. -/
  gone : ∀ pre post, reqs = pre ++ post →
    key.size.capacity < (Request.brought key pre).length →
      (σ.after streams pre).interface.resources.assemblies.find? key = none
  /-- What is under assembly is not with the application. -/
  apart : ∀ pre post, reqs = pre ++ post →
    ∀ h, (key, h) ∈ (σ.after streams pre).interface.resources.assemblies.entries →
      h ∉ (σ.after streams pre).interface.resources.ingress.toList

/-- **Overflow.** The frames of a message to one of our nodes come in order among whatever else an
interface and an application that respects ownership do; no message with the same key is under
assembly, a buffer is free when the first frame comes, the others come in time, and there are
buffers for rejections.  If the data are longer than the buffer, no part of the message is handed to
the application: the first frame that does not fit ends it and is rejected, and so is every frame
that follows. -/
theorem Outgrows.overflows (hσ : σ.Reachable streams)
    (hnone : σ.interface.resources.assemblies.find? key = none)
    (h : σ.Outgrows streams key reqs fs) : σ.Overflows streams key reqs := by
  have hs := hσ.sound
  refine ⟨?_, Request.exists_frame_of_lt h.over_brought, ?_, ?_, ?_⟩
  · rintro pre f post rfl hkey
    obtain ⟨ha, -⟩ := allows_append.1 h.allowed
    exact ((h.progress hs hnone pre).receive (hs.after ha) h hkey).1
  · rintro pre post rfl hsome hfits
    obtain ⟨pre₀, f, mid, hsplit, hkey, hpre₀⟩ := exists_first hsome
    exact ⟨_, (h.progress hs hnone pre).under pre₀ f mid hsplit hkey hpre₀ hfits⟩
  · rintro pre post rfl hover
    exact (h.progress hs hnone pre).gone hover
  · rintro pre post rfl k hmem hin
    obtain ⟨ha, -⟩ := allows_append.1 h.allowed
    have hrest : k ∈ (σ.after streams pre).interface.resources.ingress.toList ++
        (σ.after streams pre).interface.resources.egress.toList ++ (σ.after streams pre).outside :=
      List.mem_append_left _ (List.mem_append_left _ hin)
    exact Ledger.not_listed (hs.after ha) hrest (Assemblies.mem_handles_iff.2 ⟨key, hmem⟩)

/-! ### An addressed message among other traffic -/

/-- A frame of an addressed message with `n` bytes of data. -/
def deluge (p : Place) (n : Nat) : Frame :=
  .messageData .standard Mti.protocolSupportReply 0x123
    (Message.addressedPayload p.framing 1 (List.replicate (min n 6) 7))
    (Nat.add_le_add_right (List.length_replicate ▸ Nat.min_le_right n 6) 2)

/-- The frames of a message that fills its buffer, stays in it with a frame without data, and then
outgrows it, with frames of other messages, a tick and other work in between. -/
def flooding : List Request :=
  [.receive (deluge .first 6), .tick,
    .receive (.messageData .datagramFirst 1 0x456 (List.replicate 8 3) (by decide)),
    .receive (deluge .middle 6), .run true, .receive (deluge .middle 4),
    .receive (deluge .middle 0), .receive (deluge .middle 1), .popIngress,
    .receive (deluge .middle 6), .receive (deluge .last 2)]

theorem overflows_flooding :
    host.Reachable false ∧
      host.interface.resources.assemblies.find? (deluge .first 6).assemblyKey = none ∧
      host.Outgrows false (deluge .first 6).assemblyKey flooding
        [deluge .first 6, deluge .middle 6, deluge .middle 4, deluge .middle 0, deluge .middle 1,
          deluge .middle 6, deluge .last 2] ∧
      host.Overflows false (deluge .first 6).assemblyKey flooding := by
  have hall : ∀ pre post, flooding = pre ++ post →
      ((host.after false pre).interface.resources.aliases.find? 1).isSome ∧
        ((host.after false pre).interface.resources.messages.allocate .basic).isSome :=
    fun _ _ => of_take (P := fun σ => (σ.interface.resources.aliases.find? 1).isSome ∧
      (σ.interface.resources.messages.allocate .basic).isSome) (by decide +kernel)
  have hbasic : (deluge .first 6).assemblyKey.size = .basic := by decide +kernel
  have h : host.Outgrows false (deluge .first 6).assemblyKey flooding
      [deluge .first 6, deluge .middle 6, deluge .middle 4, deluge .middle 0, deluge .middle 1,
        deluge .middle 6, deluge .last 2] := by
    have hticks : Request.ticksOf flooding < Limits.assemblyTimeout := by decide
    exact {
      allowed := ⟨trivial, trivial, trivial, trivial, trivial, trivial, trivial, trivial, trivial,
        trivial, trivial, trivial⟩
      frames := by decide +kernel
      known := fun _ pre f post heq _ => (hall pre _ heq).1
      room := fun pre f post heq _ _ => hbasic ▸ (hall pre _ heq).2
      prompt := fun pre f mid g post heq _ _ => Request.ticksOf_between_lt (heq ▸ hticks)
      places := ⟨deluge .first 6, [deluge .middle 6, deluge .middle 4, deluge .middle 0,
        deluge .middle 1, deluge .middle 6], deluge .last 2, rfl, by decide +kernel,
        by decide +kernel, by decide +kernel⟩
      exceeds := by decide +kernel
      spare := fun pre f post heq _ _ => .inl (hall pre _ heq).2 }
  have hnone : host.interface.resources.assemblies.find? (deluge .first 6).assemblyKey = none := by
    decide +kernel
  exact ⟨host_reachable, hnone, h, h.overflows host_reachable hnone⟩

end Session

end LayoutBus
