import LayoutBus.Proofs.Interface.Resting
import LayoutBus.Proofs.Interface.Session
import LayoutBus.Proofs.Interface.Transit
import LayoutBus.Proofs.Message.Framing

/-!
# Mail

What a run does with the messages that are to be sent: which ones have been pushed and taken, and
which frames have gone into the outbox.

* `Mail` : these facts, and `Mail.note` what a step adds to them.
* `Interface.Mailed` : runs of an application that leaves alone what it has pushed.
* `Interface.Dispatches` : where the messages pushed are, and what this says about the frames.
* `Interface.Mailed.after` : an application that respects ownership makes such a run.

The messages that are gone, the one underway and those that wait divide the list of pushed messages.
-/

namespace LayoutBus

/-- A message to be sent, as it was when it was pushed. -/
structure Parcel where
  handle : Handle
  message : Message
deriving DecidableEq, Repr

/-- The frames of a message, if its source alias was permitted when the message was taken. -/
def Parcel.share (streams : Bool) (x : Parcel × Bool) : List Frame :=
  if x.2 then x.1.message.framesOn streams else []

/-- What has become of messages that are to be sent. -/
structure Mail where
  /-- The messages pushed, in order. -/
  pushed : List Parcel := []
  /-- For each message taken from the queue, whether its source alias was permitted then. -/
  permitted : List Bool := []
  /-- The frames of messages that have gone into the outbox. -/
  frames : List Frame := []
deriving DecidableEq, Repr

/-- Where the messages pushed are. -/
structure Dispatch where
  /-- Sent or dropped, with a note whether the source alias was permitted. -/
  gone : List (Parcel × Bool)
  /-- Taken from the queue, with some frames yet to go. -/
  underway : Option Parcel
  /-- In the queue. -/
  waiting : List Parcel

/-- The messages that are not gone. -/
def Dispatch.left (d : Dispatch) : List Parcel := d.underway.toList ++ d.waiting

namespace Interface

/-- The messages that have come to the back of the queue between two states. -/
def pushedUntil (s t : Interface) : List Parcel :=
  (t.resources.egress.toList.drop s.resources.egress.count).filterMap fun h =>
    (t.message? h).map (Parcel.mk h)

/-- The buffers with messages that are to be sent. -/
def unsent (s : Interface) : List Handle := s.outgoing ++ s.resources.egress.toList

/-- The parts of the outgoing message that are gone. -/
def sent (s : Interface) : Nat :=
  match s.segmenting with
  | some o => o.sent
  | none => 0

end Interface

/-- What has become of messages after a step between two states, with what could be seen of it. -/
def Mail.note (mail : Mail) (s t : Interface) (es : List Effect) : Mail where
  pushed := mail.pushed ++ s.pushedUntil t
  permitted := mail.permitted ++
    if t.resources.egress.count < s.resources.egress.count then
      mail.pushed[mail.permitted.length]?.toList.map fun p =>
        s.resources.aliases.isPermitted p.message.header.source
    else []
  frames := mail.frames ++ segments es

namespace Interface

/-- The request leaves alone what is to be sent, and what it pushes fits into its buffer and is in
nobody else's hands. -/
structure Honours (streams : Bool) (s : Interface) (req : Request) : Prop where
  leaves : ∀ k ∈ s.unsent, s.LetsRest k req
  fits : ∀ p ∈ s.pushedUntil (s.perform streams req).interface,
    p.message.header.count ≤ p.message.capacity
  rests : ∀ p ∈ s.pushedUntil (s.perform streams req).interface,
    (s.perform streams req).interface.Rests p.handle p.message

/-- What an interface can come to, with what has become of messages, if the application leaves alone
what it has pushed. -/
inductive Mailed (streams : Bool) : Interface → Mail → Prop where
  | start : Mailed streams (.empty streams) {}
  | step {s : Interface} {mail : Mail} {req : Request} :
      Mailed streams s mail → s.Honours streams req →
        Mailed streams (s.perform streams req).interface
          (mail.note s (s.perform streams req).interface (s.perform streams req).trace)

/-- The messages pushed are where `d` says, and the frames in the outbox are theirs. -/
structure Dispatches (streams : Bool) (s : Interface) (mail : Mail) (d : Dispatch) : Prop where
  /-- Messages go in the order in which they were pushed. -/
  pushed : mail.pushed = d.gone.map Prod.fst ++ d.left
  permitted : mail.permitted = d.gone.map Prod.snd ++ d.underway.toList.map fun _ => true
  outgoing : s.outgoing = d.underway.toList.map Parcel.handle
  queue : s.resources.egress.toList = d.waiting.map Parcel.handle
  /-- A message that is not gone is in its buffer, as it was when it was pushed. -/
  kept : ∀ p ∈ d.left, s.message? p.handle = some p.message
  /-- All frames of the messages that are gone, then some of the message underway. -/
  frames : mail.frames = d.gone.flatMap (Parcel.share streams) ++
    d.underway.toList.flatMap fun p => (p.message.framesOn streams).take s.sent
  /-- A message is underway as long as a frame is left. -/
  unfinished : ∀ p ∈ d.underway, s.sent < (p.message.framesOn streams).length

/-- On the way from `d` to `d'` no message went, or the next one, and its buffer is free now. -/
def Frees (t : Interface) (d d' : Dispatch) : Prop :=
  d'.gone = d.gone ∨
    ∃ x, d.left.head? = some x.1 ∧ d'.gone = d.gone ++ [x] ∧ t.message? x.1.handle = none

variable {s t : Interface} {p : Parcel}

/-! ### Notes -/

theorem pushedUntil_eq (new : List Parcel)
    (hqueue : t.resources.egress.toList = s.resources.egress.toList ++ new.map Parcel.handle)
    (hnew : ∀ p ∈ new, t.message? p.handle = some p.message) : s.pushedUntil t = new := by
  unfold pushedUntil Queue.count
  rw [hqueue, List.drop_left, List.filterMap_map]
  have hself : ∀ p ∈ new, ((t.message? p.handle).map (Parcel.mk p.handle)) = some p :=
    fun p hp => by rw [hnew p hp]; rfl
  exact (List.filterMap_congr hself).trans List.filterMap_some

/-- Messages have been pushed, and none has been taken. -/
theorem note_of_pushed {new : List Parcel} (mail : Mail) (es : List Effect)
    (hqueue : t.resources.egress.toList = s.resources.egress.toList ++ new.map Parcel.handle)
    (hnew : ∀ p ∈ new, t.message? p.handle = some p.message) :
    mail.note s t es = ⟨mail.pushed ++ new, mail.permitted, mail.frames ++ segments es⟩ := by
  have hcount : ¬ t.resources.egress.count < s.resources.egress.count := by
    unfold Queue.count
    rw [hqueue, List.length_append]
    omega
  rw [Mail.note, pushedUntil_eq new hqueue hnew, if_neg hcount, List.append_nil]

/-- A message has been taken. -/
theorem note_of_taken {mail : Mail} {h : Handle} (es : List Effect)
    (hqueue : s.resources.egress.toList = h :: t.resources.egress.toList)
    (hp : mail.pushed[mail.permitted.length]? = some p) :
    mail.note s t es =
      ⟨mail.pushed, mail.permitted ++ [s.resources.aliases.isPermitted p.message.header.source],
        mail.frames ++ segments es⟩ := by
  have hcount : s.resources.egress.count = t.resources.egress.count + 1 := by
    unfold Queue.count
    rw [hqueue, List.length_cons]
  have hnone : s.pushedUntil t = [] := by
    have hdrop : t.resources.egress.toList.drop s.resources.egress.count = [] :=
      List.drop_of_length_le (Nat.le_of_lt (hcount ▸ Nat.lt_succ_self t.resources.egress.count))
    rw [pushedUntil, hdrop, List.filterMap_nil]
  rw [Mail.note, hnone, hp, if_pos (hcount ▸ Nat.lt_succ_self _), List.append_nil]
  rfl

/-! ### Applications that respect ownership -/

variable {streams : Bool} {held : List Handle} {h : Handle}

/-- What a node or the application owns is not to be sent. -/
theorem not_unsent (hs : s.Sound streams held) (hh : h ∈ s.nodes.retained ++ held) :
    h ∉ s.unsent := by
  have hn := (List.nodup_append.1 (Ledger.nodup hs)).2.1
  intro hmem
  rcases List.mem_append.1 hmem with hout | hqueue
  · exact (not_busy hs (.inl hh)).2 hout
  · rw [List.append_assoc s.outgoing] at hn
    exact List.disjoint_of_nodup_append hn (List.mem_append_right _ hqueue)
      (List.mem_append_right _ hh)

/-- A message in the queue is in nobody else's hands. -/
theorem rests_of_mem_egress (hs : s.Sound streams held) (hk : h ∈ s.resources.egress.toList)
    {m : Message} (hm : s.message? h = some m) : s.Rests h m := by
  have hqueues : h ∈ s.resources.ingress.toList ++ s.resources.egress.toList :=
    List.mem_append_right _ hk
  have hn := (List.nodup_append.1 (Ledger.nodup hs)).2.1
  refine ⟨⟨hm, Ledger.not_listed hs (List.mem_append_left _ hqueues), fun hin => ?_⟩,
    fun n hnode hret => ?_⟩
  · exact List.disjoint_of_nodup_append (List.nodup_append.1 hn).1 hin hk
  · refine List.disjoint_of_nodup_append hn hqueues (List.mem_append_left _
      (List.mem_append_right _ (List.mem_filterMap.2 ⟨n, hnode, hret⟩)))

theorem mem_pushedUntil (hp : p ∈ s.pushedUntil t) :
    p.handle ∈ t.resources.egress.toList ∧ t.message? p.handle = some p.message := by
  obtain ⟨k, hk, hmap⟩ := List.mem_filterMap.1 hp
  obtain ⟨m, hm, rfl⟩ := Option.map_eq_some_iff.1 hmap
  exact ⟨List.mem_of_mem_drop hk, hm⟩

end Interface

namespace Session

variable {streams : Bool} {σ : Session} {req : Request} {reqs : List Request} {mail : Mail}

/-- An application that respects ownership leaves alone what it has pushed. -/
theorem Sound.honours (hs : σ.Sound streams) (hp : σ.Permits req)
    (hfits : ∀ p ∈ σ.interface.pushedUntil (σ.step streams req).interface,
      p.message.header.count ≤ p.message.capacity) : σ.interface.Honours streams req where
  leaves k hk := by
    have hheld : ∀ h ∈ σ.held, h ≠ k := by
      rintro h hh rfl
      exact Interface.not_unsent hs (List.mem_append_right _ hh) hk
    have hkept : ∀ n ∈ σ.interface.nodes.nodes, n.retained ≠ some k := fun n hn hret =>
      Interface.not_unsent hs (List.mem_append_left _ (List.mem_filterMap.2 ⟨n, hn, hret⟩)) hk
    cases req with
    | free h => exact hheld h hp
    | pushEgress h => exact hheld h hp
    | edit h change => exact hheld h hp.1
    | retain i x =>
      rintro rfl
      exact hheld k (hp k rfl) rfl
    | revise i change =>
      intro n hn
      rw [hp n hn]
      exact hkept n (List.mem_of_getElem? hn)
    | _ => trivial
  fits := hfits
  rests p hmem := by
    obtain ⟨hqueue, hm⟩ := Interface.mem_pushedUntil hmem
    exact Interface.rests_of_mem_egress (hs.step hp) hqueue hm

end Session

namespace Mail

/-- What has become of messages after a list of requests. -/
def along (streams : Bool) (s : Interface) (mail : Mail) : List Request → Mail
  | [] => mail
  | req :: reqs =>
    along streams (s.perform streams req).interface
      (mail.note s (s.perform streams req).interface (s.perform streams req).trace) reqs

theorem pushed_along_prefix (streams : Bool) (s : Interface) (mail : Mail) (reqs : List Request) :
    mail.pushed <+: (mail.along streams s reqs).pushed := by
  induction reqs generalizing s mail with
  | nil => exact List.prefix_rfl
  | cons req reqs ih =>
    have hrest := ih (s.perform streams req).interface
      (mail.note s (s.perform streams req).interface (s.perform streams req).trace)
    exact (List.prefix_append mail.pushed _).trans hrest

end Mail

namespace Interface

/-- So it makes a run in which messages go out whole, if they fit into their buffers. -/
theorem Mailed.after {streams : Bool} {σ : Session} {mail : Mail} {reqs : List Request}
    (h : Mailed streams σ.interface mail) (hs : σ.Sound streams) (ha : σ.Allows streams reqs)
    (hfits : ∀ p ∈ (mail.along streams σ.interface reqs).pushed,
      p.message.header.count ≤ p.message.capacity) :
    Mailed streams (σ.after streams reqs).interface (mail.along streams σ.interface reqs) := by
  induction reqs generalizing σ mail with
  | nil => exact h
  | cons req reqs ih =>
    have hnow : ∀ p ∈ σ.interface.pushedUntil (σ.step streams req).interface,
        p.message.header.count ≤ p.message.capacity := fun p hp =>
      hfits p ((Mail.pushed_along_prefix streams (σ.step streams req).interface _ reqs).subset
        (List.mem_append_right mail.pushed hp))
    exact ih (h.step (hs.honours ha.1 hnow)) (hs.step ha.1) ha.2 hfits

end Interface

end LayoutBus
