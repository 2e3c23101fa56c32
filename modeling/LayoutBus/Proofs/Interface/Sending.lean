import LayoutBus.Proofs.Interface.Extent

/-!
# Sending in one request

`Interface.send` takes a buffer, fills it and queues it.  Whatever it answers, it leaves no trace
of a message that it could not queue, and it queues at most one.  The size of the buffer follows
from the type of the message and the length of the payload, and nothing compares the two: of a
payload that is longer than the buffer the rest is dropped, and the answer is still that the
message is sent.

* `Interface.Queued`, `Interface.Kept` : what remains of a request that is granted or refused.
* `Interface.Transacts` : the request sends certain bytes or leaves everything as it was.
* `Interface.send_transacts` : the bytes it sends are those that the buffer takes.
* `Interface.send_whole_iff` : the request is all or nothing unless it drops bytes.
-/

namespace LayoutBus

/-- The message is from node `n` and has the given type, receiver and payload. -/
structure Message.Bears (m : Message) (n : Node) (mti dest : Nat) (data : List UInt8) : Prop where
  mti : m.header.mti = mti
  source : m.header.source = n.aliasId
  sourceId : m.header.sourceId = n.id
  dest : m.header.dest = dest
  payload : m.payload = data

/-- A new buffer that is addressed and filled holds as much of the data as it takes. -/
theorem MessageStore.fresh_bears (c : SizeClass) (n : Node) (mti dest : Nat) (data : List UInt8) :
    (((fresh c).load mti n.aliasId n.id dest 0).append data).Bears n mti dest
      (data.take c.capacity) := by
  refine ⟨rfl, rfl, rfl, rfl, ?_⟩
  have hcapacity : ((fresh c).load mti n.aliasId n.id dest 0).capacity = c.capacity :=
    List.length_replicate
  have hstart : ((fresh c).load mti n.aliasId n.id dest 0).start = 0 := Nat.zero_min _
  rw [Message.payload_append, Message.payload_load, List.nil_append, Message.accepts, hcapacity,
    hstart, Nat.sub_zero, List.take_eq_take_iff]
  omega

namespace Interface

/-- From `s` to `t`, a message in a buffer that was free has gone to the back of the queue of those
to be sent, and nothing else has changed. -/
structure Queued (s t : Interface) (h : Handle) (m : Message) : Prop where
  free : s.message? h = none
  message : t.message? h = some m
  others : ∀ k, k ≠ h → t.message? k = s.message? k
  egress : t.resources.egress.toList = s.resources.egress.toList ++ [h]
  rest : t = { s with resources := { s.resources with
    messages := t.resources.messages, egress := t.resources.egress } }

/-- From `s` to `t`, no message has changed, no buffer has been taken or freed, and nothing else
has changed either, except for the peaks of the pools. -/
structure Kept (s t : Interface) : Prop where
  messages : ∀ k, t.message? k = s.message? k
  rest : t = { s with resources := { s.resources with messages := t.resources.messages } }

theorem Kept.refl (s : Interface) : s.Kept s := ⟨fun _ => rfl, rfl⟩

/-- A request of the node at `i` to send a message either sends the bytes `sent` and is granted, or
is refused and leaves everything as it was. -/
structure Transacts (s : Interface) (i mti dest : Nat) (payload sent : List UInt8) : Prop where
  granted : (s.send i mti dest payload).value = .ok () →
    ∃ n h m, s.nodes.get? i = some n ∧ s.Queued (s.send i mti dest payload).interface h m ∧
      m.Bears n mti dest sent
  refused : ∀ e, (s.send i mti dest payload).value = .error e →
    s.Kept (s.send i mti dest payload).interface

variable {s : Interface} {h : Handle} {c : SizeClass} {ms : MessageStore}

/-- A buffer that is taken and filled is the only one that differs. -/
theorem queued_of_allocate (ha : s.resources.messages.allocate c = some (h, ms))
    (g : Message → Message) {q : Queue Handle Limits.messageDepth}
    (hq : s.resources.egress.push h = some q) :
    s.Queued { s with resources := { s.resources with messages := ms.modify h g, egress := q } } h
      (g (MessageStore.fresh c)) := by
  obtain ⟨-, hfree, hget⟩ := MessageStore.get?_of_allocate ha
  refine ⟨hfree, ?_, fun k hk => ?_, Queue.toList_push hq, rfl⟩
  · rw [message?, MessageStore.get?_modify, if_pos rfl, hget, if_pos rfl, Option.map_some]
  · rw [message?, MessageStore.get?_modify, if_neg hk, hget, if_neg hk, message?]

/-- A buffer that is taken and given back leaves no trace. -/
theorem kept_of_free (ha : s.resources.messages.allocate c = some (h, ms))
    (g : Message → Message) :
    s.Kept { s with resources := { s.resources with messages := (ms.modify h g).free h } } := by
  obtain ⟨-, hfree, hget⟩ := MessageStore.get?_of_allocate ha
  refine ⟨fun k => ?_, rfl⟩
  rw [message?, MessageStore.get?_free]
  by_cases hk : k = h
  · rw [if_pos hk, hk, message?, hfree]
  · rw [if_neg hk, MessageStore.get?_modify, if_neg hk, hget, if_neg hk, message?]

/-- The request is granted with a message queued, or refused with nothing changed. -/
theorem send_result (s : Interface) (i mti dest : Nat) (payload : List UInt8) :
    (∃ n h m, (s.send i mti dest payload).value = .ok () ∧ s.nodes.get? i = some n ∧
      s.Queued (s.send i mti dest payload).interface h m ∧
      m.Bears n mti dest (payload.take (sizeFor mti payload).capacity)) ∨
    ∃ e, (s.send i mti dest payload).value = .error e ∧
      s.Kept (s.send i mti dest payload).interface := by
  unfold send
  cases hn : s.nodes.get? i with
  | none => exact .inr ⟨_, rfl, .refl s⟩
  | some n =>
    simp only [allocate, locked]
    cases ha : s.resources.messages.allocate (sizeFor mti payload) with
    | none => exact .inr ⟨_, rfl, .refl s⟩
    | some p =>
      obtain ⟨h, ms⟩ := p
      dsimp only
      obtain ⟨q, -, hq, hv, heq⟩ | ⟨e, hv, heq⟩ := pushEgress_cases
        (edit { s with resources := { s.resources with messages := ms } } h
          fun m => (m.load mti n.aliasId n.id dest 0).append payload) h
      · rw [hv]
        dsimp only
        rw [heq]
        exact .inl ⟨n, h, _, rfl, rfl, queued_of_allocate ha _ hq,
          MessageStore.fresh_bears (sizeFor mti payload) n mti dest payload⟩
      · rw [hv]
        dsimp only
        rw [heq]
        exact .inr ⟨e, rfl, kept_of_free ha _⟩

/-- What is queued are the bytes that the chosen buffer takes. -/
theorem send_transacts (s : Interface) (i mti dest : Nat) (payload : List UInt8) :
    s.Transacts i mti dest payload (payload.take (sizeFor mti payload).capacity) := by
  obtain ⟨n, h, m, hv, hsent⟩ | ⟨e, hv, hkept⟩ := s.send_result i mti dest payload
  · refine ⟨fun _ => ⟨n, h, m, hsent⟩, fun e he => ?_⟩
    rw [hv] at he
    cases he
  · refine ⟨fun hok => ?_, fun _ _ => hkept⟩
    rw [hv] at hok
    cases hok

/-- What a granted request sends is determined by the request. -/
theorem Transacts.sent_eq {i mti dest : Nat} {payload sent sent' : List UInt8}
    (ht : s.Transacts i mti dest payload sent) (ht' : s.Transacts i mti dest payload sent')
    (hok : (s.send i mti dest payload).value = .ok ()) : sent = sent' := by
  obtain ⟨_, h, m, -, hq, hm⟩ := ht.granted hok
  obtain ⟨_, h', m', -, hq', hm'⟩ := ht'.granted hok
  have hlast : h = h' := by
    have heq := hq.egress.symm.trans hq'.egress
    simpa using heq
  have hsame : m = m' := by
    have heq := hq.message.symm.trans (hlast ▸ hq'.message)
    simpa using heq
  rw [← hm.payload, ← hm'.payload, hsame]

/-- **Sending is all or nothing, short of the buffer.**  A request to send either queues one
message with as much of the payload as the chosen buffer takes, or is refused and leaves everything
as it was.  It sends the whole payload or nothing if and only if it does not grant a payload that
is longer than the buffer. -/
theorem send_whole_iff (s : Interface) (i mti dest : Nat) (payload : List UInt8) :
    s.Transacts i mti dest payload (payload.take (sizeFor mti payload).capacity) ∧
      (s.Transacts i mti dest payload payload ↔
        ((s.send i mti dest payload).value = .ok () →
          payload.length ≤ (sizeFor mti payload).capacity)) := by
  have htakes := s.send_transacts i mti dest payload
  refine ⟨htakes, fun hwhole hok => ?_, fun hfits => ⟨fun hok => ?_, htakes.refused⟩⟩
  · have hlength := congrArg List.length (htakes.sent_eq hwhole hok)
    rw [List.length_take] at hlength
    omega
  · have hsent := htakes.granted hok
    rwa [List.take_of_length_le (hfits hok)] at hsent

/-- A node information reply of 257 bytes is granted, and not all of it is sent. -/
theorem send_shortens :
    (send ((empty false).after false [.register 1 (.ofSupport 0)]) 0 Mti.nodeInfoReply 0x123
        (List.replicate 257 7)).value = .ok () ∧
      ¬ ((empty false).after false [.register 1 (.ofSupport 0)]).Transacts 0 Mti.nodeInfoReply 0x123
        (List.replicate 257 7) (List.replicate 257 7) := by
  have hok : (send ((empty false).after false [.register 1 (.ofSupport 0)]) 0 Mti.nodeInfoReply
      0x123 (List.replicate 257 7)).value = .ok () := by decide +kernel
  refine ⟨hok, fun hwhole => ?_⟩
  have hsent := (send_transacts _ 0 Mti.nodeInfoReply 0x123 _).sent_eq hwhole hok
  exact absurd (congrArg List.length hsent) (by decide +kernel)

end Interface

end LayoutBus
