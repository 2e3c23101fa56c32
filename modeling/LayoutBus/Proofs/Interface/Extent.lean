import LayoutBus.Proofs.Interface.Request

/-!
# How far work reaches

Every kind of work changes a part of an interface and leaves the rest alone.

* `Resources.SameOutside` : the reception of message data touches only message buffers, the
  queue of incoming messages and the messages under assembly (`Resources.receiveMessage_outside`).
* `Interface.transmit_extent`, `Interface.sendMessages_extent` : two kinds of work of the main loop.
* `Interface.exchange_extent` : the requests about messages.
* `Interface.perform_aside` : all other requests than a pass and reception.
* `Resources.aliases_receive` : reception changes the aliases only by noting a conflict.
-/

namespace LayoutBus

namespace Resources

/-- Two states agree on the frames to send, the messages to send and the aliases. -/
structure SameOutside (r s : Resources) : Prop where
  outbox : s.outbox = r.outbox
  egress : s.egress = r.egress
  aliases : s.aliases = r.aliases

variable {r s t : Resources} {f : Frame} {h : Handle}

namespace SameOutside

theorem refl (r : Resources) : r.SameOutside r := ⟨rfl, rfl, rfl⟩

theorem trans (hrs : r.SameOutside s) (hst : s.SameOutside t) : r.SameOutside t :=
  ⟨hst.outbox.trans hrs.outbox, hst.egress.trans hrs.egress, hst.aliases.trans hrs.aliases⟩

end SameOutside

theorem SameOutside.deliver (hs : r.SameOutside s) :
    r.SameOutside (s.deliver h).1 := by
  refine hs.trans ?_
  unfold Resources.deliver
  split <;> exact ⟨rfl, rfl, rfl⟩

theorem SameOutside.reject {code : Nat} (hs : r.SameOutside s) :
    r.SameOutside (s.reject f code) := by
  refine hs.trans ?_
  unfold Resources.reject
  split
  · exact SameOutside.deliver ⟨rfl, rfl, rfl⟩
  · exact .refl s

theorem allocateFor_outside {c : SizeClass} (ha : r.allocateFor f c = some (h, s)) :
    r.SameOutside s := by
  unfold allocateFor at ha
  split at ha
  · cases ha; exact ⟨rfl, rfl, rfl⟩
  · cases ha

theorem acceptOnly_outside (r : Resources) (f : Frame) (offset : Nat) (c : SizeClass) :
    r.SameOutside (r.acceptOnly f offset c) := by
  unfold acceptOnly
  split
  · rename_i ha
    exact (allocateFor_outside ha).trans (SameOutside.deliver ⟨rfl, rfl, rfl⟩)
  · split
    · exact (SameOutside.refl r).reject
    · exact .refl r

theorem acceptFirst_outside (r : Resources) (f : Frame) (offset : Nat) (c : SizeClass) :
    r.SameOutside (r.acceptFirst f offset c) := by
  unfold acceptFirst
  split
  · exact (SameOutside.refl r).reject
  · split
    · exact (SameOutside.refl r).reject
    · rename_i ha
      refine (allocateFor_outside ha).trans ?_
      split
      · exact ⟨rfl, rfl, rfl⟩
      · exact SameOutside.reject ⟨rfl, rfl, rfl⟩

theorem extend_outside (r : Resources) (f : Frame) (offset : Nat) (h : Handle) :
    r.SameOutside (r.extend f offset h).1 := by
  unfold extend
  simp only
  split
  · exact ⟨rfl, rfl, rfl⟩
  · exact SameOutside.reject ⟨rfl, rfl, rfl⟩

theorem acceptMiddle_outside (r : Resources) (f : Frame) (offset : Nat) :
    r.SameOutside (r.acceptMiddle f offset) := by
  unfold acceptMiddle
  split
  · exact extend_outside _ _ _ _
  · exact (SameOutside.refl r).reject

theorem complete_outside (r : Resources) (h : Handle) : r.SameOutside (r.complete h) :=
  SameOutside.deliver ⟨rfl, rfl, rfl⟩

theorem acceptLast_outside (r : Resources) (f : Frame) (offset : Nat) :
    r.SameOutside (r.acceptLast f offset) := by
  unfold acceptLast
  split
  · rename_i h _
    have hext := extend_outside r f offset h
    split
    · rename_i heq
      rw [heq] at hext
      exact hext.trans (complete_outside _ _)
    · rename_i heq
      rw [heq] at hext
      exact hext
  · exact (SameOutside.refl r).reject

theorem foldl_abandon_outside (hs : List Handle) (r : Resources) :
    r.SameOutside (hs.foldl abandon r) := by
  induction hs generalizing r with
  | nil => exact .refl r
  | cons h hs ih =>
    have habandon : r.SameOutside (r.abandon h) := ⟨rfl, rfl, rfl⟩
    exact habandon.trans (ih _)

theorem age_outside (r : Resources) : r.SameOutside r.age := by
  have h := foldl_abandon_outside (grow r.messages (r.assemblies.entries.map Prod.snd)).2
    { r with messages := (grow r.messages (r.assemblies.entries.map Prod.snd)).1 }
  exact ⟨h.outbox, h.egress, h.aliases⟩

/-! ### Routing -/

/-- A frame with message data is left alone or taken by its place in the message, whatever it says
about itself. -/
theorem receiveMessage_route {P : Resources → Prop} (streams : Bool) (t : MessageType) (idle : P r)
    (only : ∀ offset c, P (r.acceptOnly f offset c))
    (first : ∀ offset c, P (r.acceptFirst f offset c))
    (middle : ∀ offset, P (r.acceptMiddle f offset))
    (last : ∀ offset, P (r.acceptLast f offset)) : P (r.receiveMessage streams f t) := by
  have unmarked : P (r.acceptUnmarked f) := by
    unfold acceptUnmarked
    simp only
    split
    · split
      · exact only _ _
      · exact first _ _
    · split
      · exact middle _
      · exact last _
  have addressed : P (r.receiveAddressed f) := by
    unfold receiveAddressed
    simp only
    by_cases h₀ : f.framing = Framing.only
    · rw [if_pos h₀]
      split
      · exact unmarked
      · exact only _ _
    · rw [if_neg h₀]
      split_ifs
      · exact first _ _
      · exact first _ _
      · exact middle _
      · exact last _
      · exact idle
  have global : P (r.receiveGlobal f) := by
    unfold receiveGlobal
    split_ifs
    · exact first _ _
    · exact middle _
    · exact last _
    · exact only _ _
  unfold receiveMessage
  cases t with
  | reserved => exact idle
  | standard =>
    simp only
    split_ifs
    · exact addressed
    · exact idle
    · exact global
  | datagramOnly => simp only; split_ifs <;> [exact only _ _; exact idle]
  | datagramFirst => simp only; split_ifs <;> [exact first _ _; exact idle]
  | datagramMiddle => simp only; split_ifs <;> [exact middle _; exact idle]
  | datagramFinal => simp only; split_ifs <;> [exact last _; exact idle]
  | stream => simp only [receiveStream]; split_ifs <;> [exact only _ _; exact idle]

theorem receiveMessage_outside (streams : Bool) (r : Resources) (f : Frame) (t : MessageType) :
    r.SameOutside (r.receiveMessage streams f t) :=
  receiveMessage_route streams t (.refl r) (acceptOnly_outside r f) (acceptFirst_outside r f)
    (acceptMiddle_outside r f) (acceptLast_outside r f)

/-! ### Aliases -/

theorem noteConflict_of_find?_eq_none {t : AliasTable} {a : Nat} (h : t.find? a = none) :
    t.noteConflict a = t := by
  unfold AliasTable.noteConflict AliasTable.markDuplicate
  rw [h]

/-- Control frames note a conflict over the alias they come from; no other frame does. -/
theorem aliases_receive (streams : Bool) (r : Resources) (f : Frame) :
    (r.receive streams f).aliases =
      match f.kind with
      | .control _ => r.aliases.noteConflict f.source
      | _ => r.aliases := by
  unfold receive
  cases f.kind with
  | checkId number => simp only; split <;> rfl
  | control kind =>
    cases kind with
    | aliasMapEnquiry =>
      simp only [receiveControl, receiveEnquiry]
      split
      · rfl
      · rename_i hnone
        exact (noteConflict_of_find?_eq_none (by simpa using hnone)).symm
    | reserveId | aliasMapDefinition | aliasMapReset | errorReport _ => rfl
  | unknownControl field => rfl
  | message t => exact (receiveMessage_outside streams r f t).aliases

/-- Reception pushes nothing that is to be sent. -/
theorem egress_receive (streams : Bool) (r : Resources) (f : Frame) :
    (r.receive streams f).egress = r.egress := by
  unfold receive
  cases f.kind with
  | checkId number => simp only; split <;> rfl
  | control kind =>
    cases kind with
    | aliasMapEnquiry => simp only [receiveControl, receiveEnquiry]; split <;> rfl
    | reserveId | aliasMapDefinition | aliasMapReset | errorReport _ => rfl
  | unknownControl field => rfl
  | message t => exact (receiveMessage_outside streams r f t).egress

end Resources

namespace Interface

variable {streams accepts : Bool}

/-! ### The main loop -/

theorem transmit_extent (s : Interface) :
    ∃ x o, (s.transmit accepts).interface =
      { s with transmitting := x, resources := { s.resources with outbox := o } } := by
  have hfetch : ∃ x o, s.fetch.interface =
      { s with transmitting := x, resources := { s.resources with outbox := o } } := by
    unfold fetch
    split
    · exact ⟨_, _, rfl⟩
    · simp only [locked]
      split <;> exact ⟨_, _, rfl⟩
  obtain ⟨x, o, hx⟩ := hfetch
  unfold transmit
  simp only
  rw [hx]
  split
  · exact ⟨x, o, rfl⟩
  · unfold offer
    split
    · exact ⟨none, o, rfl⟩
    · split
      · exact ⟨none, _, rfl⟩
      · exact ⟨x, o, rfl⟩

theorem settle_extent (s : Interface) (o : Outgoing) (m : Message) :
    ∃ g ms, s.settle o m =
      { s with segmenting := g, resources := { s.resources with messages := ms } } := by
  unfold settle
  split
  · exact ⟨_, _, rfl⟩
  · exact ⟨_, s.resources.messages, rfl⟩

/-- What an attempt to go on with an outgoing message does: it settles the message, with the
outbox as it was or with one more frame.  Only if there is no room for a frame, it does not count
as work. -/
theorem continueMessage_cases {s : Interface} {o : Outgoing} {m : Message}
    (hm : s.resources.messages.get? o.handle = some m) :
    ∃ b o', (s.continueMessage streams o).interface =
        settle { s with resources := { s.resources with outbox := b } } o' m ∧
      o'.handle = o.handle ∧
      ((b = s.resources.outbox ∧ (∀ h f, .segment h f ∉ (s.continueMessage streams o).trace) ∧
          ((s.continueMessage streams o).value = false →
            ∃ f n, m.next streams o.cursor = .frame f n ∧ s.resources.outbox.offer f = none)) ∨
        ∃ f n, m.next streams o.cursor = .frame f n ∧ s.resources.outbox.offer f = some b ∧
          (s.continueMessage streams o).value = true ∧
          ∀ h g, .segment h g ∈ (s.continueMessage streams o).trace ↔ h = o.handle ∧ g = f) := by
  unfold continueMessage
  rw [hm]
  simp only [locked, segment]
  split
  · exact ⟨s.resources.outbox, _, rfl, rfl, .inl ⟨rfl, by simp, by simp⟩⟩
  · rename_i f n hnext
    cases hoffer : s.resources.outbox.offer f with
    | none => exact ⟨s.resources.outbox, o, rfl, rfl, .inl ⟨rfl, by simp, fun _ => ⟨f, n, hnext, hoffer⟩⟩⟩
    | some b => exact ⟨b, _, rfl, rfl, .inr ⟨f, n, hnext, hoffer, rfl, by simp⟩⟩

theorem continueMessage_extent (s : Interface) (o : Outgoing) :
    ∃ g b ms, (s.continueMessage streams o).interface =
      { s with segmenting := g, resources := { s.resources with outbox := b, messages := ms } } := by
  cases hm : s.resources.messages.get? o.handle with
  | none =>
    unfold continueMessage
    rw [hm]
    exact ⟨none, s.resources.outbox, s.resources.messages, rfl⟩
  | some m =>
    obtain ⟨b, o', heq, -⟩ := @continueMessage_cases streams s o m hm
    obtain ⟨g, ms, hg⟩ := settle_extent { s with resources := { s.resources with outbox := b } } o' m
    exact ⟨g, b, ms, heq.trans hg⟩

theorem popEgress_of_none {s : Interface} (h : s.resources.egress.pop = none) :
    s.popEgress =
      { value := none, interface := s, trace := [.lock s.resources, .unlock s.resources] } := by
  simp [popEgress, locked, h]

theorem popEgress_of_some {s : Interface} {k : Handle} {q : Queue Handle Limits.messageDepth}
    (h : s.resources.egress.pop = some (k, q)) :
    s.popEgress =
      { value := some k
        interface := { s with resources := { s.resources with egress := q } }
        trace := [.lock s.resources, .unlock { s.resources with egress := q }] } := by
  simp [popEgress, locked, h]

theorem sendMessages_extent (s : Interface) :
    ∃ g b ms q, (s.sendMessages streams).interface =
      { s with
        segmenting := g
        resources := { s.resources with outbox := b, messages := ms, egress := q } } := by
  unfold sendMessages
  split
  · rename_i o _
    obtain ⟨g, b, ms, hg⟩ := @continueMessage_extent streams s o
    exact ⟨g, b, ms, s.resources.egress, hg⟩
  · cases hpop : s.resources.egress.pop with
    | none =>
      rw [popEgress_of_none hpop]
      exact ⟨s.segmenting, s.resources.outbox, s.resources.messages, s.resources.egress, rfl⟩
    | some p =>
      obtain ⟨k, q⟩ := p
      rw [popEgress_of_some hpop]
      simp only
      split
      · obtain ⟨g, b, ms, hg⟩ := @continueMessage_extent streams
          { s with resources := { s.resources with egress := q } } ⟨k, 0, 0⟩
        exact ⟨g, b, ms, q, hg⟩
      · exact ⟨s.segmenting, s.resources.outbox, _, q, rfl⟩

/-! ### Requests -/

/-- A node is added at the end, or nothing happens. -/
theorem register_cases (s : Interface) (id : Nat) (params : NodeParameters) :
    (s.register id params).interface = s ∨
      (s.register id params).interface =
        { s with nodes := { s.nodes with nodes := s.nodes.nodes ++ [.create id params] } } := by
  unfold register Registry.register
  split_ifs
  · exact .inl rfl
  · exact .inr rfl
  · exact .inl rfl
  · exact .inl rfl

/-- A message in use goes to the back of the queue, if there is room; otherwise nothing happens. -/
theorem pushEgress_cases (s : Interface) (h : Handle) :
    (∃ q, (s.message? h).isSome ∧ s.resources.egress.push h = some q ∧
      (s.pushEgress h).value = .ok () ∧
      (s.pushEgress h).interface = { s with resources := { s.resources with egress := q } }) ∨
    ∃ e, (s.pushEgress h).value = .error e ∧ (s.pushEgress h).interface = s := by
  unfold pushEgress
  cases hm : s.message? h with
  | none => exact .inr ⟨_, rfl, rfl⟩
  | some m =>
    simp only [locked]
    cases hq : s.resources.egress.push h with
    | some q => exact .inl ⟨q, rfl, rfl, rfl, rfl⟩
    | none => exact .inr ⟨_, rfl, rfl⟩

theorem pushEgress_extent (s : Interface) (h : Handle) :
    ∃ q, (s.pushEgress h).interface = { s with resources := { s.resources with egress := q } } := by
  obtain ⟨q, -, -, -, heq⟩ | ⟨-, -, heq⟩ := s.pushEgress_cases h
  · exact ⟨q, heq⟩
  · exact ⟨s.resources.egress, heq⟩

/-- A message is sent from a buffer that was free: it goes to the back of the queue, or nothing
remains of it. -/
theorem send_cases (s : Interface) (i mti dest : Nat) (payload : List UInt8) :
    (s.send i mti dest payload).interface = s ∨
    ∃ c h ms g, s.resources.messages.allocate c = some (h, ms) ∧
      ((∃ q, s.resources.egress.push h = some q ∧ (s.send i mti dest payload).interface =
        { s with resources := { s.resources with messages := ms.modify h g, egress := q } }) ∨
      (s.send i mti dest payload).interface =
        { s with resources := { s.resources with messages := (ms.modify h g).free h } }) := by
  unfold send
  split
  · exact .inl rfl
  · rename_i n _
    simp only [allocate, locked]
    cases ha : s.resources.messages.allocate (sizeFor mti payload) with
    | none => exact .inl rfl
    | some p =>
      obtain ⟨h, ms⟩ := p
      refine .inr ⟨_, h, ms, fun m => (m.load mti n.aliasId n.id dest 0).append payload, ha, ?_⟩
      simp only
      obtain ⟨q, -, hq, hv, heq⟩ | ⟨e, hv, heq⟩ := pushEgress_cases
        (edit { s with resources := { s.resources with messages := ms } } h
          fun m => (m.load mti n.aliasId n.id dest 0).append payload) h
      · rw [hv]
        exact .inl ⟨q, hq, heq⟩
      · rw [hv]
        simp only [heq]
        exact .inr rfl

theorem send_extent (s : Interface) (i mti dest : Nat) (payload : List UInt8) :
    ∃ ms q, (s.send i mti dest payload).interface =
      { s with resources := { s.resources with messages := ms, egress := q } } := by
  obtain heq | ⟨-, h, ms, g, -, ⟨q, -, heq⟩ | heq⟩ := s.send_cases i mti dest payload
  · exact ⟨s.resources.messages, s.resources.egress, heq⟩
  · exact ⟨ms.modify h g, q, heq⟩
  · exact ⟨(ms.modify h g).free h, s.resources.egress, heq⟩

/-- Requests about messages change nothing but the store, the two queues and what the buffers of
frames have counted. -/
theorem exchange_extent (s : Interface) {req : Request} (hreq : req.isExchange) :
    ∃ ms q q' o, (s.perform streams req).interface =
        { s with
          resources :=
            { s.resources with messages := ms, ingress := q, egress := q', outbox := o } } ∧
      (o = s.resources.outbox ∨
        o = { s.resources.outbox with buffers := s.resources.outbox.buffers.clearPeak }) := by
  cases req with
  | register id params | receive f | tick | run accepts | retain i h | revise i change => cases hreq
  | allocate c =>
    simp only [perform, Outcome.interface_done, allocate, locked]
    split <;> exact ⟨_, _, _, _, rfl, .inl rfl⟩
  | popIngress =>
    simp only [perform, Outcome.interface_done, popIngress, locked]
    split <;> exact ⟨_, _, _, _, rfl, .inl rfl⟩
  | pushEgress h =>
    obtain ⟨q, hq⟩ := s.pushEgress_extent h
    exact ⟨_, _, q, _, hq, .inl rfl⟩
  | send i mti dest payload =>
    obtain ⟨ms, q, hq⟩ := s.send_extent i mti dest payload
    exact ⟨ms, _, q, _, hq, .inl rfl⟩
  | free h | edit h change => exact ⟨_, _, _, _, rfl, .inl rfl⟩
  | clearPeaks => exact ⟨_, _, _, _, rfl, .inr rfl⟩

/-- Requests that neither come from the bus nor start a pass leave the frames on their way out and
the aliases alone. -/
theorem perform_aside (s : Interface) {req : Request} (hrec : ∀ f, req ≠ .receive f)
    (hrun : ∀ accepts, req ≠ .run accepts) :
    (s.perform streams req).interface.resources.aliases = s.resources.aliases ∧
      (s.perform streams req).interface.loginFrame = s.loginFrame ∧
      (s.perform streams req).interface.transmitting = s.transmitting ∧
      ((s.perform streams req).interface.resources.outbox = s.resources.outbox ∨
        (s.perform streams req).interface.resources.outbox =
          { s.resources.outbox with buffers := s.resources.outbox.buffers.clearPeak }) := by
  by_cases hreq : req.isExchange
  · obtain ⟨ms, q, q', o, heq, ho⟩ := @exchange_extent streams s req hreq
    rw [heq]
    exact ⟨rfl, rfl, rfl, ho⟩
  · cases req with
    | receive f => exact absurd rfl (hrec f)
    | run accepts => exact absurd rfl (hrun accepts)
    | tick =>
      have hage := s.resources.age_outside
      exact ⟨hage.aliases, rfl, rfl, .inl hage.outbox⟩
    | register id params =>
      simp only [perform, register]
      split <;> exact ⟨rfl, rfl, rfl, .inl rfl⟩
    | retain i h | revise i change => exact ⟨rfl, rfl, rfl, .inl rfl⟩
    | _ => exact absurd rfl hreq

end Interface

end LayoutBus
