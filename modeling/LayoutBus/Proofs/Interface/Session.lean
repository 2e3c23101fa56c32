import LayoutBus.Proofs.Interface.Ownership

/-!
# Sessions

An application that respects ownership uses an interface: it frees, pushes, and gives to a node
only handles that it owns, and it writes only into messages that it owns.  It comes to own the
buffers that it takes, the messages that it pops, and what it takes back from a node.

* `Session.Reachable` : the states that such an application can bring an interface into, whatever
  comes from the bus, in whichever order it makes its requests.
* `Session.Reachable.accounted` : **ownership.**  In all of them, every message buffer in use has
  exactly one owner, and there is room in every queue.
-/

namespace LayoutBus

/-- An interface and the handles that its application owns. -/
structure Session where
  interface : Interface
  held : List Handle

namespace Session

/-- The handles that the application owns after a request. -/
def heldAfter (σ : Session) : Request → List Handle
  | .allocate c =>
    match (σ.interface.allocate c).value with
    | .ok h => h :: σ.held
    | .error _ => σ.held
  | .popIngress =>
    match σ.interface.popIngress.value with
    | some h => h :: σ.held
    | none => σ.held
  | .pushEgress h =>
    match (σ.interface.pushEgress h).value with
    | .ok () => σ.held.erase h
    | .error _ => σ.held
  | .free h => σ.held.erase h
  | .retain i x =>
    match σ.interface.nodes.get? i with
    | some n => n.retained.toList ++ x.toList.foldl List.erase σ.held
    | none => σ.held
  | _ => σ.held

/-- The request respects ownership.  An application that writes into a message of its own leaves
alone what says where the message is. -/
def Permits (σ : Session) : Request → Prop
  | .free h => h ∈ σ.held
  | .pushEgress h => h ∈ σ.held
  | .edit h change => h ∈ σ.held ∧ ∀ m ∈ σ.interface.message? h, m.Alike (change m)
  | .retain _ x => ∀ h ∈ x, h ∈ σ.held
  | .revise i change => ∀ n ∈ σ.interface.nodes.get? i, (change n).retained = n.retained
  | _ => True

/-- The session after a request. -/
def step (streams : Bool) (σ : Session) (req : Request) : Session :=
  ⟨(σ.interface.perform streams req).interface, σ.heldAfter req⟩

/-- A new interface, of which nobody owns anything yet. -/
def start (streams : Bool) : Session := ⟨.empty streams, []⟩

/-- What an interface and an application that respects ownership can come to. -/
inductive Reachable (streams : Bool) : Session → Prop where
  | start : Reachable streams (start streams)
  | step {σ : Session} {req : Request} :
      Reachable streams σ → σ.Permits req → Reachable streams (σ.step streams req)

/-- The session after a list of requests. -/
def after (streams : Bool) (σ : Session) (reqs : List Request) : Session :=
  reqs.foldl (step streams) σ

/-- Each of the requests respects ownership when it is made. -/
def Allows (streams : Bool) (σ : Session) : List Request → Prop
  | [] => True
  | req :: reqs => σ.Permits req ∧ (σ.step streams req).Allows streams reqs

theorem after_append {streams : Bool} (σ : Session) (xs ys : List Request) :
    σ.after streams (xs ++ ys) = (σ.after streams xs).after streams ys :=
  List.foldl_append ..

theorem after_cons {streams : Bool} (σ : Session) (req : Request) (reqs : List Request) :
    σ.after streams (req :: reqs) = (σ.step streams req).after streams reqs := rfl

theorem allows_append {streams : Bool} {σ : Session} {pre post : List Request} :
    σ.Allows streams (pre ++ post) ↔
      σ.Allows streams pre ∧ (σ.after streams pre).Allows streams post := by
  induction pre generalizing σ with
  | nil => simp [Allows, after]
  | cons req pre ih => simp only [List.cons_append, Allows, after_cons, ih, and_assoc]

theorem Reachable.after {streams : Bool} {σ : Session} {reqs : List Request}
    (h : σ.Reachable streams) (ha : σ.Allows streams reqs) :
    (σ.after streams reqs).Reachable streams := by
  induction reqs generalizing σ with
  | nil => exact h
  | cons req reqs ih => exact ih (h.step ha.1) ha.2

/-- Requests that no application has to answer for. -/
theorem allows_of_forall {streams : Bool} {σ : Session} {reqs : List Request}
    (h : ∀ req ∈ reqs, ∀ σ : Session, σ.Permits req) : σ.Allows streams reqs := by
  induction reqs generalizing σ with
  | nil => trivial
  | cons req reqs ih =>
    exact ⟨h req List.mem_cons_self σ, ih fun req hreq => h req (List.mem_cons_of_mem _ hreq)⟩

/-- Every message buffer in use has exactly one owner. -/
def Sound (streams : Bool) (σ : Session) : Prop := σ.interface.Sound streams σ.held

end Session

namespace Interface

variable {streams : Bool} {s : Interface} {held : List Handle} {h : Handle}

/-! ### Requests of the application -/

theorem allocate_steady (hs : s.Sound streams held) (c : SizeClass) :
    Steady streams s (s.allocate c).interface (Session.heldAfter ⟨s, held⟩ (.allocate c)) := by
  simp only [Session.heldAfter]
  unfold allocate locked
  simp only
  cases ha : s.resources.messages.allocate c with
  | none => exact .of_same hs rfl rfl rfl rfl rfl rfl
  | some p =>
    obtain ⟨h, ms⟩ := p
    obtain ⟨-, hnone, hget⟩ := MessageStore.get?_of_allocate ha
    exact .touch hs (.inr hnone) ((Resources.Sound.allocate hs ha).perm List.perm_middle.symm) rfl
      rfl fun k hk => (hget k).trans (if_neg hk)

theorem free_steady (hs : s.Sound streams held) (hh : h ∈ held) :
    Steady streams s (s.free h).interface (held.erase h) := by
  have hhand : s.resources.Sound streams
      (h :: (s.outgoing ++ s.nodes.retained ++ held.erase h)) := by
    refine Resources.Sound.perm hs ?_
    exact ((List.perm_cons_erase hh).append_left _).trans List.perm_middle
  exact .touch hs (.inl (List.mem_append_right _ hh)) hhand.free rfl rfl
    fun k hk => (s.resources.messages.get?_free h k).trans (if_neg hk)

theorem edit_steady {f : Message → Message} (hs : s.Sound streams held) (hh : h ∈ held)
    (hf : ∀ m ∈ s.message? h, m.Alike (f m)) : Steady streams s (s.edit h f) held :=
  .touch hs (.inl (List.mem_append_right _ hh))
    (Resources.Sound.edit hs (List.mem_append_right _ hh) hf) rfl rfl
    fun k hk => (s.resources.messages.get?_modify h k f).trans (if_neg hk)

theorem popIngress_steady (hs : s.Sound streams held) :
    Steady streams s s.popIngress.interface (Session.heldAfter ⟨s, held⟩ .popIngress) := by
  simp only [Session.heldAfter]
  unfold popIngress locked
  simp only
  cases hpop : s.resources.ingress.pop with
  | none => exact .of_same hs rfl rfl rfl rfl rfl rfl
  | some p =>
    obtain ⟨h, q⟩ := p
    refine .of_perm hs rfl rfl rfl ?_
    rw [Queue.pop_eq_some_iff.1 hpop, List.perm_iff_count]
    intro k
    simp only [List.count_append, List.count_cons]
    show _ = _ + _ + (List.count k s.outgoing + _ + _)
    omega

/-- There is room for what the application pushes. -/
theorem pushEgress_eq (hs : s.Sound streams held) (hh : h ∈ held) :
    ∃ q, (s.pushEgress h).value = .ok () ∧
      (s.pushEgress h).interface = { s with resources := { s.resources with egress := q } } ∧
      Sound streams { s with resources := { s.resources with egress := q } } (held.erase h) := by
  have hhand : s.resources.Sound streams
      (h :: (s.outgoing ++ s.nodes.retained ++ held.erase h)) := by
    refine Resources.Sound.perm hs ?_
    exact ((List.perm_cons_erase hh).append_left _).trans List.perm_middle
  obtain ⟨q, hq, hsound⟩ := hhand.push_egress
  obtain ⟨m, hm⟩ := Option.isSome_iff_exists.1
    (Ledger.isSome_of_mem hs (List.mem_append_right _ (List.mem_append_right _ hh)))
  refine ⟨q, ?_, ?_, hsound⟩ <;> unfold pushEgress message? locked <;> simp [hm, hq]

theorem pushEgress_steady (hs : s.Sound streams held) (hh : h ∈ held) :
    Steady streams s (s.pushEgress h).interface (Session.heldAfter ⟨s, held⟩ (.pushEgress h)) := by
  obtain ⟨q, hvalue, heq, hsound⟩ := pushEgress_eq hs hh
  simp only [Session.heldAfter, hvalue]
  rw [heq]
  exact ⟨⟨hsound, rfl, fun _ _ => rfl⟩, rfl, fun _ _ => rfl⟩

theorem retain_steady (hs : s.Sound streams held) (i : Nat) (x : Option Handle)
    (hx : ∀ h ∈ x, h ∈ held) :
    Steady streams s { s with nodes := s.nodes.modify i ({ · with retained := x }) }
      (Session.heldAfter ⟨s, held⟩ (.retain i x)) := by
  simp only [Session.heldAfter]
  cases hn : s.nodes.get? i with
  | none =>
    rw [Registry.modify_eq_self hn]
    exact .of_same hs rfl rfl rfl rfl rfl rfl
  | some n =>
    have hperm := Registry.retained_modify_perm (f := ({ · with retained := x })) hn
    have hheld : held.Perm (x.toList ++ x.toList.foldl List.erase held) := by
      cases x with
      | none => exact List.Perm.refl _
      | some h => exact List.perm_cons_erase (hx h rfl)
    refine .of_perm hs rfl rfl rfl (List.Perm.append_left _ (List.perm_iff_count.2 fun k => ?_))
    have hcount := hperm.count_eq k
    have hcount' := hheld.count_eq k
    simp only [List.count_append] at hcount hcount' ⊢
    show List.count k s.outgoing + _ + _ = List.count k s.outgoing + _ + _
    omega

theorem send_steady (hs : s.Sound streams held) (i mti dest : Nat) (payload : List UInt8) :
    Steady streams s (s.send i mti dest payload).interface held := by
  unfold send
  split
  · exact .of_same hs rfl rfl rfl rfl rfl rfl
  · rename_i n _
    have halloc := allocate_steady hs (sizeFor mti payload)
    simp only [Session.heldAfter] at halloc
    simp only
    cases hv : (s.allocate (sizeFor mti payload)).value with
    | error e =>
      rw [hv] at halloc
      exact halloc
    | ok h =>
      rw [hv] at halloc
      have hmem : h ∈ h :: held := List.mem_cons_self
      have hedit := edit_steady (f := fun m => (m.load mti n.aliasId n.id dest 0).append payload)
        halloc.sound hmem fun m _ => (m.alike_load _ _ _ _ _).trans (Message.alike_append _ _)
      obtain ⟨q, hvalue, heq, hsound⟩ := pushEgress_eq hedit.sound hmem
      have hpush := pushEgress_steady hedit.sound hmem
      simp only [Session.heldAfter, hvalue, List.erase_cons_head] at hpush
      simp only [hvalue]
      exact (halloc.trans hedit).trans hpush

theorem register_steady (hs : s.Sound streams held) (id : Nat) (params : NodeParameters) :
    Steady streams s (s.register id params).interface held := by
  obtain hsame | hadded := s.register_cases id params
  · rw [hsame]
    exact .of_same hs rfl rfl rfl rfl rfl rfl
  · rw [hadded]
    -- a new node keeps nothing
    exact .of_same hs rfl rfl rfl rfl rfl (by simp [Registry.retained, Node.create])

theorem clearPeaks_steady (hs : s.Sound streams held) :
    Steady streams s s.clearPeaks.interface held := by
  have hget : ∀ k, s.resources.messages.clearPeak.get? k = s.resources.messages.get? k := by
    rintro ⟨c, i⟩
    cases c <;> rfl
  exact ⟨⟨Ledger.clearPeak hs, rfl, fun k _ => hget k⟩, rfl, fun k _ => hget k⟩

end Interface

namespace Session

variable {streams : Bool} {σ : Session} {req : Request} {h : Handle}

/-- Everything outside of the list of messages under assembly and the queues. -/
def outside (σ : Session) : List Handle :=
  σ.interface.outgoing ++ σ.interface.nodes.retained ++ σ.held

/-- A request of the application, and one that adds a node. -/
theorem step_steady (hs : σ.Sound streams) (hp : σ.Permits req)
    (hrec : ∀ f, req ≠ .receive f) (htick : req ≠ .tick) (hrun : ∀ accepts, req ≠ .run accepts) :
    Interface.Steady streams σ.interface (σ.step streams req).interface
      (σ.step streams req).held := by
  cases req with
  | register id params => exact Interface.register_steady hs id params
  | receive f => exact absurd rfl (hrec f)
  | tick => exact absurd rfl htick
  | run accepts => exact absurd rfl (hrun accepts)
  | allocate c => exact Interface.allocate_steady hs c
  | popIngress => exact Interface.popIngress_steady hs
  | pushEgress h => exact Interface.pushEgress_steady hs hp
  | free h => exact Interface.free_steady hs hp
  | edit h change => exact Interface.edit_steady hs hp.1 hp.2
  | send i mti dest payload => exact Interface.send_steady hs i mti dest payload
  | retain i x => exact Interface.retain_steady hs i x hp
  | revise i change => exact .of_same hs rfl rfl rfl rfl rfl (Registry.retained_modify hp)
  | clearPeaks => exact Interface.clearPeaks_steady hs

theorem step_works (hs : σ.Sound streams) (hp : σ.Permits req) (hrec : ∀ f, req ≠ .receive f)
    (htick : req ≠ .tick) :
    Interface.Works streams σ.interface (σ.step streams req).interface
      (σ.step streams req).held := by
  by_cases hrun : ∃ accepts, req = .run accepts
  · obtain ⟨accepts, rfl⟩ := hrun
    exact Interface.run_works hs
  · exact (step_steady hs hp hrec htick fun accepts heq => hrun ⟨accepts, heq⟩).toWorks

theorem step_receive (hs : σ.Sound streams) (f : Frame) :
    Resources.Handling streams f.assemblyKey σ.outside σ.interface.resources
      (σ.step streams (.receive f)).interface.resources [] :=
  Resources.receive_handling hs f

theorem step_tick (hs : σ.Sound streams) :
    Resources.Aged streams σ.outside σ.interface.resources
      (σ.step streams .tick).interface.resources :=
  Resources.age_aged hs

theorem retained_tick (r : Registry) : r.tick.retained = r.retained := by
  unfold Registry.tick Registry.retained
  rw [List.filterMap_map]
  rfl

/-- Ownership is kept by every request. -/
theorem Sound.step (hs : σ.Sound streams) (hp : σ.Permits req) :
    (σ.step streams req).Sound streams := by
  by_cases hrec : ∃ f, req = .receive f
  · obtain ⟨f, rfl⟩ := hrec
    exact (step_receive hs f).sound
  · by_cases htick : req = .tick
    · subst htick
      have hsound := (step_tick hs).sound
      unfold outside at hsound
      rw [← retained_tick] at hsound
      exact hsound
    · exact (step_works hs hp (fun f heq => hrec ⟨f, heq⟩) htick).sound

theorem Reachable.sound (h : σ.Reachable streams) : σ.Sound streams := by
  induction h with
  | start => exact Interface.sound_empty streams
  | step _ hp ih => exact ih.step hp

theorem Sound.after {reqs : List Request} (hs : σ.Sound streams) (ha : σ.Allows streams reqs) :
    (σ.after streams reqs).Sound streams := by
  induction reqs generalizing σ with
  | nil => exact hs
  | cons req reqs ih => exact ih (hs.step ha.1) ha.2

/-! ### Ownership -/

/-- The owners of message buffers: the queues, the outgoing message, the messages under assembly,
the nodes, and the application. -/
def owners (σ : Session) : List Handle :=
  σ.interface.resources.ingress.toList ++ σ.interface.resources.egress.toList ++
    σ.interface.outgoing ++ σ.interface.resources.assemblies.handles ++
      σ.interface.nodes.retained ++ σ.held

/-- Nothing is lost, nothing is owned twice, and nothing overflows. -/
structure Accounted (streams : Bool) (σ : Session) : Prop where
  /-- No handle has two owners, or the same owner twice. -/
  nodup : σ.owners.Nodup
  /-- The buffers in use are those with an owner. -/
  in_use_iff : ∀ h, (σ.interface.message? h).isSome ↔ h ∈ σ.owners
  /-- No key is under assembly twice. -/
  keys : (σ.interface.resources.assemblies.entries.map Prod.fst).Nodup
  /-- The header of a message under assembly repeats its key. -/
  named : ∀ e ∈ σ.interface.resources.assemblies.entries, ∀ m ∈ σ.interface.message? e.2,
    m.header.Names e.1
  /-- The flags of a message say whether it is under assembly. -/
  flags : ∀ h, ∀ m ∈ σ.interface.message? h,
    m.header.allocated = true ∧
      (m.header.inProcess = true ↔ h ∈ σ.interface.resources.assemblies.handles)
  /-- There is room for every message that could be handed to the application. -/
  ingress_room : ∀ h ∈ Ledger.buffers streams, h ∉ σ.interface.resources.ingress.toList →
    ∃ q, σ.interface.resources.ingress.push h = some q
  /-- There is room for every message that could be sent. -/
  egress_room : ∀ h ∈ Ledger.buffers streams, h ∉ σ.interface.resources.egress.toList →
    ∃ q, σ.interface.resources.egress.push h = some q
  /-- There is room for every message that could be put under assembly. -/
  assembly_room : ∀ h ∈ Ledger.buffers streams, h ∉ σ.interface.resources.assemblies.handles →
    ∀ key, σ.interface.resources.assemblies.find? key = none →
      ∃ a, σ.interface.resources.assemblies.add key h = .ok a
  /-- What the application pushes is taken. -/
  pushed : ∀ h ∈ σ.held, (σ.interface.pushEgress h).value = .ok ()

/-- There is room in a list of owned handles for another. -/
theorem length_lt {ms : MessageStore} {a : Assemblies} {rest xs : List Handle}
    (hl : Ledger streams ms a rest) (hsub : xs.Sublist (a.handles ++ rest))
    (hh : h ∈ Ledger.buffers streams) (hnew : h ∉ xs) : xs.length < Limits.messageDepth := by
  have hn : (h :: xs).Nodup := List.nodup_cons.2 ⟨hnew, hl.nodup.sublist hsub⟩
  have hall : h :: xs ⊆ Ledger.buffers streams :=
    List.cons_subset.2 ⟨hh, fun k hk => hl.mem_buffers (hsub.subset hk)⟩
  have hlen := (List.subperm_of_subset hn hall).length_le
  exact Nat.lt_of_lt_of_le (Nat.lt_of_succ_le hlen) (Ledger.length_buffers streams)

theorem push_isSome {n : Nat} {q : Queue Handle n} (hlen : q.toList.length < n) :
    ∃ q', q.push h = some q' := by
  cases hq : q.push h with
  | none => exact absurd (Queue.push_eq_none_iff.1 hq) (Nat.ne_of_lt hlen)
  | some q' => exact ⟨q', rfl⟩

/-- **Ownership.** Whatever comes from the bus, and in whichever order an application that respects
ownership makes its requests: every message buffer in use has exactly one owner, the messages
under assembly are told apart by their keys and say so, and no queue is ever too short. -/
theorem Reachable.accounted (hr : σ.Reachable streams) : σ.Accounted streams := by
  have hl := hr.sound
  have hperm : σ.owners.Perm (σ.interface.resources.assemblies.handles ++
      (σ.interface.resources.ingress.toList ++ σ.interface.resources.egress.toList ++
        σ.outside)) := by
    rw [List.perm_iff_count]
    intro k
    simp only [owners, outside, List.count_append]
    omega
  have hin : σ.interface.resources.ingress.toList.Sublist (σ.interface.resources.ingress.toList ++
      σ.interface.resources.egress.toList ++ σ.outside) :=
    (List.sublist_append_left _ _).trans (List.sublist_append_left _ _)
  have heg : σ.interface.resources.egress.toList.Sublist (σ.interface.resources.ingress.toList ++
      σ.interface.resources.egress.toList ++ σ.outside) :=
    (List.sublist_append_right _ _).trans (List.sublist_append_left _ _)
  exact {
    nodup := hperm.nodup_iff.2 (Ledger.nodup hl)
    in_use_iff := fun h => (Ledger.mem_iff hl h).symm.trans hperm.mem_iff.symm
    keys := Ledger.keys hl
    named := Ledger.named hl
    flags := fun h m hm => ⟨(Ledger.suits hl h m hm).allocated, (Ledger.suits hl h m hm).inProcess⟩
    ingress_room := fun h hh hnew =>
      push_isSome (length_lt hl (hin.trans (List.sublist_append_right _ _)) hh hnew)
    egress_room := fun h hh hnew =>
      push_isSome (length_lt hl (heg.trans (List.sublist_append_right _ _)) hh hnew)
    assembly_room := fun h hh hnew key hkey => by
      have hlen := length_lt hl (List.sublist_append_left _ _) hh hnew
      rw [Assemblies.handles, List.length_map] at hlen
      exact ⟨_, Assemblies.add_eq_ok hkey hlen⟩
    pushed := fun h hh => (Interface.pushEgress_eq hl hh).choose_spec.1 }

/-- A message is under assembly, another has been popped, and a third has been pushed. -/
def exchange : List Request :=
  [.receive (.messageData .standard Mti.eventReportFirst 0x123 [1, 2, 3, 4, 5, 6, 7, 8] (by decide)),
    .receive (.messageData .standard Mti.eventReport 0x123 [1, 2, 3, 4, 5, 6, 7, 8] (by decide)),
    .allocate .datagram, .popIngress, .pushEgress ⟨.datagram, 0⟩]

theorem accounted_exchange :
    (start false).Allows false exchange ∧
      ((start false).after false exchange).owners =
        [⟨.datagram, 0⟩, ⟨.snip, 0⟩, ⟨.basic, 0⟩] ∧
      ((start false).after false exchange).Accounted false := by
  have hheld : (⟨.datagram, 0⟩ : Handle) ∈
      ((start false).after false (exchange.take 4)).held := by decide +kernel
  have ha : (start false).Allows false exchange :=
    ⟨trivial, trivial, trivial, trivial, hheld, trivial⟩
  exact ⟨ha, by decide +kernel, (Reachable.start.after ha).accounted⟩

end Session

end LayoutBus
