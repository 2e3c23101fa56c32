import LayoutBus.Proofs.Interface.Ageing
import LayoutBus.Proofs.Interface.Request
import LayoutBus.Proofs.Node.Advance

/-!
# Who owns a message buffer

Besides the queues and the messages under assembly, the outgoing message, the nodes and the
application own message buffers.  The main loop and the application pass handles on, take buffers
and free them, and leave the messages under assembly alone.

* `Interface.Sound` : every buffer in use has exactly one owner.
* `Interface.Works` : a step that keeps it so and leaves the messages under assembly alone, proved
  for every kind of work (`Interface.run_works`) and for the requests of an application.
* `Interface.Steady` : a step that also leaves the outgoing message alone.
-/

namespace LayoutBus

/-! ### What nodes keep -/

namespace Registry

/-- The datagrams that nodes keep. -/
def retained (r : Registry) : List Handle := r.nodes.filterMap Node.retained

variable {r : Registry} {i : Nat} {n : Node} {f : Node → Node}

theorem modify_eq_self (hn : r.get? i = none) : r.modify i f = r := by
  unfold modify
  rw [List.modify_eq_self (List.getElem?_eq_none_iff.1 hn)]

theorem retained_modify_perm (hn : r.get? i = some n) :
    ((r.modify i f).retained ++ n.retained.toList).Perm (r.retained ++ (f n).retained.toList) :=
  filterMap_modify_perm hn

theorem retained_modify (hf : ∀ n, r.get? i = some n → (f n).retained = n.retained) :
    (r.modify i f).retained = r.retained :=
  filterMap_modify hf

end Registry

namespace Interface

/-- The handle of the outgoing message. -/
def outgoing (s : Interface) : List Handle := (s.segmenting.map Outgoing.handle).toList

/-- Every message buffer in use has exactly one owner: a queue, the list of messages under
assembly, the outgoing message, a node, or the application, which owns `held`. -/
def Sound (streams : Bool) (s : Interface) (held : List Handle) : Prop :=
  s.resources.Sound streams (s.outgoing ++ s.nodes.retained ++ held)

/-- A step keeps the ownership, with `held'` owned by the application afterwards, and leaves the
messages under assembly alone. -/
structure Works (streams : Bool) (s t : Interface) (held' : List Handle) : Prop where
  sound : t.Sound streams held'
  assemblies : t.resources.assemblies = s.resources.assemblies
  listed : ∀ h ∈ s.resources.assemblies.handles,
    t.resources.messages.get? h = s.resources.messages.get? h

/-- A step leaves the outgoing message alone as well. -/
structure Steady (streams : Bool) (s t : Interface) (held' : List Handle) : Prop
    extends Works streams s t held' where
  segmenting : t.segmenting = s.segmenting
  message : ∀ h ∈ s.outgoing, t.resources.messages.get? h = s.resources.messages.get? h

variable {streams accepts : Bool} {s t u : Interface} {held held' held'' : List Handle}
  {h : Handle}

theorem sound_empty (streams : Bool) : (empty streams).Sound streams [] := Ledger.empty streams

/-- What a node or the application owns, and a free buffer, is neither under assembly nor on its
way out. -/
theorem not_busy (hs : s.Sound streams held)
    (hh : h ∈ s.nodes.retained ++ held ∨ s.resources.messages.get? h = none) :
    h ∉ s.resources.assemblies.handles ∧ h ∉ s.outgoing := by
  have hout : s.outgoing ++ s.nodes.retained ++ held = s.outgoing ++ (s.nodes.retained ++ held) :=
    List.append_assoc _ _ _
  rcases hh with hmem | hnone
  · have hn := (List.nodup_append.1 (List.nodup_append.1 (Ledger.nodup hs)).2.1).2.1
    rw [hout] at hn
    refine ⟨Ledger.not_listed hs (List.mem_append_right _ ?_), fun hin => ?_⟩
    · exact hout ▸ List.mem_append_right _ hmem
    · exact List.disjoint_of_nodup_append hn hin hmem
  · have hfree : h ∉ s.resources.assemblies.handles ++ (s.resources.ingress.toList ++
        s.resources.egress.toList ++ (s.outgoing ++ s.nodes.retained ++ held)) := by
      rw [Ledger.mem_iff hs, hnone]
      exact Bool.false_ne_true
    refine ⟨fun hin => hfree (List.mem_append_left _ hin), fun hin => hfree ?_⟩
    exact List.mem_append_right _ (List.mem_append_right _
      (List.mem_append_left _ (List.mem_append_left _ hin)))

namespace Works

theorem trans (hst : Works streams s t held') (htu : Works streams t u held'') :
    Works streams s u held'' where
  sound := htu.sound
  assemblies := htu.assemblies.trans hst.assemblies
  listed h hh := (htu.listed h (hst.assemblies ▸ hh)).trans (hst.listed h hh)

end Works

namespace Steady

/-- A step that touches one buffer at most, which is free or owned by a node or the application. -/
theorem touch (hs : s.Sound streams held)
    (hh : h ∈ s.nodes.retained ++ held ∨ s.resources.messages.get? h = none)
    (ht : t.Sound streams held') (ha : t.resources.assemblies = s.resources.assemblies)
    (hseg : t.segmenting = s.segmenting)
    (hget : ∀ k, k ≠ h → t.resources.messages.get? k = s.resources.messages.get? k) :
    Steady streams s t held' := by
  obtain ⟨hlisted, hout⟩ := not_busy hs hh
  exact ⟨⟨ht, ha, fun k hk => hget k fun heq => hlisted (heq ▸ hk)⟩, hseg,
    fun k hk => hget k fun heq => hout (heq ▸ hk)⟩

/-- A step that passes handles on at most. -/
theorem of_perm (hs : s.Sound streams held)
    (hm : t.resources.messages = s.resources.messages)
    (ha : t.resources.assemblies = s.resources.assemblies) (hseg : t.segmenting = s.segmenting)
    (hp : (s.resources.ingress.toList ++ s.resources.egress.toList ++
        (s.outgoing ++ s.nodes.retained ++ held)).Perm
      (t.resources.ingress.toList ++ t.resources.egress.toList ++
        (t.outgoing ++ t.nodes.retained ++ held'))) : Steady streams s t held' := by
  refine ⟨⟨?_, ha, fun h _ => by rw [hm]⟩, hseg, fun h _ => by rw [hm]⟩
  unfold Interface.Sound Resources.Sound
  rw [hm, ha]
  exact Ledger.perm hs hp

/-- A step that neither touches a message nor passes a handle on. -/
theorem of_same (hs : s.Sound streams held)
    (hm : t.resources.messages = s.resources.messages)
    (ha : t.resources.assemblies = s.resources.assemblies)
    (hin : t.resources.ingress = s.resources.ingress)
    (heg : t.resources.egress = s.resources.egress) (hseg : t.segmenting = s.segmenting)
    (hret : t.nodes.retained = s.nodes.retained) : Steady streams s t held := by
  refine of_perm hs hm ha hseg (List.Perm.of_eq ?_)
  unfold outgoing
  rw [hin, heg, hseg, hret]

end Steady

/-! ### The main loop -/

theorem giveUp_steady (hs : s.Sound streams held) (a : Nat) :
    Steady streams s (s.giveUp a) held := by
  unfold giveUp
  simp only
  cases hi : s.nodes.findAnyAlias? a with
  | none => exact .of_same hs rfl rfl rfl rfl rfl rfl
  | some i =>
    simp only [Option.bind_some]
    cases hn : s.nodes.get? i with
    | none =>
      rw [Registry.modify_eq_self hn]
      exact .of_same hs rfl rfl rfl rfl rfl rfl
    | some n =>
      simp only [Option.bind_some]
      have hperm := Registry.retained_modify_perm (f := Node.restart) hn
      rw [Node.restart, Option.toList_none, List.append_nil] at hperm
      cases hr : n.retained with
      | none =>
        refine .of_same hs rfl rfl rfl rfl rfl (Registry.retained_modify fun m hm => ?_)
        obtain rfl : n = m := Option.some.inj (hn.symm.trans hm)
        exact hr.symm
      | some h =>
        rw [hr] at hperm
        -- the datagram leaves the node before it is freed
        have hhand : s.resources.Sound streams
            (h :: (s.outgoing ++ (s.nodes.modify i Node.restart).retained ++ held)) := by
          refine Resources.Sound.perm hs (List.perm_iff_count.2 fun k => ?_)
          have hcount := hperm.count_eq k
          simp only [List.count_append, List.count_cons, Option.toList_some, List.count_nil]
            at hcount ⊢
          omega
        refine .touch hs (.inl (List.mem_append_left _ ?_)) hhand.free rfl rfl
          fun k hk => (s.resources.messages.get?_free h k).trans (if_neg hk)
        exact hperm.subset (List.mem_append_right _ List.mem_cons_self)

theorem Steady.trans (hst : Steady streams s t held') (htu : Steady streams t u held'') :
    Steady streams s u held'' where
  toWorks := hst.toWorks.trans htu.toWorks
  segmenting := htu.segmenting.trans hst.segmenting
  message h hh := by
    have hout : t.outgoing = s.outgoing := by unfold outgoing; rw [hst.segmenting]
    exact (htu.message h (hout ▸ hh)).trans (hst.message h hh)

theorem giveUpAll_steady (n : Nat) (hs : s.Sound streams held) :
    Steady streams s (giveUpAll n s) held := by
  induction n generalizing s with
  | zero => exact .of_same hs rfl rfl rfl rfl rfl rfl
  | succ n ih =>
    unfold giveUpAll
    split
    · have hstep := giveUp_steady hs
      exact (hstep _).trans (ih (hstep _).sound)
    · exact .of_same hs rfl rfl rfl rfl rfl rfl

theorem resolveConflicts_steady (hs : s.Sound streams held) :
    Steady streams s s.resolveConflicts.interface held := by
  have hall := giveUpAll_steady s.resources.aliases.mappings.length hs
  exact hall.trans (.of_same hall.sound rfl rfl rfl rfl rfl rfl)

theorem transmit_steady (hs : s.Sound streams held) :
    Steady streams s (s.transmit accepts).interface held := by
  obtain ⟨x, o, h⟩ := @transmit_extent accepts s
  rw [h]
  exact .of_same hs rfl rfl rfl rfl rfl rfl

theorem transmitLogin_steady (hs : s.Sound streams held) :
    Steady streams s (s.transmitLogin accepts).interface held := by
  unfold transmitLogin
  split
  · exact .of_same hs rfl rfl rfl rfl rfl rfl
  · split <;> exact .of_same hs rfl rfl rfl rfl rfl rfl

theorem takeTurn_steady (hs : s.Sound streams held) (i : Nat) :
    Steady streams s (s.takeTurn i).interface held := by
  unfold takeTurn
  split
  · exact .of_same hs rfl rfl rfl rfl rfl rfl
  · rename_i n hn
    split
    · exact .of_same hs rfl rfl rfl rfl rfl rfl
    · refine .of_same hs rfl rfl rfl rfl rfl (Registry.retained_modify fun m hm => ?_)
      obtain rfl : n = m := Option.some.inj (hn.symm.trans hm)
      exact n.retained_logIn _ _

/-! ### Outgoing messages -/

/-- The outgoing message is freed, or goes on, wherever its frames wait. -/
theorem settle_works {o : Outgoing} (m : Message) (b : Outbox)
    (hs : s.resources.Sound streams (o.handle :: (s.nodes.retained ++ held))) :
    Works streams s (settle { s with resources := { s.resources with outbox := b } } o m) held := by
  unfold settle
  split
  · refine ⟨hs.free, rfl, fun k hk => ?_⟩
    refine (s.resources.messages.get?_free o.handle k).trans (if_neg ?_)
    rintro rfl
    exact Ledger.not_listed hs (List.mem_append_right _ List.mem_cons_self) hk
  · exact ⟨hs, rfl, fun _ _ => rfl⟩

theorem continueMessage_works {o : Outgoing}
    (hs : s.resources.Sound streams (o.handle :: (s.nodes.retained ++ held))) :
    Works streams s (s.continueMessage streams o).interface held := by
  have hsome := Ledger.isSome_of_mem hs (List.mem_append_right _ List.mem_cons_self)
  obtain ⟨m, hm⟩ := Option.isSome_iff_exists.1 hsome
  obtain ⟨b, o', heq, hh, -⟩ := @continueMessage_cases streams s o m hm
  rw [heq]
  exact settle_works m b (hh ▸ hs)

theorem sendMessages_works (hs : s.Sound streams held) :
    Works streams s (s.sendMessages streams).interface held := by
  unfold sendMessages
  split
  · rename_i o ho
    have hout : s.outgoing = [o.handle] := by unfold outgoing; rw [ho]; rfl
    unfold Sound at hs
    rw [hout] at hs
    exact continueMessage_works hs
  · rename_i hnone
    have hout : s.outgoing = [] := by unfold outgoing; rw [hnone]; rfl
    cases hpop : s.resources.egress.pop with
    | none =>
      rw [popEgress_of_none hpop]
      exact ⟨hs, rfl, fun _ _ => rfl⟩
    | some p =>
      obtain ⟨h, q⟩ := p
      rw [popEgress_of_some hpop]
      -- the message is in hand until it is on its way or dropped
      have hhand : Resources.Sound streams { s.resources with egress := q }
          (h :: (s.nodes.retained ++ held)) := by
        refine Ledger.perm hs ?_
        rw [hout, Queue.pop_eq_some_iff.1 hpop]
        simp only [List.nil_append, List.append_assoc, List.cons_append]
        exact List.Perm.append_left _ List.perm_middle.symm
      simp only
      split
      · obtain ⟨hsound, hasm, hlisted⟩ := continueMessage_works
          (s := { s with resources := { s.resources with egress := q } }) (o := ⟨h, 0, 0⟩) hhand
        exact ⟨hsound, hasm, hlisted⟩
      · refine ⟨?_, rfl, fun k hk => ?_⟩
        · show Resources.Sound streams _ (s.outgoing ++ s.nodes.retained ++ held)
          rw [hout]
          exact hhand.free
        · refine (s.resources.messages.get?_free h k).trans (if_neg ?_)
          rintro rfl
          exact Ledger.not_listed hhand (List.mem_append_right _ List.mem_cons_self) hk

/-- One pass of the main loop. -/
theorem run_works (hs : s.Sound streams held) :
    Works streams s (s.run streams accepts).interface held := by
  refine run_rel (R := fun s _ t => s.Sound streams held → Works streams s t held)
    (fun hst htu hs => (hst hs).trans (htu (hst hs).sound))
    (fun _ hs => (resolveConflicts_steady hs).toWorks) (fun _ hs => (transmit_steady hs).toWorks)
    (fun _ hs => (transmitLogin_steady hs).toWorks) (fun _ hs => sendMessages_works hs)
    (fun _ _ _ hs => ⟨hs, rfl, fun _ _ => rfl⟩)
    (fun _ i hs => (takeTurn_steady hs i).toWorks) s hs

end Interface

end LayoutBus
