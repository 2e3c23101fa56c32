import LayoutBus.Proofs.Interface.Egress
import LayoutBus.Proofs.Interface.Overflow
import LayoutBus.Proofs.Interface.Withdrawal

/-!
# Replies that do not say where they end

The frames of a node information reply from an older node do not say their place.  The reply ends with
its sixth zero byte, so that it is recognised however it is cut into frames.

* `Chunk` : what one frame of a reply carries.
* `Interface.perform_ingress` : requests that hand nothing to the application.
* `Resources.receive_unmarked_first` and `Resources.receive_unmarked_later` : what becomes of a frame
  follows from the zeros that have come with it.
* `Session.Completes` : one request hands the message to the application, and no other hands it a
  message with the key.
* `Session.Conveys.completes` : **replies without marks.**

As long as there are frames to come, fewer than six zeros have come: the last byte of the reply is a
zero.
-/

namespace LayoutBus

/-! ### Chunks -/

/-- What one frame of an addressed message carries: some bytes, but no more than fit behind the two
that say where it goes. -/
structure Chunk where
  bytes : List UInt8
  ne_nil : bytes ≠ []
  length_le : bytes.length ≤ 6

/-- The frame with a chunk of a node information reply that does not say its place. -/
def Chunk.frame (source dest : Nat) (c : Chunk) : Frame :=
  .messageData .standard Mti.nodeInfoReply source
    (Message.addressedPayload Framing.only dest c.bytes) (Nat.add_le_add_right c.length_le 2)

/-- The frame is of a node information reply and does not say its place. -/
structure Frame.Unmarked (f : Frame) : Prop where
  addressed : f.isAddressed = true
  mti : f.mti = Mti.nodeInfoReply
  framing : f.framing = Framing.only

theorem Chunk.unmarked (source dest : Nat) (c : Chunk) : (c.frame source dest).Unmarked := by
  have hkind : (c.frame source dest).kind = .message .standard := Frame.kind_messageData _
  have hfield : (c.frame source dest).field = Mti.nodeInfoReply := Frame.field_messageData _
  have hadd : Mti.isAddressed (c.frame source dest).field = true := by rw [hfield]; decide
  exact ⟨(Frame.isAddressed_standard hkind).trans hadd,
    (Frame.mti_of_isAddressed hkind hadd).trans hfield,
    Frame.framing_addressedPayload rfl (by decide) (by decide)⟩

theorem Frame.Unmarked.data_eq {f : Frame} (h : f.Unmarked) : f.data = f.dataFrom addressedOffset := by
  rw [data, dataOffset, if_pos h.addressed]

theorem Chunk.data_frame (source dest : Nat) (c : Chunk) : (c.frame source dest).data = c.bytes :=
  (c.unmarked source dest).data_eq

/-! ### Who hands messages to the application -/

namespace Interface

variable {streams accepts : Bool} {req : Request}

theorem run_ingress (s : Interface) :
    (s.run streams accepts).interface.resources.ingress = s.resources.ingress := by
  refine run_rel (R := fun s _ t => t.resources.ingress = s.resources.ingress)
    (fun hst htu => htu.trans hst) (fun s => ?_) (fun s => ?_) (fun s => ?_) (fun s => ?_)
    (fun _ _ _ => rfl) (fun s i => ?_) s
  · obtain ⟨ns, f, ms, al, heq⟩ := giveUpAll_extent s.resources.aliases.mappings.length s
    exact congrArg (·.resources.ingress) heq
  · obtain ⟨x, o, heq⟩ := @transmit_extent accepts s
    exact congrArg (·.resources.ingress) heq
  · exact congrArg Resources.ingress (transmitLogin_same s).2
  · obtain ⟨g, b, ms, q, heq⟩ := @sendMessages_extent streams s
    exact congrArg (·.resources.ingress) heq
  · unfold takeTurn
    split
    · rfl
    · split <;> rfl

/-- Requests other than frames and ticks hand nothing to the application. -/
theorem perform_ingress (s : Interface) (hrec : ∀ f, req ≠ .receive f) (htick : req ≠ .tick) :
    (s.perform streams req).interface.resources.ingress.toList ⊆ s.resources.ingress.toList := by
  have hsame : ∀ t : Interface, t.resources.ingress = s.resources.ingress →
      t.resources.ingress.toList ⊆ s.resources.ingress.toList := fun t heq => by rw [heq]; exact .refl _
  cases req with
  | receive f => exact absurd rfl (hrec f)
  | run accepts => exact hsame _ (run_ingress s)
  | tick => exact absurd rfl htick
  | register id params =>
    have heq : (s.perform streams (.register id params)).interface =
        (s.register id params).interface := rfl
    rw [heq]
    obtain hreg | hreg := s.register_cases id params <;> exact hsame _ (by rw [hreg])
  | allocate c =>
    simp only [perform, allocate, locked]
    split <;> exact List.Subset.refl _
  | popIngress =>
    simp only [perform, popIngress, locked]
    split
    · rename_i hpop
      show _ ⊆ s.resources.ingress.toList
      rw [Queue.pop_eq_some_iff.1 hpop]
      exact List.subset_cons_self _ _
    · exact List.Subset.refl _
  | pushEgress h =>
    obtain ⟨q, hq⟩ := s.pushEgress_extent h
    exact hsame _ (congrArg (·.resources.ingress) hq)
  | send i mti dest payload =>
    obtain ⟨ms, q, hq⟩ := s.send_extent i mti dest payload
    exact hsame _ (congrArg (·.resources.ingress) hq)
  | free h | edit h change | retain i h | revise i change | clearPeaks => exact List.Subset.refl _

end Interface

/-! ### One frame -/

namespace Resources

variable {streams : Bool} {r : Resources} {outside : List Handle} {f : Frame} {come : List UInt8}
  {age : Nat}

/-- The first frame of a reply opens it, unless it brings all the zeros; then it is the only one. -/
theorem receive_unmarked_first (hs : r.Sound streams outside) (hf : f.Unmarked)
    (hus : r.isForUs f = true) (hnone : r.assemblies.find? f.assemblyKey = none)
    (hfree : (r.messages.allocate .snip).isSome) :
    if f.data.count 0 < nodeInfoZeros then
      (r.receive streams f).Gathers f.assemblyKey .snip f.data 0 ∧
        (r.receive streams f).ingress = r.ingress
    else r.Delivers (r.receive streams f) f.assemblyKey f.data := by
  have hplace : r.unmarkedPlace f = if nodeInfoZeros ≤ f.data.count 0 then .only else .first := by
    rw [unmarkedPlace, hnone, hf.data_eq]
    rfl
  rw [receive_of_unmarked hf.addressed hf.mti hf.framing hus, hplace]
  split
  · rename_i hfew
    rw [if_neg (Nat.not_le.2 hfew)]
    exact acceptFirst_gathers f.dataOffset hs hnone hfree (length_dataFrom_le f _ _)
  · rename_i hall
    rw [if_pos (Nat.le_of_not_lt hall)]
    exact acceptOnly_delivers f.dataOffset hs hnone hfree (length_dataFrom_le f _ _)

/-- A later frame of a reply is the last if it brings the zeros that are missing. -/
theorem receive_unmarked_later (hs : r.Sound streams outside) (hf : f.Unmarked)
    (hus : r.isForUs f = true) (hg : r.Gathers f.assemblyKey .snip come age)
    (hfit : (come ++ f.data).length ≤ SizeClass.snip.capacity) :
    if (come ++ f.data).count 0 < nodeInfoZeros then
      (r.receive streams f).Gathers f.assemblyKey .snip (come ++ f.data) age ∧
        (r.receive streams f).ingress = r.ingress
    else r.Delivers (r.receive streams f) f.assemblyKey (come ++ f.data) := by
  rw [List.length_append] at hfit
  have hplace : r.unmarkedPlace f =
      if (come ++ f.data).count 0 < nodeInfoZeros then .middle else .last := by
    obtain ⟨h, m, hmem, hm, hh⟩ := hg
    have hzeros : r.zeros h = come.count 0 := by
      rw [Resources.zeros, hm, ← hh.payload]
      rfl
    rw [unmarkedPlace, (Assemblies.find?_eq_some_iff (Ledger.keys hs)).2 hmem, List.count_append,
      hf.data_eq, ← hzeros]
    rfl
  rw [receive_of_unmarked hf.addressed hf.mti hf.framing hus, hplace]
  split
  · exact acceptMiddle_gathers f.dataOffset hs hg hfit
  · exact acceptLast_delivers f.dataOffset hs hg hfit

end Resources

/-! ### One request -/

namespace Session

variable {streams : Bool} {σ : Session} {key : AssemblyKey} {payload : List UInt8}
  {reqs pre post : List Request} {req : Request} {f : Frame} {fs : List Frame}

/-- The request hands the application no message with the key. -/
def Withholds (streams : Bool) (σ : Session) (key : AssemblyKey) (req : Request) : Prop :=
  ∀ h ∈ (σ.step streams req).interface.resources.ingress.toList,
    h ∉ σ.interface.resources.ingress.toList →
      ∀ m, (σ.step streams req).interface.resources.messages.get? h = some m →
        ¬ m.header.Names key

theorem withholds_of_subset
    (h : (σ.step streams req).interface.resources.ingress.toList ⊆
      σ.interface.resources.ingress.toList) : σ.Withholds streams key req :=
  fun _ hin hnew => absurd (h hin) hnew

/-- A frame of another message hands over that message, or a rejection, which is not a reply. -/
theorem withholds_receive (hs : σ.Sound streams) (hne : key ≠ f.assemblyKey)
    (hreply : key.mti = Mti.nodeInfoReply) : σ.Withholds streams key (.receive f) := by
  intro h hin hnew m hm hnames
  have hone : ∀ {k}, (σ.interface.resources.receive streams f).ingress.toList =
      σ.interface.resources.ingress.toList ++ [k] → h = k := fun heq => by
    have hmem : h ∈ _ ++ [_] := heq ▸ hin
    simpa [hnew] using hmem
  cases Resources.receive_reacts hs f with
  | quiet heq => exact hnew (heq ▸ hin)
  | message hover =>
    obtain ⟨k, m', heq, hm', hnames'⟩ := hover
    obtain rfl := hone heq
    obtain rfl := Option.some.inj (hm.symm.trans hm')
    refine hne ?_
    obtain ⟨source, dest, mti⟩ := key
    rw [AssemblyKey.mk.injEq]
    exact ⟨hnames.source.symm.trans hnames'.source, hnames.dest.symm.trans hnames'.dest,
      hnames.mti.symm.trans hnames'.mti⟩
  | rejection _ heq hm' hrejects =>
    obtain rfl := hone heq
    obtain rfl := Option.some.inj (hm.symm.trans hm')
    have hmti := (hnames.mti.symm.trans hrejects.mti).symm.trans hreply
    split at hmti <;> exact absurd hmti (by decide)

theorem withholds_of_foreign (hs : σ.Sound streams) (hreq : req.frameOf key = none)
    (hreply : key.mti = Mti.nodeInfoReply) : σ.Withholds streams key req := by
  by_cases hrec : ∃ f, req = .receive f
  · obtain ⟨f, rfl⟩ := hrec
    exact withholds_receive hs (Request.ne_of_frameOf hreq) hreply
  · refine withholds_of_subset ?_
    by_cases htick : req = .tick
    · subst htick
      rw [(step_tick hs).ingress]
      exact List.Subset.refl _
    · exact Interface.perform_ingress _ (fun f heq => hrec ⟨f, heq⟩) htick

/-! ### All requests -/

/-- One frame hands the application the message with this payload, all other requests hand it no
message with the key, and in the end nothing is under assembly with the key. -/
def Completes (streams : Bool) (σ : Session) (key : AssemblyKey) (payload : List UInt8)
    (reqs : List Request) : Prop :=
  ∃ pre f post, reqs = pre ++ .receive f :: post ∧ f.assemblyKey = key ∧
    (∀ req ∈ post, req.frameOf key = none) ∧
    (σ.after streams pre).interface.resources.Delivers
      ((σ.after streams pre).step streams (.receive f)).interface.resources key payload ∧
    (∀ pre' req post', reqs = pre' ++ req :: post' → pre' ≠ pre →
      (σ.after streams pre').Withholds streams key req) ∧
    (σ.after streams reqs).interface.resources.assemblies.find? key = none

theorem Completes.of_hands (hs : σ.Sound streams) (ha : σ.Allows streams reqs)
    (hreply : key.mti = Mti.nodeInfoReply) (h : σ.Hands streams key payload reqs) :
    σ.Completes streams key payload reqs := by
  obtain ⟨pre, f, post, rfl, hkey, hpost, hd, hquiet⟩ := h
  obtain ⟨hpre, -, hrest⟩ := allows_append.1 ha
  refine ⟨pre, f, post, rfl, hkey, hpost, hd, fun pre' req post' heq hne => ?_, ?_⟩
  · have hs' : (σ.after streams pre').Sound streams := hs.after (allows_append.1 (heq ▸ ha)).1
    cases hreq : req.frameOf key with
    | none => exact withholds_of_foreign hs' hreq hreply
    | some g =>
      -- another frame of the message comes before the last one
      obtain ⟨rfl, hg⟩ := Request.eq_of_frameOf hreq
      obtain ⟨mid, rfl⟩ : ∃ mid, pre = pre' ++ .receive g :: mid := by
        obtain ⟨rfl, -, -⟩ | ⟨zs, -, rfl⟩ | ⟨zs, hpre', -⟩ := append_cons_cases heq
        · exact absurd rfl hne
        · have hnone := hpost (.receive g) (List.mem_append_right _ List.mem_cons_self)
          exact absurd hg.symm (Request.ne_of_frameOf hnone)
        · exact ⟨zs, hpre'⟩
      refine withholds_of_subset ?_
      rw [hquiet pre' g mid rfl hg]
      exact List.Subset.refl _
  · obtain ⟨-, -, -, -, -, -, -, hnone⟩ := hd
    rw [after_append, after_cons]
    exact after_find?_eq_none ((hs.after hpre).step trivial) hrest hpost hnone

/-! ### The frames of a reply -/

/-- As long as there are frames to come, zeros are missing. -/
theorem count_lt_of_getLast? {come rest : List UInt8} (hlast : rest.getLast? = some 0)
    (hzeros : (come ++ rest).count 0 = nodeInfoZeros) : come.count 0 < nodeInfoZeros := by
  have hmem : 0 ∈ rest := List.mem_of_getLast? hlast
  have hpos := List.count_pos_iff.2 hmem
  rw [List.count_append] at hzeros
  omega

/-- From a reply under assembly to the reply that is handed to the application. -/
theorem hands_of_unmarked (fs : List Frame) {come : List UInt8} {age : Nat} (hne : fs ≠ [])
    (hunmarked : ∀ f ∈ fs, f.Unmarked) (hdata : ∀ f ∈ fs, f.data ≠ [])
    (hlen : (come ++ fs.flatMap Frame.data).length ≤ SizeClass.snip.capacity)
    (hlast : (fs.flatMap Frame.data).getLast? = some 0)
    (hzeros : (come ++ fs.flatMap Frame.data).count 0 = nodeInfoZeros) (hs : σ.Sound streams)
    (hg : σ.interface.resources.Gathers key .snip come age) (h : σ.Brings streams key reqs fs)
    (hadd : Mti.isAddressed key.mti = true)
    (hprompt : Request.Timely key age reqs) :
    σ.Hands streams key (come ++ fs.flatMap Frame.data) reqs := by
  -- on the frames left; what comes before the next one leaves the reply alone
  induction fs generalizing σ reqs come age with
  | nil => exact absurd rfl hne
  | cons f fs ih =>
    obtain ⟨pre, post, rfl, hkey, hpre, ha, hrest⟩ := h.cons
    have hg' := after_gathers hs ha hpre (hprompt pre _ post rfl hkey) hg
    rw [List.flatMap_cons] at hlen hlast hzeros ⊢
    rw [← List.append_assoc] at hlen hzeros ⊢
    have hfit : (come ++ f.data).length ≤ SizeClass.snip.capacity := by
      rw [List.length_append] at hlen
      omega
    have hstep := Resources.receive_unmarked_later (hs.after ha) (hunmarked f List.mem_cons_self)
      (h.isForUs hadd hkey) (hkey ▸ hg') hfit
    rw [hkey] at hstep
    cases fs with
    | nil =>
      rw [List.flatMap_nil, List.append_nil] at hzeros ⊢
      rw [if_neg (by omega)] at hstep
      exact .of_last hpre hrest.foreign hkey hstep
    | cons g fs =>
      have hmore : ((g :: fs).flatMap Frame.data).getLast? = some 0 := by
        have hsome : (g :: fs).flatMap Frame.data ≠ [] := by
          simp [hdata g]
        rwa [List.getLast?_append_of_ne_nil _ hsome] at hlast
      rw [if_pos (count_lt_of_getLast? hmore hzeros)] at hstep
      exact .later hpre hstep.2 (ih (List.cons_ne_nil g fs)
        (fun x hx => hunmarked x (List.mem_cons_of_mem f hx))
        (fun x hx => hdata x (List.mem_cons_of_mem f hx)) hlen hmore hzeros
        ((hs.after ha).step trivial) hstep.1 hrest hprompt.later)

/-- **Replies without marks.** A reply of at most 256 bytes with six zero bytes, the last byte among
them, is cut into chunks of one to six bytes, and these come in frames that do not say their place,
among whatever else an interface and an application that respects ownership do; no message with the
same key is under assembly, a buffer is free when the first frame comes, and the others come in time.
Then the last frame hands the reply to the application, and nothing else hands it a reply with the
key. -/
theorem Conveys.completes {source dest : Nat} {cut : List Chunk} {p : List UInt8}
    (hσ : σ.Reachable streams) (hcut : cut.flatMap Chunk.bytes = p)
    (hlen : p.length ≤ Limits.snipLength) (hzeros : p.count 0 = nodeInfoZeros)
    (hlast : p.getLast? = some 0)
    (hnone : σ.interface.resources.assemblies.find? ⟨source, dest, Mti.nodeInfoReply⟩ = none)
    (h : σ.Conveys streams ⟨source, dest, Mti.nodeInfoReply⟩ .snip reqs
      (cut.map (Chunk.frame source dest))) :
    σ.Completes streams ⟨source, dest, Mti.nodeInfoReply⟩ p reqs := by
  have hs := hσ.sound
  refine .of_hands hs h.allowed rfl ?_
  have hadd : Mti.isAddressed Mti.nodeInfoReply = true := by decide
  -- the payload, read off the frames
  have hdata : ∀ cs : List Chunk,
      (cs.map (Chunk.frame source dest)).flatMap Frame.data = cs.flatMap Chunk.bytes := fun cs => by
    simp only [List.flatMap_map, Chunk.data_frame]
  subst hcut
  cases cut with
  | nil => cases hlast
  | cons c cs =>
    have hb := h.toBrings
    rw [List.map_cons] at hb
    obtain ⟨pre, post, rfl, hkey, hpre, ha, hrest⟩ := hb.cons
    have hnone' := after_find?_eq_none hs ha hpre hnone
    have hroom := h.room pre _ post rfl hkey hpre
    have hstep := Resources.receive_unmarked_first (hs.after ha) (c.unmarked source dest)
      (hb.isForUs hadd hkey) (hkey ▸ hnone') hroom
    rw [hkey, c.data_frame] at hstep
    rw [List.flatMap_cons] at hlen hzeros hlast ⊢
    cases cs with
    | nil =>
      rw [List.flatMap_nil, List.append_nil] at hzeros ⊢
      rw [if_neg (by omega)] at hstep
      exact .of_last hpre hrest.foreign hkey hstep
    | cons d ds =>
      have hmore : ((d :: ds).flatMap Chunk.bytes).getLast? = some 0 := by
        have hsome : (d :: ds).flatMap Chunk.bytes ≠ [] := by
          simp [d.ne_nil]
        rwa [List.getLast?_append_of_ne_nil _ hsome] at hlast
      rw [if_pos (count_lt_of_getLast? hmore hzeros)] at hstep
      rw [← hdata] at hlen hzeros hmore ⊢
      refine .later hpre hstep.2 (hands_of_unmarked _ (by simp) ?_ ?_ hlen hmore hzeros
        ((hs.after ha).step trivial) hstep.1 hrest hadd (h.timely hkey))
      · exact List.forall_mem_map.2 fun x _ => x.unmarked source dest
      · exact List.forall_mem_map.2 fun x _ => x.data_frame source dest ▸ x.ne_nil

/-! ### A reply among other traffic -/

/-- A reply with frames that end before, at and behind its zeros. -/
def business : List Chunk :=
  [⟨[4, 0x41, 0, 0x42, 0, 0x43], by decide, by decide⟩, ⟨[0], by decide, by decide⟩,
    ⟨[0, 2], by decide, by decide⟩, ⟨[0x44, 0, 0x45, 0x46, 0], by decide, by decide⟩]

/-- The frames of the reply, with frames of another reply, a tick and other work in between. -/
def posting : List Request :=
  match business.map (Chunk.frame 0x123 1), business.map (Chunk.frame 0x456 1) with
  | [a, b, c, d], [a', b', _, _] =>
    [.receive a, .receive a', .tick, .receive b, .run true, .receive b', .receive c, .popIngress,
      .receive (.messageData .datagramFirst 1 0x123 (List.replicate 8 4) (by decide)), .receive d,
      .popIngress]
  | _, _ => []

theorem completes_posting :
    host.Reachable false ∧
      host.interface.resources.assemblies.find? ⟨0x123, 1, Mti.nodeInfoReply⟩ = none ∧
      host.Conveys false ⟨0x123, 1, Mti.nodeInfoReply⟩ .snip posting
        (business.map (Chunk.frame 0x123 1)) ∧
      host.Completes false ⟨0x123, 1, Mti.nodeInfoReply⟩
        [4, 0x41, 0, 0x42, 0, 0x43, 0, 0, 2, 0x44, 0, 0x45, 0x46, 0] posting := by
  have hall : ∀ pre post, posting = pre ++ post →
      ((host.after false pre).interface.resources.aliases.find? 1).isSome ∧
        ((host.after false pre).interface.resources.messages.allocate .snip).isSome :=
    fun _ _ => of_take (P := fun σ => (σ.interface.resources.aliases.find? 1).isSome ∧
      (σ.interface.resources.messages.allocate .snip).isSome) (by decide +kernel)
  have h : host.Conveys false ⟨0x123, 1, Mti.nodeInfoReply⟩ .snip posting
      (business.map (Chunk.frame 0x123 1)) := by
    have hticks : Request.ticksOf posting < Limits.assemblyTimeout := by decide
    exact {
      allowed := ⟨trivial, trivial, trivial, trivial, trivial, trivial, trivial, trivial, trivial,
        trivial, trivial, trivial⟩
      frames := by decide +kernel
      known := fun _ pre f post heq _ => (hall pre _ heq).1
      room := fun pre f post heq _ _ => (hall pre _ heq).2
      prompt := fun pre f mid g post heq _ _ => Request.ticksOf_between_lt (heq ▸ hticks) }
  have hnone : host.interface.resources.assemblies.find? ⟨0x123, 1, Mti.nodeInfoReply⟩ = none := by
    decide +kernel
  exact ⟨host_reachable, hnone, h,
    h.completes host_reachable (by decide) (by decide) (by decide) (by decide) hnone⟩

end Session

end LayoutBus
