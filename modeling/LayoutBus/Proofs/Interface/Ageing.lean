import LayoutBus.Proofs.Interface.Reception

/-!
# Ageing

A tick makes every message under assembly one tick older and gives up those that have waited too
long.  Nothing else changes.

* `Resources.Aged` : what a tick does, entry by entry.
* `Resources.age_aged` : a tick does it.
-/

namespace LayoutBus.Resources

variable {streams : Bool} {r : Resources} {outside : List Handle} {h k : Handle}

/-- The message has waited too long when the next tick comes. -/
def expires (ms : MessageStore) (h : Handle) : Bool :=
  (ms.get? h).any fun m => Limits.assemblyTimeout ≤ m.older.header.ticks

/-- The state one tick later. -/
structure Aged (streams : Bool) (outside : List Handle) (r s : Resources) : Prop where
  sound : s.Sound streams outside
  ingress : s.ingress = r.ingress
  egress : s.egress = r.egress
  entries : ∀ e, e ∈ s.assemblies.entries ↔ e ∈ r.assemblies.entries ∧ ¬ expires r.messages e.2
  older : ∀ e ∈ s.assemblies.entries,
    s.messages.get? e.2 = (r.messages.get? e.2).map Message.older
  others : ∀ k, k ∉ r.assemblies.handles → s.messages.get? k = r.messages.get? k

/-! ### Growing older -/

theorem growOne_eq {p : MessageStore × List Handle} {m : Message} (hm : p.1.get? h = some m) :
    growOne p h =
      (p.1.modify h Message.older,
        p.2 ++ [h].filter fun _ => Limits.assemblyTimeout ≤ m.older.header.ticks) := by
  unfold growOne
  rw [hm]
  simp only [List.filter_cons, List.filter_nil, decide_eq_true_eq]
  split <;> simp

theorem foldl_growOne {hs : List Handle} (hn : hs.Nodup) (p : MessageStore × List Handle) :
    (∀ k, (hs.foldl growOne p).1.get? k =
      if k ∈ hs then (p.1.get? k).map Message.older else p.1.get? k) ∧
    (hs.foldl growOne p).2 = p.2 ++ hs.filter (expires p.1) := by
  induction hs generalizing p with
  | nil => simp
  | cons h hs ih =>
    obtain ⟨hh, hn⟩ := List.nodup_cons.1 hn
    obtain ⟨hget, hex⟩ := ih hn (growOne p h)
    rw [List.foldl_cons]
    cases hm : p.1.get? h with
    | none =>
      have hstep : growOne p h = p := by unfold growOne; rw [hm]
      rw [hstep] at hget hex ⊢
      refine ⟨fun k => ?_, ?_⟩
      · rw [hget]
        by_cases hk : k = h
        · subst hk
          simp [hh, hm]
        · simp [hk]
      · rw [hex]
        simp [expires, hm]
    | some m =>
      rw [growOne_eq hm] at hget hex ⊢
      -- no handle comes twice, so the others have not grown yet
      have hsame : ∀ k ∈ hs, (p.1.modify h Message.older).get? k = p.1.get? k := by
        intro k hk
        have hne : k ≠ h := fun heq => hh (heq ▸ hk)
        rw [MessageStore.get?_modify, if_neg hne]
      refine ⟨fun k => ?_, ?_⟩
      · rw [hget, MessageStore.get?_modify]
        by_cases hk : k = h
        · subst hk
          simp [hh]
        · simp [hk]
      · have hfilter : hs.filter (expires (p.1.modify h Message.older)) = hs.filter (expires p.1) :=
          List.filter_congr fun k hk => by unfold expires; rw [hsame k hk]
        rw [hex, hfilter]
        simp [List.filter_cons, expires, hm]
        split <;> simp

theorem foldl_growOne_ledger {a : Assemblies} {rest : List Handle} (hs : List Handle)
    {p : MessageStore × List Handle} (hl : Ledger streams p.1 a rest) :
    Ledger streams (hs.foldl growOne p).1 a rest := by
  induction hs generalizing p with
  | nil => exact hl
  | cons h hs ih =>
    refine ih ?_
    unfold growOne
    split
    · refine hl.modify (fun m _ => m.alike_older) ?_
      rintro e he rfl m hm
      obtain ⟨hsource, hdest, hmti⟩ := hl.named e he m hm
      exact ⟨hsource, hdest, hmti⟩
    · exact hl

/-! ### Giving up -/

theorem abandon_sound (hs : r.Sound streams outside) (hh : h ∈ r.assemblies.handles) :
    (r.abandon h).Sound streams outside :=
  Ledger.abandon hs hh

theorem mem_abandon_iff (hs : r.Sound streams outside) (e : AssemblyKey × Handle) :
    e ∈ (r.abandon h).assemblies.entries ↔ e ∈ r.assemblies.entries ∧ e.2 ≠ h := by
  show e ∈ (r.assemblies.release h).entries ↔ _
  rw [(Assemblies.release_perm (Ledger.handles_nodup hs)).mem_iff, List.mem_filter,
    decide_eq_true_eq]

theorem foldl_abandon {hs : List Handle} (hn : hs.Nodup) (hr : r.Sound streams outside)
    (hsub : ∀ h ∈ hs, h ∈ r.assemblies.handles) :
    (hs.foldl abandon r).Sound streams outside ∧
      (hs.foldl abandon r).ingress = r.ingress ∧ (hs.foldl abandon r).egress = r.egress ∧
      (∀ e, e ∈ (hs.foldl abandon r).assemblies.entries ↔ e ∈ r.assemblies.entries ∧ e.2 ∉ hs) ∧
      ∀ k, k ∉ hs → (hs.foldl abandon r).messages.get? k = r.messages.get? k := by
  induction hs generalizing r with
  | nil => exact ⟨hr, rfl, rfl, fun e => by simp, fun k _ => rfl⟩
  | cons h hs ih =>
    obtain ⟨hh, hn⟩ := List.nodup_cons.1 hn
    have hrest : ∀ k ∈ hs, k ∈ (r.abandon h).assemblies.handles := by
      intro k hk
      obtain ⟨key, hkey⟩ := Assemblies.mem_handles_iff.1 (hsub k (List.mem_cons_of_mem h hk))
      have hne : k ≠ h := fun heq => hh (heq ▸ hk)
      exact Assemblies.mem_handles_iff.2 ⟨key, (mem_abandon_iff hr _).2 ⟨hkey, hne⟩⟩
    obtain ⟨hsound, hin, heg, hent, hget⟩ :=
      ih hn (abandon_sound hr (hsub h List.mem_cons_self)) hrest
    refine ⟨hsound, hin, heg, fun e => ?_, fun k hk => ?_⟩
    · rw [List.foldl_cons, hent, mem_abandon_iff hr, List.mem_cons, not_or, and_assoc]
    · rw [List.mem_cons, not_or] at hk
      rw [List.foldl_cons, hget k hk.2]
      exact (r.messages.get?_free h k).trans (if_neg hk.1)

/-! ### One tick -/

theorem age_aged (hr : r.Sound streams outside) : Aged streams outside r r.age := by
  have hn : r.assemblies.handles.Nodup := Ledger.handles_nodup hr
  obtain ⟨hget, hex⟩ := foldl_growOne hn (r.messages, [])
  have hgrown : Sound streams { r with messages := (grow r.messages r.assemblies.handles).1 }
      outside := foldl_growOne_ledger (p := (r.messages, [])) _ hr
  have hexpired : (grow r.messages r.assemblies.handles).2 =
      r.assemblies.handles.filter (expires r.messages) := hex
  obtain ⟨hsound, hin, heg, hent, hsame⟩ := foldl_abandon (hn.filter (expires r.messages)) hgrown
    fun h hh => (List.mem_filter.1 hh).1
  have hage : r.age = (r.assemblies.handles.filter (expires r.messages)).foldl abandon
      { r with messages := (grow r.messages r.assemblies.handles).1 } := by
    rw [← hexpired]
    rfl
  rw [← hage] at hsound hin heg hent hsame
  have hmem : ∀ e ∈ r.assemblies.entries, e.2 ∈ r.assemblies.handles :=
    fun e he => List.mem_map_of_mem he
  refine ⟨hsound, hin, heg, fun e => ?_, fun e he => ?_, fun k hk => ?_⟩
  · rw [hent, List.mem_filter]
    refine and_congr_right fun he => ?_
    simp [hmem e he]
  · obtain ⟨he, hnot⟩ := (hent e).1 he
    rw [hsame _ hnot]
    exact (hget e.2).trans (if_pos (hmem e he))
  · rw [hsame _ fun hmem => hk (List.mem_filter.1 hmem).1]
    exact (hget k).trans (if_neg hk)

end LayoutBus.Resources
