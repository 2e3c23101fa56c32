import LayoutBus.Proofs.Alias.Holders

/-!
# The table of aliases as a partial bijection

Whatever a table of aliases is asked to do, and in whichever order, it stays a bijection between at
most four aliases and as many nodes, and every operation acts on just the mapping that it names.

* `AliasTable.Request` and `AliasTable.after` : what a table can be asked to do, and what becomes of
  it.
* `AliasTable.Refuses` : why a node does not get an alias.  Each reason excludes those before it.
* `AliasTable.Exact` : what is known of the mappings, of look-up and of each operation.
* `AliasTable.after_exactly` : **the bijection.**

Look-up stops at the first hit, so an operation that forgot one of the two keys would hide a mapping;
`AliasTable.Compact.perform` is the step lemma that no operation does.
-/

namespace LayoutBus.AliasTable

variable {t u : AliasTable} {a n : Nat} {m : Mapping} {e : AliasError}

/-! ### What a table can be asked to do -/

/-- A change of a table. -/
inductive Request where
  | register (a nodeId : Nat)
  | unregister (a : Nat)
  | markDuplicate (a : Nat)
  /-- Sets both flags of the mapping of an alias. -/
  | setFlags (a : Nat) (permitted duplicate : Bool)
  /-- Remembers that a mapping may be a duplicate, or forgets it. -/
  | setHasDuplicate (b : Bool)
  | flush

/-- The table after a request; one that is refused changes nothing. -/
def perform (t : AliasTable) : Request → AliasTable
  | .register a n =>
    match t.register a n with
    | .ok u => u
    | .error _ => t
  | .unregister a => t.unregister a
  | .markDuplicate a => t.markDuplicate a
  | .setFlags a permitted duplicate => t.modify a fun m => { m with permitted, duplicate }
  | .setHasDuplicate b => { t with hasDuplicate := b }
  | .flush => empty

/-- What becomes of a new table. -/
def after (reqs : List Request) : AliasTable := reqs.foldl perform empty

/-! ### Registration -/

/-- Why a node does not get an alias. -/
inductive Refuses (t : AliasTable) (a n : Nat) : AliasError → Prop where
  | invalidAlias (ha : ¬ Alias.Valid a) : t.Refuses a n (.invalidAlias a)
  | invalidNodeId (ha : Alias.Valid a) (hn : ¬ NodeId.Valid n) : t.Refuses a n (.invalidNodeId n)
  /-- Another node holds the alias. -/
  | aliasInUse (ha : Alias.Valid a) (hn : NodeId.Valid n)
      (hother : ∃ m ∈ t.mappings, m.aliasId = a ∧ m.nodeId ≠ n) : t.Refuses a n (.aliasInUse a)
  /-- There are as many mappings as there may be, and none of them is of the node. -/
  | tableFull (ha : Alias.Valid a) (hn : NodeId.Valid n)
      (hown : ∀ m ∈ t.mappings, m.aliasId = a → m.nodeId = n)
      (hfull : t.mappings.length = Limits.aliasDepth) (hnew : ∀ m ∈ t.mappings, m.nodeId ≠ n) :
      t.Refuses a n .tableFull

theorem register_eq_error_iff (hlen : t.mappings.length ≤ Limits.aliasDepth) :
    t.register a n = .error e ↔ t.Refuses a n e := by
  constructor
  · intro h
    unfold register at h
    split at h
    · rename_i ha
      cases h
      exact .invalidAlias ha
    · rename_i ha
      have ha := not_not.1 ha
      split at h
      · rename_i hn
        cases h
        exact .invalidNodeId ha hn
      · rename_i hn
        have hn := not_not.1 hn
        split at h
        · rename_i hother
          cases h
          exact .aliasInUse ha hn (by simpa using hother)
        · rename_i hother
          split at h
          · cases h
          · rename_i hnew
            split at h
            · cases h
            · rename_i hfull
              cases h
              refine .tableFull ha hn (by simpa using hother) (by omega) fun m hm => ?_
              simpa using List.findIdx?_eq_none_iff.1 hnew m hm
  · intro h
    unfold register
    cases h with
    | invalidAlias ha => rw [if_pos ha]
    | invalidNodeId ha hn => rw [if_neg (not_not.2 ha), if_pos hn]
    | aliasInUse ha hn hother =>
      rw [if_neg (not_not.2 ha), if_neg (not_not.2 hn), if_pos (by simpa using hother)]
    | tableFull ha hn hown hfull hnew =>
      have hnone : (t.mappings.findIdx? fun m => m.nodeId = n) = none :=
        List.findIdx?_eq_none_iff.2 fun m hm => by simpa using hnew m hm
      rw [if_neg (not_not.2 ha), if_neg (not_not.2 hn), if_neg (by simpa using hown), hnone]
      exact if_neg (by omega)

/-- The node has the alias, which is not permitted yet, and no other; nobody else is concerned. -/
structure Registers (t : AliasTable) (a n : Nat) (u : AliasTable) : Prop where
  mappings : u.mappings.Perm (⟨a, n, false, false⟩ :: t.mappings.filter fun m => m.nodeId ≠ n)
  only : ∀ m ∈ u.mappings, m.aliasId = a ∨ m.nodeId = n → m = ⟨a, n, false, false⟩
  hasDuplicate : u.hasDuplicate = t.hasDuplicate

theorem Proper.registers (h : t.Proper) (hr : t.register a n = .ok u) : t.Registers a n u := by
  obtain ⟨-, hown, hflag, hp⟩ := register_perm h hr
  refine ⟨hp, fun m hm hkey => ?_, hflag⟩
  rcases List.mem_cons.1 (hp.subset hm) with rfl | hm
  · rfl
  · obtain ⟨hm, hne⟩ := List.mem_filter.1 hm
    have hne := of_decide_eq_true hne
    rcases hkey with ha | hn
    · exact absurd (hown m hm ha) hne
    · exact absurd hn hne

/-! ### What every operation keeps -/

/-- A genuine table that is not too long. -/
structure Compact (t : AliasTable) : Prop extends t.Genuine where
  length_le : t.mappings.length ≤ Limits.aliasDepth

theorem compact_empty : empty.Compact := ⟨genuine_empty, Nat.zero_le _⟩

theorem length_of_register (h : t.mappings.length ≤ Limits.aliasDepth)
    (hr : t.register a n = .ok u) : u.mappings.length ≤ Limits.aliasDepth := by
  unfold register at hr
  split at hr
  · cases hr
  · split at hr
    · cases hr
    · split at hr
      · cases hr
      · split at hr
        · cases hr
          rwa [List.length_set]
        · split at hr
          · rename_i hroom
            cases hr
            rw [List.length_append, List.length_singleton]
            exact hroom
          · cases hr

namespace Compact

theorem register (h : t.Compact) (hr : t.register a n = .ok u) : u.Compact :=
  ⟨h.toGenuine.register hr, length_of_register h.length_le hr⟩

theorem unregister (h : t.Compact) (a : Nat) : (t.unregister a).Compact := by
  refine ⟨h.toGenuine.unregister a, ?_⟩
  rw [(unregister_perm h.toProper).length_eq]
  exact Nat.le_trans (List.length_filter_le ..) h.length_le

/-- Flags are no keys. -/
theorem of_map {g : Mapping → Mapping} (h : t.Compact) (halias : ∀ m, (g m).aliasId = m.aliasId)
    (hnode : ∀ m, (g m).nodeId = m.nodeId) (hu : u.mappings = t.mappings.map g) : u.Compact := by
  refine ⟨h.toGenuine.of_map (h.toProper.of_map halias hnode hu) hnode hu, ?_⟩
  rw [hu, List.length_map]
  exact h.length_le

theorem markDuplicate (h : t.Compact) (a : Nat) : (t.markDuplicate a).Compact :=
  h.of_map (fun m => by split <;> rfl) (fun m => by split <;> rfl)
    (markDuplicate_mappings h.toProper)

theorem perform (h : t.Compact) (req : Request) : (t.perform req).Compact := by
  cases req with
  | register a n =>
    simp only [AliasTable.perform]
    cases hr : t.register a n with
    | ok u => exact h.register hr
    | error e => exact h
  | unregister a => exact h.unregister a
  | markDuplicate a => exact h.markDuplicate a
  | setFlags a permitted duplicate =>
    exact h.of_map (fun m => by split <;> rfl) (fun m => by split <;> rfl)
      (modify_mappings h.toProper _)
  | setHasDuplicate b =>
    exact h.of_map (g := id) (fun _ => rfl) (fun _ => rfl) (List.map_id _).symm
  | flush => exact compact_empty

theorem foldl_perform (h : t.Compact) (reqs : List Request) :
    (reqs.foldl AliasTable.perform t).Compact := by
  induction reqs generalizing t with
  | nil => exact h
  | cons req reqs ih => exact ih (h.perform req)

end Compact

/-! ### The bijection -/

theorem Compact.findNode?_eq_some_iff (h : t.Compact) :
    t.findNode? n = some m ↔ m ∈ t.mappings ∧ m.nodeId = n := by
  unfold findNode?
  split
  · rename_i hzero
    refine iff_of_false (fun hf => by cases hf) ?_
    rintro ⟨hm, rfl⟩
    exact Nat.ne_of_gt (h.nodeIds m hm).1 hzero
  · exact find?_key_eq_some_iff h.nodes

theorem Proper.hasDuplicate_markDuplicate (h : t.Proper) :
    (t.markDuplicate a).hasDuplicate = true ↔
      t.hasDuplicate = true ∨ ∃ m ∈ t.mappings, m.aliasId = a := by
  unfold AliasTable.markDuplicate
  cases hf : t.find? a with
  | some m => exact iff_of_true rfl (.inr ⟨m, h.find?_eq_some_iff.1 hf⟩)
  | none =>
    refine (or_iff_left ?_).symm
    rintro ⟨m, hm⟩
    rw [h.find?_eq_some_iff.2 hm] at hf
    cases hf

theorem hasDuplicate_unregister (t : AliasTable) (a : Nat) :
    (t.unregister a).hasDuplicate = t.hasDuplicate := by
  unfold unregister
  split <;> rfl

/-- The table is a bijection between aliases and nodes, look-up finds what is there, and each
operation does what it says and nothing else. -/
structure Exact (t : AliasTable) : Prop where
  /-- No alias has two holders. -/
  aliases : (t.mappings.map Mapping.aliasId).Nodup
  /-- No node holds two aliases. -/
  nodes : (t.mappings.map Mapping.nodeId).Nodup
  valid : ∀ m ∈ t.mappings, Alias.Valid m.aliasId ∧ NodeId.Valid m.nodeId
  length_le : t.mappings.length ≤ Limits.aliasDepth
  /-- A mapping is found by its alias. -/
  find : ∀ a m, t.find? a = some m ↔ m ∈ t.mappings ∧ m.aliasId = a
  /-- A mapping is found by its node. -/
  findNode : ∀ n m, t.findNode? n = some m ↔ m ∈ t.mappings ∧ m.nodeId = n
  /-- A node is refused an alias for the first reason there is, and for no other. -/
  refuses : ∀ a n e, t.register a n = .error e ↔ t.Refuses a n e
  /-- A request that is refused leaves the table as it is. -/
  refused : ∀ a n e, t.Refuses a n e → t.perform (.register a n) = t
  /-- Where there is no reason to refuse, the node gets the alias. -/
  registers : ∀ a n, (∀ e, ¬ t.Refuses a n e) →
    t.register a n = .ok (t.perform (.register a n)) ∧
      t.Registers a n (t.perform (.register a n))
  /-- The mapping of the alias is taken away, and handed over. -/
  unregisters : ∀ a, (t.unregister a).mappings.Perm (t.mappings.filter fun m => m.aliasId ≠ a) ∧
    (∀ m, t.unregistered? a = some m ↔ m ∈ t.mappings ∧ m.aliasId = a) ∧
      (t.unregister a).hasDuplicate = t.hasDuplicate
  /-- The mapping of the alias is marked, and if there is one, the table remembers that. -/
  marks : ∀ a,
    ((t.markDuplicate a).mappings =
      t.mappings.map fun m => if m.aliasId = a then { m with duplicate := true } else m) ∧
    ((t.markDuplicate a).hasDuplicate = true ↔
      t.hasDuplicate = true ∨ ∃ m ∈ t.mappings, m.aliasId = a)

theorem Compact.exact (h : t.Compact) : t.Exact := by
  refine ⟨h.aliases, h.nodes, fun m hm => ⟨h.valid m hm, h.nodeIds m hm⟩, h.length_le,
    fun a m => h.toProper.find?_eq_some_iff, fun n m => h.findNode?_eq_some_iff,
    fun a n e => register_eq_error_iff h.length_le, fun a n e hr => ?_, fun a n hfree => ?_,
    fun a => ⟨unregister_perm h.toProper, fun m => find?_key_eq_some_iff h.aliases,
      hasDuplicate_unregister t a⟩,
    fun a => ⟨markDuplicate_mappings h.toProper, h.toProper.hasDuplicate_markDuplicate⟩⟩
  · simp only [AliasTable.perform, (register_eq_error_iff h.length_le).2 hr]
  · cases hr : t.register a n with
    | error e => exact absurd ((register_eq_error_iff h.length_le).1 hr) (hfree e)
    | ok u =>
      simp only [AliasTable.perform, hr]
      exact ⟨trivial, h.toProper.registers hr⟩

/-- **The bijection.** After any requests, whether they were refused or not, the table is a
bijection between at most four aliases and as many nodes, and answers and changes accordingly. -/
theorem after_exactly (reqs : List Request) : (after reqs).Exact :=
  (compact_empty.foldl_perform reqs).exact

/-- A node that gets another alias gives up the one it has, and may get it back. -/
example : (after [.register 0xAAA 1, .setFlags 0xAAA true false, .register 0xAAA 2,
    .register 0xBBB 1, .register 0xAAA 2, .markDuplicate 0xBBB, .unregister 0xBBB]).mappings =
      [⟨0xAAA, 2, false, false⟩] := by decide

end LayoutBus.AliasTable
