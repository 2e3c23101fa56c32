import LayoutBus.Memory.Pool
import Mathlib.Data.List.Induction
import Mathlib.Data.List.Nodup
import Mathlib.Order.Bounds.Basic

/-!
# Stores of independent cells

A store hands out cells from pools of a fixed size.  What it does is said once for all stores: the
cells are independent of each other, each holds what was last written to it since it was handed out,
and the numbers that describe the load of a pool are those of its cells.

* `Storage.Lawful` : what one operation does to the cells and to the numbers.
* `Storage.Holds` : what a cell holds, read off the requests alone.
* `Storage.Refines` : what is known of a store after any requests.
* `Storage.Lawful.refines` : **refinement.**  It follows from what single operations do.
* `Pool.stats_of_allocate`, `Pool.stats_free` and `Pool.stats_modify` : the numbers of a pool.
-/

namespace LayoutBus

/-- The operations of a store: cells for values of type `ν`, named by `η`, in pools named by `κ`. -/
structure Storage (σ κ η ν : Type) where
  start : σ
  get? : σ → η → Option ν
  allocate : σ → κ → Option (η × σ)
  free : σ → η → σ
  modify : σ → η → (ν → ν) → σ
  clearPeak : σ → σ
  stats : σ → κ → PoolStats
  /-- The cells of a pool. -/
  cells : κ → List η
  /-- The pool of a cell. -/
  pool : η → κ
  /-- What a cell holds when it is handed out. -/
  initial : κ → ν

/-- One more cell is in use. -/
def PoolStats.taken (p : PoolStats) : PoolStats :=
  { p with inUse := p.inUse + 1, peak := max p.peak (p.inUse + 1) }

/-- One cell less is in use. -/
def PoolStats.given (p : PoolStats) : PoolStats := { p with inUse := p.inUse - 1 }

/-- The peak is forgotten. -/
def PoolStats.settled (p : PoolStats) : PoolStats := { p with peak := p.inUse }

namespace Storage

variable {σ κ η ν : Type}

/-- What a store can be asked to do. -/
inductive Request (κ η ν : Type) where
  | allocate (k : κ)
  /-- Gives a cell back; any name will do. -/
  | free (h : η)
  /-- Writes to a cell. -/
  | modify (h : η) (f : ν → ν)
  | clearPeak

section

variable (S : Storage σ κ η ν)

/-- The store after a request. -/
def perform (s : σ) : Request κ η ν → σ
  | .allocate k =>
    match S.allocate s k with
    | some (_, t) => t
    | none => s
  | .free h => S.free s h
  | .modify h f => S.modify s h f
  | .clearPeak => S.clearPeak s

/-- What becomes of a new store. -/
def after (reqs : List (Request κ η ν)) : σ := reqs.foldl S.perform S.start

/-- How many cells of a pool can be read. -/
def load (s : σ) (k : κ) : Nat := (S.cells k).countP fun h => (S.get? s h).isSome

/-- Each pool has the size that it was made with. -/
def Sized (s : σ) : Prop := ∀ k, (S.stats s k).capacity = (S.cells k).length

/-- What every operation keeps: the numbers fit the cells. -/
structure Fits (s : σ) : Prop where
  sized : S.Sized s
  mem_cells : ∀ h, (S.get? s h).isSome → h ∈ S.cells (S.pool h)
  inUse_eq : ∀ k, (S.stats s k).inUse = S.load s k
  inUse_le : ∀ k, (S.stats s k).inUse ≤ (S.stats s k).peak
  peak_le : ∀ k, (S.stats s k).peak ≤ (S.stats s k).capacity

end

variable {S : Storage σ κ η ν} {s t : σ} {k l : κ} {h j : η} {v : ν} {f : ν → ν}
  {req : Request κ η ν} {reqs old new : List (Request κ η ν)}

theorem after_concat (reqs : List (Request κ η ν)) (req : Request κ η ν) :
    S.after (reqs ++ [req]) = S.perform (S.after reqs) req :=
  List.foldl_append ..

/-- A change of one entry changes the count of a list by one. -/
theorem countP_eq_add {xs : List η} {p q : η → Bool} (hn : xs.Nodup) (hp : p h = false)
    (hq : q h = true) (hothers : ∀ j, j ≠ h → q j = p j) (hmem : h ∈ xs) :
    xs.countP q = xs.countP p + 1 := by
  obtain ⟨as, bs, rfl⟩ := List.append_of_mem hmem
  have hout : h ∉ as ++ bs := (List.nodup_cons.1 (List.nodup_middle.1 hn)).1
  have hsame : ∀ ys : List η, (∀ y ∈ ys, y ∈ as ++ bs) → ys.countP q = ys.countP p :=
    fun ys hys => List.countP_congr fun y hy => by
      rw [hothers y fun heq => hout (heq ▸ hys y hy)]
  rw [List.countP_append, List.countP_append, List.countP_cons_of_pos hq,
    List.countP_cons_of_neg (by simp [hp]), hsame as fun y hy => List.mem_append_left _ hy,
    hsame bs fun y hy => List.mem_append_right _ hy, Nat.add_assoc]

theorem load_congr (hget : ∀ j ∈ S.cells l, (S.get? t j).isSome = (S.get? s j).isSome) :
    S.load t l = S.load s l :=
  List.countP_congr fun j hj => by rw [hget j hj]

/-! ### What a store is expected to do -/

variable [DecidableEq η]

/-- The writes to a cell. -/
def Request.write? (h : η) : Request κ η ν → Option (ν → ν)
  | .modify j f => if j = h then some f else none
  | _ => none

/-- What writes, in their order, make of a value. -/
def rewrite (h : η) (v : ν) (reqs : List (Request κ η ν)) : ν :=
  (reqs.filterMap (Request.write? h)).foldl (fun v f => f v) v

theorem rewrite_concat (h : η) (v : ν) (reqs : List (Request κ η ν)) (req : Request κ η ν) :
    rewrite h v (reqs ++ [req]) = rewrite h (rewrite h v reqs) [req] := by
  unfold rewrite
  rw [List.filterMap_append, List.foldl_append]

variable (S) in
/-- The cell was handed out, has not been given back since, and this is what was written to it. -/
def Holds (reqs : List (Request κ η ν)) (h : η) (v : ν) : Prop :=
  ∃ old k new t, reqs = old ++ .allocate k :: new ∧ S.allocate (S.after old) k = some (h, t) ∧
    .free h ∉ new ∧ v = rewrite h (S.initial k) new

/-- The cells of a store are independent, and its numbers are right. -/
structure Refines (S : Storage σ κ η ν) (reqs : List (Request κ η ν)) : Prop where
  /-- The count is that of the cells in use. -/
  inUse_eq : ∀ k, (S.stats (S.after reqs) k).inUse = S.load (S.after reqs) k
  inUse_le : ∀ k, (S.stats (S.after reqs) k).inUse ≤ (S.stats (S.after reqs) k).peak
  peak_le : ∀ k, (S.stats (S.after reqs) k).peak ≤ (S.cells k).length
  /-- The peak is the largest count since the start or the last time it was forgotten. -/
  peak_eq : ∀ old new, reqs = old ++ new → (∀ req ∈ old.getLast?, req = .clearPeak) →
    .clearPeak ∉ new → ∀ k,
      IsGreatest {n | ∃ pre, pre <+: new ∧ n = (S.stats (S.after (old ++ pre)) k).inUse}
        (S.stats (S.after reqs) k).peak
  /-- Nothing is handed out if and only if all cells are in use. -/
  allocate_eq_none_iff : ∀ k, S.allocate (S.after reqs) k = none ↔
    ∀ h ∈ S.cells k, (S.get? (S.after reqs) h).isSome
  /-- What is handed out was free, and holds nothing from before. -/
  of_allocate : ∀ k h t, S.allocate (S.after reqs) k = some (h, t) →
    h ∈ S.cells k ∧ S.get? (S.after reqs) h = none ∧ S.get? t h = some (S.initial k)
  /-- A cell holds what was last written to it. -/
  get?_eq_some_iff : ∀ h v, S.get? (S.after reqs) h = some v ↔ S.Holds reqs h v
  /-- The other cells keep what they hold. -/
  other_of_allocate : ∀ k h t, S.allocate (S.after reqs) k = some (h, t) → ∀ j, j ≠ h →
    S.get? t j = S.get? (S.after reqs) j
  other_of_free : ∀ h j, j ≠ h → S.get? (S.free (S.after reqs) h) j = S.get? (S.after reqs) j
  other_of_modify : ∀ h f j, j ≠ h →
    S.get? (S.modify (S.after reqs) h f) j = S.get? (S.after reqs) j
  /-- A free cell that is given back stays as it is, and so does the store. -/
  free_eq_self : ∀ h, S.get? (S.after reqs) h = none → S.free (S.after reqs) h = S.after reqs

/-- What one operation does. -/
structure Lawful [DecidableEq κ] (S : Storage σ κ η ν) : Prop where
  nodup : ∀ k, (S.cells k).Nodup
  pool_eq : ∀ k, ∀ h ∈ S.cells k, S.pool h = k
  get?_start : ∀ h, S.get? S.start h = none
  stats_start : ∀ k, S.stats S.start k = ⟨0, 0, (S.cells k).length⟩
  allocate_eq_none_iff : ∀ s k, S.Sized s →
    (S.allocate s k = none ↔ ∀ h ∈ S.cells k, (S.get? s h).isSome)
  of_allocate : ∀ s k h t, S.Sized s → S.allocate s k = some (h, t) →
    h ∈ S.cells k ∧ S.get? s h = none ∧
      (∀ j, S.get? t j = if j = h then some (S.initial k) else S.get? s j) ∧
        ∀ l, S.stats t l = if l = k then (S.stats s l).taken else S.stats s l
  get?_free : ∀ s h j, S.get? (S.free s h) j = if j = h then none else S.get? s j
  stats_free : ∀ s h l, S.stats (S.free s h) l =
    if l = S.pool h ∧ (S.get? s h).isSome then (S.stats s l).given else S.stats s l
  free_eq_self : ∀ s h, S.get? s h = none → S.free s h = s
  get?_modify : ∀ s h f j,
    S.get? (S.modify s h f) j = if j = h then (S.get? s j).map f else S.get? s j
  stats_modify : ∀ s h f l, S.stats (S.modify s h f) l = S.stats s l
  get?_clearPeak : ∀ s j, S.get? (S.clearPeak s) j = S.get? s j
  stats_clearPeak : ∀ s l, S.stats (S.clearPeak s) l = (S.stats s l).settled

/-! ### One request -/

namespace Lawful

variable [DecidableEq κ] (law : S.Lawful)

include law

theorem ne_of_mem (hj : j ∈ S.cells l) (hl : l ≠ S.pool h) : j ≠ h := by
  rintro rfl
  exact hl (law.pool_eq l j hj).symm

theorem fits_start : S.Fits S.start where
  sized k := by rw [law.stats_start]
  mem_cells h hh := by rw [law.get?_start] at hh; cases hh
  inUse_eq k := by
    rw [law.stats_start, load, eq_comm, List.countP_eq_zero]
    intro h _
    rw [law.get?_start]
    exact Bool.false_ne_true
  inUse_le k := by rw [law.stats_start]
  peak_le k := by rw [law.stats_start]; exact Nat.zero_le _

/-- A change of one cell and of the numbers of its pool, when these fit again. -/
theorem fits_change {g : PoolStats → PoolStats} (hs : S.Fits s) (hmem : h ∈ S.cells (S.pool h))
    (hget : ∀ j, j ≠ h → S.get? t j = S.get? s j)
    (hstats : ∀ l, S.stats t l = if l = S.pool h then g (S.stats s l) else S.stats s l)
    (hcap : (g (S.stats s (S.pool h))).capacity = (S.stats s (S.pool h)).capacity)
    (huse : (g (S.stats s (S.pool h))).inUse = S.load t (S.pool h))
    (hle : (g (S.stats s (S.pool h))).inUse ≤ (g (S.stats s (S.pool h))).peak)
    (hpeak : (g (S.stats s (S.pool h))).peak ≤ (S.stats s (S.pool h)).capacity) : S.Fits t := by
  have hself : S.stats t (S.pool h) = g (S.stats s (S.pool h)) := by rw [hstats, if_pos rfl]
  have hother : ∀ l, l ≠ S.pool h → S.stats t l = S.stats s l := fun l hl => by
    rw [hstats, if_neg hl]
  constructor
  case mem_cells =>
    intro j hj
    by_cases hjh : j = h
    · exact hjh ▸ hmem
    · exact hs.mem_cells j (hget j hjh ▸ hj)
  all_goals
    intro l
    rcases eq_or_ne l (S.pool h) with rfl | hl
  case sized.inl =>
    rw [hself, hcap]
    exact hs.sized _
  case sized.inr =>
    rw [hother l hl]
    exact hs.sized l
  case inUse_eq.inl => rw [hself, huse]
  case inUse_eq.inr =>
    rw [hother l hl, hs.inUse_eq]
    refine (load_congr fun j hj => ?_).symm
    rw [hget j (law.ne_of_mem hj hl)]
  case inUse_le.inl =>
    rw [hself]
    exact hle
  case inUse_le.inr =>
    rw [hother l hl]
    exact hs.inUse_le l
  case peak_le.inl =>
    rw [hself, hcap]
    exact hpeak
  case peak_le.inr =>
    rw [hother l hl]
    exact hs.peak_le l

theorem fits_allocate (hs : S.Fits s) (ha : S.allocate s k = some (h, t)) : S.Fits t := by
  obtain ⟨hmem, hnone, hget, hstats⟩ := law.of_allocate s k h t hs.sized ha
  obtain rfl := law.pool_eq k h hmem
  have hgrow : S.load t (S.pool h) = S.load s (S.pool h) + 1 :=
    countP_eq_add (law.nodup _) (by rw [hnone]; rfl) (by rw [hget, if_pos rfl]; rfl)
      (fun j hj => by rw [hget, if_neg hj]) hmem
  have hroom : S.load t (S.pool h) ≤ (S.cells (S.pool h)).length := List.countP_le_length
  have huse : (S.stats s (S.pool h)).inUse + 1 = S.load t (S.pool h) := by
    rw [hgrow, hs.inUse_eq]
  refine law.fits_change hs hmem (fun j hj => by rw [hget, if_neg hj]) hstats rfl huse
    (Nat.le_max_right ..) (Nat.max_le.2 ⟨hs.peak_le _, ?_⟩)
  rw [huse, hs.sized]
  exact hroom

theorem fits_free (hs : S.Fits s) (h : η) : S.Fits (S.free s h) := by
  cases hg : S.get? s h with
  | none => rwa [law.free_eq_self s h hg]
  | some v =>
    have hmem := hs.mem_cells h (by rw [hg]; rfl)
    have hfreed := law.get?_free s h
    have hshrink : S.load s (S.pool h) = S.load (S.free s h) (S.pool h) + 1 :=
      countP_eq_add (law.nodup _) (by rw [hfreed, if_pos rfl]; rfl) (by rw [hg]; rfl)
        (fun j hj => by rw [hfreed, if_neg hj]) hmem
    have hstats : ∀ l, S.stats (S.free s h) l =
        if l = S.pool h then (S.stats s l).given else S.stats s l := fun l => by
      rw [law.stats_free, hg]
      simp
    have huse : (S.stats s (S.pool h)).inUse - 1 = S.load (S.free s h) (S.pool h) := by
      rw [hs.inUse_eq, hshrink, Nat.add_sub_cancel]
    exact law.fits_change hs hmem (fun j hj => by rw [hfreed, if_neg hj]) hstats rfl huse
      ((Nat.sub_le _ 1).trans (hs.inUse_le _)) (hs.peak_le _)

theorem isSome_modify (s : σ) (h : η) (f : ν → ν) (j : η) :
    (S.get? (S.modify s h f) j).isSome = (S.get? s j).isSome := by
  rw [law.get?_modify]
  split
  · exact Option.isSome_map
  · rfl

theorem fits_modify (hs : S.Fits s) (h : η) (f : ν → ν) : S.Fits (S.modify s h f) where
  sized l := by rw [law.stats_modify]; exact hs.sized l
  mem_cells j hj := hs.mem_cells j (law.isSome_modify s h f j ▸ hj)
  inUse_eq l := by
    rw [law.stats_modify, hs.inUse_eq]
    exact (load_congr fun j _ => law.isSome_modify s h f j).symm
  inUse_le l := by rw [law.stats_modify]; exact hs.inUse_le l
  peak_le l := by rw [law.stats_modify]; exact hs.peak_le l

theorem fits_clearPeak (hs : S.Fits s) : S.Fits (S.clearPeak s) where
  sized l := by rw [law.stats_clearPeak]; exact hs.sized l
  mem_cells j hj := hs.mem_cells j (law.get?_clearPeak s j ▸ hj)
  inUse_eq l := by
    rw [law.stats_clearPeak]
    exact (hs.inUse_eq l).trans (load_congr fun j _ => by rw [law.get?_clearPeak]).symm
  inUse_le l := by rw [law.stats_clearPeak]; exact Nat.le_refl _
  peak_le l := by
    rw [law.stats_clearPeak]
    exact (hs.inUse_le l).trans (hs.peak_le l)

theorem fits_perform (hs : S.Fits s) (req : Request κ η ν) : S.Fits (S.perform s req) := by
  cases req with
  | allocate k =>
    simp only [perform]
    split
    · rename_i ha
      exact law.fits_allocate hs ha
    · exact hs
  | free h => exact law.fits_free hs h
  | modify h f => exact law.fits_modify hs h f
  | clearPeak => exact law.fits_clearPeak hs

theorem fits_after (reqs : List (Request κ η ν)) : S.Fits (S.after reqs) := by
  induction reqs using List.reverseRecOn with
  | nil => exact law.fits_start
  | append_singleton reqs req ih =>
    rw [after_concat]
    exact law.fits_perform ih req

/-! ### The peak -/

/-- The peak follows the count. -/
theorem peak_perform (hs : S.Fits s) (hreq : req ≠ .clearPeak) (l : κ) :
    (S.stats (S.perform s req) l).peak =
      max (S.stats (S.perform s req) l).inUse (S.stats s l).peak := by
  have hle := hs.inUse_le l
  cases req with
  | allocate k =>
    simp only [perform]
    split
    · rename_i ha
      rw [(law.of_allocate _ _ _ _ hs.sized ha).2.2.2]
      split
      · exact Nat.max_comm ..
      · exact (Nat.max_eq_right hle).symm
    · exact (Nat.max_eq_right hle).symm
  | free h =>
    simp only [perform, law.stats_free]
    split
    · exact (Nat.max_eq_right ((Nat.sub_le _ 1).trans hle)).symm
    · exact (Nat.max_eq_right hle).symm
  | modify h f =>
    simp only [perform, law.stats_modify]
    exact (Nat.max_eq_right hle).symm
  | clearPeak => exact absurd rfl hreq

/-- Where nothing has happened since the peak was forgotten, it is the count. -/
theorem peak_eq_inUse (hold : ∀ req ∈ old.getLast?, req = .clearPeak) :
    (S.stats (S.after old) k).peak = (S.stats (S.after old) k).inUse := by
  rcases old.eq_nil_or_concat with rfl | ⟨old, req, rfl⟩
  · simp only [after, List.foldl_nil, law.stats_start]
  · obtain rfl := hold req (by simp)
    rw [List.concat_eq_append, after_concat]
    simp only [perform, law.stats_clearPeak, PoolStats.settled]

theorem peak_after (hold : ∀ req ∈ old.getLast?, req = .clearPeak) (hnew : .clearPeak ∉ new) :
    IsGreatest {n | ∃ pre, pre <+: new ∧ n = (S.stats (S.after (old ++ pre)) k).inUse}
      (S.stats (S.after (old ++ new)) k).peak := by
  induction new using List.reverseRecOn with
  | nil =>
    have hone : {n | ∃ pre, pre <+: [] ∧ n = (S.stats (S.after (old ++ pre)) k).inUse} =
        {(S.stats (S.after old) k).inUse} := by
      ext n
      simp [List.prefix_nil]
    rw [hone, List.append_nil, law.peak_eq_inUse hold]
    exact isGreatest_singleton
  | append_singleton new req ih =>
    simp only [List.mem_append, List.mem_singleton, not_or] at hnew
    -- one count is added, that after the request
    have hmore : {n | ∃ pre, pre <+: new ++ [req] ∧
          n = (S.stats (S.after (old ++ pre)) k).inUse} =
        insert (S.stats (S.after (old ++ (new ++ [req]))) k).inUse
          {n | ∃ pre, pre <+: new ∧ n = (S.stats (S.after (old ++ pre)) k).inUse} := by
      ext n
      simp only [List.prefix_concat_iff, or_and_right, exists_or, exists_eq_left]
      rfl
    rw [hmore, ← List.append_assoc, after_concat,
      law.peak_perform (law.fits_after _) (Ne.symm hnew.2)]
    exact (ih hnew.1).insert _

/-! ### What a cell holds -/

theorem get?_perform (hs : S.Fits s) (hfree : req ≠ .free h) (hv : S.get? s h = some v) :
    S.get? (S.perform s req) h = some (rewrite h v [req]) := by
  cases req with
  | allocate k =>
    simp only [perform]
    split
    · rename_i ha
      obtain ⟨-, hnone, hget, -⟩ := law.of_allocate _ _ _ _ hs.sized ha
      -- a cell that holds something is not handed out
      rw [hget, if_neg (by rintro rfl; rw [hnone] at hv; cases hv)]
      exact hv
    · exact hv
  | free j =>
    simp only [perform]
    have hne : h ≠ j := fun heq => hfree (congrArg Request.free heq.symm)
    rw [law.get?_free, if_neg hne]
    exact hv
  | modify j f =>
    simp only [perform]
    rw [law.get?_modify]
    by_cases hj : h = j
    · simp [rewrite, Request.write?, hj ▸ hv, hj]
    · simp [rewrite, Request.write?, hv, hj, Ne.symm hj]
  | clearPeak =>
    simp only [perform]
    rw [law.get?_clearPeak]
    exact hv

/-- A cell that holds something after a request held something before it, or was handed out. -/
theorem held_before (hs : S.Fits s) (hv : S.get? (S.perform s req) h = some v) :
    (∃ w, S.get? s h = some w ∧ req ≠ .free h) ∨
      ∃ k t, req = .allocate k ∧ S.allocate s k = some (h, t) ∧ v = S.initial k := by
  cases req with
  | allocate k =>
    simp only [perform] at hv
    split at hv
    · rename_i j t ha
      obtain ⟨-, -, hget, -⟩ := law.of_allocate _ _ _ _ hs.sized ha
      rw [hget] at hv
      split at hv
      · rename_i heq
        obtain rfl := heq
        exact .inr ⟨k, t, rfl, ha, (Option.some.inj hv).symm⟩
      · exact .inl ⟨v, hv, fun h => by cases h⟩
    · exact .inl ⟨v, hv, fun h => by cases h⟩
  | free j =>
    simp only [perform] at hv
    rw [law.get?_free] at hv
    split at hv
    · cases hv
    · rename_i hne
      exact .inl ⟨v, hv, fun heq => hne (Request.free.inj heq).symm⟩
  | modify j f =>
    have hsome := law.isSome_modify s j f h
    simp only [perform] at hv
    rw [hv] at hsome
    obtain ⟨w, hw⟩ := Option.isSome_iff_exists.1 hsome.symm
    exact .inl ⟨w, hw, fun h => by cases h⟩
  | clearPeak =>
    simp only [perform] at hv
    rw [law.get?_clearPeak] at hv
    exact .inl ⟨v, hv, fun h => by cases h⟩

theorem get?_of_holds (hh : S.Holds reqs h v) : S.get? (S.after reqs) h = some v := by
  obtain ⟨old, k, new, t, rfl, ha, hfree, rfl⟩ := hh
  induction new using List.reverseRecOn with
  | nil =>
    obtain ⟨-, -, hget, -⟩ := law.of_allocate _ _ _ _ (law.fits_after old).sized ha
    rw [after_concat]
    simp only [perform, ha]
    rw [hget, if_pos rfl]
    rfl
  | append_singleton new req ih =>
    simp only [List.mem_append, List.mem_singleton, not_or] at hfree
    rw [← List.cons_append, ← List.append_assoc, after_concat, rewrite_concat]
    exact law.get?_perform (law.fits_after _) (Ne.symm hfree.2) (ih hfree.1)

theorem holds_of_get? (hv : S.get? (S.after reqs) h = some v) : S.Holds reqs h v := by
  induction reqs using List.reverseRecOn generalizing v with
  | nil =>
    simp only [after, List.foldl_nil] at hv
    rw [law.get?_start] at hv
    cases hv
  | append_singleton reqs req ih =>
    rw [after_concat] at hv
    rcases law.held_before (law.fits_after reqs) hv with ⟨w, hw, hne⟩ | ⟨k, t, rfl, ha, rfl⟩
    · have hv' := law.get?_perform (law.fits_after reqs) hne hw
      obtain ⟨old, k, new, t, rfl, ha, hfree, rfl⟩ := ih hw
      refine ⟨old, k, new ++ [req], t, by simp, ha, ?_, ?_⟩
      · simp only [List.mem_append, List.mem_singleton, not_or]
        exact ⟨hfree, Ne.symm hne⟩
      · rw [rewrite_concat]
        exact Option.some.inj (hv.symm.trans hv')
    · exact ⟨reqs, k, [], t, rfl, ha, List.not_mem_nil, rfl⟩

/-- **Refinement.** -/
theorem refines (reqs : List (Request κ η ν)) : S.Refines reqs := by
  have hfits := law.fits_after reqs
  refine ⟨hfits.inUse_eq, hfits.inUse_le, fun k => (hfits.peak_le k).trans_eq (hfits.sized k), ?_,
    fun k => law.allocate_eq_none_iff _ k hfits.sized, fun k h t ha => ?_,
    fun h v => ⟨law.holds_of_get?, law.get?_of_holds⟩, fun k h t ha j hj => ?_, fun h j hj => ?_,
    fun h f j hj => ?_, fun h => law.free_eq_self _ h⟩
  · rintro old new rfl hold hnew k
    exact law.peak_after hold hnew
  · obtain ⟨hmem, hnone, hget, -⟩ := law.of_allocate _ k h t hfits.sized ha
    exact ⟨hmem, hnone, by rw [hget, if_pos rfl]⟩
  · obtain ⟨-, -, hget, -⟩ := law.of_allocate _ k h t hfits.sized ha
    rw [hget, if_neg hj]
  · rw [law.get?_free, if_neg hj]
  · rw [law.get?_modify, if_neg hj]

end Lawful

end Storage

/-! ### Pools -/

namespace Pool

variable {α : Type} {p q : Pool α} {a : α} {i : Nat}

theorem stats_of_allocate (h : p.allocate a = some (i, q)) : q.stats = p.stats.taken := by
  unfold allocate at h
  split at h
  · cases h
    simp [stats, PoolStats.taken, capacity]
  · cases h

theorem stats_free (p : Pool α) (i : Nat) :
    (p.free i).stats = if p.isAllocated i then p.stats.given else p.stats := by
  unfold free
  split
  · simp [stats, PoolStats.given, capacity]
  · rfl

@[simp] theorem stats_modify (p : Pool α) (i : Nat) (f : α → α) : (p.modify i f).stats = p.stats := by
  unfold modify
  split
  · simp [stats, capacity]
  · rfl

theorem free_eq_self (h : p.get? i = none) : p.free i = p := by
  unfold free isAllocated
  rw [h]
  rfl

theorem modify_eq_self (h : p.get? i = none) (f : α → α) : p.modify i f = p := by
  unfold modify isAllocated
  rw [h]
  rfl

end Pool

end LayoutBus
