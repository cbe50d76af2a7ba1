import CppAlls.Core.SlabRuns
import Mathlib.Algebra.Order.BigOperators.Group.Finset
import Mathlib.Order.Interval.Finset.Nat

namespace CppAlls
set_option autoImplicit true

open Relation InUse

namespace SlabState

variable {n : Nat} (s : SlabState n)

/-- The first slots and the numbers of slots of the allocations in the slab. -/
def extents : List (Nat × Nat) :=
  s.live.filterMap fun x =>
    match x with
    | (.slab i, size) => some (i, blocksRequired size)
    | (.heap _, _) => none

def occupied : Nat := (s.extents.map Prod.snd).sum

def coveredSlots : Finset Nat :=
  (s.extents.map fun x => Finset.Ico x.1 (x.1 + x.2)).foldr (· ∪ ·) ∅

def uncoveredSlots : Finset Nat := Finset.range n \ s.coveredSlots

/-- Where a run of free slots can begin: at the first slot, or behind an allocation. -/
def starts : Finset Nat := insert 0 (s.extents.map fun x => x.1 + x.2).toFinset

variable {s}

theorem mem_extents :
    (i, k) ∈ s.extents ↔ ∃ size, (.slab i, size) ∈ s.live ∧ k = blocksRequired size := by
  rw [extents, List.mem_filterMap]
  constructor
  · rintro ⟨⟨p, size⟩, hm, he⟩
    cases p with
    | heap address => cases he
    | slab j =>
      cases he
      exact ⟨size, hm, rfl⟩
  · rintro ⟨size, hm, rfl⟩
    exact ⟨_, hm, rfl⟩

theorem mem_coveredSlots : j ∈ s.coveredSlots ↔ ∃ x ∈ s.extents, x.1 ≤ j ∧ j < x.1 + x.2 := by
  rw [coveredSlots]
  induction s.extents with
  | nil => simp
  | cons x xs ih =>
    rw [List.map_cons, List.foldr_cons, Finset.mem_union, ih, Finset.mem_Ico]
    simp only [List.mem_cons, exists_eq_or_imp]

theorem card_coveredSlots : s.coveredSlots.card ≤ s.occupied := by
  rw [coveredSlots, occupied]
  induction s.extents with
  | nil => exact Nat.le_refl 0
  | cons x xs ih =>
    rw [List.map_cons, List.foldr_cons, List.map_cons, List.sum_cons]
    have hunion := Finset.card_union_le (Finset.Ico x.1 (x.1 + x.2))
      ((xs.map fun x => Finset.Ico x.1 (x.1 + x.2)).foldr (· ∪ ·) ∅)
    rw [Nat.card_Ico, Nat.add_sub_cancel_left] at hunion
    exact hunion.trans (Nat.add_le_add_left ih x.2)

theorem card_starts : s.starts.card ≤ s.extents.length + 1 := by
  have hinsert := Finset.card_insert_le 0 (s.extents.map fun x => x.1 + x.2).toFinset
  have hlist := List.toFinset_card_le (s.extents.map fun x => x.1 + x.2)
  rw [List.length_map] at hlist
  exact hinsert.trans (Nat.succ_le_succ hlist)

/-- The last place up to `j` where a run of free slots can begin. -/
def lastStart (s : SlabState n) (j : Nat) : Nat := Nat.findGreatest (· ∈ s.starts) j

theorem lastStart_le (s : SlabState n) (j : Nat) : s.lastStart j ≤ j := Nat.findGreatest_le j

theorem lastStart_mem (s : SlabState n) (j : Nat) : s.lastStart j ∈ s.starts :=
  Nat.findGreatest_spec (P := (· ∈ s.starts)) (Nat.zero_le j) (Finset.mem_insert_self _ _)

/-- From the last such place on the slots are free: what covers one of them ends before `j`, or
covers `j` as well. -/
theorem uncovered_of_lastStart (hj : j ∉ s.coveredSlots) (hle : s.lastStart j ≤ i) (hi : i ≤ j) :
    i ∉ s.coveredSlots := by
  intro hcovered
  obtain ⟨x, hx, hxi, hix⟩ := mem_coveredSlots.mp hcovered
  by_cases hend : x.1 + x.2 ≤ j
  · have hstart : x.1 + x.2 ∈ s.starts :=
      Finset.mem_insert_of_mem (List.mem_toFinset.mpr (List.mem_map_of_mem hx))
    have hlast : x.1 + x.2 ≤ s.lastStart j :=
      Nat.le_findGreatest (P := (· ∈ s.starts)) hend hstart
    omega
  · exact hj (mem_coveredSlots.mpr ⟨x, hx, by omega, by omega⟩)

end SlabState

open SlabState

variable {n : Nat} {s : SlabState n}

theorem Consistent.free_of_uncovered (h : Consistent s) (hj : j < n) (hu : j ∉ s.coveredSlots) :
    s.inUse[j]? = some 0 := by
  apply h.free j hj
  rintro ⟨p, size⟩ hm hcovers
  cases p with
  | heap address => exact hcovers
  | slab i => exact hu (mem_coveredSlots.mpr ⟨(i, _), mem_extents.mpr ⟨size, hm, rfl⟩, hcovers⟩)

/-- Without a free run of `k` slots each place where one can begin has fewer than `k` behind it. -/
theorem Consistent.card_uncoveredSlots (h : Consistent s) (hk : 0 < k)
    (hrun : ∀ i, ¬ s.inUse.FreeRun i k) :
    s.uncoveredSlots.card ≤ (s.extents.length + 1) * (k - 1) := by
  have hinto : ∀ j ∈ s.uncoveredSlots,
      (s.lastStart j, j - s.lastStart j) ∈ s.starts ×ˢ Finset.range (k - 1) := by
    intro j hj
    obtain ⟨hjn, hju⟩ := Finset.mem_sdiff.mp hj
    have hjn := Finset.mem_range.mp hjn
    have hle := s.lastStart_le j
    refine Finset.mem_product.mpr ⟨s.lastStart_mem j, Finset.mem_range.mpr ?_⟩
    by_contra hge
    apply hrun (s.lastStart j)
    refine ⟨by omega, ?_⟩
    intro i hi hik
    exact h.free_of_uncovered (by omega) (uncovered_of_lastStart hju hi (by omega))
  have hinj : Set.InjOn (fun j => (s.lastStart j, j - s.lastStart j)) s.uncoveredSlots := by
    intro i _ j _ he
    obtain ⟨hstart, hoffset⟩ := Prod.mk.inj he
    have hi := s.lastStart_le i
    have hj := s.lastStart_le j
    omega
  have hcard := Finset.card_le_card_of_injOn _ hinto hinj
  rw [Finset.card_product, Finset.card_range] at hcard
  exact hcard.trans (Nat.mul_le_mul_right _ card_starts)

theorem reachable_consistent (hn : n < 254)
    (h : ReflTransGen (SlabStep n) { inUse := fresh n } s) : Consistent s := by
  induction h with
  | refl => exact Consistent.fresh n
  | tail _ hs ih => exact hs.consistent hn ih

theorem Consistent.heap_bound (h : Consistent s) (hn : n < 254) (hfit : blocksRequired size ≤ n)
    (hheap : s.inUse.allocate size address = some (.heap address', b)) :
    n ≤ s.occupied + (s.extents.length + 1) * (blocksRequired size - 1) := by
  obtain ⟨fit, hab, hfirst⟩ := s.inUse.allocate_firstFit (by omega) address (.inr hfit)
  rw [hab] at hheap
  cases fit with
  | some i => cases hheap
  | none =>
    have huncovered := h.card_uncoveredSlots (blocksRequired_pos size) hfirst
    have hcovered := s.card_coveredSlots
    have hsplit := Finset.card_le_card_sdiff_add_card (s := Finset.range n) (t := s.coveredSlots)
    rw [Finset.card_range, Nat.add_comm] at hsplit
    exact hsplit.trans (Nat.add_le_add hcovered huncovered)

/-- In every run an allocation that fits the slab goes to the heap only when the slots that are not
occupied number at most one less than it needs for each live allocation in the slab, and for one
more. In particular an allocation of one block does only when every slot is in use. -/
theorem heap_fallback_bound (hn : n < 254)
    (h : ReflTransGen (SlabStep n) { inUse := fresh n } s) (hfit : blocksRequired size ≤ n)
    (hheap : s.inUse.allocate size address = some (.heap address', b)) :
    n ≤ s.occupied + (s.extents.length + 1) * (blocksRequired size - 1) :=
  (reachable_consistent hn h).heap_bound hn hfit hheap

def fragmented : SlabState 4 :=
  { inUse := #v[1, 0, 1, 0], live := [(.slab 2, 10), (.slab 0, 10)] }

theorem singleStep {a b : InUse 4} {live : List (Pointer × Nat)} (i : Nat)
    (hfit : a.fitted 1 0 (a.plainFirstFit 1) = (.slab i, b)) (hheap : ∀ x ∈ live, x.1 ≠ .heap 0) :
    SlabStep 4 ⟨a, live⟩ ⟨b, (.slab i, 10) :: live⟩ := by
  refine ⟨.allocate 10 0, (by decide : 1 ≤ 4), hheap, ?_⟩
  rw [SlabOp.apply, allocate, if_pos (by decide), allocateSingle_plainFirstFit, hfit]
  rfl

theorem fragmented_run : ReflTransGen (SlabStep 4) { inUse := fresh 4 } fragmented := by
  have h₁ : SlabStep 4 ⟨fresh 4, []⟩ ⟨#v[1, 0, 0, 0], [(.slab 0, 10)]⟩ :=
    singleStep 0 (by decide) (by decide)
  have h₂ : SlabStep 4 ⟨#v[1, 0, 0, 0], [(.slab 0, 10)]⟩
      ⟨#v[1, 1, 0, 0], [(.slab 1, 10), (.slab 0, 10)]⟩ := singleStep 1 (by decide) (by decide)
  have h₃ : SlabStep 4 ⟨#v[1, 1, 0, 0], [(.slab 1, 10), (.slab 0, 10)]⟩
      ⟨#v[1, 1, 1, 0], [(.slab 2, 10), (.slab 1, 10), (.slab 0, 10)]⟩ :=
    singleStep 2 (by decide) (by decide)
  have h₄ : SlabStep 4 ⟨#v[1, 1, 1, 0], [(.slab 2, 10), (.slab 1, 10), (.slab 0, 10)]⟩
      fragmented := by
    refine ⟨.deallocate (.slab 1), trivial, ⟨10, by decide⟩, ?_⟩
    rw [SlabOp.apply, deallocate_of_slab _ (by decide) (Nat.zero_le 1)]
    rfl
  exact .head h₁ (.head h₂ (.head h₃ (.single h₄)))

/-- Two slots are free and not next to each other. -/
theorem fragmented_bound : 4 ≤ fragmented.occupied +
    (fragmented.extents.length + 1) * (blocksRequired 300 - 1) := by
  have hheap : fragmented.inUse.allocate 300 7 = some (.heap 7, fragmented.inUse) := by
    rw [allocate, if_neg (by decide), allocateMultiple_plainFirstFit _ (by decide) (by decide)
      (by decide)]
    rfl
  exact heap_fallback_bound (by decide) fragmented_run (by decide) hheap

end CppAlls
