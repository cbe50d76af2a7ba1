import CppAlls.Core.SlabAllocator

namespace CppAlls
set_option autoImplicit true

open Relation InUse

/-- An allocator and the allocations that its owner holds, each with the size asked for. -/
structure SlabState (n : Nat) where
  inUse : InUse n
  live : List (Pointer × Nat) := []

/-- The calls of an owner; `address` is what `operator new` returns if it is called. -/
inductive SlabOp where
  | allocate (size address : Nat)
  | deallocate (p : Pointer)
deriving DecidableEq, Repr

def SlabOp.apply (s : SlabState n) : SlabOp → Option (SlabState n)
  | .allocate size address => do
    let (p, inUse) ← s.inUse.allocate size address
    return { inUse, live := (p, size) :: s.live }
  | .deallocate p => do
    let inUse ← s.inUse.deallocate p 0
    return { inUse, live := s.live.filter (·.1 ≠ p) }

/-- `operator new` returns fresh addresses, and only live pointers are deallocated. -/
def SlabOp.Allowed (s : SlabState n) : SlabOp → Prop
  | .allocate _ address => ∀ x ∈ s.live, x.1 ≠ .heap address
  | .deallocate p => ∃ size, (p, size) ∈ s.live

def SlabOp.Fits (n : Nat) : SlabOp → Prop
  | .allocate size _ => blocksRequired size ≤ n
  | .deallocate _ => True

def SlabStep (n : Nat) (s s' : SlabState n) : Prop :=
  ∃ op : SlabOp, op.Fits n ∧ op.Allowed s ∧ op.apply s = some s'

def Apart : Pointer × Nat → Pointer × Nat → Prop
  | (.slab i, size), (.slab j, size') =>
    i + blocksRequired size ≤ j ∨ j + blocksRequired size' ≤ i
  | (.heap address, _), (.heap address', _) => address ≠ address'
  | _, _ => True

def Covers (j : Nat) : Pointer × Nat → Prop
  | (.slab i, size) => i ≤ j ∧ j < i + blocksRequired size
  | (.heap _, _) => False

/-- `in_use_` is the encoding of the live allocations, which lie inside the slab, have the bytes
that were asked for and do not overlap. -/
structure Consistent (s : SlabState n) : Prop where
  inside : ∀ i size, (.slab i, size) ∈ s.live → i + blocksRequired size ≤ n
  enough : ∀ i size, (.slab i, size) ∈ s.live → size ≤ storagesMinSize * blocksRequired size
  apart : s.live.Pairwise Apart
  first : ∀ i size, (.slab i, size) ∈ s.live →
    s.inUse[i]? = some (UInt8.ofNat (blocksRequired size))
  following : ∀ i size j, (.slab i, size) ∈ s.live → i < j → j < i + blocksRequired size →
    s.inUse[j]? = some 255
  free : ∀ j, j < n → (∀ x ∈ s.live, ¬ Covers j x) → s.inUse[j]? = some 0

theorem blocksRequired_pos (size : Nat) : 0 < blocksRequired size := Nat.succ_pos _

theorem blocksRequired_enough (size : Nat) : size ≤ storagesMinSize * blocksRequired size := by
  simp only [blocksRequired, storagesMinSize]
  omega

theorem ofNat_ne_zero (hk : 0 < k) (hlt : k < 256) : UInt8.ofNat k ≠ 0 := by
  intro he
  have ht := congrArg UInt8.toNat he
  rw [UInt8.toNat_ofNat', Nat.mod_eq_of_lt hlt] at ht
  exact absurd ht (Nat.ne_of_gt hk)

instance : Std.Symm Apart where
  symm x y h := by
    obtain ⟨px, sx⟩ := x
    obtain ⟨py, sy⟩ := y
    cases px <;> cases py <;> first | exact Ne.symm h | exact Or.symm h | trivial

namespace Consistent

variable {s : SlabState n}

theorem fresh (n : Nat) : Consistent { inUse := InUse.fresh n } := by
  refine ⟨?_, ?_, .nil, ?_, ?_, ?_⟩
  · intro _ _ hm
    cases hm
  · intro _ _ hm
    cases hm
  · intro _ _ hm
    cases hm
  · intro _ _ _ hm
    cases hm
  · intro j hj _
    simp [InUse.fresh, hj]

theorem used (h : Consistent s) (hn : n < 254) (hm : x ∈ s.live) (hj : Covers j x) :
    s.inUse[j]? ≠ some 0 := by
  obtain ⟨p, size⟩ := x
  cases p with
  | heap => cases hj
  | slab i =>
    obtain ⟨hle, hlt⟩ := hj
    have hin := h.inside i size hm
    have hpos := blocksRequired_pos size
    by_cases he : i = j
    · subst he
      rw [h.first i size hm]
      exact fun hz => ofNat_ne_zero hpos (by omega) (Option.some.inj hz)
    · rw [h.following i size j hm (by omega) hlt]
      decide

theorem eq_of_pointer (h : Consistent s) (hm : (p, size) ∈ s.live) (hm' : (p, size') ∈ s.live) :
    size = size' := by
  by_cases he : size = size'
  · exact he
  · have hne : ((p, size) : Pointer × Nat) ≠ (p, size') := fun hp => he (Prod.mk.inj hp).2
    have ha := h.apart.forall hm hm' hne
    cases p with
    | heap => exact absurd rfl ha
    | slab i =>
      have hpos := blocksRequired_pos size
      have hpos' := blocksRequired_pos size'
      have ha' : i + blocksRequired size ≤ i ∨ i + blocksRequired size' ≤ i := ha
      omega

theorem apart_of_freeRun (h : Consistent s) (hn : n < 254)
    (hr : s.inUse.FreeRun i (blocksRequired size)) (hm : x ∈ s.live) :
    Apart (.slab i, size) x := by
  obtain ⟨p, size'⟩ := x
  cases p with
  | heap => trivial
  | slab j =>
    have hpos := blocksRequired_pos size
    have hpos' := blocksRequired_pos size'
    by_cases ha : i + blocksRequired size ≤ j ∨ j + blocksRequired size' ≤ i
    · exact ha
    · -- The larger of the two first slots is in both.
      rcases Nat.le_total i j with hij | hij
      · exact absurd (hr.2 j hij (by omega)) (h.used hn hm ⟨Nat.le_refl j, by omega⟩)
      · exact absurd (hr.2 i (Nat.le_refl i) (by omega)) (h.used hn hm ⟨hij, by omega⟩)

theorem allocate_slab (h : Consistent s) (hn : n < 254)
    (hr : s.inUse.FreeRun i (blocksRequired size)) :
    Consistent { inUse := s.inUse.mark i (blocksRequired size)
                 live := (.slab i, size) :: s.live } := by
  have hpos := blocksRequired_pos size
  have hin := hr.1
  have hother : ∀ j x, x ∈ s.live → Covers j x →
      (s.inUse.mark i (blocksRequired size))[j]? = s.inUse[j]? := by
    intro j x hm hj
    have hu := h.used hn hm hj
    by_cases hlt : j < n
    · have hout : ¬ (i ≤ j ∧ j < i + blocksRequired size) := fun hc => hu (hr.2 j hc.1 hc.2)
      rw [mark_getElem? _ _ _ hlt, if_neg (by omega), if_neg (by omega)]
    · simp [hlt]
  constructor
  · intro j size' hm
    rcases List.mem_cons.mp hm with he | hm
    · cases he
      exact hr.1
    · exact h.inside j size' hm
  · intro j size' _
    exact blocksRequired_enough size'
  · exact List.pairwise_cons.mpr ⟨fun x hm => h.apart_of_freeRun hn hr hm, h.apart⟩
  · intro j size' hm
    rcases List.mem_cons.mp hm with he | hm
    · cases he
      rw [mark_getElem? _ _ _ (by omega), if_pos rfl]
    · have hpos' := blocksRequired_pos size'
      rw [hother j _ hm ⟨Nat.le_refl j, by omega⟩]
      exact h.first j size' hm
  · intro j size' k hm hlt hlt'
    rcases List.mem_cons.mp hm with he | hm
    · cases he
      rw [mark_getElem? _ _ _ (by omega), if_neg (by omega), if_pos ⟨hlt, hlt'⟩]
    · rw [hother k _ hm ⟨Nat.le_of_lt hlt, hlt'⟩]
      exact h.following j size' k hm hlt hlt'
  · intro j hj hnot
    have hout : ¬ (i ≤ j ∧ j < i + blocksRequired size) := hnot _ List.mem_cons_self
    rw [mark_getElem? _ _ _ hj, if_neg (by omega), if_neg (by omega)]
    exact h.free j hj (fun x hm => hnot x (List.mem_cons_of_mem _ hm))

theorem allocate_heap (h : Consistent s) (hfresh : ∀ x ∈ s.live, x.1 ≠ .heap address) :
    Consistent { s with live := (.heap address, size) :: s.live } := by
  constructor
  · intro i size' hm
    rcases List.mem_cons.mp hm with he | hm
    · cases he
    · exact h.inside i size' hm
  · intro _ size' _
    exact blocksRequired_enough size'
  · refine List.pairwise_cons.mpr ⟨?_, h.apart⟩
    intro hr hm
    obtain ⟨p, size'⟩ := hr
    cases p with
    | slab => trivial
    | heap address' => exact fun he => hfresh _ hm (he ▸ rfl)
  · intro i size' hm
    rcases List.mem_cons.mp hm with he | hm
    · cases he
    · exact h.first i size' hm
  · intro i size' j hm
    rcases List.mem_cons.mp hm with he | hm
    · cases he
    · exact h.following i size' j hm
  · intro j hj hnot
    exact h.free j hj (fun x hm => hnot x (List.mem_cons_of_mem _ hm))

theorem deallocate_slab {b : InUse n} (h : Consistent s)
    (hm : (.slab i, size) ∈ s.live) (hb : ∀ j, j < n →
      b[j]? = if i ≤ j ∧ j < i + blocksRequired size then some 0 else s.inUse[j]?) :
    Consistent { inUse := b, live := s.live.filter (·.1 ≠ .slab i) } := by
  have hpos := blocksRequired_pos size
  have hin := h.inside i size hm
  have hmem : ∀ x, x ∈ s.live.filter (·.1 ≠ .slab i) ↔ x ∈ s.live ∧ x.1 ≠ .slab i := by
    simp
  -- The slots of the other allocations keep their bytes.
  have hother : ∀ j x, x ∈ s.live → x.1 ≠ .slab i → Covers j x → b[j]? = s.inUse[j]? := by
    intro j x hx hne hj
    by_cases hlt : j < n
    · rw [hb j hlt, if_neg]
      intro hc
      have ha := h.apart.forall hm hx (fun he => hne (he ▸ rfl))
      obtain ⟨p, size'⟩ := x
      cases p with
      | heap => cases hj
      | slab k =>
        obtain ⟨hle, hlt'⟩ := hj
        have ha' : i + blocksRequired size ≤ k ∨ k + blocksRequired size' ≤ i := ha
        omega
    · simp [hlt]
  constructor
  · intro j size' hj
    exact h.inside j size' ((hmem _).mp hj).1
  · intro j size' _
    exact blocksRequired_enough size'
  · exact h.apart.filter _
  · intro j size' hj
    obtain ⟨hj, hne⟩ := (hmem _).mp hj
    have hpos' := blocksRequired_pos size'
    rw [hother j _ hj hne ⟨Nat.le_refl j, by omega⟩]
    exact h.first j size' hj
  · intro j size' k hj hlt hlt'
    obtain ⟨hj, hne⟩ := (hmem _).mp hj
    rw [hother k _ hj hne ⟨Nat.le_of_lt hlt, hlt'⟩]
    exact h.following j size' k hj hlt hlt'
  · intro j hj hnot
    rw [hb j hj]
    split
    · rfl
    next hout =>
      apply h.free j hj
      intro x hx hc
      by_cases he : x.1 = .slab i
      · obtain ⟨p, size'⟩ := x
        cases he
        rw [h.eq_of_pointer hx hm] at hc
        exact hout hc
      · exact hnot x ((hmem x).mpr ⟨hx, he⟩) hc

theorem deallocate_heap (h : Consistent s) :
    Consistent { s with live := s.live.filter (·.1 ≠ .heap address) } := by
  have hmem : ∀ x, x ∈ s.live.filter (·.1 ≠ .heap address) ↔
      x ∈ s.live ∧ x.1 ≠ .heap address := by
    simp
  constructor
  · intro i size hi
    exact h.inside i size ((hmem _).mp hi).1
  · intro _ size _
    exact blocksRequired_enough size
  · exact h.apart.filter _
  · intro i size hi
    exact h.first i size ((hmem _).mp hi).1
  · intro i size j hi
    exact h.following i size j ((hmem _).mp hi).1
  · intro j hj hnot
    apply h.free j hj
    intro x hx hc
    apply hnot x ((hmem x).mpr ⟨hx, ?_⟩) hc
    intro he
    obtain ⟨p, size⟩ := x
    cases he
    exact hc

end Consistent

theorem deallocate_of_slab (a : InUse n) (hi : i < n) (hj : j ≤ i) :
    a.deallocate (.slab i) j = a.fill i a[i].toNat 0 := by
  generalize hm : i - j = m
  induction m generalizing j with
  | zero =>
    have he : j = i := by omega
    subst he
    rw [InUse.deallocate, dif_pos hi, if_pos rfl]
  | succ m ih =>
    rw [InUse.deallocate, dif_pos (by omega), if_neg]
    · exact ih (by omega) (by omega)
    · intro he
      cases he
      omega

theorem deallocate_of_heap (a : InUse n) (address j : Nat) :
    a.deallocate (.heap address) j = some a := by
  generalize hm : n - j = m
  induction m generalizing j with
  | zero =>
    rw [InUse.deallocate, dif_neg (by omega)]
    rfl
  | succ m ih =>
    rw [InUse.deallocate, dif_pos (by omega), if_neg (by intro he; cases he)]
    exact ih (j + 1) (by omega)

theorem SlabOp.apply_consistent {s : SlabState n} (op : SlabOp) (hn : n < 254)
    (h : Consistent s) (hfit : op.Fits n) (hop : op.Allowed s) :
    ∃ s', op.apply s = some s' ∧ Consistent s' := by
  cases op with
  | allocate size address =>
    obtain ⟨fit, hab, hfirst⟩ := s.inUse.allocate_firstFit (by omega) address (.inr hfit)
    rw [SlabOp.apply, hab]
    refine ⟨_, rfl, ?_⟩
    cases fit with
    | some i => exact h.allocate_slab hn hfirst.1
    | none => exact h.allocate_heap hop
  | deallocate p =>
    obtain ⟨size, hm⟩ := hop
    cases p with
    | heap address =>
      rw [SlabOp.apply, deallocate_of_heap]
      exact ⟨_, rfl, h.deallocate_heap⟩
    | slab i =>
      have hin := h.inside i size hm
      have hpos := blocksRequired_pos size
      have hi : i < n := by omega
      have hfirst := h.first i size hm
      rw [Vector.getElem?_eq_getElem hi] at hfirst
      have hk : s.inUse[i].toNat = blocksRequired size := by
        rw [Option.some.inj hfirst, UInt8.toNat_ofNat', Nat.mod_eq_of_lt (by omega)]
      obtain ⟨b, hb, hget⟩ := s.inUse.fill_eq hin 0
      rw [SlabOp.apply, deallocate_of_slab _ hi (Nat.zero_le i), hk, hb]
      exact ⟨_, rfl, h.deallocate_slab hm hget⟩

theorem SlabStep.consistent {s s' : SlabState n} (hn : n < 254) (h : Consistent s)
    (hs : SlabStep n s s') : Consistent s' := by
  obtain ⟨op, hfit, hop, hs⟩ := hs
  obtain ⟨s'', hs'', h'⟩ := op.apply_consistent hn h hfit hop
  rw [hs] at hs''
  cases hs''
  exact h'

/-- In every run of calls whose sizes fit, the occupancy encodes the live allocations, no call
leaves the array, and with no live allocation every slot is free. -/
theorem slab_consistent (hn : n < 254) {s : SlabState n}
    (h : ReflTransGen (SlabStep n) { inUse := fresh n } s) :
    Consistent s ∧ (s.live = [] → ∀ j, j < n → s.inUse[j]? = some 0) ∧
      ∀ op : SlabOp, op.Fits n → op.Allowed s → ∃ s', op.apply s = some s' := by
  have hc : Consistent s := by
    induction h with
    | refl => exact Consistent.fresh n
    | tail _ hs ih => exact hs.consistent hn ih
  refine ⟨hc, ?_, ?_⟩
  · intro hnil j hj
    apply hc.free j hj
    intro x hx
    rw [hnil] at hx
    cases hx
  · intro op hfit hop
    obtain ⟨s', hs', _⟩ := op.apply_consistent hn hc hfit hop
    exact ⟨s', hs'⟩

def twoSlotsUsed : SlabState 4 := { inUse := #v[2, 255, 0, 0], live := [(.slab 0, 300)] }

theorem two_slots_used_consistent : Consistent twoSlotsUsed ∧
    (twoSlotsUsed.live = [] → ∀ j, j < 4 → twoSlotsUsed.inUse[j]? = some 0) ∧
      ∀ op : SlabOp, op.Fits 4 → op.Allowed twoSlotsUsed →
        ∃ s', op.apply twoSlotsUsed = some s' := by
  apply slab_consistent (by decide)
  apply ReflTransGen.single
  refine ⟨.allocate 300 0, (by decide : 2 ≤ 4), fun _ hx => (by cases hx), ?_⟩
  rw [SlabOp.apply, InUse.allocate, if_neg (by decide), InUse.allocateMultiple]
  rfl

end CppAlls
