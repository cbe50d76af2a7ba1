import CppAlls.Core.Buffers
import Mathlib.Data.List.Pairwise
import Mathlib.Logic.Relation

namespace CppAlls
set_option autoImplicit true

/-- The array `in_use_` of an allocator with `n` slots. -/
abbrev InUse (n : Nat) := Vector UInt8 n

/-- A slot of the slab, or an address that `operator new` returned. -/
inductive Pointer where
  | slab (i : Nat)
  | heap (address : Nat)
deriving DecidableEq, Repr

def storagesMinSize : Nat := 256

def blocksRequired (size : Nat) : Nat := size / (storagesMinSize - 1) + 1

namespace InUse

def fresh (n : Nat) : InUse n := Vector.replicate n 0

/-- A write to an element; outside of the array it is undefined (`none`). -/
def write (a : InUse n) (i : Nat) (x : UInt8) : Option (InUse n) :=
  if h : i < n then some (a.set i x) else none

def fill (a : InUse n) (first count : Nat) (x : UInt8) : Option (InUse n) :=
  if first + count ≤ n then
    some (Vector.ofFn fun j => if first ≤ j ∧ j < first + count then x else a[j])
  else none

/-- The scan for `more` further free blocks behind the first `free` ones. -/
def freeBlocks (a : InUse n) (i : Nat) : (more free : Nat) → Option Nat
  | 0, free => some free
  | more + 1, free =>
    match a[i + free]? with
    | none => none
    | some used => if used ≠ 0 then some free else freeBlocks a i more (free + 1)

/-- The first byte of an allocation holds its length, the others the largest value. -/
def occupy (a : InUse n) (i blocks : Nat) : Option (InUse n) := do
  let a ← a.write i (UInt8.ofNat blocks)
  a.fill (i + 1) (blocks - 1) 255

/-- The loop from slot `i` on; `address` is what `operator new` would return. -/
def allocateMultiple (a : InUse n) (blocks address i : Nat) : Option (Pointer × InUse n) :=
  if i ≤ subSize n blocks then
    if h : i < n then
      if a[i] ≠ 0 then allocateMultiple a blocks address (i + 1)
      else
        match freeBlocks a i (blocks - 1) 1 with
        | none => none
        | some free =>
          if free ≠ blocks then allocateMultiple a blocks address (i + free + 1)
          else do
            let a ← a.occupy i blocks
            return (.slab i, a)
    else none
  else return (.heap address, a)
termination_by n - i

def allocateSingle (a : InUse n) (address i : Nat) : Option (Pointer × InUse n) :=
  if h : i < n then
    if a[i] = 0 then do
      let a ← a.write i 1
      return (.slab i, a)
    else allocateSingle a address (i + 1)
  else return (.heap address, a)
termination_by n - i

def allocate (a : InUse n) (size address : Nat) : Option (Pointer × InUse n) :=
  if blocksRequired size = 1 then a.allocateSingle address 0
  else a.allocateMultiple (blocksRequired size) address 0

/-- The loop from slot `i` on; a pointer that is no slot goes to `operator delete`. -/
def deallocate (a : InUse n) (p : Pointer) (i : Nat) : Option (InUse n) :=
  if h : i < n then
    if p = .slab i then a.fill i a[i].toNat 0
    else a.deallocate p (i + 1)
  else return a
termination_by n - i

def FreeRun (a : InUse n) (i k : Nat) : Prop :=
  i + k ≤ n ∧ ∀ j, i ≤ j → j < i + k → a[j]? = some 0

def mark (a : InUse n) (i k : Nat) : InUse n :=
  Vector.ofFn fun j => if j = i then UInt8.ofNat k else if i < j ∧ j < i + k then 255 else a[j]

theorem ofFn_getElem? (f : Fin n → UInt8) (h : j < n) :
    (Vector.ofFn f : InUse n)[j]? = some (f ⟨j, h⟩) := by
  rw [Vector.getElem?_ofFn, dif_pos h]

theorem ext_getElem? {a b : InUse n} (h : ∀ j, j < n → a[j]? = b[j]?) : a = b := by
  apply Vector.ext
  intro j hj
  have he := h j hj
  rw [Vector.getElem?_eq_getElem hj, Vector.getElem?_eq_getElem hj] at he
  exact Option.some.inj he

theorem mark_getElem? (a : InUse n) (i k : Nat) (h : j < n) : (a.mark i k)[j]? =
    if j = i then some (UInt8.ofNat k) else if i < j ∧ j < i + k then some 255 else a[j]? := by
  rw [mark, ofFn_getElem? _ h, Vector.getElem?_eq_getElem h, apply_ite some, apply_ite some]
  rfl

theorem fill_eq (a : InUse n) (h : first + count ≤ n) (x : UInt8) : ∃ b,
    a.fill first count x = some b ∧ ∀ j, j < n →
      b[j]? = if first ≤ j ∧ j < first + count then some x else a[j]? := by
  refine ⟨_, if_pos h, ?_⟩
  intro j hj
  rw [ofFn_getElem? _ hj, Vector.getElem?_eq_getElem hj, apply_ite some]
  rfl

theorem occupy_eq (a : InUse n) (h : i + k ≤ n) (hk : 0 < k) :
    a.occupy i k = some (a.mark i k) := by
  have hi : i < n := by omega
  have hfill : i + 1 + (k - 1) ≤ n := by omega
  obtain ⟨b, hb, hget⟩ := fill_eq (a.set i (UInt8.ofNat k)) hfill 255
  rw [occupy, write, dif_pos hi]
  refine hb.trans (congrArg some (ext_getElem? ?_))
  intro j hj
  have hiff : i + 1 ≤ j ∧ j < i + 1 + (k - 1) ↔ i < j ∧ j < i + k := by omega
  rw [hget j hj, mark_getElem? _ _ _ hj, Vector.getElem?_set, if_congr hiff rfl rfl]
  by_cases he : j = i
  · rw [if_neg (by omega), if_pos he, if_pos he.symm]
  · have hne : ¬ i = j := fun h => he h.symm
    rw [if_neg he, if_neg hne]

theorem write_one (a : InUse n) (h : i < n) : a.write i 1 = some (a.mark i 1) := by
  rw [write, dif_pos h]
  refine congrArg some (ext_getElem? ?_)
  intro j hj
  rw [mark_getElem? _ _ _ hj, Vector.getElem?_set]
  by_cases he : j = i
  · rw [if_pos he, if_pos he.symm]
    rfl
  · have hne : ¬ i = j := fun h => he h.symm
    rw [if_neg he, if_neg hne, if_neg (by omega)]

/-- The scan stops at the end of the array, at a used slot or with enough free ones. -/
theorem freeBlocks_cases (a : InUse n) (i more free : Nat) :
    (a.freeBlocks i more free = none ∧ n < i + free + more) ∨
    ∃ f, a.freeBlocks i more free = some f ∧ free ≤ f ∧ f ≤ free + more ∧
      (∀ j, i + free ≤ j → j < i + f → a[j]? = some 0) ∧
      (f < free + more → i + f < n ∧ a[i + f]? ≠ some 0) := by
  induction more generalizing free with
  | zero =>
    refine .inr ⟨free, rfl, Nat.le_refl _, Nat.le_refl _, ?_, ?_⟩
    · omega
    · omega
  | succ more ih =>
    simp only [freeBlocks]
    cases hr : a[i + free]? with
    | none =>
      have hle : n ≤ i + free := by simpa using hr
      exact .inl ⟨rfl, by omega⟩
    | some used =>
      obtain ⟨hlt, _⟩ := Vector.getElem?_eq_some_iff.mp hr
      by_cases hu : used = 0
      · simp only [ne_eq, hu, not_true_eq_false, ↓reduceIte]
        rcases ih (free + 1) with ⟨hn, hlt'⟩ | ⟨f, hf, hle, hle', hz, hstop⟩
        · exact .inl ⟨hn, by omega⟩
        · refine .inr ⟨f, hf, by omega, by omega, ?_, ?_⟩
          · intro j hj hj'
            by_cases he : j = i + free
            · rw [he, hr, hu]
            · exact hz j (by omega) hj'
          · intro hlt'
            exact hstop (by omega)
      · simp only [ne_eq, hu, not_false_eq_true, ↓reduceIte]
        refine .inr ⟨free, rfl, Nat.le_refl _, by omega, by omega, ?_⟩
        intro _
        refine ⟨hlt, ?_⟩
        rw [hr]
        exact fun he => hu (Option.some.inj he)

/-- The first slot from which `k` slots are free, or no slot at all. -/
def FirstFit (a : InUse n) (k : Nat) : Option Nat → Prop
  | some i => a.FreeRun i k ∧ ∀ j, j < i → ¬ a.FreeRun j k
  | none => ∀ i, ¬ a.FreeRun i k

def fitted (a : InUse n) (k address : Nat) : Option Nat → Pointer × InUse n
  | some i => (.slab i, a.mark i k)
  | none => (.heap address, a)

theorem not_freeRun_of_used {a : InUse n} (hu : a[u]? ≠ some 0) (hj : j ≤ u) (hk : u < j + k) :
    ¬ a.FreeRun j k :=
  fun h => hu (h.2 u hj hk)

/-- The loop skips no usable run: behind a short run of free slots stands a used one. -/
theorem allocateMultiple_firstFit (a : InUse n) (hk : 0 < k) (hkn : k ≤ n) (hn : n < 2 ^ 64)
    (address : Nat) (i : Nat) (hi : ∀ j, j < i → ¬ a.FreeRun j k) : ∃ fit,
    a.allocateMultiple k address i = some (a.fitted k address fit) ∧ a.FirstFit k fit := by
  generalize hm : n + 1 - i = m
  induction m using Nat.strongRecOn generalizing i with
  | ind m ih =>
    rw [allocateMultiple, subSize_eq hkn hn]
    by_cases hle : i ≤ n - k
    · have hlt : i < n := by omega
      rw [if_pos hle, dif_pos hlt]
      by_cases hused : a[i] ≠ 0
      · have hu : a[i]? ≠ some 0 := by
          rw [Vector.getElem?_eq_getElem hlt]
          exact fun he => hused (Option.some.inj he)
        rw [if_pos hused]
        apply ih (n + 1 - (i + 1)) (by omega) (i + 1) _ rfl
        intro j hj
        by_cases he : j < i
        · exact hi j he
        · exact not_freeRun_of_used hu (by omega) (by omega)
      · have hfree : a[i]? = some 0 := by
          rw [Vector.getElem?_eq_getElem hlt, Decidable.of_not_not hused]
        rw [if_neg hused]
        rcases a.freeBlocks_cases i (k - 1) 1 with ⟨_, hout⟩ | ⟨f, hf, hf1, hfk, hz, hstop⟩
        · omega
        · rw [hf]
          by_cases hne : f ≠ k
          · obtain ⟨_, hu⟩ := hstop (by omega)
            simp only [if_pos hne]
            apply ih (n + 1 - (i + f + 1)) (by omega) (i + f + 1) _ rfl
            intro j hj
            by_cases he : j < i
            · exact hi j he
            · exact not_freeRun_of_used hu (by omega) (by omega)
          · have hfk' : f = k := Decidable.of_not_not hne
            subst hfk'
            have hrun : a.FreeRun i f := by
              refine ⟨by omega, ?_⟩
              intro j hj hj'
              by_cases he : j = i
              · rw [he, hfree]
              · exact hz j (by omega) hj'
            refine ⟨some i, ?_, hrun, hi⟩
            simp only [if_neg hne, a.occupy_eq hrun.1 hk]
            rfl
    · rw [if_neg hle]
      refine ⟨none, rfl, ?_⟩
      intro j hj
      by_cases he : j < i
      · exact hi j he hj
      · have hin := hj.1
        omega

theorem allocateSingle_firstFit (a : InUse n) (address i : Nat)
    (hi : ∀ j, j < i → ¬ a.FreeRun j 1) : ∃ fit,
    a.allocateSingle address i = some (a.fitted 1 address fit) ∧ a.FirstFit 1 fit := by
  generalize hm : n - i = m
  induction m generalizing i with
  | zero =>
    have hge : ¬ i < n := by omega
    rw [allocateSingle, dif_neg hge]
    refine ⟨none, rfl, ?_⟩
    intro j hj
    have hin := hj.1
    exact hi j (by omega) hj
  | succ m ih =>
    have hlt : i < n := by omega
    rw [allocateSingle, dif_pos hlt]
    by_cases hfree : a[i] = 0
    · rw [if_pos hfree, a.write_one hlt]
      refine ⟨some i, rfl, ⟨hlt, ?_⟩, hi⟩
      intro j hj hj'
      have he : j = i := by omega
      rw [he, Vector.getElem?_eq_getElem hlt, hfree]
    · rw [if_neg hfree]
      apply ih (i + 1) _ (by omega)
      intro j hj
      by_cases he : j < i
      · exact hi j he
      · apply not_freeRun_of_used (u := i) _ (by omega) (by omega)
        rw [Vector.getElem?_eq_getElem hlt]
        exact fun he => hfree (Option.some.inj he)

/-- An allocation that needs no more blocks than there are takes the first fit. -/
theorem allocate_firstFit (a : InUse n) (hn : n < 2 ^ 64) (address : Nat)
    (h : blocksRequired size = 1 ∨ blocksRequired size ≤ n) : ∃ fit,
    a.allocate size address = some (a.fitted (blocksRequired size) address fit) ∧
      a.FirstFit (blocksRequired size) fit := by
  have hnone : ∀ j, j < 0 → ¬ a.FreeRun j (blocksRequired size) := by omega
  rw [allocate]
  by_cases h1 : blocksRequired size = 1
  · rw [if_pos h1]
    rw [h1] at hnone ⊢
    exact a.allocateSingle_firstFit address 0 hnone
  · rw [if_neg h1]
    exact a.allocateMultiple_firstFit (Nat.succ_pos _) (h.resolve_left h1) hn address 0 hnone

instance decidableFreeRun (a : InUse n) (i k : Nat) : Decidable (a.FreeRun i k) :=
  inferInstanceAs (Decidable (i + k ≤ n ∧ ∀ j, i ≤ j → j < i + k → a[j]? = some 0))

/-- Plain first fit: each slot in turn is tried as the start of a free run. -/
def plainFirstFit (a : InUse n) (k : Nat) : Option Nat :=
  (List.range n).find? fun i => decide (a.FreeRun i k)

theorem FirstFit.eq_plainFirstFit {a : InUse n} (h : a.FirstFit k fit) (hk : 0 < k) :
    a.plainFirstFit k = fit := by
  cases fit with
  | none =>
    rw [plainFirstFit, List.find?_range_eq_none]
    intro i _
    simp only [h i, decide_false, Bool.not_false]
  | some i =>
    obtain ⟨hrun, hleast⟩ := h
    rw [plainFirstFit, List.find?_range_eq_some]
    refine ⟨decide_eq_true hrun, ?_, ?_⟩
    · have hin := hrun.1
      rw [List.mem_range]
      omega
    · intro j hj
      simp only [hleast j hj, decide_false, Bool.not_false]

theorem allocateMultiple_plainFirstFit (a : InUse n) (hk : 0 < k) (hkn : k ≤ n) (hn : n < 2 ^ 64)
    (address : Nat) :
    a.allocateMultiple k address 0 = some (a.fitted k address (a.plainFirstFit k)) := by
  obtain ⟨fit, hab, hfit⟩ := a.allocateMultiple_firstFit hk hkn hn address 0 (by omega)
  rw [hab, hfit.eq_plainFirstFit hk]

theorem allocateSingle_plainFirstFit (a : InUse n) (address : Nat) :
    a.allocateSingle address 0 = some (a.fitted 1 address (a.plainFirstFit 1)) := by
  obtain ⟨fit, hab, hfit⟩ := a.allocateSingle_firstFit address 0 (by omega)
  rw [hab, hfit.eq_plainFirstFit Nat.one_pos]

/-- The search that jumps behind a failed run agrees with plain first fit, whatever is in use, and
the search for one slot with the one for a run of length one. -/
theorem allocate_eq_plainFirstFit (a : InUse n) (hn : n < 254) (size address : Nat)
    (h : blocksRequired size ≤ n) :
    a.allocate size address =
        some (a.fitted (blocksRequired size) address (a.plainFirstFit (blocksRequired size))) ∧
      a.allocateSingle address 0 = a.allocateMultiple 1 address 0 := by
  have hpos : 0 < blocksRequired size := Nat.succ_pos _
  have hlt : n < 2 ^ 64 := by omega
  constructor
  · obtain ⟨fit, hab, hfit⟩ := a.allocate_firstFit hlt address (.inr h)
    rw [hab, hfit.eq_plainFirstFit hpos]
  · rw [allocateSingle_plainFirstFit,
      allocateMultiple_plainFirstFit a Nat.one_pos (Nat.le_trans hpos h) hlt]

def secondSlotUsed : InUse 4 := #v[0, 1, 0, 0]

/-- The run from slot 0 is too short, and the next one starts where the jump lands. -/
theorem third_slot_is_first_fit :
    secondSlotUsed.allocate 300 7 =
        some (secondSlotUsed.fitted 2 7 (secondSlotUsed.plainFirstFit 2)) ∧
      secondSlotUsed.allocateSingle 7 0 = secondSlotUsed.allocateMultiple 1 7 0 :=
  allocate_eq_plainFirstFit secondSlotUsed (by decide) 300 7 (by decide)

example : secondSlotUsed.plainFirstFit 2 = some 2 := by decide

/-- With more blocks than slots the bound of the loop wraps around and the loop runs out of the
array. -/
theorem allocateMultiple_out_of_bounds (a : InUse n) (hk : n < k) (hk' : k < 2 ^ 63)
    (address : Nat) (hi : i ≤ n) : a.allocateMultiple k address i = none := by
  generalize hm : n - i = m
  induction m using Nat.strongRecOn generalizing i with
  | ind m ih =>
    have hbound : i ≤ subSize n k := by
      rw [subSize, Nat.mod_eq_of_lt (by omega : k < 2 ^ 64)]
      omega
    rw [allocateMultiple, if_pos hbound]
    by_cases hlt : i < n
    · rw [dif_pos hlt]
      by_cases hused : a[i] ≠ 0
      · rw [if_pos hused]
        exact ih (n - (i + 1)) (by omega) (by omega) rfl
      · rw [if_neg hused]
        rcases a.freeBlocks_cases i (k - 1) 1 with ⟨hf, _⟩ | ⟨f, hf, hf1, hfk, hz, hstop⟩
        · rw [hf]
        · rw [hf]
          have hne : f ≠ k := by
            intro he
            have hlast := hz n (by omega) (by omega)
            simp at hlast
          simp only [if_pos hne]
          obtain ⟨hin, _⟩ := hstop (by omega)
          exact ih (n - (i + f + 1)) (by omega) (by omega) rfl
    · rw [dif_neg hlt]

/-- The allocation stays inside the array, and goes to the heap and changes nothing when the
request needs more blocks than there are, or than are free in a row. -/
def SafeAllocation (a : InUse n) (size address : Nat) : Prop :=
  ∃ p b, a.allocate size address = some (p, b) ∧
    (n < blocksRequired size ∨ a.FirstFit (blocksRequired size) none → p = .heap address ∧ b = a)

/-- An allocation is safe exactly when it needs one block or no more blocks than there are. -/
theorem allocate_safe_iff (a : InUse n) (hn : n < 254) (hs : size < 2 ^ 64) (address : Nat) :
    a.SafeAllocation size address ↔ blocksRequired size = 1 ∨ blocksRequired size ≤ n := by
  constructor
  · intro ha
    obtain ⟨p, b, hab, _⟩ := ha
    by_cases h : blocksRequired size = 1 ∨ blocksRequired size ≤ n
    · exact h
    · have hk : blocksRequired size < 2 ^ 63 := by
        simp only [blocksRequired, storagesMinSize]
        omega
      rw [allocate, if_neg (fun he => h (.inl he)),
        a.allocateMultiple_out_of_bounds (by omega) hk address (Nat.zero_le n)] at hab
      cases hab
  · intro h
    obtain ⟨fit, hab, hfit⟩ := a.allocate_firstFit (by omega) address h
    refine ⟨_, _, hab, ?_⟩
    intro hnone
    cases fit with
    | none => exact ⟨rfl, rfl⟩
    | some i =>
      rcases hnone with hlt | hnone
      · have hin := hfit.1.1
        omega
      · exact absurd hfit.1 (hnone i)

theorem two_blocks_of_four_safe :
    (fresh 4).SafeAllocation 300 0 ↔ blocksRequired 300 = 1 ∨ blocksRequired 300 ≤ 4 :=
  allocate_safe_iff (fresh 4) (by decide) (by decide) 0

theorem five_blocks_out_of_bounds : ¬ (fresh 4).SafeAllocation 1020 0 := by
  intro h
  obtain ⟨p, b, hab, _⟩ := h
  have hnone : (fresh 4).allocate 1020 0 = none :=
    (fresh 4).allocateMultiple_out_of_bounds (by decide) (by decide) 0 (Nat.zero_le 4)
  rw [hnone] at hab
  cases hab

end InUse

end CppAlls
