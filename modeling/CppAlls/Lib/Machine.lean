namespace Machines
set_option autoImplicit true

/-- A system that answers each enabled input by a step. -/
structure Machine (σ ι : Type) where
  init : σ
  Enabled : σ → ι → Prop
  next : σ → ι → σ

namespace Machine

variable {σ ι : Type}

/-- The states of the runs in which every input is allowed where it comes. -/
inductive Reachable (M : Machine σ ι) (Allowed : σ → ι → Prop) : σ → Prop where
  | init : Reachable M Allowed M.init
  | step : Reachable M Allowed s → M.Enabled s i → Allowed s i → Reachable M Allowed (M.next s i)

/-- What holds at the start and is kept by every step holds in every reachable state. -/
theorem Reachable.invariant {M : Machine σ ι} {Allowed : σ → ι → Prop} {I : σ → Prop}
    (h : M.Reachable Allowed s) (hinit : I M.init)
    (hstep : ∀ s i, I s → M.Enabled s i → Allowed s i → I (M.next s i)) : I s := by
  induction h with
  | init => exact hinit
  | step _ he ha ih => exact hstep _ _ ih he ha

/-- Each of the inputs is enabled and allowed in the state in which it comes. -/
def Follows (M : Machine σ ι) (Allowed : σ → ι → Prop) : σ → List ι → Prop
  | _, [] => True
  | s, i :: is => (M.Enabled s i ∧ Allowed s i) ∧ Follows M Allowed (M.next s i) is

instance decidableFollows (M : Machine σ ι) (Allowed : σ → ι → Prop)
    [∀ s i, Decidable (M.Enabled s i)] [∀ s i, Decidable (Allowed s i)] :
    ∀ s is, Decidable (M.Follows Allowed s is)
  | _, [] => .isTrue trivial
  | s, i :: is =>
    have := decidableFollows M Allowed (M.next s i) is
    inferInstanceAs (Decidable ((M.Enabled s i ∧ Allowed s i) ∧ _))

theorem Reachable.follow {M : Machine σ ι} {Allowed : σ → ι → Prop} (h : M.Reachable Allowed s)
    (hf : M.Follows Allowed s is) : M.Reachable Allowed (is.foldl M.next s) := by
  induction is generalizing s with
  | nil => exact h
  | cons i is ih => exact ih (h.step hf.1.1 hf.1.2) hf.2

theorem Follows.invariant {M : Machine σ ι} {Allowed : σ → ι → Prop} {I : σ → Prop}
    (hf : M.Follows Allowed s is) (hs : I s)
    (hstep : ∀ s i, I s → M.Enabled s i → Allowed s i → I (M.next s i)) :
    I (is.foldl M.next s) := by
  induction is generalizing s with
  | nil => exact hs
  | cons i is ih => exact ih hf.2 (hstep s i hs hf.1.1 hf.1.2)

/-- Two conditions that an invariant makes the same hold of the same runs. -/
theorem follows_congr {M : Machine σ ι} {A B : σ → ι → Prop} {I : σ → Prop}
    (hiff : ∀ s i, I s → (A s i ↔ B s i))
    (hstep : ∀ s i, I s → M.Enabled s i → B s i → I (M.next s i)) (hs : I s) (is : List ι) :
    M.Follows A s is ↔ M.Follows B s is := by
  induction is generalizing s with
  | nil => rfl
  | cons i is ih =>
    constructor
    · rintro ⟨⟨he, ha⟩, hrest⟩
      have hb := (hiff s i hs).mp ha
      exact ⟨⟨he, hb⟩, (ih (hstep s i hs he hb)).mp hrest⟩
    · rintro ⟨⟨he, hb⟩, hrest⟩
      exact ⟨⟨he, (hiff s i hs).mpr hb⟩, (ih (hstep s i hs he hb)).mpr hrest⟩

/-- Where each step takes one from a measure, a run takes as many as it has steps. -/
theorem Follows.measured {M : Machine σ ι} {Allowed : σ → ι → Prop} {I : σ → Prop} (size : σ → Nat)
    (hstep : ∀ s i, I s → M.Enabled s i → Allowed s i →
      I (M.next s i) ∧ size (M.next s i) + 1 = size s)
    (hs : I s) (hf : M.Follows Allowed s is) :
    I (is.foldl M.next s) ∧ is.length + size (is.foldl M.next s) = size s := by
  induction is generalizing s with
  | nil => exact ⟨hs, Nat.zero_add _⟩
  | cons i is ih =>
    obtain ⟨⟨he, ha⟩, hrest⟩ := hf
    obtain ⟨hs', hsize⟩ := hstep s i hs he ha
    obtain ⟨hend, hlength⟩ := ih hs' hrest
    refine ⟨hend, ?_⟩
    rw [List.length_cons, List.foldl_cons, ← hsize, ← hlength]
    exact Nat.add_right_comm _ 1 _

/-- The machine with a variable beside its state that the steps write and do not read. -/
def withHistory (M : Machine σ ι) (start : γ) (note : σ → ι → γ → γ) : Machine (σ × γ) ι where
  init := (M.init, start)
  Enabled x i := M.Enabled x.1 i
  next x i := (M.next x.1 i, note x.1 i x.2)

end Machine

end Machines
