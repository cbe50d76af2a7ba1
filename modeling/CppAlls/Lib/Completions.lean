namespace Completions
set_option autoImplicit true

/-- The operations of a kind that are not done: begun and not completed, or completed with a
handler that has not run. -/
def underWay (p : ω → Bool) (outstanding : List ω) (queued : List (ω × ρ)) : Nat :=
  outstanding.countP p + queued.countP (fun x => p x.1)

section Steps

variable {ω ρ : Type} {p : ω → Bool} {outstanding : List ω} {queued : List (ω × ρ)}

theorem underWay_begin (op : ω) : underWay p (outstanding ++ [op]) queued =
    underWay p outstanding queued + if p op then 1 else 0 := by
  rw [underWay, underWay, List.countP_append, List.countP_singleton, Nat.add_right_comm]

/-- A completion moves an operation and ends none. -/
theorem underWay_complete [BEq ω] [LawfulBEq ω] (h : op ∈ outstanding) (r : ρ) :
    underWay p (outstanding.erase op) (queued ++ [(op, r)]) = underWay p outstanding queued := by
  rw [underWay, underWay, (List.perm_cons_erase h).countP_eq, List.countP_cons,
    List.countP_append, List.countP_singleton, Nat.add_right_comm, Nat.add_assoc]

theorem underWay_take [BEq (ω × ρ)] [LawfulBEq (ω × ρ)] (h : x ∈ queued) :
    underWay p outstanding queued =
      underWay p outstanding (queued.erase x) + if p x.1 then 1 else 0 := by
  rw [underWay, underWay, (List.perm_cons_erase h).countP_eq, List.countP_cons, Nat.add_assoc]

theorem underWay_eq_zero (hout : ∀ op ∈ outstanding, p op = false)
    (hqueued : ∀ x ∈ queued, p x.1 = false) : underWay p outstanding queued = 0 := by
  rw [underWay, Nat.add_eq_zero_iff, List.countP_eq_zero, List.countP_eq_zero]
  constructor
  · intro op hop
    rw [hout op hop]
    exact Bool.false_ne_true
  · intro x hx
    rw [hqueued x hx]
    exact Bool.false_ne_true

end Steps

end Completions
