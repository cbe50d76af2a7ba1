import CppAlls.Lib.Interaction
import Mathlib.Data.List.Forall2

namespace Sessions
set_option autoImplicit true

open Relation Interaction List

/-- Systems side by side, of which one makes a step. -/
inductive OneMoves (r : σ → σ → Prop) : List σ → List σ → Prop where
  | head : r x y → OneMoves r (x :: xs) (y :: xs)
  | tail : OneMoves r xs ys → OneMoves r (x :: xs) (x :: ys)

section Relations

variable {σ : Type} {r : σ → σ → Prop}

theorem OneMoves.forall₂ (h : OneMoves r xs ys) : Forall₂ (ReflTransGen r) xs ys := by
  induction h with
  | @head x y xs hxy => exact .cons (.single hxy) (forall₂_same.mpr fun _ _ => .refl)
  | tail _ ih => exact .cons .refl ih

theorem forall₂_trans (h : Forall₂ (ReflTransGen r) xs ys)
    (h' : Forall₂ (ReflTransGen r) ys zs) : Forall₂ (ReflTransGen r) xs zs := by
  induction h generalizing zs with
  | nil => exact h'
  | cons hxy _ ih =>
    cases h' with
    | cons hyz hs => exact .cons (hxy.trans hyz) (ih hs)

theorem heads_run (h : ReflTransGen r x y) : ReflTransGen (OneMoves r) (x :: xs) (y :: xs) := by
  induction h with
  | refl => exact .refl
  | tail _ hst ih => exact .tail ih (.head hst)

theorem tails_run (h : ReflTransGen (OneMoves r) xs ys) :
    ReflTransGen (OneMoves r) (x :: xs) (x :: ys) := by
  induction h with
  | refl => exact .refl
  | tail _ hst ih => exact .tail ih (.tail hst)

/-- The interleaved runs are the runs of the single systems, in any order. -/
theorem oneMoves_runs_iff :
    ReflTransGen (OneMoves r) xs ys ↔ Forall₂ (ReflTransGen r) xs ys := by
  constructor
  · intro h
    induction h with
    | refl => exact forall₂_same.mpr fun _ _ => .refl
    | tail _ hst ih => exact forall₂_trans ih hst.forall₂
  · intro h
    induction h with
    | nil => exact .refl
    | cons hxy _ ih => exact (heads_run hxy).trans (tails_run ih)

theorem acc_cons (hx : Acc (fun y x => r x y) x) (hxs : Acc (fun ys xs => OneMoves r xs ys) xs) :
    Acc (fun ys xs => OneMoves r xs ys) (x :: xs) := by
  induction hx generalizing xs with
  | intro x _ ihx =>
    induction hxs with
    | intro xs hxs ihxs =>
      apply Acc.intro
      intro zs hzs
      cases hzs with
      | head hxy => exact ihx _ hxy (.intro xs hxs)
      | tail hst => exact ihxs _ hst

/-- Systems that all come to an end do so side by side. -/
theorem acc_oneMoves (h : ∀ x ∈ xs, Acc (fun y x => r x y) x) :
    Acc (fun ys xs => OneMoves r xs ys) xs := by
  induction xs with
  | nil =>
    apply Acc.intro
    intro zs hzs
    cases hzs
  | cons x xs ih =>
    obtain ⟨hx, hxs⟩ := List.forall_mem_cons.mp h
    exact acc_cons hx (ih hxs)

end Relations

section Programs

variable {Op : Type} {Res : Op → Type} {α κ S : Type}

/-- A program in its surroundings has ended with a result that satisfies `Q`, or goes on, and its
next call satisfies `P`. -/
def OnItsWay (W : Prog.World Op Res S) (P : S → Op → Prop) (Q : α → S → Prop) :
    Prog Op Res α × S → Prop
  | (.pure a, s) => Q a s
  | (.call o _, s) => W.Live s o ∧ P s o

theorem onItsWay_of_succeeds {W : Prog.World Op Res S} {P : S → Op → Prop} {Q : α → S → Prop}
    {p : Prog Op Res α} (h : p.Succeeds W P Q s) (hs : ReflTransGen (Prog.Step W) (p, s) w) :
    OnItsWay W P Q w := by
  obtain ⟨q, t⟩ := w
  cases q with
  | pure a => exact h.result a t hs
  | call o k => exact ⟨h.live o k t hs, h.called o k t hs⟩

/-- Programs that succeed alone succeed side by side: every interleaving of them is finite, and in
each state of it each program has ended as it should, or goes on. -/
theorem succeed_sideBySide {W : Prog.World Op Res S} {P : S → Op → Prop} {Q : κ → α → S → Prop}
    {session : κ → Prog Op Res α × S}
    (h : ∀ c ∈ cs, (session c).1.Succeeds W P (Q c) (session c).2) :
    Acc (fun ys xs => OneMoves (Prog.Step W) xs ys) (cs.map session) ∧
      ∀ ws, ReflTransGen (OneMoves (Prog.Step W)) (cs.map session) ws →
        Forall₂ (fun c w => OnItsWay W P (Q c) w) cs ws := by
  constructor
  · apply acc_oneMoves
    intro x hx
    obtain ⟨c, hc, rfl⟩ := List.mem_map.mp hx
    exact (h c hc).finite
  · intro ws hruns
    have hall := oneMoves_runs_iff.mp hruns
    induction cs generalizing ws with
    | nil =>
      cases hall
      exact .nil
    | cons c cs ih =>
      obtain ⟨hc, hcs⟩ := List.forall_mem_cons.mp h
      cases hall with
      | cons hw hws =>
        exact .cons (onItsWay_of_succeeds hc hw) (ih hcs _ (oneMoves_runs_iff.mpr hws) hws)

end Programs

end Sessions
