import Mathlib.Logic.Relation

namespace Interaction
set_option autoImplicit true

open Relation

/-- A program that makes calls `o` to its surroundings and goes on with their answers. -/
inductive Prog (Op : Type) (Res : Op → Type) (α : Type) where
  | pure (a : α) : Prog Op Res α
  | call (o : Op) (k : Res o → Prog Op Res α) : Prog Op Res α

namespace Prog

variable {Op : Type} {Res : Op → Type} {α β γ S : Type}

def bind (p : Prog Op Res α) (f : α → Prog Op Res β) : Prog Op Res β :=
  match p with
  | .pure a => f a
  | .call o k => .call o (fun r => (k r).bind f)

instance : Monad (Prog Op Res) where
  pure := Prog.pure
  bind := Prog.bind

@[simp] theorem call_bind (o : Op) (k : Res o → Prog Op Res α) (f : α → Prog Op Res β) :
    (Prog.call o k >>= f) = Prog.call o (fun r => k r >>= f) := rfl

theorem bind_pure' (p : Prog Op Res α) : p.bind Prog.pure = p := by
  induction p with
  | pure a => rfl
  | call o k ih => exact congrArg (Prog.call o) (funext ih)

theorem bind_assoc' (p : Prog Op Res α) (f : α → Prog Op Res β) (g : β → Prog Op Res γ) :
    (p.bind f).bind g = p.bind (fun a => (f a).bind g) := by
  induction p with
  | pure a => rfl
  | call o k ih => exact congrArg (Prog.call o) (funext ih)

instance : LawfulMonad (Prog Op Res) :=
  .mk' _ bind_pure' (fun _ _ => rfl) bind_assoc'

/-- Answer every call by an action of another monad. -/
def interp [Monad m] (f : (o : Op) → m (Res o)) : Prog Op Res α → m α
  | .pure a => Pure.pure a
  | .call o k => f o >>= fun r => (k r).interp f

def Calls (P : Op → Prop) : Prog Op Res α → Prop
  | .pure _ => True
  | .call o k => P o ∧ ∀ r, (k r).Calls P

theorem Calls.bind {P : Op → Prop} {p : Prog Op Res α} {f : α → Prog Op Res β}
    (hp : p.Calls P) (hf : ∀ a, (f a).Calls P) : (p >>= f).Calls P := by
  induction p with
  | pure a => exact hf a
  | call o k ih => exact ⟨hp.1, fun r => ih r (hp.2 r)⟩

theorem Calls.map {P : Op → Prop} {p : Prog Op Res α} (hp : p.Calls P) (f : α → β) :
    (f <$> p).Calls P :=
  hp.bind (fun _ => trivial)

/-- The surroundings: what they may do unasked, and how they may answer a call. -/
structure World (Op : Type) (Res : Op → Type) (S : Type) where
  env : S → S → Prop
  answer : S → (o : Op) → Res o → S → Prop

def World.Stable (W : World Op Res S) (I : S → Prop) : Prop :=
  ∀ s s', I s → W.env s s' → I s'

theorem World.Stable.steps {W : World Op Res S} {I : S → Prop} (h : W.Stable I) (hs : I s)
    (he : ReflTransGen W.env s s') : I s' := by
  induction he with
  | refl => exact hs
  | tail _ he ih => exact h _ _ ih he

/-- The surroundings act only when they are called. -/
def World.Quiet (W : World Op Res S) : Prop := ∀ s s', ¬ W.env s s'

theorem World.Quiet.stable {W : World Op Res S} (h : W.Quiet) (I : S → Prop) : W.Stable I :=
  fun s s' _ he => absurd he (h s s')

theorem World.Quiet.steps {W : World Op Res S} (h : W.Quiet) (he : ReflTransGen W.env s s') :
    s' = s := by
  induction he with
  | refl => rfl
  | tail _ he _ => exact absurd he (h _ _)

variable {W : World Op Res S} {P : S → Op → Prop}

inductive Step (W : World Op Res S) : Prog Op Res α × S → Prog Op Res α × S → Prop where
  | env : W.env s s' → Step W (p, s) (p, s')
  | call : W.answer s o r s' → Step W (.call o k, s) (k r, s')

theorem Step.mono {W W' : World Op Res S} (he : ∀ s s', W.env s s' → W'.env s s')
    (ha : ∀ s o r s', W.answer s o r s' → W'.answer s o r s') {x y : Prog Op Res α × S}
    (h : Step W x y) : Step W' x y := by
  cases h with
  | env hs => exact .env (he _ _ hs)
  | call hr => exact .call (ha _ _ _ _ hr)

theorem Step.bind {p p' : Prog Op Res α} (h : Step W (p, s) (p', s')) (f : α → Prog Op Res β) :
    Step W (p >>= f, s) (p' >>= f, s') := by
  cases h with
  | env he => exact .env he
  | call hr => exact .call hr

/-- A run of the first part of a sequence goes on with one of the rest. -/
theorem Step.bind_steps {p : Prog Op Res α} {f : α → Prog Op Res β} {y : Prog Op Res β × S}
    (h : ReflTransGen (Step W) (p, s) (.pure a, s')) (hf : ReflTransGen (Step W) (f a, s') y) :
    ReflTransGen (Step W) (p >>= f, s) y := by
  generalize hx : (p, s) = x at h
  induction h using ReflTransGen.head_induction_on generalizing p s with
  | refl =>
    cases hx
    exact hf
  | @head x z hst _ ih =>
    subst hx
    obtain ⟨p', s'⟩ := z
    exact .head (hst.bind f) (ih rfl)

/-- A run of a sequence is a run of its first part and one of the rest. -/
theorem Step.bind_result {p : Prog Op Res α} {f : α → Prog Op Res β}
    (h : ReflTransGen (Step W) (p >>= f, s) (.pure b, t)) :
    ∃ a s', ReflTransGen (Step W) (p, s) (.pure a, s') ∧
      ReflTransGen (Step W) (f a, s') (.pure b, t) := by
  generalize hx : (p >>= f, s) = x at h
  induction h using ReflTransGen.head_induction_on generalizing p s with
  | refl =>
    cases p with
    | pure a =>
      refine ⟨a, s, .refl, ?_⟩
      change ReflTransGen (Step W) ((Prog.pure a >>= f), s) _
      rw [hx]
    | call o k => cases hx
  | head hst hsteps ih =>
    subst hx
    cases p with
    | pure a => exact ⟨a, s, .refl, .head hst hsteps⟩
    | call o k =>
      cases hst with
      | env he =>
        obtain ⟨a, s', hp, hf⟩ := ih rfl
        exact ⟨a, s', .head (.env he) hp, hf⟩
      | call hr =>
        obtain ⟨a, s', hp, hf⟩ := ih rfl
        exact ⟨a, s', .head (.call hr) hp, hf⟩

/-- In every run the calls satisfy `P` when they are made, and results satisfy `Q`. -/
def Wp (W : World Op Res S) (P : S → Op → Prop) :
    Prog Op Res α → (α → S → Prop) → S → Prop
  | .pure a, Q, s => ∀ s', ReflTransGen W.env s s' → Q a s'
  | .call o k, Q, s => ∀ s', ReflTransGen W.env s s' →
      P s' o ∧ ∀ r s'', W.answer s' o r s'' → (k r).Wp W P Q s''

theorem Wp.env {p : Prog Op Res α} {Q : α → S → Prop} (h : p.Wp W P Q s)
    (he : ReflTransGen W.env s s') : p.Wp W P Q s' := by
  cases p with
  | pure a => exact fun t ht => h t (he.trans ht)
  | call o k => exact fun t ht => h t (he.trans ht)

theorem Wp.mono {p : Prog Op Res α} {Q Q' : α → S → Prop} (h : p.Wp W P Q s)
    (hQ : ∀ a s, Q a s → Q' a s) : p.Wp W P Q' s := by
  induction p generalizing s with
  | pure a => exact fun s' hs => hQ _ _ (h s' hs)
  | call o k ih => exact fun s' hs => ⟨(h s' hs).1, fun r s'' hr => ih r ((h s' hs).2 r s'' hr)⟩

theorem Wp.bind {p : Prog Op Res α} {f : α → Prog Op Res β} {Q : β → S → Prop}
    (h : p.Wp W P (fun a s => (f a).Wp W P Q s) s) : (p >>= f).Wp W P Q s := by
  induction p generalizing s with
  | pure a => exact h s .refl
  | call o k ih => exact fun s' hs => ⟨(h s' hs).1, fun r s'' hr => ih r ((h s' hs).2 r s'' hr)⟩

theorem Wp.call {I : S → Prop} {o : Op} {k : Res o → Prog Op Res α} {Q : α → S → Prop}
    (hI : W.Stable I) (hs : I s) (hP : ∀ s, I s → P s o)
    (hk : ∀ s r s', I s → W.answer s o r s' → (k r).Wp W P Q s') :
    (Prog.call o k).Wp W P Q s :=
  fun _ he => ⟨hP _ (hI.steps hs he), fun r _ hr => hk _ r _ (hI.steps hs he) hr⟩

theorem Wp.step {p p' : Prog Op Res α} {Q : α → S → Prop} (h : p.Wp W P Q s)
    (hs : Step W (p, s) (p', s')) : p'.Wp W P Q s' := by
  cases hs with
  | env he => exact h.env (.single he)
  | call hr => exact (h _ .refl).2 _ _ hr

theorem Wp.steps {p p' : Prog Op Res α} {Q : α → S → Prop} (h : p.Wp W P Q s)
    (hs : ReflTransGen (Step W) (p, s) (p', s')) : p'.Wp W P Q s' := by
  generalize hc : (p', s') = c at hs
  induction hs generalizing p' s' with
  | refl => cases hc; exact h
  | @tail b c _ hst ih =>
    subst hc
    obtain ⟨q, t⟩ := b
    exact (ih rfl).step hst

theorem Wp.result {p : Prog Op Res α} {Q : α → S → Prop} (h : p.Wp W P Q s)
    (hs : ReflTransGen (Step W) (p, s) (.pure a, s')) : Q a s' :=
  h.steps hs s' .refl

theorem Wp.called {p : Prog Op Res α} {Q : α → S → Prop} {k : Res o → Prog Op Res α}
    (h : p.Wp W P Q s) (hs : ReflTransGen (Step W) (p, s) (.call o k, s')) : P s' o :=
  (h.steps hs s' .refl).1

/-- A safe program whose safe calls are all answered runs to its end. -/
theorem Wp.exists_result {p : Prog Op Res α} {Q : α → S → Prop} (h : p.Wp W P Q s)
    (hW : ∀ s o, P s o → ∃ r s', W.answer s o r s') :
    ∃ a s', ReflTransGen (Step W) (p, s) (.pure a, s') ∧ Q a s' := by
  induction p generalizing s with
  | pure a => exact ⟨a, s, .refl, h s .refl⟩
  | call o k ih =>
    obtain ⟨hP, hk⟩ := h s .refl
    obtain ⟨r, s', hr⟩ := hW s o hP
    obtain ⟨a, t, ht, hQ⟩ := ih r (hk r s' hr)
    exact ⟨a, t, .head (.call hr) ht, hQ⟩

/-- Surroundings that act only when they are called leave a result as it is. -/
theorem World.Quiet.result {a b : α} (hW : W.Quiet)
    (h : ReflTransGen (Step W) (.pure a, s) (.pure b, s')) : b = a ∧ s' = s := by
  cases h using ReflTransGen.head_induction_on with
  | refl => exact ⟨rfl, rfl⟩
  | head hst _ =>
    cases hst with
    | env he => exact absurd he (hW _ _)

/-- The surroundings cannot act for ever without being called. -/
def World.Terminates (W : World Op Res S) : Prop := ∀ s, Acc (fun t s => W.env s t) s

theorem World.Terminates.step (hW : W.Terminates) (p : Prog Op Res α) (s : S) :
    Acc (fun y x => Step W x y) (p, s) := by
  induction p generalizing s with
  | pure a =>
    induction hW s with
    | intro s _ ih =>
      apply Acc.intro
      intro hI hst
      obtain ⟨q, t⟩ := hI
      cases hst with
      | env he => exact ih t he
  | call o k ihk =>
    induction hW s with
    | intro s _ ih =>
      apply Acc.intro
      intro hx hst
      obtain ⟨q, t⟩ := hx
      cases hst with
      | env he => exact ih t he
      | call hr => exact ihk _ _

/-- A call that is answered, if need be after the surroundings have acted. -/
def World.Live (W : World Op Res S) (s : S) (o : Op) : Prop :=
  (∃ s', W.env s s') ∨ ∃ r s', W.answer s o r s'

/-- Every run is finite, none is stuck before its end, and the calls satisfy `P` when they are
made, and results `Q`. -/
structure Succeeds (W : World Op Res S) (P : S → Op → Prop) (p : Prog Op Res α)
    (Q : α → S → Prop) (s : S) : Prop where
  finite : Acc (fun y x => Step W x y) (p, s)
  live : ∀ o k s', ReflTransGen (Step W) (p, s) (.call o k, s') → W.Live s' o
  called : ∀ o k s', ReflTransGen (Step W) (p, s) (.call o k, s') → P s' o
  result : ∀ a s', ReflTransGen (Step W) (p, s) (.pure a, s') → Q a s'

theorem Wp.succeeds {p : Prog Op Res α} {Q : α → S → Prop} (hW : W.Terminates)
    (h : p.Wp W (fun s o => W.Live s o ∧ P s o) Q s) : p.Succeeds W P Q s where
  finite := hW.step p s
  live := fun _ _ _ hs => (h.called hs).1
  called := fun _ _ _ hs => (h.called hs).2
  result := fun _ _ hs => h.result hs

theorem Succeeds.exists_result {p : Prog Op Res α} {Q : α → S → Prop}
    (h : p.Succeeds W P Q s) : ∃ a s', ReflTransGen (Step W) (p, s) (.pure a, s') := by
  obtain ⟨hacc, hlive, _, _⟩ := h
  suffices ∀ x, Acc (fun y x => Step W x y) x → ReflTransGen (Step W) (p, s) x →
      ∃ a s', ReflTransGen (Step W) (p, s) (.pure a, s') from this _ hacc .refl
  intro x hx
  induction hx with
  | intro x _ ih =>
    intro hs
    obtain ⟨q, t⟩ := x
    cases q with
    | pure a => exact ⟨a, t, hs⟩
    | call o k =>
      rcases hlive o k t hs with ⟨t', he⟩ | ⟨r, t', hr⟩
      · exact ih _ (.env he) (hs.tail (.env he))
      · exact ih _ (.call hr) (hs.tail (.call hr))

end Prog

end Interaction
