import CppAlls.Lib.Interaction

namespace Interaction
set_option autoImplicit true

open Relation

/-- A member function: it reads and writes its object, keeps what it wrote when it ends with an
exception, and makes each call to the surroundings with its object in view. -/
abbrev ObjM (ε σ : Type) (Op : Type) (Res : Op → Type) (α : Type) :=
  ExceptT ε (StateT σ (Prog (σ × Op) (fun o => Res o.2))) α

namespace ObjM

variable {ε σ Op S α β : Type} {Res : Op → Type}

def on (m : ObjM ε σ Op Res α) (c : σ) : Prog (σ × Op) (fun o => Res o.2) (Except ε α × σ) :=
  m.run.run c

def invoke (o : Op) : ObjM ε σ Op Res (Res o) :=
  ExceptT.mk fun c => .call (c, o) (fun r => .pure (.ok r, c))

/-- The body goes on whether or not the statement threw. -/
def catchAll (m : ObjM ε σ Op Res α) : ObjM ε σ Op Res Unit :=
  ExceptT.mk fun c => m.on c >>= fun r => .pure (.ok (), r.2)

@[simp] theorem on_pure (a : α) (c : σ) :
    (pure a : ObjM ε σ Op Res α).on c = .pure (.ok a, c) := rfl

@[simp] theorem on_throw (e : ε) (c : σ) :
    (throw e : ObjM ε σ Op Res α).on c = .pure (.error e, c) := rfl

@[simp] theorem on_get (c : σ) : (get : ObjM ε σ Op Res σ).on c = .pure (.ok c, c) := rfl

@[simp] theorem on_set (c' c : σ) :
    (set c' : ObjM ε σ Op Res PUnit).on c = .pure (.ok ⟨⟩, c') := rfl

@[simp] theorem on_modify (f : σ → σ) (c : σ) :
    (modify f : ObjM ε σ Op Res PUnit).on c = .pure (.ok ⟨⟩, f c) := rfl

@[simp] theorem on_catchAll (m : ObjM ε σ Op Res α) (c : σ) :
    m.catchAll.on c = m.on c >>= fun r => .pure (.ok (), r.2) := rfl

/-- How the rest of a body continues after its first statement. -/
def andThen (f : α → ObjM ε σ Op Res β) :
    Except ε α × σ → Prog (σ × Op) (fun o => Res o.2) (Except ε β × σ)
  | (.ok a, c) => (f a).on c
  | (.error e, c) => .pure (.error e, c)

theorem on_bind (m : ObjM ε σ Op Res α) (f : α → ObjM ε σ Op Res β) (c : σ) :
    (m >>= f).on c = m.on c >>= andThen f := by
  change (m.on c).bind _ = (m.on c).bind _
  congr 1
  funext r
  obtain ⟨r, c⟩ := r
  cases r <;> rfl

theorem on_bind_pure {m : ObjM ε σ Op Res α} {f : α → ObjM ε σ Op Res β}
    (h : m.on c = .pure (.ok a, c')) : (m >>= f).on c = (f a).on c' := by
  rw [on_bind, h]
  rfl

theorem on_bind_throw {m : ObjM ε σ Op Res α} {f : α → ObjM ε σ Op Res β}
    (h : m.on c = .pure (.error e, c')) : (m >>= f).on c = .pure (.error e, c') := by
  rw [on_bind, h]
  rfl

variable {W : Prog.World (σ × Op) (fun o => Res o.2) S} {P : S → σ × Op → Prop}

/-- In every run of the member function from object `c` and surroundings `s` the calls satisfy
`P`, and the result, the object and the surroundings satisfy `Q` at the end. -/
def Wp (W : Prog.World (σ × Op) (fun o => Res o.2) S) (P : S → σ × Op → Prop)
    (m : ObjM ε σ Op Res α) (Q : Except ε α → σ → S → Prop) (c : σ) (s : S) : Prop :=
  (m.on c).Wp W P (fun r s => Q r.1 r.2 s) s

theorem Wp.mono {m : ObjM ε σ Op Res α} {Q Q' : Except ε α → σ → S → Prop}
    (h : m.Wp W P Q c s) (hQ : ∀ r c s, Q r c s → Q' r c s) : m.Wp W P Q' c s :=
  Prog.Wp.mono h (fun _ _ => hQ _ _ _)

/-- The rule of sequential composition: an exception of the first statement ends the body. -/
theorem Wp.bind {m : ObjM ε σ Op Res α} {f : α → ObjM ε σ Op Res β}
    {Q : Except ε β → σ → S → Prop}
    (h : m.Wp W P (fun r c s => (andThen f (r, c)).Wp W P (fun r s => Q r.1 r.2 s) s) c s) :
    (m >>= f).Wp W P Q c s := by
  rw [Wp, on_bind]
  exact Prog.Wp.bind h

theorem Wp.andThen {m : ObjM ε σ Op Res α} {f : α → ObjM ε σ Op Res β}
    {R : Except ε α → σ → S → Prop} {Q : Except ε β → σ → S → Prop} (h : m.Wp W P R c s)
    (hok : ∀ a c s, R (.ok a) c s → (f a).Wp W P Q c s)
    (herr : ∀ e c s s', R (.error e) c s → ReflTransGen W.env s s' → Q (.error e) c s') :
    (m >>= f).Wp W P Q c s := by
  apply Wp.bind
  apply h.mono
  intro r c s hr
  cases r with
  | ok a => exact hok a c s hr
  | error e => exact fun s' hs => herr e c s s' hr hs

/-- The rule for a first statement that returns `a`. -/
theorem Wp.returns_bind {m : ObjM ε σ Op Res α} {f : α → ObjM ε σ Op Res β} {R : σ → S → Prop}
    {Q : Except ε β → σ → S → Prop} (h : m.Wp W P (fun r c s => r = .ok a ∧ R c s) c s)
    (hf : ∀ c s, R c s → (f a).Wp W P Q c s) : (m >>= f).Wp W P Q c s := by
  apply h.andThen
  · intro a' c s hr
    cases hr.1
    exact hf c s hr.2
  · intro e c s s' hr
    cases hr.1

/-- The rule for one that throws `e`. -/
theorem Wp.throws_bind {m : ObjM ε σ Op Res α} {f : α → ObjM ε σ Op Res β}
    (h : m.Wp W P (fun r _ _ => r = .error e) c s) :
    (m >>= f).Wp W P (fun r _ _ => r = .error e) c s := by
  apply h.andThen
  · intro a c s hr
    cases hr
  · intro e' c s s' hr _
    cases hr
    rfl

/-- The rule for one that never ends. -/
theorem Wp.stuck_bind {m : ObjM ε σ Op Res α} {f : α → ObjM ε σ Op Res β}
    {Q : Except ε β → σ → S → Prop} (h : m.Wp W P (fun _ _ _ => False) c s) :
    (m >>= f).Wp W P Q c s :=
  h.andThen (fun _ _ _ hr => hr.elim) (fun _ _ _ _ hr => hr.elim)

/-- Two bodies that make the same calls have the same runs. -/
theorem Wp.of_on {m m' : ObjM ε σ Op Res α} {Q : Except ε α → σ → S → Prop}
    (h : m.on c = m'.on c') (hm : m'.Wp W P Q c' s) : m.Wp W P Q c s := by
  rw [Wp, h]
  exact hm

theorem Wp.of_pure {m : ObjM ε σ Op Res α} {Q : Except ε α → σ → S → Prop}
    (h : m.on c = .pure (r, c')) (hQ : ∀ s', ReflTransGen W.env s s' → Q r c' s') :
    m.Wp W P Q c s := by
  rw [Wp, h]
  exact hQ

theorem Wp.bind_pure {m : ObjM ε σ Op Res α} {f : α → ObjM ε σ Op Res β}
    {Q : Except ε β → σ → S → Prop} (h : m.on c = .pure (.ok a, c'))
    (hf : (f a).Wp W P Q c' s) : (m >>= f).Wp W P Q c s := by
  rw [Wp, on_bind_pure h]
  exact hf

theorem Wp.invoke_bind {o : Op} {f : Res o → ObjM ε σ Op Res β} {Q : Except ε β → σ → S → Prop}
    (h : ∀ s', ReflTransGen W.env s s' → P s' (c, o) ∧
      ∀ r s'', W.answer s' (c, o) r s'' → (f r).Wp W P Q c s'') :
    (invoke o >>= f).Wp W P Q c s :=
  fun s' hs => ⟨(h s' hs).1, fun r s'' hr => (h s' hs).2 r s'' hr⟩

theorem Wp.catchAll {m : ObjM ε σ Op Res α} {Q : Except ε Unit → σ → S → Prop}
    (h : m.Wp W P (fun _ c s => ∀ s', ReflTransGen W.env s s' → Q (.ok ()) c s') c s) :
    m.catchAll.Wp W P Q c s := by
  rw [Wp, on_catchAll]
  exact Prog.Wp.bind h

/-- Calls of member functions one after the other on the object `c₀`, by a caller that goes on when
one throws. Each is allowed in the state in which it is made. -/
inductive Calls (W : Prog.World (σ × Op) (fun o => Res o.2) S) (body : ι → ObjM ε σ Op Res α)
    (Allowed : σ → S → ι → Prop) (c₀ : σ) (s₀ : S) : List ι → σ → S → Prop where
  | none : Calls W body Allowed c₀ s₀ [] c₀ s₀
  | next : Calls W body Allowed c₀ s₀ done c s → Allowed c s i →
      ReflTransGen (Prog.Step W) ((body i).on c, s) (.pure (r, c'), s') →
      Calls W body Allowed c₀ s₀ (done ++ [i]) c' s'

theorem Calls.append {body : ι → ObjM ε σ Op Res α} {Allowed : σ → S → ι → Prop}
    (h : Calls W body Allowed c₀ s₀ done c s) (h' : Calls W body Allowed c s more c' s') :
    Calls W body Allowed c₀ s₀ (done ++ more) c' s' := by
  induction h' with
  | none =>
    rw [List.append_nil]
    exact h
  | next _ ha hrun ih =>
    rw [← List.append_assoc]
    exact ih.next ha hrun

/-- What holds at the start and is kept by every call holds after any calls. -/
theorem Calls.invariant {body : ι → ObjM ε σ Op Res α} {Allowed : σ → S → ι → Prop}
    {I : List ι → σ → S → Prop} (h : Calls W body Allowed c₀ s₀ done c s) (hinit : I [] c₀ s₀)
    (hstep : ∀ done c s i, I done c s → Allowed c s i →
      (body i).Wp W P (fun _ c' s' => I (done ++ [i]) c' s') c s) : I done c s := by
  induction h with
  | none => exact hinit
  | @next done c s i _ _ _ _ ha hrun ih =>
    have hw : ((body i).on c).Wp W P (fun r s' => I (done ++ [i]) r.2 s') s := hstep done c s i ih ha
    exact hw.result hrun

end ObjM

end Interaction
