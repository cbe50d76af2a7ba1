namespace Failing
set_option autoImplicit true

/-- An action on a state that may fail, and keeps what it wrote when it does. -/
abbrev FailM (ε σ α : Type) := ExceptT ε (StateM σ) α

namespace FailM

variable {ε σ α β : Type}

def on (m : FailM ε σ α) (s : σ) : Except ε α × σ := m.run.run s

@[simp] theorem on_pure (a : α) (s : σ) : (pure a : FailM ε σ α).on s = (.ok a, s) := rfl

@[simp] theorem on_throw (e : ε) (s : σ) : (throw e : FailM ε σ α).on s = (.error e, s) := rfl

@[simp] theorem on_get (s : σ) : (get : FailM ε σ σ).on s = (.ok s, s) := rfl

@[simp] theorem on_set (s' s : σ) : (set s' : FailM ε σ PUnit).on s = (.ok ⟨⟩, s') := rfl

@[simp] theorem on_modify (f : σ → σ) (s : σ) :
    (modify f : FailM ε σ PUnit).on s = (.ok ⟨⟩, f s) := rfl

theorem on_bind (m : FailM ε σ α) (f : α → FailM ε σ β) (s : σ) :
    (m >>= f).on s =
      match m.on s with
      | (.ok a, s') => (f a).on s'
      | (.error e, s') => (.error e, s') := by
  change (ExceptT.bindCont f (m.on s).1).run (m.on s).2 = _
  generalize m.on s = p
  obtain ⟨r, s'⟩ := p
  cases r <;> rfl

theorem on_bind_ok {m : FailM ε σ α} {f : α → FailM ε σ β} (h : m.on s = (.ok a, s')) :
    (m >>= f).on s = (f a).on s' := by
  rw [on_bind, h]

theorem on_bind_error {m : FailM ε σ α} {f : α → FailM ε σ β} (h : m.on s = (.error e, s')) :
    (m >>= f).on s = (.error e, s') := by
  rw [on_bind, h]

def ofExcept (r : Except ε α) : FailM ε σ α := ExceptT.mk fun s => (r, s)

@[simp] theorem on_ofExcept (r : Except ε α) (s : σ) :
    (ofExcept r : FailM ε σ α).on s = (r, s) := rfl

theorem ofExcept_bind (r : Except ε α) (f : α → Except ε β) (g : β → FailM ε σ γ) :
    (ofExcept (r >>= f) >>= g) = ofExcept r >>= fun a => ofExcept (f a) >>= g := by
  cases r <;> rfl

def part (get : σ → τ) (set : σ → τ → σ) (m : FailM ε τ α) : FailM ε σ α :=
  ExceptT.mk fun s => ((m.on (get s)).1, set s (m.on (get s)).2)

@[simp] theorem on_part (get : σ → τ) (set : σ → τ → σ) (m : FailM ε τ α) (s : σ) :
    (m.part get set).on s = ((m.on (get s)).1, set s (m.on (get s)).2) := rfl

/-- The outcome and the state at the end satisfy `Q`. -/
def Wp (m : FailM ε σ α) (Q : Except ε α → σ → Prop) (s : σ) : Prop := Q (m.on s).1 (m.on s).2

section Rules

variable {m : FailM ε σ α} {f : α → FailM ε σ β} {Q : Except ε β → σ → Prop}

theorem Wp.mono {Q Q' : Except ε α → σ → Prop} (h : m.Wp Q s) (hQ : ∀ r s, Q r s → Q' r s) :
    m.Wp Q' s :=
  hQ _ _ h

theorem Wp.and {Q Q' : Except ε α → σ → Prop} (h : m.Wp Q s) (h' : m.Wp Q' s) :
    m.Wp (fun r s' => Q r s' ∧ Q' r s') s :=
  ⟨h, h'⟩

theorem Wp.exists_on {Q : Except ε α → σ → Prop} (h : m.Wp Q s) :
    ∃ r s', m.on s = (r, s') ∧ Q r s' :=
  ⟨_, _, rfl, h⟩

theorem Wp.pure {Q : Except ε α → σ → Prop} {a : α} (h : Q (.ok a) s) :
    (Pure.pure a : FailM ε σ α).Wp Q s := h

theorem Wp.throw {Q : Except ε α → σ → Prop} {e : ε} (h : Q (.error e) s) :
    (MonadExcept.throw e : FailM ε σ α).Wp Q s := h

/-- The rule of sequential composition: a failure of the first action is one of the whole. -/
theorem Wp.andThen {R : Except ε α → σ → Prop} (h : m.Wp R s)
    (hok : ∀ a s, R (.ok a) s → (f a).Wp Q s) (herr : ∀ e s, R (.error e) s → Q (.error e) s) :
    (m >>= f).Wp Q s := by
  rw [Wp, on_bind]
  rw [Wp] at h
  generalize m.on s = p at h
  obtain ⟨r, s'⟩ := p
  cases r with
  | ok a => exact hok a s' h
  | error e => exact herr e s' h

/-- What holds however the first action ends. -/
theorem Wp.bind_last (hf : ∀ a s, (f a).Wp Q s) (herr : ∀ e s, Q (.error e) s) :
    (m >>= f).Wp Q s :=
  Wp.andThen (R := fun _ _ => True) trivial (fun a s _ => hf a s) (fun e s _ => herr e s)

theorem Wp.bind_ok (h : m.on s = (.ok a, s')) (hf : (f a).Wp Q s') : (m >>= f).Wp Q s := by
  rw [Wp, on_bind_ok h]
  exact hf

theorem Wp.bind_error (h : m.on s = (.error e, s')) (hQ : Q (.error e) s') : (m >>= f).Wp Q s := by
  rw [Wp, on_bind_error h]
  exact hQ

theorem Wp.get_bind {f : σ → FailM ε σ β} (h : (f s).Wp Q s) : (get >>= f).Wp Q s := by
  rw [Wp, on_bind_ok (on_get s)]
  exact h

theorem Wp.set_bind {f : PUnit → FailM ε σ β} (h : (f ⟨⟩).Wp Q s') :
    (set s' >>= f).Wp Q s := by
  rw [Wp, on_bind_ok (on_set s' s)]
  exact h

theorem Wp.modify_bind {g : σ → σ} {f : PUnit → FailM ε σ β} (h : (f ⟨⟩).Wp Q (g s)) :
    (modify g >>= f).Wp Q s := by
  rw [Wp, on_bind_ok (on_modify g s)]
  exact h

theorem Wp.ofExcept_bind {r : Except ε α} (hok : ∀ a, r = .ok a → (f a).Wp Q s)
    (herr : ∀ e, r = .error e → Q (.error e) s) : (ofExcept r >>= f).Wp Q s := by
  rw [Wp, on_bind, on_ofExcept]
  cases r with
  | ok a => exact hok a rfl
  | error e => exact herr e rfl

end Rules

end FailM

end Failing
