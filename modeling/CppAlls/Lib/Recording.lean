import CppAlls.Lib.Failing

namespace Recording
set_option autoImplicit true

open Failing

variable {ε σ γ α β : Type}

/-- The action on a state with a record beside it, which it leaves alone. -/
def beside (m : FailM ε σ α) : FailM ε (σ × γ) α := m.part Prod.fst fun x s => (s, x.2)

@[simp] theorem on_beside (m : FailM ε σ α) (x : σ × γ) :
    (beside m).on x = ((m.on x.1).1, ((m.on x.1).2, x.2)) := rfl

theorem on_get_bind (f : σ → FailM ε (σ × γ) β) (x : σ × γ) :
    (beside get >>= f).on x = (f x.1).on x :=
  FailM.on_bind_ok (on_beside get x)

theorem wp_get_bind {f : σ → FailM ε (σ × γ) β} {Q : Except ε β → σ × γ → Prop} {x : σ × γ}
    (h : (f x.1).Wp Q x) : (beside get >>= f).Wp Q x := by
  rw [FailM.Wp, on_get_bind]
  exact h

def note (f : σ → γ → γ) : FailM ε (σ × γ) Unit := modify fun x => (x.1, f x.1 x.2)

@[simp] theorem on_note (f : σ → γ → γ) (x : σ × γ) :
    (note f : FailM ε (σ × γ) Unit).on x = (.ok (), (x.1, f x.1 x.2)) := rfl

theorem wp_beside_bind {m : FailM ε σ α} {f : α → FailM ε (σ × γ) β}
    {Q : Except ε β → σ × γ → Prop} {x : σ × γ}
    (hok : ∀ a s, m.on x.1 = (.ok a, s) → (f a).Wp Q (s, x.2))
    (herr : ∀ e s, m.on x.1 = (.error e, s) → Q (.error e) (s, x.2)) :
    (beside m >>= f).Wp Q x := by
  rw [FailM.Wp, FailM.on_bind, on_beside]
  generalize m.on x.1 = p at hok herr
  obtain ⟨r, s⟩ := p
  cases r with
  | ok a => exact hok a s rfl
  | error e => exact herr e s rfl

theorem wp_modify_bind {g : σ → σ} {f : PUnit → FailM ε (σ × γ) β}
    {Q : Except ε β → σ × γ → Prop} {x : σ × γ} (h : (f ⟨⟩).Wp Q (g x.1, x.2)) :
    (beside (modify g) >>= f).Wp Q x := by
  rw [FailM.Wp, FailM.on_bind_ok (on_beside _ _)]
  exact h

theorem wp_beside_andThen {m : FailM ε σ α} {f : α → FailM ε (σ × γ) β}
    {R : Except ε α → σ → Prop} {Q : Except ε β → σ × γ → Prop} {x : σ × γ} (h : m.Wp R x.1)
    (hok : ∀ a s, R (.ok a) s → (f a).Wp Q (s, x.2))
    (herr : ∀ e s, R (.error e) s → Q (.error e) (s, x.2)) : (beside m >>= f).Wp Q x := by
  rw [FailM.Wp] at h
  apply wp_beside_bind
  · intro a s hs
    rw [hs] at h
    exact hok a s h
  · intro e s hs
    rw [hs] at h
    exact herr e s h

theorem wp_note_bind {f : σ → γ → γ} {n : Unit → FailM ε (σ × γ) β}
    {Q : Except ε β → σ × γ → Prop} {x : σ × γ} (h : (n ()).Wp Q (x.1, f x.1 x.2)) :
    (note f >>= n).Wp Q x := by
  rw [FailM.Wp, FailM.on_bind_ok (on_note f x)]
  exact h

/-- Whatever the record is, the action ends as the other one does, and in the same state. -/
def Erases (n : FailM ε (σ × γ) α) (m : FailM ε σ α) : Prop :=
  ∀ x, (n.on x).1 = (m.on x.1).1 ∧ (n.on x).2.1 = (m.on x.1).2

/-- Whatever the record is, the action ends in the state in which the other one ends. -/
def Tracks (n : FailM ε (σ × γ) α) (m : FailM ε σ β) : Prop := ∀ x, (n.on x).2.1 = (m.on x.1).2

theorem Erases.tracks {n : FailM ε (σ × γ) α} {m : FailM ε σ α} (h : Erases n m) : Tracks n m :=
  fun x => (h x).2

namespace Erases

theorem pure (a : α) : Erases (γ := γ) (Pure.pure a : FailM ε (σ × γ) α) (Pure.pure a) :=
  fun _ => ⟨rfl, rfl⟩

theorem throw (e : ε) : Erases (γ := γ) (MonadExcept.throw e : FailM ε (σ × γ) α)
    (MonadExcept.throw e) :=
  fun _ => ⟨rfl, rfl⟩

theorem ofExcept (r : Except ε α) :
    Erases (γ := γ) (FailM.ofExcept r : FailM ε (σ × γ) α) (FailM.ofExcept r) :=
  fun _ => ⟨rfl, rfl⟩

theorem beside (m : FailM ε σ α) : Erases (γ := γ) (Recording.beside m) m := fun _ => ⟨rfl, rfl⟩

theorem bind {n : FailM ε (σ × γ) α} {m : FailM ε σ α} {g : α → FailM ε (σ × γ) β}
    {f : α → FailM ε σ β} (h : Erases n m) (hf : ∀ a, Erases (g a) (f a)) :
    Erases (n >>= g) (m >>= f) := by
  intro x
  obtain ⟨hr, hs⟩ := h x
  rw [FailM.on_bind, FailM.on_bind]
  generalize n.on x = p at hr hs
  generalize m.on x.1 = q at hr hs
  obtain ⟨r, y⟩ := p
  obtain ⟨r', s⟩ := q
  subst hr hs
  cases r with
  | ok a => exact hf a y
  | error e => exact ⟨rfl, rfl⟩

/-- Writing the record is nothing for the state. -/
theorem note_bind {f : σ → γ → γ} {n : FailM ε (σ × γ) β} {m : FailM ε σ β} (h : Erases n m) :
    Erases (note f >>= fun _ => n) m := by
  intro x
  rw [FailM.on_bind_ok (on_note f x)]
  exact h _

theorem forM {g : α → FailM ε (σ × γ) Unit} {f : α → FailM ε σ Unit}
    (h : ∀ a, Erases (g a) (f a)) (l : List α) : Erases (l.forM g) (l.forM f) := by
  induction l with
  | nil => exact .pure ()
  | cons a l ih =>
    rw [List.forM_eq_forM, List.forM_eq_forM, List.forM_cons, List.forM_cons]
    exact (h a).bind fun _ => ih

/-- A rule for the action without the record is one for the action with it. -/
theorem wp {n : FailM ε (σ × γ) α} {m : FailM ε σ α} {Q : Except ε α → σ → Prop} {x : σ × γ}
    (h : Erases n m) (hm : m.Wp Q x.1) : n.Wp (fun r y => Q r y.1) x := by
  obtain ⟨hr, hs⟩ := h x
  rw [FailM.Wp] at hm ⊢
  rw [hr, hs]
  exact hm

end Erases

namespace Tracks

theorem bind {n : FailM ε (σ × γ) α} {m : FailM ε σ α} {g : α → FailM ε (σ × γ) β}
    {f : α → FailM ε σ β} (h : Erases n m) (hf : ∀ a, Tracks (g a) (f a)) :
    Tracks (n >>= g) (m >>= f) := by
  intro x
  obtain ⟨hr, hs⟩ := h x
  rw [FailM.on_bind, FailM.on_bind]
  generalize n.on x = p at hr hs
  generalize m.on x.1 = q at hr hs
  obtain ⟨r, y⟩ := p
  obtain ⟨r', s⟩ := q
  subst hr hs
  cases r with
  | ok a => exact hf a y
  | error e => rfl

/-- What comes behind may write the record, and fail, but keeps the state. -/
theorem bind_keeps {n : FailM ε (σ × γ) α} {m : FailM ε σ α} {g : α → FailM ε (σ × γ) β}
    (h : Tracks n m) (hg : ∀ a y, ((g a).on y).2.1 = y.1) : Tracks (n >>= g) m := by
  intro x
  have hs := h x
  rw [FailM.on_bind]
  generalize n.on x = p at hs
  obtain ⟨r, y⟩ := p
  cases r with
  | ok a => exact (hg a y).trans hs
  | error e => exact hs

theorem get_bind {g : σ → FailM ε (σ × γ) α} {m : FailM ε σ β} (h : ∀ s, Tracks (g s) m) :
    Tracks (Recording.beside MonadState.get >>= g) m := by
  intro x
  rw [on_get_bind]
  exact h x.1 x

end Tracks

/-- The relation between the states before and after the action, however it ends. -/
def Moves (R : σ → σ → Prop) (m : FailM ε σ α) : Prop := ∀ s, m.Wp (fun _ s' => R s s') s

namespace Moves

variable {R : σ → σ → Prop}

theorem pure (hrefl : ∀ s, R s s) (a : α) : Moves R (Pure.pure a : FailM ε σ α) :=
  fun s => hrefl s

theorem throw (hrefl : ∀ s, R s s) (e : ε) : Moves R (MonadExcept.throw e : FailM ε σ α) :=
  fun s => hrefl s

theorem ofExcept (hrefl : ∀ s, R s s) (r : Except ε α) :
    Moves R (FailM.ofExcept r : FailM ε σ α) :=
  fun s => hrefl s

theorem bind (htrans : ∀ s s' s'', R s s' → R s' s'' → R s s'') {m : FailM ε σ α}
    {f : α → FailM ε σ β} (h : Moves R m) (hf : ∀ a, Moves R (f a)) : Moves R (m >>= f) := by
  intro s
  apply FailM.Wp.andThen (h s)
  · intro a s₁ h₁
    exact (hf a s₁).mono fun _ _ h₂ => htrans _ _ _ h₁ h₂
  · exact fun _ _ h₁ => h₁

theorem forM (hrefl : ∀ s, R s s) (htrans : ∀ s s' s'', R s s' → R s' s'' → R s s'')
    {f : α → FailM ε σ Unit} (h : ∀ a, Moves R (f a)) (l : List α) : Moves R (l.forM f) := by
  induction l with
  | nil => exact .pure hrefl ()
  | cons a l ih =>
    rw [List.forM_eq_forM, List.forM_cons]
    exact .bind htrans (h a) fun _ => ih

end Moves

end Recording
