import CppAlls.Apps.TcpSteps

namespace CppAlls
set_option autoImplicit true

open Failing Machines

/-- In every run of allowed inputs no input dereferences a pointer that was reset. -/
def NeverDereferencesReset (M : Machine σ ι) (perform : ι → AcceptorM σ Unit)
    (Allowed : σ → ι → Prop) : Prop :=
  ∀ s i m, M.Reachable Allowed s → M.Enabled s i → Allowed s i →
    ((perform i).on s).1 ≠ .error (.nullDereference m)

/-- A step that cannot dereference a reset pointer, and the state after it. -/
def SafeStep (m : AcceptorM σ Unit) (I : σ → Prop) (s : σ) : Prop :=
  ((m.on s).1 = .ok () ∨ (m.on s).1 = .error .thrown) ∧ I (m.on s).2

theorem SafeStep.of_on {m : AcceptorM σ Unit} {I : σ → Prop} (h : m.on s = (r, s'))
    (hr : r = .ok () ∨ r = .error .thrown) (hI : I s') : SafeStep m I s := by
  rw [SafeStep, h]
  exact ⟨hr, hI⟩

theorem SafeStep.bind {m m' : AcceptorM σ Unit} {I : σ → Prop} (h : m.on s = (.ok (), s'))
    (hm : SafeStep m' I s') : SafeStep (m >>= fun _ => m') I s := by
  rw [SafeStep, FailM.on_bind_ok h]
  exact hm

theorem neverDereferencesReset_of_invariant {M : Machine σ ι} {perform : ι → AcceptorM σ Unit}
    {Allowed : σ → ι → Prop} {I : σ → Prop} (hnext : ∀ s i, M.next s i = ((perform i).on s).2)
    (hinit : I M.init)
    (hstep : ∀ s i, I s → M.Enabled s i → Allowed s i → SafeStep (perform i) I s) :
    NeverDereferencesReset M perform Allowed := by
  intro s i m hs he ha hm
  have hI : I s := by
    apply hs.invariant hinit
    intro s i hI he ha
    rw [hnext]
    exact (hstep s i hI he ha).2
  rcases (hstep s i hI he ha).1 with hr | hr
  · rw [hr] at hm
    cases hm
  · rw [hr] at hm
    cases hm

namespace TcpAcceptor

/-- Every accept that is queued was aborted, and `stop` closes or has closed the acceptor of every
accept that is outstanding. -/
def Quiet (s : TcpAcceptor) : Prop :=
  (∀ a c r, (.accept a c, r) ∈ s.queued → r = .aborted) ∧
    ∀ a c, .accept a c ∈ s.outstanding → s.acceptor = some a ∨ a ∈ s.closed

def Settled (s : TcpAcceptor) : Prop :=
  (∀ a c r, (.accept a c, r) ∈ s.queued → r = .aborted) ∧
    ∀ a c, .accept a c ∈ s.outstanding → a ∈ s.closed

def Attached (s : TcpAcceptor) : Prop :=
  (∀ op ∈ s.outstanding, ∃ p, op.connection.processor = some p) ∧
    ∀ x ∈ s.queued, ∃ p, x.1.connection.processor = some p

def Safe (fl : Flavour) (s : TcpAcceptor) : Prop := (s.Started fl ∨ s.Settled) ∧ s.Attached

/-- What `start` does: it ends with a new accept and every pointer set, or it throws, and then
keeps the pointers that were set. -/
structure StartOutcome (fl : Flavour) (conf : TcpConf) (s : TcpAcceptor) (r : Except Failure Unit)
    (s' : TcpAcceptor) : Prop where
  queued : s'.queued = s.queued
  closed : s'.closed = s.closed
  outcome : (r = .ok () ∧ s'.Started fl ∧
      ∃ a p, s'.outstanding = s.outstanding ++ [.accept a { processor := some p }]) ∨
    (r = .error .thrown ∧ ¬ conf.Succeeds fl ∧ s'.outstanding = s.outstanding ∧
      (s.Started fl → s'.Started fl))

theorem start_outcome (fl : Flavour) (conf : TcpConf) (s : TcpAcceptor) :
    StartOutcome fl conf s ((start fl conf).on s).1 ((start fl conf).on s).2 := by
  have h := start_starts fl conf s
  generalize (start fl conf).on s = x at h
  obtain ⟨r, s'⟩ := x
  cases h with
  | thrown hno hk => exact ⟨hk.queued, hk.closed, .inr ⟨rfl, hno, hk.outstanding, hk.started⟩⟩
  | @accepting t _ hk hs _ =>
    obtain ⟨p, hp⟩ := hs.processor
    refine ⟨hk.queued, hk.closed, .inl ⟨rfl, ?_, s.acceptors, p, ?_⟩⟩
    · exact hs.frame
    · rw [← hp, ← hk.outstanding]

theorem start_safe (h : s.Attached) (hs : conf.Succeeds fl ∨ s.Started fl ∨ s.Settled) :
    SafeStep (start fl conf) (Safe fl) s := by
  obtain ⟨hq, hc, ho⟩ := start_outcome fl conf s
  rcases ho with ⟨hr, hst, a, p, ho⟩ | ⟨hr, hno, ho, hkeep⟩
  · refine ⟨.inl hr, .inl hst, ?_, ?_⟩
    · rw [ho]
      intro op hop
      rcases List.mem_append.mp hop with hop | hop
      · exact h.1 op hop
      · cases List.mem_singleton.mp hop
        exact ⟨p, rfl⟩
    · rw [hq]
      exact h.2
  · refine ⟨.inr hr, ?_, ?_, ?_⟩
    · rcases hs with hs | hs | hs
      · exact absurd hs hno
      · exact .inl (hkeep hs)
      · refine .inr ⟨?_, ?_⟩
        · rw [hq]
          exact hs.1
        · rw [ho, hc]
          exact hs.2
    · rw [ho]
      exact h.1
    · rw [hq]
      exact h.2

theorem stopped_settled {s : TcpAcceptor} (h : s.Quiet) : s.stopped.Settled := by
  refine ⟨h.1, ?_⟩
  intro a c hop
  rcases h.2 a c hop with ha | ha
  · simp [stopped, ha]
  · exact List.mem_append_right _ ha

theorem accept_safe (h : s.Started fl) (ha : s.Attached) : ∃ s', (accept fl).on s = (.ok (), s') ∧
    s'.Started fl ∧ s'.Attached := by
  obtain ⟨a, _, hon⟩ := accept_on h
  refine ⟨_, hon, h.frame, ?_, ha.2⟩
  intro op hop
  rcases List.mem_append.mp hop with hop | hop
  · exact ha.1 op hop
  · cases List.mem_singleton.mp hop
    exact h.processor

theorem callProcessor_safe (h : s.Safe fl) (p : Nat) (c : StreamConnection) :
    SafeStep (callProcessor (some p) c) (Safe fl) s := by
  obtain ⟨hs | hs, ha⟩ := h
  · exact ⟨.inl rfl, .inl hs.frame, ha⟩
  · exact ⟨.inl rfl, .inr hs, ha⟩

theorem serve_safe (h : s.Started fl) (ha : s.Attached) (hc : ∃ p, c.processor = some p) :
    SafeStep (serve c fl) (Safe fl) s := by
  cases fl with
  | tcp =>
    obtain ⟨p, hp⟩ := h.processor
    rw [SafeStep, serve, FailM.on_bind_ok (FailM.on_get s), hp]
    exact callProcessor_safe ⟨.inl h, ha⟩ p c
  | tcpSsl =>
    refine ⟨.inl rfl, .inl h.frame, ?_, ha.2⟩
    intro op hop
    rcases List.mem_append.mp hop with hop | hop
    · exact ha.1 op hop
    · cases List.mem_singleton.mp hop
      exact hc

theorem onAccpet_safe (h : s.Safe fl) (hc : ∃ p, c.processor = some p)
    (hst : ¬ s.Started fl → error = .aborted) : SafeStep (onAccpet fl c error) (Safe fl) s := by
  by_cases he : error = .aborted
  · subst he
    exact ⟨.inl rfl, h⟩
  · have hs : s.Started fl := by
      by_cases hs : s.Started fl
      · exact hs
      · exact absurd (hst hs) he
    obtain ⟨s', hon, hs', ha'⟩ := accept_safe hs h.2
    rw [onAccpet, if_neg he]
    apply SafeStep.bind hon
    by_cases hok : error = .success
    · rw [if_pos hok]
      exact serve_safe hs' ha' hc
    · rw [if_neg hok]
      exact ⟨.inl rfl, .inl hs', ha'⟩

theorem handleHandshake_safe (h : s.Safe fl) (hc : ∃ p, c.processor = some p) (error : Result) :
    SafeStep (handleHandshake c error) (Safe fl) s := by
  by_cases he : error ≠ .success
  · rw [handleHandshake, if_pos he]
    exact ⟨.inl rfl, h⟩
  · obtain ⟨p, hp⟩ := hc
    rw [handleHandshake, if_neg he, hp]
    exact callProcessor_safe h p c

end TcpAcceptor

/-- The acceptor is quiet when it is stopped for good or for a start that throws. -/
def TcpInput.Calm (fl : Flavour) (s : TcpAcceptor) : TcpInput → Prop
  | .start _ => True
  | .stop => s.Quiet
  | .reload conf => conf.Succeeds fl ∨ s.Quiet
  | .complete _ _ => True
  | .run _ _ => True

open TcpAcceptor

theorem TcpInput.perform_safe {s : TcpAcceptor} (i : TcpInput) (h : s.Safe fl)
    (he : i.Enabled s) (hc : i.Calm fl s) : SafeStep (i.perform fl) (Safe fl) s := by
  cases i with
  | start conf => exact start_safe h.2 (.inr h.1)
  | stop => exact ⟨.inl rfl, .inr (stopped_settled hc), h.2⟩
  | reload conf =>
    change SafeStep (TcpAcceptor.reload fl conf) (Safe fl) s
    rw [SafeStep, reload_on]
    apply start_safe (s := s.stopped) h.2
    rcases hc with hc | hc
    · exact .inl hc
    · exact .inr (.inr (stopped_settled hc))
  | complete op error =>
    obtain ⟨hop, hclosed⟩ := he
    refine ⟨.inl rfl, ?_, ?_, ?_⟩
    · rcases h.1 with hs | hs
      · exact .inl hs.frame
      · refine .inr ⟨?_, ?_⟩
        · intro a c r hm
          rcases List.mem_append.mp hm with hm | hm
          · exact hs.1 a c r hm
          · cases List.mem_singleton.mp hm
            exact hclosed (hs.2 a c hop)
        · exact fun a c hm => hs.2 a c (List.mem_of_mem_erase hm)
    · exact fun op' hm => h.2.1 op' (List.mem_of_mem_erase hm)
    · intro x hm
      rcases List.mem_append.mp hm with hm | hm
      · exact h.2.2 x hm
      · cases List.mem_singleton.mp hm
        exact h.2.1 op hop
  | run op error =>
    have hm : (op, error) ∈ s.queued := he
    have hp := h.2.2 _ hm
    -- The handler runs on a state that has one completion less.
    have h' : Safe fl { s with queued := s.queued.erase (op, error) } := by
      refine ⟨?_, h.2.1, fun x hx => h.2.2 x (List.mem_of_mem_erase hx)⟩
      rcases h.1 with hs | hs
      · exact .inl hs.frame
      · exact .inr ⟨fun a c r hx => hs.1 a c r (List.mem_of_mem_erase hx), hs.2⟩
    apply SafeStep.bind (FailM.on_modify _ s)
    cases op with
    | handshake c => exact handleHandshake_safe h' hp error
    | accept a c =>
      apply onAccpet_safe h' hp
      intro hno
      rcases h.1 with hs | hs
      · exact absurd hs.frame hno
      · exact hs.1 a c error hm

theorem tcp_stop_safe (fl : Flavour) :
    NeverDereferencesReset (tcpMachine fl) (TcpInput.perform fl) (TcpInput.Calm fl) := by
  apply neverDereferencesReset_of_invariant (I := Safe fl) (fun _ _ => rfl)
  · refine ⟨.inr ⟨?_, ?_⟩, ?_, ?_⟩
    · intro _ _ _ hm
      cases hm
    · intro _ _ hm
      cases hm
    · intro _ hm
      cases hm
    · intro _ hm
      cases hm
  · intro s i h he hc
    exact i.perform_safe h he hc

/-- An accept that was queued before `stop` and not aborted accepts again on what `stop` reset. -/
theorem onAccpet_stopped (fl : Flavour) (s : TcpAcceptor) (c : StreamConnection)
    (he : error ≠ .aborted) :
    ∃ m, ((onAccpet fl c error).on s.stopped).1 = .error (.nullDereference m) := by
  cases fl with
  | tcp =>
    refine ⟨.ioService, ?_⟩
    rw [onAccpet, if_neg he]
    rfl
  | tcpSsl =>
    refine ⟨.context, ?_⟩
    rw [onAccpet, if_neg he]
    rfl

theorem dereferences_of_queued {s : TcpAcceptor}
    (h : (tcpMachine fl).Reachable (fun _ _ => True) s) (he : error ≠ .aborted)
    (hq : (.accept a c, error) ∈ s.queued) :
    ¬ NeverDereferencesReset (tcpMachine fl) (TcpInput.perform fl) (fun _ _ => True) := by
  intro hn
  have hs := h.step (i := TcpInput.stop) trivial trivial
  obtain ⟨m, hm⟩ :=
    onAccpet_stopped fl { s with queued := s.queued.erase (.accept a c, error) } c he
  exact hn _ (.run (.accept a c) error) m hs hq trivial hm

end CppAlls
