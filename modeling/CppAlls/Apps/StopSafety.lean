import CppAlls.Apps.TcpStop
import CppAlls.Apps.UdpSteps

namespace CppAlls
set_option autoImplicit true

open Failing Machines

namespace UdpAcceptor

variable {s s' : UdpAcceptor}

/-- Nothing is under way but peeks, and those that are queued were aborted. -/
def Quiet (s : UdpAcceptor) : Prop :=
  (∀ op ∈ s.outstanding, ∃ k, op = .peek k) ∧
    ∀ x ∈ s.queued, (∃ k, x.1 = .peek k) ∧ x.2.1 = .aborted

structure Attached (s : UdpAcceptor) : Prop where
  outstanding : ∀ c n, .read c n ∈ s.outstanding → ∃ p, c.processor = some p
  queued : ∀ c n r bs, (.read c n, r, bs) ∈ s.queued → ∃ p, c.processor = some p
  socket : ∀ k, s.socket = some k →
    (∃ io, s.ioService = some io) ∧ ∃ k, s.socketStrand = some k

def Safe (s : UdpAcceptor) : Prop := (s.Started ∨ s.Quiet) ∧ s.Attached

structure StartOutcome (conf : UdpConf) (s : UdpAcceptor) (r : Except Failure Unit)
    (s' : UdpAcceptor) : Prop where
  queued : s'.queued = s.queued
  attached : s.Attached → s'.Attached
  outcome : (r = .ok () ∧ s'.Started) ∨
    (r = .error .thrown ∧ ¬ conf.Succeeds ∧ s'.outstanding = s.outstanding ∧
      (s.Started → s'.Started))

theorem Attached.assigned (h : s.Attached) (hk : Assigned s s') : s'.Attached := by
  refine ⟨?_, ?_, hk.bound h.socket⟩
  · intro c n hop
    rw [hk.outstanding] at hop
    exact h.outstanding c n hop
  · intro c n r bs hop
    rw [hk.queued] at hop
    exact h.queued c n r bs hop

theorem Attached.peeking (h : s.Attached) (k : Nat) : (s.peeking k).Attached := by
  refine ⟨?_, h.queued, h.socket⟩
  intro c n hop
  rcases List.mem_append.mp hop with hop | hop
  · exact h.outstanding c n hop
  · cases List.mem_singleton.mp hop

theorem accept_safe (h : s.Started) (ha : s.Attached) :
    ∃ s', accept.on s = (.ok (), s') ∧ s'.Started ∧ s'.Attached := by
  obtain ⟨k, _, hon⟩ := accept_on h
  exact ⟨_, hon, h.frame, ha.peeking k⟩

theorem start_outcome (conf : UdpConf) (s : UdpAcceptor) :
    StartOutcome conf s ((start conf).on s).1 ((start conf).on s).2 := by
  have h := start_starts conf s
  generalize (start conf).on s = x at h
  obtain ⟨r, s'⟩ := x
  cases h with
  | thrown hno hk =>
    exact ⟨hk.queued, fun h => h.assigned hk, .inr ⟨rfl, hno, hk.outstanding, hk.started⟩⟩
  | accepting _ hk hs =>
    exact ⟨hk.queued, fun h => (h.assigned hk).peeking _,
      .inl ⟨rfl, hs.frame⟩⟩

theorem start_safe (h : s.Attached) (hs : conf.Succeeds ∨ s.Started ∨ s.Quiet) :
    SafeStep (start conf) Safe s := by
  obtain ⟨hq, ha, ho⟩ := start_outcome conf s
  rcases ho with ⟨hr, hst⟩ | ⟨hr, hno, ho, hkeep⟩
  · exact ⟨.inl hr, .inl hst, ha h⟩
  · refine ⟨.inr hr, ?_, ha h⟩
    rcases hs with hs | hs | hs
    · exact absurd hs hno
    · exact .inl (hkeep hs)
    · refine .inr ⟨?_, ?_⟩
      · rw [ho]
        exact hs.1
      · rw [hq]
        exact hs.2

theorem resetPtrsCommon_attached (h : s.Attached) : (resetPtrsCommon.on s).2.Attached :=
  ⟨h.outstanding, h.queued, fun k hk => by cases hk⟩

theorem stop_safe (h : s.Attached) (hq : s.Quiet) : SafeStep stop Safe s := by
  rw [SafeStep, stop, FailM.on_bind_ok (FailM.on_get s)]
  cases hk : s.socket with
  | none => exact ⟨.inl rfl, .inr hq, resetPtrsCommon_attached h⟩
  | some k =>
    obtain ⟨⟨io, hio⟩, ⟨k', hk'⟩⟩ := h.socket k hk
    simp only [hio, hk', dereference, pure_bind, FailM.on_bind_ok (FailM.on_modify _ s)]
    exact ⟨.inl rfl, .inr hq, ⟨h.outstanding, h.queued, fun k hk => by cases hk⟩⟩

theorem onAccpet_safe (h : s.Safe) (hst : ¬ s.Started → error = .aborted) (bound : Nat)
    (available : Option Nat) : SafeStep (onAccpet error bound available) Safe s := by
  by_cases he : error = .aborted
  · subst he
    exact ⟨.inl rfl, h⟩
  · have hs : s.Started := by
      by_cases hs : s.Started
      · exact hs
      · exact absurd (hst hs) he
    by_cases hok : error = .success
    · subst hok
      obtain ⟨p, hp⟩ := hs.processor
      obtain ⟨io, hio⟩ := hs.ioService
      obtain ⟨k, hk⟩ := hs.socketStrand
      have hget : (onAccpet .success bound available).on s =
          ((orThrow available >>= fun n => modify fun s =>
            { s with outstanding := s.outstanding ++
                [.read { processor := some p, socketStrand := some k, socket := bound } n] } :
            AcceptorM UdpAcceptor Unit)).on s := by
        simp [onAccpet, FailM.on_bind, dereference, hp, hio, hk]
      cases available with
      | none => exact .of_on hget (.inr rfl) h
      | some n =>
        refine .of_on hget (.inl rfl) ⟨.inl hs.frame,
          ?_, h.2.queued, h.2.socket⟩
        intro c n' hop
        rcases List.mem_append.mp hop with hop | hop
        · exact h.2.outstanding c n' hop
        · cases List.mem_singleton.mp hop
          exact ⟨p, rfl⟩
    · obtain ⟨s', hon, hs', ha'⟩ := accept_safe hs h.2
      rw [onAccpet, if_pos hok, if_pos he]
      apply SafeStep.bind hon
      exact ⟨.inl rfl, .inl hs', ha'⟩

theorem readCallback_safe (h : s.Started) (ha : s.Attached) (hc : ∃ p, c.processor = some p)
    (o : ByteOrder) (available : Nat) (error : Result) (received : Bytes) :
    SafeStep (readCallback o c available error received) Safe s := by
  obtain ⟨s', hon, hs', ha'⟩ := accept_safe h ha
  have hsafe : s'.Safe := ⟨.inl hs', ha'⟩
  obtain ⟨p, hp⟩ := hc
  rw [readCallback]
  apply SafeStep.bind hon
  by_cases he : error ≠ .success
  · rw [if_pos he]
    exact ⟨.inl rfl, hsafe⟩
  · rw [if_neg he]
    cases udpAsyncRead available received with
    | error => exact ⟨.inr rfl, hsafe⟩
    | ok request =>
      simp only
      cases udpReadCallback o available request with
      | thrown => exact ⟨.inr rfl, hsafe⟩
      | sizeMissmatch => exact ⟨.inl rfl, hsafe⟩
      | processed request =>
        simp only [hp]
        exact ⟨.inl rfl, .inl hs'.frame,
          ha'.outstanding, ha'.queued, ha'.socket⟩

end UdpAcceptor

/-- The acceptor is quiet when it is stopped for good or for a start that throws, and what is
outstanding while it is not started is aborted. -/
def UdpInput.Calm (s : UdpAcceptor) : UdpInput → Prop
  | .start _ => True
  | .stop => s.Quiet
  | .reload conf => conf.Succeeds ∨ s.Quiet
  | .close _ => True
  | .complete _ error _ => s.Started ∨ error = .aborted
  | .run _ _ _ _ => True

open UdpAcceptor

theorem UdpInput.perform_safe {s : UdpAcceptor} (o : ByteOrder) (i : UdpInput) (h : s.Safe)
    (he : i.Enabled s) (hc : i.Calm s) : SafeStep (i.perform o) Safe s := by
  cases i with
  | start conf => exact start_safe h.2 (.inr h.1)
  | stop => exact stop_safe h.2 hc
  | reload conf =>
    apply SafeStep.bind (FailM.on_modify _ s)
    apply start_safe (resetPtrsCommon_attached h.2)
    rcases hc with hc | hc
    · exact .inl hc
    · exact .inr (.inr hc)
  | close k =>
    refine ⟨.inl rfl, ?_, h.2.outstanding, h.2.queued, h.2.socket⟩
    rcases h.1 with hs | hs
    · exact .inl hs.frame
    · exact .inr hs
  | complete op error received =>
    obtain ⟨hop, _, _⟩ := he
    refine ⟨.inl rfl, ?_, ?_, ?_, h.2.socket⟩
    · by_cases hst : s.Started
      · exact .inl hst.frame
      · have hs := h.1.resolve_left hst
        refine .inr ⟨fun op' hm => hs.1 op' (List.mem_of_mem_erase hm), ?_⟩
        intro x hm
        rcases List.mem_append.mp hm with hm | hm
        · exact hs.2 x hm
        · cases List.mem_singleton.mp hm
          exact ⟨hs.1 op hop, hc.resolve_left hst⟩
    · exact fun c n hm => h.2.outstanding c n (List.mem_of_mem_erase hm)
    · intro c n r bs hm
      rcases List.mem_append.mp hm with hm | hm
      · exact h.2.queued c n r bs hm
      · cases List.mem_singleton.mp hm
        exact h.2.outstanding c n hop
  | run op error received available =>
    have hm : (op, error, received) ∈ s.queued := he
    have ha' : Attached { s with queued := s.queued.erase (op, error, received) } :=
      ⟨h.2.outstanding, fun c n r bs hx => h.2.queued c n r bs (List.mem_of_mem_erase hx),
        h.2.socket⟩
    apply SafeStep.bind (FailM.on_modify _ s)
    cases op with
    | peek k =>
      apply onAccpet_safe
      · refine ⟨?_, ha'⟩
        rcases h.1 with hs | hs
        · exact .inl hs.frame
        · exact .inr ⟨hs.1, fun x hx => hs.2 x (List.mem_of_mem_erase hx)⟩
      · intro hno
        rcases h.1 with hs | hs
        · exact absurd hs.frame hno
        · exact (hs.2 _ hm).2
    | read c n =>
      rcases h.1 with hs | hs
      · apply readCallback_safe _ ha' (h.2.queued c n error received hm)
        exact hs.frame
      · obtain ⟨⟨k, hk⟩, _⟩ := hs.2 _ hm
        cases hk

theorem udp_stop_safe (o : ByteOrder) :
    NeverDereferencesReset (udpMachine o) (UdpInput.perform o) UdpInput.Calm := by
  apply neverDereferencesReset_of_invariant (I := Safe) (fun _ _ => rfl)
  · refine ⟨.inr ⟨?_, ?_⟩, ?_, ?_, ?_⟩
    · intro _ hm
      cases hm
    · intro _ hm
      cases hm
    · intro _ _ hm
      cases hm
    · intro _ _ _ _ hm
      cases hm
    · intro _ hk
      cases hk
  · intro s i h he hc
    exact i.perform_safe o h he hc

/-- In every calm run of each of the three acceptors no handler dereferences a pointer that was
reset. -/
theorem stopping_is_safe (o : ByteOrder) :
    (∀ fl, NeverDereferencesReset (tcpMachine fl) (TcpInput.perform fl) (TcpInput.Calm fl)) ∧
      NeverDereferencesReset (udpMachine o) (UdpInput.perform o) UdpInput.Calm :=
  ⟨tcp_stop_safe, udp_stop_safe o⟩

/-- A connection is accepted just before `stop()`, and its handler runs after it. -/
theorem queued_accept_dereferences_reset :
    ¬ NeverDereferencesReset (tcpMachine .tcp) (TcpInput.perform .tcp) (fun _ _ => True) := by
  have hstart : (tcpMachine .tcp).Reachable (fun _ _ => True)
      ((tcpMachine .tcp).next {} (.start goodTcpConf)) := .step .init trivial trivial
  have haccept := hstart.step (i := TcpInput.complete (.accept 0 { processor := some 0 }) .success)
    ⟨by decide, fun hc => by cases hc⟩ trivial
  exact dereferences_of_queued haccept (by decide) (.head [])

end CppAlls
