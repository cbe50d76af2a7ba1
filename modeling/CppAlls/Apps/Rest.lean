import CppAlls.Apps.StopSafety
import CppAlls.Apps.UdpChain

namespace CppAlls
set_option autoImplicit true

open Failing Machines

/-- Every run of the allowed inputs has one step for each unit of `size`: none goes on for longer,
and none is stuck before. No step of it dereferences a pointer that was reset. -/
def ComesToRest (M : Machine σ ι) (perform : ι → AcceptorM σ Unit) (Allowed : σ → ι → Prop)
    (size : σ → Nat) (s : σ) : Prop :=
  ∀ is, M.Follows Allowed s is →
    is.length + size (is.foldl M.next s) = size s ∧
      (size (is.foldl M.next s) ≠ 0 →
        ∃ i, M.Enabled (is.foldl M.next s) i ∧ Allowed (is.foldl M.next s) i) ∧
      ∀ i m, M.Enabled (is.foldl M.next s) i → Allowed (is.foldl M.next s) i →
        ((perform i).on (is.foldl M.next s)).1 ≠ .error (.nullDereference m)

theorem comesToRest_of_invariant {M : Machine σ ι} {perform : ι → AcceptorM σ Unit}
    {Allowed : σ → ι → Prop} {size : σ → Nat} {I : σ → Prop}
    (hnext : ∀ s i, M.next s i = ((perform i).on s).2) (hs : I s)
    (hstep : ∀ s i, I s → M.Enabled s i → Allowed s i →
      SafeStep (perform i) I s ∧ size (M.next s i) + 1 = size s)
    (hlive : ∀ s, I s → size s ≠ 0 → ∃ i, M.Enabled s i ∧ Allowed s i) :
    ComesToRest M perform Allowed size s := by
  intro is hf
  obtain ⟨hend, hlength⟩ := Machine.Follows.measured size
    (fun s i hI he ha => ⟨hnext s i ▸ (hstep s i hI he ha).1.2, (hstep s i hI he ha).2⟩) hs hf
  refine ⟨hlength, hlive _ hend, ?_⟩
  intro i m he ha hm
  rcases (hstep _ i hend he ha).1.1 with hr | hr
  · rw [hr] at hm
    cases hm
  · rw [hr] at hm
    cases hm

namespace TcpAcceptor

/-- The completions and the handlers that are still to come. -/
def stepsLeft (s : TcpAcceptor) : Nat := 2 * s.outstanding.length + s.queued.length

/-- Without an acceptor no handler begins an operation. -/
theorem Handles.kept (h : Handles fl s op error s') (ha : s.acceptor = none) :
    s'.outstanding = s.outstanding ∧ s'.queued = s.queued ∧ s'.acceptor = none := by
  cases h with
  | ignored => exact ⟨rfl, rfl, ha⟩
  | null _ _ => exact ⟨rfl, rfl, ha⟩
  | again _ hb => cases ha.symm.trans hb
  | shaking hb => cases ha.symm.trans hb
  | processed _ hb _ => cases ha.symm.trans hb
  | unshaken => exact ⟨rfl, rfl, ha⟩
  | shaken _ => exact ⟨rfl, rfl, ha⟩

end TcpAcceptor

def TcpInput.OfAsio (_ : TcpAcceptor) : TcpInput → Prop
  | .start _ => False
  | .stop => False
  | .reload _ => False
  | .complete _ _ => True
  | .run _ _ => True

open TcpAcceptor

theorem TcpInput.perform_stepsLeft {s : TcpAcceptor} (i : TcpInput) (ha : s.acceptor = none)
    (he : i.Enabled s) (hasio : i.OfAsio s) :
    ((tcpMachine fl).next s i).acceptor = none ∧
      ((tcpMachine fl).next s i).stepsLeft + 1 = s.stepsLeft := by
  cases i with
  | start conf => exact hasio.elim
  | stop => exact hasio.elim
  | reload conf => exact hasio.elim
  | complete op error =>
    refine ⟨ha, ?_⟩
    have hlen := List.length_erase_of_mem he.1
    have hpos := List.length_pos_of_mem he.1
    change 2 * (s.outstanding.erase op).length + (s.queued ++ [(op, error)]).length + 1 = _
    rw [hlen, List.length_append, List.length_singleton, stepsLeft]
    omega
  | run op error =>
    have hm : (op, error) ∈ s.queued := he
    have hlen := List.length_erase_of_mem hm
    have hpos := List.length_pos_of_mem hm
    have hkept :=
      (handler_handles fl op error { s with queued := s.queued.erase (op, error) }).kept ha
    have hout : ((tcpMachine fl).next s (.run op error)).outstanding = s.outstanding := hkept.1
    have hqueued : ((tcpMachine fl).next s (.run op error)).queued =
        s.queued.erase (op, error) := hkept.2.1
    refine ⟨hkept.2.2, ?_⟩
    rw [stepsLeft, hout, hqueued, hlen, stepsLeft]
    omega

theorem TcpAcceptor.exists_input {s : TcpAcceptor} (h : s.stepsLeft ≠ 0) :
    ∃ i : TcpInput, i.Enabled s ∧ i.OfAsio s := by
  cases hq : s.queued with
  | cons x xs =>
    refine ⟨.run x.1 x.2, ?_, trivial⟩
    change x ∈ s.queued
    rw [hq]
    exact List.mem_cons_self
  | nil =>
    cases ho : s.outstanding with
    | cons op ops =>
      refine ⟨.complete op .aborted, ⟨?_, fun _ => rfl⟩, trivial⟩
      rw [ho]
      exact List.mem_cons_self
    | nil =>
      rw [stepsLeft, hq, ho] at h
      exact absurd rfl h

theorem TcpAcceptor.reachable_safe {s : TcpAcceptor}
    (h : (tcpMachine fl).Reachable (TcpInput.Calm fl) s) : s.Safe fl := by
  apply h.invariant
  · exact ⟨.inr ⟨(fun _ _ _ hm => by cases hm), fun _ _ hm => by cases hm⟩,
      (fun _ hm => by cases hm), fun _ hm => by cases hm⟩
  · exact fun s i hs he hc => (i.perform_safe hs he hc).2

theorem tcp_comes_to_rest {s : TcpAcceptor}
    (hs : (tcpMachine fl).Reachable (TcpInput.Calm fl) s) (hq : s.Quiet) :
    ComesToRest (tcpMachine fl) (TcpInput.perform fl) TcpInput.OfAsio TcpAcceptor.stepsLeft
      s.stopped := by
  apply comesToRest_of_invariant (I := fun s => s.acceptor = none ∧ s.Safe fl) (fun _ _ => rfl)
  · exact ⟨rfl, .inr (stopped_settled hq), (reachable_safe hs).2⟩
  · intro s i h he ha
    have hcalm : i.Calm fl s := by
      cases i with
      | start conf => trivial
      | stop => exact ha.elim
      | reload conf => exact ha.elim
      | complete op error => trivial
      | run op error => trivial
    obtain ⟨hr, hsafe⟩ := i.perform_safe h.2 he hcalm
    have hleft : ((tcpMachine fl).next s i).acceptor = none ∧
        ((tcpMachine fl).next s i).stepsLeft + 1 = s.stepsLeft := i.perform_stepsLeft h.1 he ha
    exact ⟨⟨hr, hleft.1, hsafe⟩, hleft.2⟩
  · exact fun s h hne => TcpAcceptor.exists_input hne

namespace UdpAcceptor

def stepsLeft (s : UdpAcceptor) : Nat :=
  s.closing.length + (2 * s.outstanding.length + s.queued.length)

end UdpAcceptor

/-- The steps of asio in which what is outstanding is aborted: `stop` only posts the close of the
socket, and no datagram comes before it. -/
def UdpInput.Aborting (_ : UdpAcceptor) : UdpInput → Prop
  | .start _ => False
  | .stop => False
  | .reload _ => False
  | .close _ => True
  | .complete _ error _ => error = .aborted
  | .run _ _ _ _ => True

open UdpAcceptor

/-- All that a safe acceptor without a socket runs are aborted peeks, which do nothing. -/
theorem UdpAcceptor.Safe.run_next {s : UdpAcceptor} (h : s.Safe) (hk : s.socket = none)
    (hm : (op, error, received) ∈ s.queued) (available : Option Nat) :
    (udpMachine o).next s (.run op error received available) =
      { s with queued := s.queued.erase (op, error, received) } := by
  have hno : ¬ s.Started := by
    intro hst
    obtain ⟨k, hst⟩ := hst.socket
    cases hk.symm.trans hst
  obtain ⟨⟨k, hop⟩, he⟩ := (h.1.resolve_left hno).2 _ hm
  cases hop
  cases he
  rfl

theorem UdpInput.perform_stepsLeft {s : UdpAcceptor} (i : UdpInput) (h : s.Safe)
    (hk : s.socket = none) (he : i.Enabled s) (hasio : i.Aborting s) :
    ((udpMachine o).next s i).socket = none ∧
      ((udpMachine o).next s i).stepsLeft + 1 = s.stepsLeft := by
  cases i with
  | start conf => exact hasio.elim
  | stop => exact hasio.elim
  | reload conf => exact hasio.elim
  | close k =>
    have hm : k ∈ s.closing := he
    have hlen := List.length_erase_of_mem hm
    have hpos := List.length_pos_of_mem hm
    refine ⟨hk, ?_⟩
    change (s.closing.erase k).length + (2 * s.outstanding.length + s.queued.length) + 1 = _
    rw [hlen, UdpAcceptor.stepsLeft]
    omega
  | complete op error received =>
    have hlen := List.length_erase_of_mem he.1
    have hpos := List.length_pos_of_mem he.1
    refine ⟨hk, ?_⟩
    change s.closing.length + (2 * (s.outstanding.erase op).length +
      (s.queued ++ [(op, error, received)]).length) + 1 = _
    rw [hlen, List.length_append, List.length_singleton, UdpAcceptor.stepsLeft]
    omega
  | run op error received available =>
    have hm : (op, error, received) ∈ s.queued := he
    have hlen := List.length_erase_of_mem hm
    have hpos := List.length_pos_of_mem hm
    rw [h.run_next hk hm]
    refine ⟨hk, ?_⟩
    change s.closing.length + (2 * s.outstanding.length +
      (s.queued.erase (op, error, received)).length) + 1 = _
    rw [hlen, UdpAcceptor.stepsLeft]
    omega

theorem UdpAcceptor.exists_input {s : UdpAcceptor} (h : s.stepsLeft ≠ 0) :
    ∃ i : UdpInput, i.Enabled s ∧ i.Aborting s := by
  cases hc : s.closing with
  | cons k ks =>
    refine ⟨.close k, ?_, trivial⟩
    change k ∈ s.closing
    rw [hc]
    exact List.mem_cons_self
  | nil =>
    cases hq : s.queued with
    | cons x xs =>
      refine ⟨.run x.1 x.2.1 x.2.2 none, ?_, trivial⟩
      change x ∈ s.queued
      rw [hq]
      exact List.mem_cons_self
    | nil =>
      cases ho : s.outstanding with
      | cons op ops =>
        refine ⟨.complete op .aborted [], ⟨?_, fun _ => Result.noConfusion, ?_⟩, rfl⟩
        · rw [ho]
          exact List.mem_cons_self
        · cases op with
          | peek k => trivial
          | read c n => exact Nat.zero_le n
      | nil =>
        rw [UdpAcceptor.stepsLeft, hc, hq, ho] at h
        exact absurd rfl h

theorem UdpAcceptor.reachable_safe {s : UdpAcceptor}
    (h : (udpMachine o).Reachable UdpInput.Calm s) : s.Safe := by
  apply h.invariant
  · exact ⟨.inr ⟨(fun _ hm => by cases hm), fun _ hm => by cases hm⟩,
      (fun _ _ hm => by cases hm), (fun _ _ _ _ hm => by cases hm), fun _ hk => by cases hk⟩
  · exact fun s i hs he hc => (i.perform_safe o hs he hc).2

theorem UdpAcceptor.stop_socket {s : UdpAcceptor} (h : s.Attached) :
    ((udpMachine o).next s .stop).socket = none := by
  change (stop.on s).2.socket = none
  rw [stop, FailM.on_bind_ok (FailM.on_get s)]
  cases hk : s.socket with
  | none => rfl
  | some k =>
    obtain ⟨⟨io, hio⟩, ⟨k', hk'⟩⟩ := h.socket k hk
    rw [hio, hk']
    rfl

theorem udp_comes_to_rest {s : UdpAcceptor} (hs : (udpMachine o).Reachable UdpInput.Calm s)
    (hq : s.Quiet) : ComesToRest (udpMachine o) (UdpInput.perform o) UdpInput.Aborting
      UdpAcceptor.stepsLeft ((udpMachine o).next s .stop) := by
  have hsafe := UdpAcceptor.reachable_safe hs
  apply comesToRest_of_invariant (I := fun s => s.socket = none ∧ s.Safe) (fun _ _ => rfl)
  · exact ⟨stop_socket hsafe.2, (stop_safe hsafe.2 hq).2⟩
  · intro s i h he ha
    have hcalm : i.Calm s := by
      cases i with
      | start conf => exact ha.elim
      | stop => exact ha.elim
      | reload conf => exact ha.elim
      | close k => trivial
      | complete op error received => exact .inr ha
      | run op error received available => trivial
    obtain ⟨hr, hsafe⟩ := i.perform_safe o h.2 he hcalm
    obtain ⟨hnone, hsteps⟩ := i.perform_stepsLeft (o := o) h.2 h.1 he ha
    exact ⟨⟨hr, hnone, hsafe⟩, hsteps⟩
  · exact fun s h hne => UdpAcceptor.exists_input hne

/-- A peek that is not aborted goes on with the pointers that `stop` reset. -/
theorem UdpAcceptor.late_peek_dereferences {s : UdpAcceptor} (hk : s.socket = none)
    (hio : s.ioService = none) (he : error ≠ .aborted) (available : Option Nat) : ∃ m,
    ((UdpInput.perform o (.run (.peek k) error received available)).on s).1 =
      .error (.nullDereference m) := by
  rw [UdpInput.perform, FailM.on_bind_ok (FailM.on_modify _ _)]
  by_cases hs : error = .success
  · subst hs
    refine ⟨.ioService, ?_⟩
    rw [UdpAcceptor.handler, onAccpet, if_neg (fun h => h rfl),
      FailM.on_bind_ok (FailM.on_get _)]
    simp only [hio]
    rfl
  · refine ⟨.socket, ?_⟩
    rw [UdpAcceptor.handler, onAccpet, if_pos hs, if_pos he, accept]
    simp only [hk]
    rfl

/-- A `stop` of each of the three acceptors in a calm run, when no accept has completed that is not
yet handled (and no datagram is being read): what is left are as many completions and handlers as
there were, in any order, and none of them begins an operation or dereferences a pointer that was
reset. Over UDP that takes that the peek is aborted, which a datagram before the posted close is
not. -/
theorem acceptors_come_to_rest (o : ByteOrder) :
    (∀ fl s, (tcpMachine fl).Reachable (TcpInput.Calm fl) s → s.Quiet →
      ComesToRest (tcpMachine fl) (TcpInput.perform fl) TcpInput.OfAsio TcpAcceptor.stepsLeft
        ((tcpMachine fl).next s .stop)) ∧
      (∀ s, (udpMachine o).Reachable UdpInput.Calm s → s.Quiet →
        ComesToRest (udpMachine o) (UdpInput.perform o) UdpInput.Aborting UdpAcceptor.stepsLeft
          ((udpMachine o).next s .stop)) ∧
      ∀ (s : UdpAcceptor) k error received available, s.socket = none → s.ioService = none →
        error ≠ .aborted → ∃ m,
          ((UdpInput.perform o (.run (.peek k) error received available)).on s).1 =
            .error (.nullDereference m) := by
  refine ⟨?_, ?_, ?_⟩
  · intro fl s hs hq
    exact tcp_comes_to_rest hs hq
  · intro s hs hq
    exact udp_comes_to_rest hs hq
  · intro s k error received available hk hio he
    exact UdpAcceptor.late_peek_dereferences hk hio he available

/-- An acceptor over TLS and one over UDP are stopped right after their start, and a datagram
arrives before the socket of the second one is closed. -/
theorem started_acceptors_come_to_rest :
    ComesToRest (tcpMachine .tcpSsl) (TcpInput.perform .tcpSsl) TcpInput.OfAsio
        TcpAcceptor.stepsLeft ((tcpMachine .tcpSsl).next
          ((tcpMachine .tcpSsl).next {} (.start goodTcpConf)) .stop) ∧
      ComesToRest (udpMachine .little) (UdpInput.perform .little) UdpInput.Aborting
        UdpAcceptor.stepsLeft ((udpMachine .little).next
          ((udpMachine .little).next {} (.start goodUdpConf)) .stop) ∧
      ∃ m, ((UdpInput.perform .little (.run (.peek 0) .success [] (some 4))).on
        ((udpMachine .little).next ((udpMachine .little).next ((udpMachine .little).next {}
          (.start goodUdpConf)) .stop) (.complete (.peek 0) .success []))).1 =
            .error (.nullDereference m) := by
  refine ⟨?_, ?_, ?_⟩
  · apply (acceptors_come_to_rest .little).1
    · exact .step .init trivial trivial
    · refine ⟨(fun _ _ _ hm => by cases hm), ?_⟩
      intro a c hm
      cases List.mem_singleton.mp hm
      exact .inl rfl
  · apply (acceptors_come_to_rest .little).2.1
    · exact .step .init trivial trivial
    · refine ⟨?_, (fun _ hm => by cases hm)⟩
      intro op hm
      exact ⟨_, List.mem_singleton.mp hm⟩
  · exact (acceptors_come_to_rest .little).2.2 _ 0 .success [] (some 4) rfl rfl (by decide)

end CppAlls
