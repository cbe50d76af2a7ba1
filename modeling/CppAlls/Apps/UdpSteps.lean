import CppAlls.Apps.UdpAcceptor

namespace CppAlls
set_option autoImplicit true

open Failing

namespace UdpAcceptor

structure Started (s : UdpAcceptor) : Prop where
  processor : ∃ p, s.processor = some p
  ioService : ∃ io, s.ioService = some io
  socketStrand : ∃ k, s.socketStrand = some k
  socket : ∃ k, s.socket = some k

theorem Started.frame (h : Started s) {closing closed : List Nat} {outstanding : List UdpOperation}
    {queued : List (UdpOperation × Result × Bytes)}
    {served : List (Nat × UdpConnection × StackRequest)} :
    Started { s with
      closing := closing, closed := closed
      outstanding := outstanding, queued := queued, served := served } :=
  ⟨h.processor, h.ioService, h.socketStrand, h.socket⟩

/-- The acceptor after `accept()` on the socket `k`. -/
def peeking (s : UdpAcceptor) (k : Nat) : UdpAcceptor :=
  { s with outstanding := s.outstanding ++ [.peek k] }

theorem accept_cases (s : UdpAcceptor) :
    (¬ s.Started ∧ ∃ e, accept.on s = (.error e, s)) ∨
      ∃ k, s.socket = some k ∧ accept.on s = (.ok (), s.peeking k) := by
  cases hk : s.socket with
  | none =>
    refine .inl ⟨?_, .nullDereference .socket, ?_⟩
    · intro h
      obtain ⟨k, h⟩ := h.socket
      rw [hk] at h
      cases h
    · rw [accept, FailM.on_bind_ok (FailM.on_get s), hk]
      rfl
  | some k =>
    cases hstrand : s.socketStrand with
    | none =>
      refine .inl ⟨?_, .nullDereference .socketStrand, ?_⟩
      · intro h
        obtain ⟨k, h⟩ := h.socketStrand
        rw [hstrand] at h
        cases h
      · rw [accept, FailM.on_bind_ok (FailM.on_get s), hk, hstrand]
        rfl
    | some strand =>
      refine .inr ⟨k, rfl, ?_⟩
      rw [accept, FailM.on_bind_ok (FailM.on_get s), hk, hstrand]
      rfl

theorem accept_on (h : Started s) :
    ∃ k, s.socket = some k ∧ accept.on s = (.ok (), s.peeking k) := by
  rcases accept_cases s with ⟨hno, _⟩ | hk
  · exact absurd h hno
  · exact hk

/-- A socket is set only beside the pointers that its operations need. -/
def Bound (s : UdpAcceptor) : Prop :=
  ∀ k, s.socket = some k → (∃ io, s.ioService = some io) ∧ ∃ k, s.socketStrand = some k

/-- What the assignments of `start` change before it accepts. -/
structure Assigned (s s' : UdpAcceptor) : Prop where
  outstanding : s'.outstanding = s.outstanding
  queued : s'.queued = s.queued
  served : s'.served = s.served
  started : s.Started → s'.Started
  bound : s.Bound → s'.Bound

/-- `start` throws, or it ends with a peek. -/
inductive Starts (conf : UdpConf) (s : UdpAcceptor) : Except Failure Unit → UdpAcceptor → Prop where
  | thrown : ¬ conf.Succeeds → Assigned s t → Starts conf s (.error .thrown) t
  | accepting : conf.Succeeds → Assigned s t → t.Started → Starts conf s (.ok ()) (t.peeking k)

theorem start_starts (conf : UdpConf) (s : UdpAcceptor) :
    Starts conf s ((start conf).on s).1 ((start conf).on s).2 := by
  obtain ⟨logger, processor, derives, ioService, binds, options⟩ := conf
  cases logger with
  | false => exact .thrown (by simp [UdpConf.Succeeds]) ⟨rfl, rfl, rfl, id, id⟩
  | true =>
    cases processor with
    | none => exact .thrown (by simp [UdpConf.Succeeds]) ⟨rfl, rfl, rfl, id, id⟩
    | some p =>
      cases derives with
      | false =>
        exact .thrown (by simp [UdpConf.Succeeds]) ⟨rfl, rfl, rfl,
          fun h => ⟨⟨p, rfl⟩, h.ioService, h.socketStrand, h.socket⟩, fun h => h⟩
      | true =>
        cases ioService with
        | none =>
          exact .thrown (by simp [UdpConf.Succeeds]) ⟨rfl, rfl, rfl,
            fun h => ⟨⟨p, rfl⟩, h.ioService, h.socketStrand, h.socket⟩, fun h => h⟩
        | some io =>
          cases binds with
          | false =>
            exact .thrown (by simp [UdpConf.Succeeds]) ⟨rfl, rfl, rfl,
              fun h => ⟨⟨p, rfl⟩, ⟨io, rfl⟩, h.socketStrand, h.socket⟩,
              fun h k hk => ⟨⟨io, rfl⟩, (h k hk).2⟩⟩
          | true =>
            have hs : Started { s with
                processor := some p, ioService := some io
                socket := some s.sockets, sockets := s.sockets + 1
                socketStrand := some (s.sockets + 1) } :=
              ⟨⟨p, rfl⟩, ⟨io, rfl⟩, ⟨_, rfl⟩, ⟨_, rfl⟩⟩
            have hkept : Assigned s { s with
                processor := some p, ioService := some io
                socket := some s.sockets, sockets := s.sockets + 1
                socketStrand := some (s.sockets + 1) } :=
              ⟨rfl, rfl, rfl, fun _ => hs, fun _ _ _ => ⟨⟨io, rfl⟩, _, rfl⟩⟩
            cases options with
            | false => exact .thrown (by simp [UdpConf.Succeeds]) hkept
            | true => exact .accepting (by simp [UdpConf.Succeeds]) hkept hs

theorem stop_keeps (s : UdpAcceptor) : (stop.on s).2.outstanding = s.outstanding ∧
    (stop.on s).2.queued = s.queued ∧ (stop.on s).2.served = s.served := by
  rw [stop, FailM.on_bind_ok (FailM.on_get s)]
  cases s.socket with
  | none => exact ⟨rfl, rfl, rfl⟩
  | some k =>
    cases s.ioService with
    | none => exact ⟨rfl, rfl, rfl⟩
    | some io =>
      cases s.socketStrand with
      | none => exact ⟨rfl, rfl, rfl⟩
      | some strand => exact ⟨rfl, rfl, rfl⟩

/-- What a handler does on a state from which its completion was taken. -/
inductive Handles (s : UdpAcceptor) : UdpOperation → UdpAcceptor → Prop where
  | nothing : Handles s op s
  | peeking : s.socket = some k → Handles s op (s.peeking k)
  | reading : c.processor = s.processor →
      Handles s (.peek k) { s with outstanding := s.outstanding ++ [.read c n] }
  | processed : s.socket = some k → c.processor = some p → Handles s (.read c n) { s.peeking k with
      served := s.served ++ [(p, c, request)] }

theorem onAccpet_handles (error : Result) (k : Nat) (available : Option Nat) (s : UdpAcceptor) :
    Handles s (.peek k) ((onAccpet error k available).on s).2 := by
  cases error with
  | aborted => exact .nothing
  | failed =>
    rcases accept_cases s with ⟨_, e, hon⟩ | ⟨k', hk', hon⟩
    · have herr : (onAccpet .failed k available).on s = (.error e, s) := FailM.on_bind_error hon
      rw [herr]
      exact .nothing
    · have hok : (onAccpet .failed k available).on s = (.ok (), s.peeking k') :=
        FailM.on_bind_ok hon
      rw [hok]
      exact .peeking hk'
  | success =>
    rw [onAccpet, if_neg (fun h => h rfl), FailM.on_bind_ok (FailM.on_get s)]
    cases hio : s.ioService with
    | none => exact .nothing
    | some io =>
      cases available with
      | none => exact .nothing
      | some n =>
        cases hstrand : s.socketStrand with
        | none => exact .nothing
        | some strand =>
          have hc : (UdpConnection.mk s.processor (some strand) k).processor = s.processor := rfl
          exact .reading hc

theorem readCallback_handles (o : ByteOrder) (c : UdpConnection) (n : Nat) (error : Result)
    (received : Bytes) (s : UdpAcceptor) :
    Handles s (.read c n) ((readCallback o c n error received).on s).2 := by
  rcases accept_cases s with ⟨_, e, hon⟩ | ⟨k, hk, hon⟩
  · rw [readCallback, FailM.on_bind_error hon]
    exact .nothing
  · rw [readCallback, FailM.on_bind_ok hon]
    by_cases he : error ≠ .success
    · rw [if_pos he]
      exact .peeking hk
    · rw [if_neg he]
      cases udpAsyncRead n received with
      | error => exact .peeking hk
      | ok request =>
        simp only
        cases udpReadCallback o n request with
        | thrown => exact .peeking hk
        | sizeMissmatch => exact .peeking hk
        | processed request =>
          cases hp : c.processor with
          | none => exact .peeking hk
          | some p => exact .processed hk hp

theorem handler_handles (o : ByteOrder) (op : UdpOperation) (error : Result) (received : Bytes)
    (available : Option Nat) (s : UdpAcceptor) :
    Handles s op ((handler o error received available op).on s).2 := by
  cases op with
  | peek k => exact onAccpet_handles error k available s
  | read c n => exact readCallback_handles o c n error received s

end UdpAcceptor

end CppAlls
