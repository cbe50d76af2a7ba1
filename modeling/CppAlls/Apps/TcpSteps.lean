import CppAlls.Apps.TcpAcceptor

namespace CppAlls
set_option autoImplicit true

open Failing

namespace TcpAcceptor

/-- Every pointer that a handler dereferences is set. -/
structure Started (fl : Flavour) (s : TcpAcceptor) : Prop where
  processor : ∃ p, s.processor = some p
  ioService : ∃ io, s.ioService = some io
  acceptor : ∃ a, s.acceptor = some a
  context : fl = .tcpSsl → ∃ x, s.context = some x

/-- The operations and the calls of processors are no pointers. -/
theorem Started.frame (h : Started fl s) {outstanding : List TcpOperation}
    {queued : List (TcpOperation × Result)} {served : List (Nat × StreamConnection)} :
    Started fl { s with outstanding := outstanding, queued := queued, served := served } :=
  ⟨h.processor, h.ioService, h.acceptor, h.context⟩

/-- The acceptor after `accept()` on `a`. -/
def accepting (s : TcpAcceptor) (a : Nat) : TcpAcceptor :=
  { s with outstanding := s.outstanding ++ [.accept a { processor := s.processor }] }

theorem createConnection_cases (fl : Flavour) (s : TcpAcceptor) :
    (¬ s.Started fl ∧ ∃ e, (createConnection fl).on s = (.error e, s)) ∨
      (createConnection fl).on s = (.ok { processor := s.processor }, s) := by
  cases hio : s.ioService with
  | none =>
    refine .inl ⟨?_, ?_⟩
    · intro h
      obtain ⟨io, h⟩ := h.ioService
      rw [hio] at h
      cases h
    · cases fl with
      | tcp => exact ⟨_, by simp [createConnection, FailM.on_bind, dereference, hio]; rfl⟩
      | tcpSsl =>
        cases hx : s.context with
        | none => exact ⟨_, by simp [createConnection, FailM.on_bind, dereference, hx]; rfl⟩
        | some x => exact ⟨_, by simp [createConnection, FailM.on_bind, dereference, hx, hio]; rfl⟩
  | some io =>
    cases fl with
    | tcp => exact .inr (by simp [createConnection, FailM.on_bind, dereference, hio])
    | tcpSsl =>
      cases hx : s.context with
      | none =>
        refine .inl ⟨?_, _, by simp [createConnection, FailM.on_bind, dereference, hx]; rfl⟩
        intro h
        obtain ⟨x, h⟩ := h.context rfl
        rw [hx] at h
        cases h
      | some x => exact .inr (by simp [createConnection, FailM.on_bind, dereference, hx, hio])

theorem accept_cases (fl : Flavour) (s : TcpAcceptor) :
    (¬ s.Started fl ∧ ∃ e, (accept fl).on s = (.error e, s)) ∨
      ∃ a, s.acceptor = some a ∧ (accept fl).on s = (.ok (), s.accepting a) := by
  rcases createConnection_cases fl s with ⟨hno, e, hcreate⟩ | hcreate
  · exact .inl ⟨hno, e, FailM.on_bind_error hcreate⟩
  · cases ha : s.acceptor with
    | none =>
      refine .inl ⟨?_, .nullDereference .acceptor, ?_⟩
      · intro h
        obtain ⟨a, h⟩ := h.acceptor
        rw [ha] at h
        cases h
      · rw [accept, FailM.on_bind_ok hcreate, FailM.on_bind_ok (FailM.on_get s), ha]
        rfl
    | some a =>
      refine .inr ⟨a, rfl, ?_⟩
      rw [accept, FailM.on_bind_ok hcreate, FailM.on_bind_ok (FailM.on_get s), ha]
      rfl

theorem accept_on (h : Started fl s) :
    ∃ a, s.acceptor = some a ∧ (accept fl).on s = (.ok (), s.accepting a) := by
  rcases accept_cases fl s with ⟨hno, _⟩ | ha
  · exact absurd h hno
  · exact ha

/-- `start` reads the configuration up to the name of the processor, which it assigns. -/
def Installs (conf : TcpConf) (p : Nat) : Prop := conf.logger = true ∧ conf.processor = some p

/-- It goes on to a new acceptor. -/
def Listens (conf : TcpConf) : Prop := conf.ioService ≠ none ∧ conf.listens = true

/-- How far the assignments of `start` have come. -/
inductive Reached (conf : TcpConf) (s s' : TcpAcceptor) : Prop where
  | nothing : s'.processor = s.processor → s'.acceptor = s.acceptor →
      s'.acceptors = s.acceptors → Reached conf s s'
  | processor (p : Nat) : Installs conf p → s'.processor = some p → s'.acceptor = s.acceptor →
      s'.acceptors = s.acceptors → Reached conf s s'
  | acceptor (p : Nat) : Installs conf p → Listens conf → s'.processor = some p →
      s'.acceptor = some s.acceptors → s'.acceptors = s.acceptors + 1 → Reached conf s s'

/-- What the assignments of `start` change before it accepts. -/
structure Assigned (fl : Flavour) (conf : TcpConf) (s s' : TcpAcceptor) : Prop where
  outstanding : s'.outstanding = s.outstanding
  queued : s'.queued = s.queued
  closed : s'.closed = s.closed
  served : s'.served = s.served
  started : s.Started fl → s'.Started fl
  reached : Reached conf s s'

/-- `start` throws, or it ends with an accept on an acceptor of its own. -/
inductive Starts (fl : Flavour) (conf : TcpConf) (s : TcpAcceptor) :
    Except Failure Unit → TcpAcceptor → Prop where
  | thrown : ¬ conf.Succeeds fl → Assigned fl conf s t → Starts fl conf s (.error .thrown) t
  | accepting : conf.Succeeds fl → Assigned fl conf s t → t.Started fl →
      t.acceptor = some s.acceptors → Starts fl conf s (.ok ()) (t.accepting s.acceptors)

theorem Starts.of_accept (hc : conf.Succeeds fl) (h : Assigned fl conf s t) (hs : t.Started fl)
    (ha : t.acceptor = some s.acceptors) :
    Starts fl conf s ((accept fl).on t).1 ((accept fl).on t).2 := by
  obtain ⟨a, ha', hon⟩ := accept_on hs
  obtain rfl : s.acceptors = a := Option.some.inj (ha.symm.trans ha')
  rw [hon]
  exact .accepting hc h hs ha

theorem start_starts (fl : Flavour) (conf : TcpConf) (s : TcpAcceptor) :
    Starts fl conf s ((start fl conf).on s).1 ((start fl conf).on s).2 := by
  obtain ⟨logger, processor, ioService, listens, options, contextFiles⟩ := conf
  cases logger with
  | false =>
    exact .thrown (by simp [TcpConf.Succeeds])
      ⟨rfl, rfl, rfl, rfl, id, .nothing rfl rfl rfl⟩
  | true =>
    cases processor with
    | none =>
      exact .thrown (by simp [TcpConf.Succeeds])
        ⟨rfl, rfl, rfl, rfl, id, .nothing rfl rfl rfl⟩
    | some p =>
      cases ioService with
      | none =>
        exact .thrown (by simp [TcpConf.Succeeds]) ⟨rfl, rfl, rfl, rfl,
          fun h => ⟨⟨p, rfl⟩, h.ioService, h.acceptor, h.context⟩,
          .processor p ⟨rfl, rfl⟩ rfl rfl rfl⟩
      | some io =>
        cases listens with
        | false =>
          exact .thrown (by simp [TcpConf.Succeeds]) ⟨rfl, rfl, rfl, rfl,
            fun h => ⟨⟨p, rfl⟩, ⟨io, rfl⟩, h.acceptor, h.context⟩,
            .processor p ⟨rfl, rfl⟩ rfl rfl rfl⟩
        | true =>
          cases options with
          | false =>
            exact .thrown (by simp [TcpConf.Succeeds]) ⟨rfl, rfl, rfl, rfl,
              fun h => ⟨⟨p, rfl⟩, ⟨io, rfl⟩, ⟨_, rfl⟩, h.context⟩,
              .acceptor p ⟨rfl, rfl⟩ (by simp [Listens]) rfl rfl rfl⟩
          | true =>
            cases fl with
            | tcp =>
              have hs : Started .tcp { s with
                  processor := some p, ioService := some io
                  acceptor := some s.acceptors, acceptors := s.acceptors + 1 } :=
                ⟨⟨p, rfl⟩, ⟨io, rfl⟩, ⟨_, rfl⟩, fun h => by cases h⟩
              have hkept : Assigned .tcp ⟨true, some p, some io, true, true, contextFiles⟩ s
                  { s with
                    processor := some p, ioService := some io
                    acceptor := some s.acceptors, acceptors := s.acceptors + 1 } :=
                ⟨rfl, rfl, rfl, rfl, fun _ => hs,
                  .acceptor p ⟨rfl, rfl⟩ (by simp [Listens]) rfl rfl rfl⟩
              exact .of_accept (by simp [TcpConf.Succeeds]) hkept hs rfl
            | tcpSsl =>
              have hs : Started .tcpSsl { s with
                  processor := some p, ioService := some io
                  acceptor := some s.acceptors, acceptors := s.acceptors + 1
                  context := some (s.acceptors + 1) } :=
                ⟨⟨p, rfl⟩, ⟨io, rfl⟩, ⟨_, rfl⟩, fun _ => ⟨_, rfl⟩⟩
              have hkept : Assigned .tcpSsl ⟨true, some p, some io, true, true, contextFiles⟩ s
                  { s with
                    processor := some p, ioService := some io
                    acceptor := some s.acceptors, acceptors := s.acceptors + 1
                    context := some (s.acceptors + 1) } :=
                ⟨rfl, rfl, rfl, rfl, fun _ => hs,
                  .acceptor p ⟨rfl, rfl⟩ (by simp [Listens]) rfl rfl rfl⟩
              cases contextFiles with
              | false => exact .thrown (by simp [TcpConf.Succeeds]) hkept
              | true => exact .of_accept (by simp [TcpConf.Succeeds]) hkept hs rfl

def stopped (s : TcpAcceptor) : TcpAcceptor :=
  { s with
    closed := s.acceptor.toList ++ s.closed
    acceptor := none
    context := none
    processor := none
    ioService := none }

theorem reload_on (fl : Flavour) (conf : TcpConf) (s : TcpAcceptor) :
    (reload fl conf).on s = (start fl conf).on s.stopped := by
  have hstop : TcpAcceptor.stop.on s = (.ok (), s.stopped) := rfl
  rw [reload, FailM.on_bind_ok hstop]

/-- What a handler does on a state from which its completion was taken. -/
inductive Handles (fl : Flavour) (s : TcpAcceptor) :
    TcpOperation → Result → TcpAcceptor → Prop where
  | ignored : Handles fl s (.accept a c) .aborted s
  | null : error ≠ .aborted → ¬ s.Started fl → Handles fl s (.accept a c) error s
  | again : error ≠ .aborted → s.acceptor = some b →
      Handles fl s (.accept a c) error (s.accepting b)
  | shaking : s.acceptor = some b → Handles fl s (.accept a c) .success { s.accepting b with
      outstanding := (s.accepting b).outstanding ++ [.handshake c] }
  | processed : fl = .tcp → s.acceptor = some b → s.processor = some p →
      Handles fl s (.accept a c) .success { s.accepting b with served := s.served ++ [(p, c)] }
  | unshaken : Handles fl s (.handshake c) error s
  | shaken : c.processor = some p →
      Handles fl s (.handshake c) error { s with served := s.served ++ [(p, c)] }

theorem onAccpet_handles (fl : Flavour) (a : Nat) (c : StreamConnection) (error : Result)
    (s : TcpAcceptor) : Handles fl s (.accept a c) error ((onAccpet fl c error).on s).2 := by
  by_cases he : error = .aborted
  · subst he
    exact .ignored
  · rw [onAccpet, if_neg he]
    rcases accept_cases fl s with ⟨hno, e, hon⟩ | ⟨b, hb, hon⟩
    · rw [FailM.on_bind_error hon]
      exact .null he hno
    · rw [FailM.on_bind_ok hon]
      by_cases hok : error = .success
      · subst hok
        rw [if_pos rfl]
        cases fl with
        | tcp =>
          rw [serve, FailM.on_bind_ok (FailM.on_get _)]
          cases hp : s.processor with
          | none =>
            rw [show (s.accepting b).processor = none from hp]
            exact .again he hb
          | some p =>
            rw [show (s.accepting b).processor = some p from hp]
            exact .processed rfl hb hp
        | tcpSsl => exact .shaking hb
      · rw [if_neg hok]
        exact .again he hb

theorem handler_handles (fl : Flavour) (op : TcpOperation) (error : Result) (s : TcpAcceptor) :
    Handles fl s op error ((handler fl error op).on s).2 := by
  cases op with
  | accept a c => exact onAccpet_handles fl a c error s
  | handshake c =>
    rw [handler, handleHandshake]
    by_cases he : error ≠ .success
    · rw [if_pos he]
      exact .unshaken
    · rw [if_neg he]
      cases hp : c.processor with
      | none => exact .unshaken
      | some p => exact .shaken hp

end TcpAcceptor

end CppAlls
