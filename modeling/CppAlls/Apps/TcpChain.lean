import CppAlls.Apps.TcpStop
import CppAlls.Lib.Completions

namespace CppAlls
set_option autoImplicit true

open Failing Machines Completions

def TcpOperation.acceptsOn (a : Nat) : TcpOperation → Bool
  | .accept b _ => b == a
  | .handshake _ => false

/-- The accepts on the acceptor `a` that are outstanding or queued. -/
def TcpAcceptor.acceptsUnderWay (s : TcpAcceptor) (a : Nat) : Nat :=
  underWay (TcpOperation.acceptsOn a) s.outstanding s.queued

/-- Whether the acceptor is between a `start` or `reload` that returned and the next `stop`. -/
def TcpInput.serves (r : Except Failure Unit) (serving : Bool) : TcpInput → Bool
  | .start _ => r.isOk
  | .stop => false
  | .reload _ => r.isOk
  | .complete _ _ => serving
  | .run _ _ => serving

def tcpServing (fl : Flavour) : Machine (TcpAcceptor × Bool) TcpInput :=
  (tcpMachine fl).withHistory false fun s i serving => i.serves ((i.perform fl).on s).1 serving

/-- In every run of allowed inputs an acceptor that serves has one accept under way. -/
def OneAcceptChain (fl : Flavour) (Allowed : TcpAcceptor → TcpInput → Prop) : Prop :=
  ∀ x, (tcpServing fl).Reachable (fun x i => Allowed x.1 i) x → x.2 = true →
    ∃ a, x.1.acceptor = some a ∧ x.1.acceptsUnderWay a = 1

namespace TcpAcceptor

variable {s s' : TcpAcceptor}

/-- Acceptors are numbered as they are made, and no accept of the current one was aborted. -/
structure Numbered (s : TcpAcceptor) : Prop where
  acceptor : ∀ a, s.acceptor = some a → a < s.acceptors
  outstanding : ∀ a c, .accept a c ∈ s.outstanding → a < s.acceptors
  queued : ∀ a c r, (.accept a c, r) ∈ s.queued → a < s.acceptors
  aborted : ∀ a c, (.accept a c, .aborted) ∈ s.queued → s.acceptor ≠ some a

/-- On the acceptor `a` of a started application `n` accepts are under way, and what is under way
on others will be aborted. -/
structure Chain (fl : Flavour) (a n : Nat) (s : TcpAcceptor) : Prop where
  started : s.Started fl
  acceptor : s.acceptor = some a
  outstanding : ∀ b c, .accept b c ∈ s.outstanding → b = a ∨ b ∈ s.closed
  queued : ∀ b c r, (.accept b c, r) ∈ s.queued → b = a ∨ r = .aborted
  underWay : s.acceptsUnderWay a = n

theorem Numbered.accepting (h : s.Numbered) (ha : s.acceptor = some a) :
    (s.accepting a).Numbered := by
  refine ⟨h.acceptor, ?_, h.queued, h.aborted⟩
  intro b c hop
  rcases List.mem_append.mp hop with hop | hop
  · exact h.outstanding b c hop
  · cases List.mem_singleton.mp hop
    exact h.acceptor a ha

theorem Numbered.shaking (h : s.Numbered) (c : StreamConnection) :
    Numbered { s with outstanding := s.outstanding ++ [.handshake c] } := by
  refine ⟨h.acceptor, ?_, h.queued, h.aborted⟩
  intro b c' hop
  rcases List.mem_append.mp hop with hop | hop
  · exact h.outstanding b c' hop
  · cases List.mem_singleton.mp hop

theorem Numbered.assigned (h : s.Numbered) (hk : Assigned fl conf s s') : s'.Numbered := by
  have hle : s.acceptors ≤ s'.acceptors := by
    cases hk.reached with
    | nothing _ _ hn => exact Nat.le_of_eq hn.symm
    | processor _ _ _ _ hn => exact Nat.le_of_eq hn.symm
    | acceptor _ _ _ _ _ hn =>
      rw [hn]
      exact Nat.le_succ _
  constructor
  · intro a ha
    cases hk.reached with
    | nothing _ hs hn =>
      rw [hn]
      exact h.acceptor a (hs.symm.trans ha)
    | processor _ _ _ hs hn =>
      rw [hn]
      exact h.acceptor a (hs.symm.trans ha)
    | acceptor _ _ _ _ hs hn =>
      obtain rfl : s.acceptors = a := Option.some.inj (hs.symm.trans ha)
      rw [hn]
      exact Nat.lt_succ_self _
  · intro a c hop
    rw [hk.outstanding] at hop
    exact Nat.lt_of_lt_of_le (h.outstanding a c hop) hle
  · intro a c r hop
    rw [hk.queued] at hop
    exact Nat.lt_of_lt_of_le (h.queued a c r hop) hle
  · intro a c hop ha
    rw [hk.queued] at hop
    cases hk.reached with
    | nothing _ hs _ => exact h.aborted a c hop (hs.symm.trans ha)
    | processor _ _ _ hs _ => exact h.aborted a c hop (hs.symm.trans ha)
    | acceptor _ _ _ _ hs _ =>
      obtain rfl : s.acceptors = a := Option.some.inj (hs.symm.trans ha)
      exact Nat.lt_irrefl _ (h.queued _ c _ hop)

theorem Numbered.stopped (h : s.Numbered) : s.stopped.Numbered := by
  constructor
  · intro a ha
    cases ha
  · exact h.outstanding
  · exact h.queued
  · intro a c _ ha
    cases ha

theorem Numbered.started (h : s.Numbered) (hst : Starts fl conf s r s') : s'.Numbered := by
  cases hst with
  | thrown _ hk => exact h.assigned hk
  | accepting _ hk _ ha => exact (h.assigned hk).accepting ha

theorem Numbered.handled (h : s.Numbered) (hh : Handles fl s op error s') : s'.Numbered := by
  cases hh with
  | ignored => exact h
  | null _ _ => exact h
  | again _ hb => exact h.accepting hb
  | shaking hb => exact (h.accepting hb).shaking _
  | processed _ hb _ =>
    have hn := h.accepting hb
    exact ⟨hn.acceptor, hn.outstanding, hn.queued, hn.aborted⟩
  | unshaken => exact h
  | shaken _ => exact ⟨h.acceptor, h.outstanding, h.queued, h.aborted⟩

theorem Numbered.taken (h : s.Numbered) (x : TcpOperation × Result) :
    Numbered { s with queued := s.queued.erase x } := by
  refine ⟨h.acceptor, h.outstanding, ?_, ?_⟩
  · intro a c r hop
    exact h.queued a c r (List.mem_of_mem_erase hop)
  · intro a c hop
    exact h.aborted a c (List.mem_of_mem_erase hop)

theorem Numbered.completed (h : s.Numbered) (hop : op ∈ s.outstanding)
    (hab : ∀ a c, op = .accept a c → error = .aborted → s.acceptor ≠ some a) :
    Numbered { s with
      outstanding := s.outstanding.erase op, queued := s.queued ++ [(op, error)] } := by
  refine ⟨h.acceptor, ?_, ?_, ?_⟩
  · intro a c hm
    exact h.outstanding a c (List.mem_of_mem_erase hm)
  · intro a c r hm
    rcases List.mem_append.mp hm with hm | hm
    · exact h.queued a c r hm
    · cases List.mem_singleton.mp hm
      exact h.outstanding a c hop
  · intro a c hm
    rcases List.mem_append.mp hm with hm | hm
    · exact h.aborted a c hm
    · cases List.mem_singleton.mp hm
      exact hab a c rfl rfl

/-- Nothing is under way on an acceptor that is not made yet. -/
theorem acceptsUnderWay_fresh (h : s.Numbered) : s.acceptsUnderWay s.acceptors = 0 := by
  apply underWay_eq_zero
  · intro op hop
    cases op with
    | accept b c => exact beq_false_of_ne (Nat.ne_of_lt (h.outstanding b c hop))
    | handshake c => rfl
  · intro x hx
    obtain ⟨op, r⟩ := x
    cases op with
    | accept b c => exact beq_false_of_ne (Nat.ne_of_lt (h.queued b c r hx))
    | handshake c => rfl

theorem Chain.accepting (h : Chain fl a n s) : Chain fl a (n + 1) (s.accepting a) := by
  refine ⟨h.started.frame,
    h.acceptor, ?_, h.queued, ?_⟩
  · intro b c hop
    rcases List.mem_append.mp hop with hop | hop
    · exact h.outstanding b c hop
    · cases List.mem_singleton.mp hop
      exact .inl rfl
  · rw [← h.underWay, acceptsUnderWay, TcpAcceptor.accepting, underWay_begin,
      TcpOperation.acceptsOn, beq_self_eq_true, if_pos rfl]
    rfl

theorem Chain.shaking (h : Chain fl a n s) (c : StreamConnection) :
    Chain fl a n { s with outstanding := s.outstanding ++ [.handshake c] } := by
  refine ⟨h.started.frame,
    h.acceptor, ?_, h.queued, ?_⟩
  · intro b c' hop
    rcases List.mem_append.mp hop with hop | hop
    · exact h.outstanding b c' hop
    · cases List.mem_singleton.mp hop
  · rw [← h.underWay, acceptsUnderWay, underWay_begin]
    rfl

theorem Chain.serving (h : Chain fl a n s) (x : Nat × StreamConnection) :
    Chain fl a n { s with served := s.served ++ [x] } :=
  ⟨h.started.frame,
    h.acceptor, h.outstanding, h.queued, h.underWay⟩

theorem Chain.taken (h : Chain fl a m s) (hm : x ∈ s.queued)
    (hn : m = n + if x.1.acceptsOn a then 1 else 0) :
    Chain fl a n { s with queued := s.queued.erase x } := by
  refine ⟨h.started.frame,
    h.acceptor, h.outstanding, ?_, ?_⟩
  · intro b c r hop
    exact h.queued b c r (List.mem_of_mem_erase hop)
  · apply Nat.add_right_cancel (m := if x.1.acceptsOn a then 1 else 0)
    rw [acceptsUnderWay, ← underWay_take hm, ← hn]
    exact h.underWay

theorem Chain.completed (h : Chain fl a n s) (hop : op ∈ s.outstanding)
    (hab : op.OnClosed s.closed → error = .aborted) : Chain fl a n { s with
      outstanding := s.outstanding.erase op, queued := s.queued ++ [(op, error)] } := by
  refine ⟨h.started.frame,
    h.acceptor, ?_, ?_, ?_⟩
  · intro b c hm
    exact h.outstanding b c (List.mem_of_mem_erase hm)
  · intro b c r hm
    rcases List.mem_append.mp hm with hm | hm
    · exact h.queued b c r hm
    · cases List.mem_singleton.mp hm
      rcases h.outstanding b c hop with hb | hb
      · exact .inl hb
      · exact .inr (hab hb)
  · rw [acceptsUnderWay, underWay_complete hop]
    exact h.underWay

/-- The handler of the accept that ends begins the next one. -/
theorem Chain.accepted (h : Chain fl a n s) (he : error ≠ .aborted)
    (hh : Handles fl s (.accept b c) error s') : Chain fl a (n + 1) s' := by
  have hcur (d : Nat) (hd : s.acceptor = some d) : d = a :=
    Option.some.inj (hd.symm.trans h.acceptor)
  cases hh with
  | ignored => exact absurd rfl he
  | null _ hno => exact absurd h.started hno
  | again _ hb =>
    rw [hcur _ hb]
    exact h.accepting
  | shaking hb =>
    rw [hcur _ hb]
    exact h.accepting.shaking _
  | processed _ hb _ =>
    rw [hcur _ hb]
    exact h.accepting.serving _

theorem Chain.handled (h : Chain fl a 1 s) (hn : s.Numbered) (hm : (op, error) ∈ s.queued)
    (hh : Handles fl { s with queued := s.queued.erase (op, error) } op error s') :
    Chain fl a 1 s' := by
  cases op with
  | handshake c =>
    have ht : Chain fl a 1 { s with queued := s.queued.erase (.handshake c, error) } :=
      h.taken hm rfl
    cases hh with
    | unshaken => exact ht
    | shaken _ => exact ht.serving _
  | accept b c =>
    by_cases he : error = .aborted
    · subst he
      have hb : (b == a) = false := by
        rw [beq_eq_false_iff_ne]
        rintro rfl
        exact hn.aborted b c hm h.acceptor
      cases hh with
      | ignored => exact h.taken hm (by simp [TcpOperation.acceptsOn, hb])
      | null he _ => exact absurd rfl he
      | again he _ => exact absurd rfl he
    · obtain rfl : b = a := (h.queued b c error hm).resolve_right he
      have ht : Chain fl b 0 { s with queued := s.queued.erase (.accept b c, error) } :=
        h.taken hm (by simp [TcpOperation.acceptsOn])
      exact ht.accepted he hh

/-- A start begins a chain of its own when what is under way will be aborted. -/
theorem Settled.chain (h : s.Settled) (hn : s.Numbered) (hst : Starts fl conf s (.ok ()) s') :
    ∃ a, Chain fl a 1 s' := by
  cases hst with
  | accepting _ hk hs ha =>
    refine ⟨s.acceptors, Chain.accepting ⟨hs, ha, ?_, ?_, ?_⟩⟩
    · intro b c hop
      rw [hk.outstanding] at hop
      rw [hk.closed]
      exact .inr (h.2 b c hop)
    · intro b c r hop
      rw [hk.queued] at hop
      exact .inr (h.1 b c r hop)
    · rw [acceptsUnderWay, hk.outstanding, hk.queued]
      exact acceptsUnderWay_fresh hn

/-- What holds in every run: one chain on the current acceptor while it serves. -/
def OneChain (fl : Flavour) (x : TcpAcceptor × Bool) : Prop :=
  x.1.Numbered ∧ (x.2 = true → ∃ a, Chain fl a 1 x.1)

theorem start_oneChain (hn : s.Numbered) (hs : conf.Succeeds fl → s.Settled) :
    OneChain fl (((start fl conf).on s).2, ((start fl conf).on s).1.isOk) := by
  have h := start_starts fl conf s
  generalize (start fl conf).on s = x at h
  obtain ⟨r, s'⟩ := x
  refine ⟨hn.started h, ?_⟩
  intro hr
  cases h with
  | thrown _ _ => cases hr
  | accepting hc hk hst ha => exact (hs hc).chain hn (.accepting hc hk hst ha)

end TcpAcceptor

/-- A start or reload that succeeds finds nothing under way that can accept again, and asio aborts
no accept of the current acceptor. -/
def TcpInput.Settling (fl : Flavour) (s : TcpAcceptor) : TcpInput → Prop
  | .start conf => conf.Succeeds fl → s.Settled
  | .stop => True
  | .reload conf => conf.Succeeds fl → s.Quiet
  | .complete op error => ∀ a c, op = .accept a c → error = .aborted → s.acceptor ≠ some a
  | .run _ _ => True

open TcpAcceptor

theorem TcpInput.perform_oneChain {x : TcpAcceptor × Bool} (i : TcpInput) (h : OneChain fl x)
    (he : i.Enabled x.1) (hc : i.Settling fl x.1) : OneChain fl ((tcpServing fl).next x i) := by
  obtain ⟨s, serving⟩ := x
  obtain ⟨hn, hchain⟩ := h
  cases i with
  | start conf => exact start_oneChain hn hc
  | stop =>
    refine ⟨hn.stopped, ?_⟩
    intro hs
    cases hs
  | reload conf =>
    have hs := start_oneChain hn.stopped fun hconf => stopped_settled (hc hconf)
    rw [← reload_on] at hs
    exact hs
  | complete op error =>
    refine ⟨hn.completed he.1 hc, ?_⟩
    intro hs
    obtain ⟨a, ha⟩ := hchain hs
    exact ⟨a, ha.completed he.1 he.2⟩
  | run op error =>
    have hh := handler_handles fl op error { s with queued := s.queued.erase (op, error) }
    refine ⟨(hn.taken _).handled hh, ?_⟩
    intro hs
    obtain ⟨a, ha⟩ := hchain hs
    exact ⟨a, ha.handled hn he hh⟩

/-- In every run that is settled at its starts exactly one accept of the current acceptor is under
way whenever the acceptor serves. -/
theorem tcp_one_accept_chain (fl : Flavour) : OneAcceptChain fl (TcpInput.Settling fl) := by
  intro x hx hserving
  have hinv : OneChain fl x := by
    apply hx.invariant
    · refine ⟨⟨?_, ?_, ?_, ?_⟩, ?_⟩
      · intro _ ha
        cases ha
      · intro _ _ hop
        cases hop
      · intro _ _ _ hop
        cases hop
      · intro _ _ hop
        cases hop
      · intro hs
        cases hs
    · intro x i h he hc
      exact i.perform_oneChain h he hc
  obtain ⟨a, ha⟩ := hinv.2 hserving
  exact ⟨a, ha.acceptor, ha.underWay⟩

/-- The inputs of a reload between the completion of an accept and its handler. -/
def reloadedAccept : List TcpInput :=
  [.start goodTcpConf, .complete (.accept 0 { processor := some 0 }) .success,
    .reload goodTcpConf, .run (.accept 0 { processor := some 0 }) .success]

instance tcpServing.decidableEnabled (fl : Flavour) (x : TcpAcceptor × Bool) (i : TcpInput) :
    Decidable ((tcpServing fl).Enabled x i) :=
  inferInstanceAs (Decidable (i.Enabled x.1))

/-- A connection is accepted just before `reload`, and its handler accepts again beside it. -/
theorem two_accept_chains : ¬ OneAcceptChain .tcp (fun _ _ => True) ∧
    ¬ OneAcceptChain .tcpSsl (fun _ _ => True) := by
  constructor
  · intro h
    have hrun : (tcpServing .tcp).Follows (fun _ _ => True) (tcpServing .tcp).init
        reloadedAccept := by
      decide
    obtain ⟨a, ha, hn⟩ := h _ (Machine.Reachable.init.follow hrun) rfl
    cases ha
    cases hn
  · intro h
    have hrun : (tcpServing .tcpSsl).Follows (fun _ _ => True) (tcpServing .tcpSsl).init
        reloadedAccept := by
      decide
    obtain ⟨a, ha, hn⟩ := h _ (Machine.Reachable.init.follow hrun) rfl
    cases ha
    cases hn

end CppAlls
