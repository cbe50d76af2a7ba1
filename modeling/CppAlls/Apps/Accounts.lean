import CppAlls.Apps.TcpChain

namespace CppAlls
set_option autoImplicit true

open Failing Machines Completions

def TcpOperation.isHandshake : TcpOperation → Bool
  | .accept _ _ => false
  | .handshake _ => true

/-- The connections whose handshake is outstanding or queued. -/
def TcpAcceptor.handshaking (s : TcpAcceptor) : Nat :=
  underWay TcpOperation.isHandshake s.outstanding s.queued

/-- How many connections were accepted, and how many of them refused after their handshake. -/
structure ConnectionAccount where
  accepted : Nat := 0
  refused : Nat := 0
deriving DecidableEq, Repr

/-- A connection is accepted by a handler that returns; it is lost in one that dereferences a
pointer that was reset. -/
def TcpInput.account (r : Except Failure Unit) (x : ConnectionAccount) :
    TcpInput → ConnectionAccount
  | .run (.accept _ _) error =>
    if error = .success ∧ r.isOk then { x with accepted := x.accepted + 1 } else x
  | .run (.handshake _) error =>
    if error = .success then x else { x with refused := x.refused + 1 }
  | _ => x

def tcpAccounted (fl : Flavour) : Machine (TcpAcceptor × ConnectionAccount) TcpInput :=
  (tcpMachine fl).withHistory {} fun s i x => i.account ((i.perform fl).on s).1 x

namespace TcpAcceptor

variable {s s' : TcpAcceptor}

/-- The connections that are served or in their handshake. -/
def passedOn (s : TcpAcceptor) : Nat := s.served.length + s.handshaking

/-- An acceptor has a processor beside it, and so have the connections made from it. -/
structure Provided (s : TcpAcceptor) : Prop where
  attached : s.Attached
  acceptor : ∀ a, s.acceptor = some a → ∃ p, s.processor = some p

theorem Provided.accepting (h : s.Provided) (ha : s.acceptor = some a) :
    (s.accepting a).Provided := by
  refine ⟨⟨?_, h.attached.2⟩, h.acceptor⟩
  intro op hop
  rcases List.mem_append.mp hop with hop | hop
  · exact h.attached.1 op hop
  · cases List.mem_singleton.mp hop
    exact h.acceptor a ha

theorem Provided.assigned (h : s.Provided) (hk : Assigned fl conf s s') : s'.Provided := by
  refine ⟨?_, ?_⟩
  · rw [Attached, hk.outstanding, hk.queued]
    exact h.attached
  · intro a ha
    cases hk.reached with
    | nothing hp hs _ =>
      rw [hp]
      exact h.acceptor a (hs.symm.trans ha)
    | processor p _ hp _ _ => exact ⟨p, hp⟩
    | acceptor p _ _ hp _ _ => exact ⟨p, hp⟩

theorem Provided.started (h : s.Provided) (hst : Starts fl conf s r s') : s'.Provided := by
  cases hst with
  | thrown _ hk => exact h.assigned hk
  | accepting _ hk _ ha => exact (h.assigned hk).accepting ha

theorem Provided.stopped (h : s.Provided) : s.stopped.Provided where
  attached := h.attached
  acceptor a ha := by cases ha

theorem Provided.taken (h : s.Provided) (x : TcpOperation × Result) :
    Provided { s with queued := s.queued.erase x } where
  attached := ⟨h.attached.1, fun y hy => h.attached.2 y (List.mem_of_mem_erase hy)⟩
  acceptor := h.acceptor

theorem Provided.completed (h : s.Provided) (hop : op ∈ s.outstanding) (error : Result) :
    Provided { s with
      outstanding := s.outstanding.erase op, queued := s.queued ++ [(op, error)] } := by
  refine ⟨⟨?_, ?_⟩, h.acceptor⟩
  · exact fun op' hop' => h.attached.1 op' (List.mem_of_mem_erase hop')
  · intro x hx
    rcases List.mem_append.mp hx with hx | hx
    · exact h.attached.2 x hx
    · cases List.mem_singleton.mp hx
      exact h.attached.1 op hop

theorem Provided.shaking (h : s.Provided) (hc : c.processor = some p) :
    Provided { s with outstanding := s.outstanding ++ [.handshake c] } := by
  refine ⟨⟨?_, h.attached.2⟩, h.acceptor⟩
  intro op hop
  rcases List.mem_append.mp hop with hop | hop
  · exact h.attached.1 op hop
  · cases List.mem_singleton.mp hop
    exact ⟨p, hc⟩

theorem Provided.handled (h : s.Provided) (hc : op.connection.processor = some p)
    (hh : Handles fl s op error s') : s'.Provided := by
  cases hh with
  | ignored => exact h
  | null _ _ => exact h
  | again _ hb => exact h.accepting hb
  | shaking hb => exact (h.accepting hb).shaking hc
  | processed _ hb _ =>
    have hn := h.accepting hb
    exact ⟨hn.attached, hn.acceptor⟩
  | unshaken => exact h
  | shaken _ => exact ⟨h.attached, h.acceptor⟩

theorem accepting_handshaking (s : TcpAcceptor) (a : Nat) :
    (s.accepting a).handshaking = s.handshaking := by
  rw [handshaking, accepting, underWay_begin]
  rfl

theorem accepting_passedOn (s : TcpAcceptor) (a : Nat) :
    (s.accepting a).passedOn = s.passedOn := by
  rw [passedOn, accepting_handshaking]
  rfl

theorem serving_passedOn (s : TcpAcceptor) (x : Nat × StreamConnection) :
    passedOn { s with served := s.served ++ [x] } = s.passedOn + 1 := by
  rw [passedOn, List.length_append]
  exact Nat.add_right_comm _ 1 _

theorem shaking_passedOn (s : TcpAcceptor) (c : StreamConnection) :
    passedOn { s with outstanding := s.outstanding ++ [.handshake c] } = s.passedOn + 1 := by
  rw [passedOn, handshaking, underWay_begin]
  rfl

/-- A handler of an accept that returns has passed on the connection that it got: to the processor,
or over TLS to its handshake. -/
theorem onAccpet_passes (fl : Flavour) (c : StreamConnection) (error : Result) (s : TcpAcceptor) :
    ((onAccpet fl c error).on s).2.passedOn = s.passedOn +
        (if error = .success ∧ ((onAccpet fl c error).on s).1.isOk then 1 else 0) ∧
      (fl = .tcp → ((onAccpet fl c error).on s).2.handshaking = s.handshaking) := by
  by_cases hab : error = .aborted
  · subst hab
    exact ⟨rfl, fun _ => rfl⟩
  · rw [onAccpet, if_neg hab]
    rcases accept_cases fl s with ⟨_, e, hon⟩ | ⟨a, _, hon⟩
    · rw [FailM.on_bind_error hon, if_neg (fun h => by cases h.2)]
      exact ⟨rfl, fun _ => rfl⟩
    · rw [FailM.on_bind_ok hon, ← accepting_passedOn s a, ← accepting_handshaking s a]
      by_cases hok : error = .success
      · subst hok
        rw [if_pos rfl]
        cases fl with
        | tcp =>
          rw [serve, FailM.on_bind_ok (FailM.on_get _)]
          cases hp : (s.accepting a).processor with
          | none => exact ⟨rfl, fun _ => rfl⟩
          | some p => exact ⟨serving_passedOn _ (p, c), fun _ => rfl⟩
        | tcpSsl => exact ⟨shaking_passedOn _ c, fun h => by cases h⟩
      · rw [if_neg hok, if_neg (fun h => hok h.1)]
        exact ⟨rfl, fun _ => rfl⟩

end TcpAcceptor

open TcpAcceptor

/-- Each connection that was accepted is served, in its handshake or refused, and without TLS it is
served at once. -/
structure Accounted (fl : Flavour) (x : TcpAcceptor × ConnectionAccount) : Prop where
  total : x.1.passedOn + x.2.refused = x.2.accepted
  plain : fl = .tcp → x.1.handshaking = 0 ∧ x.2.refused = 0

theorem Accounted.same {x : TcpAcceptor × ConnectionAccount} {s : TcpAcceptor}
    (h : Accounted fl x) (hserved : s.served = x.1.served)
    (hshaking : s.handshaking = x.1.handshaking) : Accounted fl (s, x.2) := by
  refine ⟨?_, ?_⟩
  · rw [passedOn, hserved, hshaking]
    exact h.total
  · rw [hshaking]
    exact h.plain

/-- The handler of an accept passes on what it accepts. -/
theorem Accounted.accepted {s : TcpAcceptor} {x : ConnectionAccount} (h : Accounted fl (s, x))
    (a : Nat) (c : StreamConnection) (error : Result) :
    Accounted fl (((onAccpet fl c error).on s).2,
      (TcpInput.run (.accept a c) error).account ((onAccpet fl c error).on s).1 x) := by
  obtain ⟨hpassed, hplain⟩ := onAccpet_passes fl c error s
  have htotal := h.total
  rw [TcpInput.account]
  split
  next hok =>
    rw [if_pos hok] at hpassed
    refine ⟨?_, fun hfl => ⟨(hplain hfl).trans (h.plain hfl).1, (h.plain hfl).2⟩⟩
    change _ + x.refused = x.accepted + 1
    rw [hpassed, Nat.add_right_comm, htotal]
  next hno =>
    rw [if_neg hno] at hpassed
    refine ⟨?_, fun hfl => ⟨(hplain hfl).trans (h.plain hfl).1, (h.plain hfl).2⟩⟩
    rw [hpassed]
    exact htotal

instance tcpAccounted.decidableEnabled (fl : Flavour) (x : TcpAcceptor × ConnectionAccount)
    (i : TcpInput) : Decidable ((tcpAccounted fl).Enabled x i) :=
  inferInstanceAs (Decidable (i.Enabled x.1))

end CppAlls
