import CppAlls.Apps.TcpStop
import CppAlls.Apps.UdpSteps

namespace CppAlls
set_option autoImplicit true

open Failing Machines

/-- The object to which `async_read_generic` and `async_write_generic` bind a member function of
the class `k`, for a connection with this processor; `isA` is the subclass relation. -/
def boundProcessor (isA : Nat → K → Bool) (k : K) (processor : Option Nat) : AcceptorM σ Nat := do
  let p ← dereference .processor processor
  if isA p k then return p else throw .thrown

/-- In every run of allowed inputs each processor that was called on a connection is the one of the
connection, and so binds its own member functions there. -/
def ServesOwn (M : Machine σ ι) (Allowed : σ → ι → Prop) (served : σ → List (Nat × Option Nat)) :
    Prop :=
  ∀ s, M.Reachable Allowed s → ∀ p processor, (p, processor) ∈ served s →
    processor = some p ∧ ∀ (K : Type) (isA : Nat → K → Bool) (k : K), isA p k = true →
      (boundProcessor isA k processor).on s = (.ok p, s)

theorem servesOwn_of_own {M : Machine σ ι} {Allowed : σ → ι → Prop}
    {served : σ → List (Nat × Option Nat)}
    (h : ∀ s, M.Reachable Allowed s → ∀ x ∈ served s, x.2 = some x.1) :
    ServesOwn M Allowed served := by
  intro s hs p processor hx
  obtain rfl : processor = some p := h s hs _ hx
  refine ⟨rfl, ?_⟩
  intro K isA k hk
  have hp : (boundProcessor isA k (some p)).on s =
      (if isA p k then return p else throw .thrown : AcceptorM _ Nat).on s := rfl
  rw [hp, hk]
  rfl

def TcpAcceptor.calls (s : TcpAcceptor) : List (Nat × Option Nat) :=
  s.served.map fun x => (x.1, x.2.processor)

def UdpAcceptor.calls (s : UdpAcceptor) : List (Nat × Option Nat) :=
  s.served.map fun x => (x.1, x.2.1.processor)

namespace TcpAcceptor

variable {s s' : TcpAcceptor}

/-- The connections of accepts that succeeded or may succeed were made for `p`. -/
def AcceptsFor (s : TcpAcceptor) (p : Nat) : Prop :=
  (∀ a c, (.accept a c, .success) ∈ s.queued → c.processor = some p) ∧
    ∀ a c, .accept a c ∈ s.outstanding → a ∈ s.closed ∨ c.processor = some p

def Own (s : TcpAcceptor) : Prop := ∀ x ∈ s.served, x.2.processor = some x.1

/-- What the handler of an accept would call is the processor of its connection. -/
def Current (s : TcpAcceptor) : Prop :=
  s.acceptor ≠ none → ∀ p, s.processor = some p → s.AcceptsFor p

/-- A start that installs a processor beside an acceptor finds only connections made for it. -/
def Keeps (s : TcpAcceptor) (conf : TcpConf) : Prop :=
  ∀ p, Installs conf p → s.acceptor ≠ none ∨ Listens conf → s.AcceptsFor p

theorem Own.served (h : s.Own) (hc : c.processor = some p) :
    Own { s with served := s.served ++ [(p, c)] } := by
  intro x hx
  rcases List.mem_append.mp hx with hx | hx
  · exact h x hx
  · cases List.mem_singleton.mp hx
    exact hc

theorem Own.started (h : s.Own) (hst : Starts fl conf s r s') : s'.Own := by
  cases hst with
  | thrown _ hk =>
    intro x hx
    rw [hk.served] at hx
    exact h x hx
  | accepting _ hk _ _ =>
    intro x hx
    change x ∈ TcpAcceptor.served _ at hx
    rw [TcpAcceptor.accepting, hk.served] at hx
    exact h x hx

/-- Only the handler of a plain accept takes the processor of the acceptor. -/
theorem Own.handled (h : s.Own) (hh : Handles fl s op error s')
    (hcur : fl = .tcp → ∀ a c, op = .accept a c → error = .success → s.acceptor ≠ none → ∀ p,
      s.processor = some p → c.processor = some p) : s'.Own := by
  cases hh with
  | ignored => exact h
  | null _ _ => exact h
  | again _ _ => exact h
  | shaking _ => exact h
  | @processed b p a c hfl hb hp =>
    apply h.served
    exact hcur hfl a c rfl rfl (Option.ne_none_iff_exists'.mpr ⟨b, hb⟩) p hp
  | unshaken => exact h
  | shaken hc => exact h.served hc

theorem AcceptsFor.accepting (h : s.AcceptsFor p) (hp : s.processor = some p) (b : Nat) :
    (s.accepting b).AcceptsFor p := by
  refine ⟨h.1, ?_⟩
  intro a c hop
  rcases List.mem_append.mp hop with hop | hop
  · exact h.2 a c hop
  · cases List.mem_singleton.mp hop
    exact .inr hp

theorem Current.accepting (h : s.Current) (b : Nat) : (s.accepting b).Current := by
  intro ha p hp
  exact (h ha p hp).accepting hp b

theorem Current.started (h : s.Current) (hnew : s.Keeps conf)
    (hst : Starts fl conf s r s') : s'.Current := by
  have hassigned {t : TcpAcceptor} (hk : Assigned fl conf s t) : t.Current := by
    intro ha p hp
    have hs : s.AcceptsFor p := by
      cases hk.reached with
      | nothing hproc hacc _ => exact h (hacc ▸ ha) p (hproc.symm.trans hp)
      | processor q hq hproc hacc _ =>
        obtain rfl : q = p := Option.some.inj (hproc.symm.trans hp)
        exact hnew q hq (.inl (hacc ▸ ha))
      | acceptor q hq hl hproc _ _ =>
        obtain rfl : q = p := Option.some.inj (hproc.symm.trans hp)
        exact hnew q hq (.inr hl)
    rw [AcceptsFor, hk.queued, hk.outstanding, hk.closed]
    exact hs
  cases hst with
  | thrown _ hk => exact hassigned hk
  | accepting _ hk _ _ => exact (hassigned hk).accepting _

theorem Current.handled (h : s.Current) (hh : Handles fl s op error s') : s'.Current := by
  cases hh with
  | ignored => exact h
  | null _ _ => exact h
  | again _ _ => exact h.accepting _
  | @shaking b a c _ =>
    intro ha p hp
    obtain ⟨hqueued, hout⟩ := h.accepting b ha p hp
    refine ⟨hqueued, ?_⟩
    intro a' c' hop
    rcases List.mem_append.mp hop with hop | hop
    · exact hout a' c' hop
    · cases List.mem_singleton.mp hop
  | processed _ _ _ => exact h.accepting _
  | unshaken => exact h
  | shaken _ => exact h

theorem Current.taken (h : s.Current) (x : TcpOperation × Result) :
    Current { s with queued := s.queued.erase x } := by
  intro ha p hp
  obtain ⟨hqueued, hout⟩ := h ha p hp
  refine ⟨?_, hout⟩
  intro a c hop
  exact hqueued a c (List.mem_of_mem_erase hop)

theorem Current.completed (h : s.Current) (hop : op ∈ s.outstanding)
    (hab : op.OnClosed s.closed → error = .aborted) : Current { s with
      outstanding := s.outstanding.erase op, queued := s.queued ++ [(op, error)] } := by
  intro ha p hp
  obtain ⟨hqueued, hout⟩ := h ha p hp
  constructor
  · intro a c hm
    rcases List.mem_append.mp hm with hm | hm
    · exact hqueued a c hm
    · cases List.mem_singleton.mp hm
      rcases hout a c hop with hclosed | hc
      · cases hab hclosed
      · exact hc
  · intro a c hm
    exact hout a c (List.mem_of_mem_erase hm)

end TcpAcceptor

/-- No start and no reload changes the processor under a connection that is being accepted. -/
def TcpInput.KeepsProcessor (s : TcpAcceptor) : TcpInput → Prop
  | .start conf => s.Keeps conf
  | .stop => True
  | .reload conf => s.stopped.Keeps conf
  | .complete _ _ => True
  | .run _ _ => True

section Runs

open TcpAcceptor

theorem TcpInput.perform_current {s : TcpAcceptor} (fl : Flavour) (i : TcpInput) (h : s.Current)
    (he : i.Enabled s) (hc : i.KeepsProcessor s) : ((tcpMachine fl).next s i).Current := by
  cases i with
  | start conf => exact h.started hc (start_starts fl conf s)
  | stop => exact fun ha => absurd rfl ha
  | reload conf =>
    change ((TcpAcceptor.reload fl conf).on s).2.Current
    rw [reload_on]
    apply Current.started _ hc (start_starts fl conf s.stopped)
    exact fun ha => absurd rfl ha
  | complete op error => exact h.completed he.1 he.2
  | run op error => exact (h.taken _).handled (handler_handles fl op error _)

theorem TcpInput.perform_own {s : TcpAcceptor} (i : TcpInput) (h : s.Own) (he : i.Enabled s)
    (hc : fl = .tcp → s.Current) : ((tcpMachine fl).next s i).Own := by
  cases i with
  | start conf => exact h.started (start_starts fl conf s)
  | stop => exact h
  | reload conf =>
    change ((TcpAcceptor.reload fl conf).on s).2.Own
    rw [reload_on]
    exact Own.started (s := s.stopped) h (start_starts fl conf s.stopped)
  | complete op error => exact h
  | run op error =>
    apply Own.handled (s := { s with queued := s.queued.erase (op, error) }) h
      (handler_handles fl op error _)
    rintro hfl a c rfl rfl ha p hp
    exact (hc hfl ha p hp).1 a c he

end Runs

namespace UdpAcceptor

variable {s s' : UdpAcceptor}

def Own (s : UdpAcceptor) : Prop := ∀ x ∈ s.served, x.2.1.processor = some x.1

theorem Own.of_served (h : s.Own) (hs : s'.served = s.served) : s'.Own := by
  intro x hx
  rw [hs] at hx
  exact h x hx

theorem Own.started (h : s.Own) (hst : Starts conf s r s') : s'.Own := by
  cases hst with
  | thrown _ hk => exact h.of_served hk.served
  | accepting _ hk _ => exact h.of_served hk.served

theorem Own.handled (h : s.Own) (hh : Handles s op s') : s'.Own := by
  cases hh with
  | nothing => exact h
  | peeking _ => exact h
  | reading _ => exact h
  | processed _ hc =>
    intro x hx
    rcases List.mem_append.mp hx with hx | hx
    · exact h x hx
    · cases List.mem_singleton.mp hx
      exact hc

end UdpAcceptor

theorem UdpInput.perform_own {s : UdpAcceptor} (o : ByteOrder) (i : UdpInput) (h : s.Own) :
    ((udpMachine o).next s i).Own := by
  cases i with
  | start conf => exact h.started (UdpAcceptor.start_starts conf s)
  | stop => exact h.of_served (UdpAcceptor.stop_keeps s).2.2
  | reload conf =>
    exact UdpAcceptor.Own.started (s := (UdpAcceptor.resetPtrsCommon.on s).2) h
      (UdpAcceptor.start_starts conf _)
  | close k => exact h
  | complete op error received => exact h
  | run op error received available =>
    exact UdpAcceptor.Own.handled (s := { s with queued := s.queued.erase (op, error, received) }) h
      (UdpAcceptor.handler_handles o op error received available _)

theorem TcpAcceptor.calls_own {s : TcpAcceptor} (h : s.Own) : ∀ x ∈ s.calls, x.2 = some x.1 := by
  intro x hx
  obtain ⟨y, hy, rfl⟩ := List.mem_map.mp hx
  exact h y hy

theorem UdpAcceptor.calls_own {s : UdpAcceptor} (h : s.Own) : ∀ x ∈ s.calls, x.2 = some x.1 := by
  intro x hx
  obtain ⟨y, hy, rfl⟩ := List.mem_map.mp hx
  exact h y hy

/-- The acceptors over TLS and UDP serve each connection by its own processor in every run, and the
plain one in those that keep the processor while an accept is on its way. -/
theorem served_by_own_processor (o : ByteOrder) :
    ServesOwn (tcpMachine .tcp) TcpInput.KeepsProcessor TcpAcceptor.calls ∧
      ServesOwn (tcpMachine .tcpSsl) (fun _ _ => True) TcpAcceptor.calls ∧
      ServesOwn (udpMachine o) (fun _ _ => True) UdpAcceptor.calls := by
  refine ⟨servesOwn_of_own ?_, servesOwn_of_own ?_, servesOwn_of_own ?_⟩
  · intro s hs
    have hinv : s.Current ∧ s.Own := by
      apply hs.invariant
      · constructor
        · exact fun ha => absurd rfl ha
        · intro _ hx
          cases hx
      · intro s i h he hc
        exact ⟨i.perform_current .tcp h.1 he hc, i.perform_own h.2 he fun _ => h.1⟩
    exact TcpAcceptor.calls_own hinv.2
  · intro s hs
    apply TcpAcceptor.calls_own
    apply hs.invariant
    · intro _ hx
      cases hx
    · intro s i h he _
      exact i.perform_own h he fun hfl => by cases hfl
  · intro s hs
    apply UdpAcceptor.calls_own
    apply hs.invariant
    · intro _ hx
      cases hx
    · intro s i h _ _
      exact i.perform_own o h

/-- A connection that was made for the processor 0 is accepted just before `reload` installs 1. -/
theorem served_by_reloaded_processor :
    ¬ ServesOwn (tcpMachine .tcp) (fun _ _ => True) TcpAcceptor.calls := by
  intro h
  have hrun : (tcpMachine .tcp).Follows (fun _ _ => True) (tcpMachine .tcp).init
      [.start goodTcpConf, .complete (.accept 0 { processor := some 0 }) .success,
        .reload { goodTcpConf with processor := some 1 },
        .run (.accept 0 { processor := some 0 }) .success] := by
    decide
  obtain ⟨hp, _⟩ := h _ (Machine.Reachable.init.follow hrun) 1 (some 0) (.head [])
  cases hp

end CppAlls
