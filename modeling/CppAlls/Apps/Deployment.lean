import CppAlls.Apps.Rest
import CppAlls.Apps.TcpChain
import CppAlls.Apps.UdpChain
import CppAlls.Server.CallOrder

namespace CppAlls
set_option autoImplicit true

open Failing Tables Machines

namespace Server

variable {Y : YamlCpp} {E : Surroundings Y} {s s' : Server}

theorem AppsRun.calls_grow (h : AppsRun s s') : s.calls <+: s'.calls := by
  obtain ⟨new, hcalls, _⟩ := h.calls
  exact ⟨new, hcalls.symm⟩

theorem startApps_calls (appNodes : List Y.Node) (s : Server) :
    (startApps E appNodes).Wp (fun _ s' => s.calls <+: s'.calls) s := by
  induction appNodes generalizing s with
  | nil => exact FailM.Wp.pure (List.prefix_refl _)
  | cons appNode appNodes ih =>
    apply startApps_cons_wp
    · intro appType name _
      apply (ih _).mono
      intro _ _ h
      exact (appsRun_launched (E := E) s appType appNode).calls_grow.trans h
    · intro e s₁ hlaunch
      exact hlaunch.appsRun.calls_grow

theorem initLogger_calls (config : Y.Node) (s : Server) :
    (initLogger E config).Wp (fun _ s' => s'.calls = s.calls) s := by
  apply (initLogger_outcome config s).mono
  intro _ _ hr
  obtain ⟨log, rfl, _⟩ := hr
  rfl

theorem start_calls (path : String) (s : Server) :
    (start E path).Wp (fun _ s' => s.calls <+: s'.calls) s := by
  apply FailM.Wp.modify_bind
  apply FailM.Wp.ofExcept_bind
  · intro config _
    apply FailM.Wp.andThen (R := fun _ s' => s'.calls = s.calls)
    · exact rfl
    · intro _ s₁ h₁
      apply FailM.Wp.ofExcept_bind
      · intro apps _
        apply FailM.Wp.andThen (startApps_calls (Y.elements apps) s₁)
        · intro _ s₂ h₂
          apply (initLogger_calls config s₂).mono
          intro _ _ h₃
          rw [h₃, ← h₁]
          exact h₂
        · intro _ _ h₂
          rw [← h₁]
          exact h₂
      · intro _ _
        rw [h₁]
    · intro _ _ h₁
      rw [h₁]
  · exact fun _ _ => List.prefix_refl _

theorem stopApps_calls (apps : List Nat) (s : Server) :
    (stopApps E apps).Wp (fun _ s' => s.calls <+: s'.calls) s := by
  apply (stopApps_outcome apps s).mono
  intro _ _ hr
  obtain ⟨new, res, rfl, _⟩ := hr
  exact List.prefix_append _ _

theorem stop_calls (s : Server) : (stop E).Wp (fun _ s' => s.calls <+: s'.calls) s := by
  apply FailM.Wp.get_bind
  apply FailM.Wp.andThen (stopApps_calls _ s)
  · exact fun _ _ h => h
  · exact fun _ _ h => h

theorem reload_calls (hr : Registered s) :
    (reload E).Wp (fun _ s' => s.calls <+: s'.calls) s := by
  apply reload_wp
  · intro config m appNodes _ _
    have hsub : Sub ∅ s.instances := fun _ _ hn => by cases hn
    apply FailM.Wp.andThen (reloadApps_outcome m appNodes hr hsub)
    · intro is s₁ h
      obtain ⟨new, hcalls, _⟩ := h.1.calls
      have hloop : s.calls <+: s₁.calls := ⟨new, hcalls.symm⟩
      apply FailM.Wp.get_bind
      apply FailM.Wp.andThen (stopApps_calls _ s₁)
      · intro _ s₂ h₂
        apply FailM.Wp.modify_bind
        apply (initLogger_calls config _).mono
        intro _ _ h₃
        rw [h₃]
        exact hloop.trans h₂
      · exact fun _ _ h₂ => hloop.trans h₂
    · intro e s₁ h
      obtain ⟨new, hcalls, _⟩ := h.1.calls
      exact ⟨new, hcalls.symm⟩
  · exact fun _ _ => List.prefix_refl _

/-- The server takes back none of the lifecycle calls that it has made. -/
theorem next_calls (i : ServerInput Y) (hr : Registered s) : s.calls <+: (i.next s).calls := by
  cases i with
  | start E path => exact start_calls path s
  | stop E => exact stop_calls s
  | reload E path =>
    have hwp : (reloadFrom E path).Wp (fun _ s' => s.calls <+: s'.calls) s := by
      apply FailM.Wp.modify_bind
      exact reload_calls (s := { s with configPath := path.getD s.configPath })
        ⟨hr.fresh, hr.unique⟩
    exact hwp
  | construct E config =>
    have hwp : (instanceConstruct E config).Wp (fun _ s' => s.calls <+: s'.calls) s := by
      apply instanceConstruct_wp
      · intro appNode appType name _ _
        exact (appsRun_launched (E := E) s appType appNode).calls_grow
      · exact fun _ _ _ _ hlaunch => hlaunch.appsRun.calls_grow
      · exact fun _ _ => List.prefix_refl _
    exact hwp
  | free name => exact List.prefix_refl _

end Server

theorem CallOrder.of_append (h : CallOrder (cs ++ cs')) : CallOrder cs := by
  cases cs with
  | nil => exact .none
  | cons c cs =>
    rw [List.cons_append] at h
    generalize hall : c :: (cs ++ cs') = all at h
    cases h with
    | none => cases hall
    | failed =>
      obtain ⟨rfl, hnil⟩ := List.cons.inj hall
      obtain ⟨rfl, _⟩ := List.append_eq_nil_iff.mp hnil
      exact .failed
    | started hno =>
      obtain ⟨rfl, rfl⟩ := List.cons.inj hall
      exact .started fun c hc => hno c (List.mem_append_left _ hc)

/-- An application that is started was not called before. -/
theorem CallOrder.start_first (h : CallOrder (cs ++ [⟨app, .start, returned⟩])) : cs = [] := by
  cases cs with
  | nil => rfl
  | cons c cs =>
    rw [List.cons_append] at h
    generalize hall : c :: (cs ++ [_]) = all at h
    cases h with
    | none => cases hall
    | failed =>
      obtain ⟨_, hnil⟩ := List.cons.inj hall
      cases (List.append_eq_nil_iff.mp hnil).2
    | started hno =>
      obtain ⟨_, rfl⟩ := List.cons.inj hall
      exact absurd rfl (hno _ (List.mem_append_right _ (List.mem_singleton_self _)))

/-- An application as the server sees it: which of its inputs are lifecycle calls, and whether these
return. -/
structure Component (σ ι : Type) where
  machine : Machine σ ι
  lifecycle : ι → Option LifecycleCall
  returns : σ → ι → Bool

section Components

variable {σ ι : Type} {Y : YamlCpp} (C : Component σ ι) (Allowed : σ → ι → Prop) (app : Nat)

/-- What the application `app` does while the server makes these lifecycle calls: it attends to
those that are for it, and goes on with its own steps between them. -/
inductive Attends : List LifecycleRecord → σ → σ → Prop where
  | done : Attends [] t t
  | other : c.application ≠ app → Attends cs t t' → Attends (c :: cs) t t'
  | call : C.lifecycle i = some c.call → c.application = app → C.machine.Enabled t i →
      Allowed t i → C.returns t i = c.returned → Attends cs (C.machine.next t i) t' →
      Attends (c :: cs) t t'
  | own : C.lifecycle i = none → C.machine.Enabled t i → Allowed t i →
      Attends cs (C.machine.next t i) t' → Attends cs t t'

/-- The states of a server and of its application `app` in a run of both. -/
inductive Deployed : Server → σ → Prop where
  | init : Deployed {} C.machine.init
  | call (i : ServerInput Y) : Deployed s t →
      Attends C Allowed app ((i.next s).calls.drop s.calls.length) t t' → Deployed (i.next s) t'
  | own : Deployed s t → Attends C Allowed app [] t t' → Deployed s t'

end Components

section Rules

variable {σ ι : Type} {Y : YamlCpp} {C : Component σ ι} {Allowed : σ → ι → Prop}
  {I : List LifecycleRecord → σ → Prop}

/-- What a lifecycle call and a step of the application itself keep. -/
structure Upholds (C : Component σ ι) (Allowed : σ → ι → Prop) (app : Nat)
    (I : List LifecycleRecord → σ → Prop) : Prop where
  call : ∀ calls t i call, I calls t → CallOrder (calls ++ [⟨app, call, C.returns t i⟩]) →
    C.lifecycle i = some call → C.machine.Enabled t i → Allowed t i →
    I (calls ++ [⟨app, call, C.returns t i⟩]) (C.machine.next t i)
  own : ∀ calls t i, I calls t → C.lifecycle i = none → C.machine.Enabled t i → Allowed t i →
    I calls (C.machine.next t i)

theorem Attends.upholds {calls : List LifecycleRecord} (h : Attends C Allowed app cs t t')
    (hI : Upholds C Allowed app I)
    (horder : CallOrder (calls ++ cs.filter fun c => c.application = app)) (hcalls : I calls t) :
    I (calls ++ cs.filter fun c => c.application = app) t' := by
  induction h generalizing calls with
  | done =>
    rw [List.filter_nil, List.append_nil]
    exact hcalls
  | other hne _ ih =>
    rw [List.filter_cons_of_neg (by simpa using hne)] at horder ⊢
    exact ih horder hcalls
  | @call i t cs t' c hcall happ he ha hret _ ih =>
    obtain ⟨_, call, _⟩ := c
    cases happ
    cases hret
    rw [List.filter_cons_of_pos (by simp), List.append_cons] at horder ⊢
    exact ih horder (hI.call calls t i call hcalls horder.of_append hcall he ha)
  | own hown he ha _ ih => exact ih horder (hI.own _ _ _ hcalls hown he ha)

/-- What holds before the first call and is kept holds of the calls that the application got. -/
theorem Deployed.invariant (h : Deployed (Y := Y) C Allowed app s t) (hinit : I [] C.machine.init)
    (hI : Upholds C Allowed app I) : I (s.callsOf app) t := by
  have hall : Server.Registered s ∧ s.Ordered ∧ I (s.callsOf app) t := by
    induction h with
    | init =>
      refine ⟨.of_empty rfl, ⟨fun _ => .none, fun _ _ => rfl, ?_, ?_⟩, hinit⟩
      · intro _ _ hn
        cases hn
      · intro _ hx
        cases hx
    | @call s t t' i _ hattends ih =>
      obtain ⟨hr, ho, ht⟩ := ih
      have ho' := Server.ordered_next i hr ho
      obtain ⟨cs, hcs⟩ := Server.next_calls i hr
      have hcalls : (i.next s).callsOf app =
          s.callsOf app ++ cs.filter fun c => c.application = app := by
        rw [Server.callsOf, ← hcs, List.filter_append]
        rfl
      have horder := ho'.calls app
      rw [← hcs, List.drop_left] at hattends
      rw [hcalls] at horder
      refine ⟨Server.registered_next i hr, ho', ?_⟩
      rw [hcalls]
      exact hattends.upholds hI horder ht
    | @own s t t' _ hattends ih =>
      obtain ⟨hr, ho, ht⟩ := ih
      have horder := ho.calls app
      rw [← List.append_nil (s.callsOf app)] at horder
      have hkept := hattends.upholds hI horder ht
      rw [List.filter_nil, List.append_nil] at hkept
      exact ⟨hr, ho, hkept⟩
  exact hall.2.2

end Rules

/-- Whether the last call started the application or reloaded it, and returned. -/
def lastServes (calls : List LifecycleRecord) : Bool :=
  calls.getLast?.any fun c => c.returned && c.call != .stop

def lastStops (calls : List LifecycleRecord) : Bool :=
  calls.getLast?.any fun c => c.call == .stop

def TcpInput.lifecycle : TcpInput → Option LifecycleCall
  | .start _ => some .start
  | .stop => some .stop
  | .reload _ => some .reload
  | .complete _ _ => none
  | .run _ _ => none

def tcpComponent (fl : Flavour) : Component TcpAcceptor TcpInput where
  machine := tcpMachine fl
  lifecycle i := i.lifecycle
  returns s i := ((i.perform fl).on s).1.isOk

/-- Between the completion of an accept and its handler the acceptor is not stopped and not
reloaded, and asio aborts no accept of the current acceptor. -/
def TcpInput.Undisturbed (s : TcpAcceptor) : TcpInput → Prop
  | .start _ => True
  | .stop => s.Quiet
  | .reload _ => s.Quiet
  | .complete op error => ∀ a c, op = .accept a c → error = .aborted → s.acceptor ≠ some a
  | .run _ _ => True

open TcpAcceptor

theorem TcpAcceptor.Handles.acceptor {s s' : TcpAcceptor} (h : Handles fl s op error s') :
    s'.acceptor = s.acceptor := by
  cases h <;> rfl

/-- What holds of an acceptor after these calls of the server. -/
structure TcpDeployed (fl : Flavour) (calls : List LifecycleRecord) (t : TcpAcceptor) : Prop where
  safe : t.Safe fl
  chain : OneChain fl (t, lastServes calls)
  fresh : calls = [] → t = {}
  stopped : lastStops calls = true → t.acceptor = none

theorem TcpInput.calm_of_undisturbed {t : TcpAcceptor} {i : TcpInput} (h : i.Undisturbed t) :
    i.Calm fl t := by
  cases i with
  | start conf => trivial
  | stop => exact h
  | reload conf => exact .inr h
  | complete op error => trivial
  | run op error => trivial

theorem TcpInput.settling_of_undisturbed {t : TcpAcceptor} {i : TcpInput} (h : i.Undisturbed t)
    (hfresh : i.lifecycle = some .start → t = {}) : i.Settling fl t := by
  cases i with
  | start conf =>
    cases hfresh rfl
    intro _
    refine ⟨?_, ?_⟩
    · intro _ _ _ hm
      cases hm
    · intro _ _ hm
      cases hm
  | stop => trivial
  | reload conf => exact fun _ => h
  | complete op error => exact h
  | run op error => trivial

theorem TcpInput.serves_of_lifecycle {t : TcpAcceptor} {i : TcpInput}
    (h : i.lifecycle = some call) (calls : List LifecycleRecord) (serving : Bool) :
    i.serves ((i.perform fl).on t).1 serving = lastServes
      (calls ++ [⟨app, call, ((i.perform fl).on t).1.isOk⟩]) := by
  rw [lastServes, List.getLast?_concat]
  cases i with
  | start conf => cases h; simp [serves]
  | stop => cases h; simp [serves]
  | reload conf => cases h; simp [serves]
  | complete op error => cases h
  | run op error => cases h

/-- A step of asio leaves the acceptor as it is, and there is none without a start. -/
theorem TcpInput.own_keeps {t : TcpAcceptor} {i : TcpInput} (hown : i.lifecycle = none)
    (he : i.Enabled t) :
    ((tcpMachine fl).next t i).acceptor = t.acceptor ∧ t ≠ {} ∧
      ∀ serving, i.serves ((i.perform fl).on t).1 serving = serving := by
  cases i with
  | start conf => cases hown
  | stop => cases hown
  | reload conf => cases hown
  | complete op error =>
    refine ⟨rfl, ?_, fun _ => rfl⟩
    rintro rfl
    cases he.1
  | run op error =>
    refine ⟨?_, ?_, fun _ => rfl⟩
    · exact (handler_handles fl op error { t with queued := t.queued.erase (op, error) }).acceptor
    · rintro rfl
      cases he

theorem tcp_upholds (fl : Flavour) (app : Nat) :
    Upholds (tcpComponent fl) TcpInput.Undisturbed app (TcpDeployed fl) where
  call calls t i call h horder hcall he hi := by
    have hfresh : i.lifecycle = some .start → t = {} := by
      intro hstart
      cases hcall.symm.trans hstart
      exact h.fresh horder.start_first
    have hchain : OneChain fl (_, i.serves _ _) :=
      i.perform_oneChain h.chain he (i.settling_of_undisturbed hi hfresh)
    rw [i.serves_of_lifecycle hcall calls] at hchain
    refine ⟨(i.perform_safe h.safe he (i.calm_of_undisturbed hi)).2, hchain, ?_, ?_⟩
    · intro hnil
      cases (List.append_eq_nil_iff.mp hnil).2
    · rw [lastStops, List.getLast?_concat]
      intro hstop
      cases i with
      | start conf => cases hcall; cases hstop
      | stop => rfl
      | reload conf => cases hcall; cases hstop
      | complete op error => cases hcall
      | run op error => cases hcall
  own calls t i h hown he hi := by
    obtain ⟨hacceptor, hne, hserves⟩ := i.own_keeps hown he
    have hfresh : i.lifecycle = some .start → t = {} := by
      intro hstart
      cases hown.symm.trans hstart
    have hchain : OneChain fl (_, i.serves _ _) :=
      i.perform_oneChain h.chain he (i.settling_of_undisturbed hi hfresh)
    rw [hserves] at hchain
    refine ⟨(i.perform_safe h.safe he (i.calm_of_undisturbed hi)).2, hchain, ?_, ?_⟩
    · exact fun hnil => absurd (h.fresh hnil) hne
    · exact fun hstop => hacceptor.trans (h.stopped hstop)

theorem TcpDeployed.init (fl : Flavour) : TcpDeployed fl [] {} where
  safe := ⟨.inr (by simp [TcpAcceptor.Settled]), by simp [TcpAcceptor.Attached]⟩
  chain := by
    refine ⟨⟨?_, ?_, ?_, ?_⟩, fun h => by cases h⟩
    · exact fun _ ha => by cases ha
    · exact fun _ _ hm => by cases hm
    · exact fun _ _ _ hm => by cases hm
    · exact fun _ _ hm => by cases hm
  fresh _ := rfl
  stopped _ := rfl

/-- What a server that has made these calls can rely on: no handler and no lifecycle call dereferences
a pointer that was reset, one accept is under way when the last call has started or reloaded the
acceptor, and none that can succeed when it has stopped it. -/
structure TcpDependable (fl : Flavour) (calls : List LifecycleRecord) (t : TcpAcceptor) : Prop where
  safe : ∀ i m, i.Enabled t → i.Undisturbed t →
    ((TcpInput.perform fl i).on t).1 ≠ .error (.nullDereference m)
  serving : lastServes calls = true → ∃ a, t.acceptor = some a ∧ t.acceptsUnderWay a = 1
  stopped : lastStops calls = true → t.acceptor = none ∧ t.Settled

theorem SafeStep.never {m : AcceptorM σ Unit} {I : σ → Prop} (h : SafeStep m I s) (k : Member) :
    (m.on s).1 ≠ .error (.nullDereference k) := by
  intro hm
  rcases h.1 with hr | hr
  · cases hr.symm.trans hm
  · cases hr.symm.trans hm

theorem TcpDeployed.dependable {calls : List LifecycleRecord} (h : TcpDeployed fl calls t) :
    TcpDependable fl calls t where
  safe i m he hi := (i.perform_safe h.safe he (i.calm_of_undisturbed hi)).never m
  serving hserves := by
    obtain ⟨a, ha⟩ := h.chain.2 hserves
    exact ⟨a, ha.acceptor, ha.underWay⟩
  stopped hstops := by
    have hnone := h.stopped hstops
    refine ⟨hnone, h.safe.1.resolve_left ?_⟩
    intro hstarted
    obtain ⟨a, ha⟩ := hstarted.acceptor
    cases ha.symm.trans hnone

def UdpInput.lifecycle : UdpInput → Option LifecycleCall
  | .start _ => some .start
  | .stop => some .stop
  | .reload _ => some .reload
  | .close _ => none
  | .complete _ _ _ => none
  | .run _ _ _ _ => none

def udpComponent (o : ByteOrder) : Component UdpAcceptor UdpInput where
  machine := udpMachine o
  lifecycle i := i.lifecycle
  returns s i := ((i.perform o).on s).1.isOk

/-- The acceptor is stopped and reloaded only when nothing is under way but peeks, and reloaded only
after the last of them. What is outstanding while it is not started is aborted. -/
def UdpInput.Undisturbed (s : UdpAcceptor) : UdpInput → Prop
  | .start _ => True
  | .stop => s.Quiet
  | .reload conf => s.Quiet ∧ (conf.Succeeds → s.chainOperations = 0)
  | .close _ => True
  | .complete _ error _ => s.Started ∨ error = .aborted
  | .run _ _ _ _ => True

structure UdpDeployed (calls : List LifecycleRecord) (t : UdpAcceptor) : Prop where
  safe : t.Safe
  chain : t.chainOperations ≤ 1
  fresh : calls = [] → t = {}
  stopped : lastStops calls = true → t.socket = none

theorem UdpInput.calm_of_undisturbed {t : UdpAcceptor} {i : UdpInput} (h : i.Undisturbed t) :
    i.Calm t := by
  cases i with
  | start conf => trivial
  | stop => exact h
  | reload conf => exact .inr h.1
  | close k => trivial
  | complete op error received => exact h
  | run op error received available => trivial

theorem UdpInput.alone_of_undisturbed {t : UdpAcceptor} {i : UdpInput} (h : i.Undisturbed t)
    (hfresh : i.lifecycle = some .start → t = {}) : i.Alone t := by
  cases i with
  | start conf =>
    cases hfresh rfl
    exact fun _ => rfl
  | stop => trivial
  | reload conf => exact h.2
  | close k => trivial
  | complete op error received => trivial
  | run op error received available => trivial

theorem UdpAcceptor.Handles.socket {s s' : UdpAcceptor} (h : UdpAcceptor.Handles s op s') :
    s'.socket = s.socket := by
  cases h <;> rfl

theorem UdpInput.own_keeps {t : UdpAcceptor} {i : UdpInput} (hown : i.lifecycle = none)
    (he : i.Enabled t) : ((udpMachine o).next t i).socket = t.socket ∧ t ≠ {} := by
  cases i with
  | start conf => cases hown
  | stop => cases hown
  | reload conf => cases hown
  | close k =>
    refine ⟨rfl, ?_⟩
    rintro rfl
    cases he
  | complete op error received =>
    refine ⟨rfl, ?_⟩
    rintro rfl
    cases he.1
  | run op error received available =>
    refine ⟨?_, ?_⟩
    · exact (UdpAcceptor.handler_handles o op error received available
        { t with queued := t.queued.erase (op, error, received) }).socket
    · rintro rfl
      cases he

theorem udp_upholds (o : ByteOrder) (app : Nat) :
    Upholds (udpComponent o) UdpInput.Undisturbed app UdpDeployed where
  call calls t i call h horder hcall he hi := by
    have hfresh : i.lifecycle = some .start → t = {} := by
      intro hstart
      cases hcall.symm.trans hstart
      exact h.fresh horder.start_first
    refine ⟨(i.perform_safe o h.safe he (i.calm_of_undisturbed hi)).2,
      i.perform_alone o h.chain he (i.alone_of_undisturbed hi hfresh), ?_, ?_⟩
    · intro hnil
      cases (List.append_eq_nil_iff.mp hnil).2
    · rw [lastStops, List.getLast?_concat]
      intro hstop
      cases i with
      | start conf => cases hcall; cases hstop
      | stop => exact UdpAcceptor.stop_socket h.safe.2
      | reload conf => cases hcall; cases hstop
      | close k => cases hcall
      | complete op error received => cases hcall
      | run op error received available => cases hcall
  own calls t i h hown he hi := by
    obtain ⟨hsocket, hne⟩ := i.own_keeps (o := o) hown he
    have hfresh : i.lifecycle = some .start → t = {} := by
      intro hstart
      cases hown.symm.trans hstart
    refine ⟨(i.perform_safe o h.safe he (i.calm_of_undisturbed hi)).2,
      i.perform_alone o h.chain he (i.alone_of_undisturbed hi hfresh), ?_, ?_⟩
    · exact fun hnil => absurd (h.fresh hnil) hne
    · exact fun hstop => hsocket.trans (h.stopped hstop)

theorem UdpDeployed.init : UdpDeployed [] {} where
  safe := by
    refine ⟨.inr (by simp [UdpAcceptor.Quiet]), ?_, ?_, ?_⟩
    · exact fun _ _ hm => by cases hm
    · exact fun _ _ _ _ hm => by cases hm
    · exact fun _ hk => by cases hk
  chain := Nat.zero_le 1
  fresh _ := rfl
  stopped _ := rfl

structure UdpDependable (o : ByteOrder) (calls : List LifecycleRecord) (t : UdpAcceptor) : Prop where
  safe : ∀ i m, i.Enabled t → i.Undisturbed t →
    ((UdpInput.perform o i).on t).1 ≠ .error (.nullDereference m)
  serving : t.chainOperations ≤ 1
  stopped : lastStops calls = true → t.socket = none ∧ t.Quiet

theorem UdpDeployed.dependable {calls : List LifecycleRecord} (h : UdpDeployed calls t)
    (o : ByteOrder) : UdpDependable o calls t where
  safe i m he hi := (i.perform_safe o h.safe he (i.calm_of_undisturbed hi)).never m
  serving := h.chain
  stopped hstops := by
    have hnone := h.stopped hstops
    refine ⟨hnone, h.safe.1.resolve_left ?_⟩
    intro hstarted
    obtain ⟨k, hk⟩ := hstarted.socket
    cases hk.symm.trans hnone

/-- In every run of the server and of one of its acceptors, whatever else the server is asked to do,
the acceptor is dependable. That it is started once and before anything else, with nothing under
way, is left to the server. -/
theorem deployed_acceptors (Y : YamlCpp) (app : Nat) (s : Server) :
    (∀ fl t, Deployed (Y := Y) (tcpComponent fl) TcpInput.Undisturbed app s t →
        TcpDependable fl (s.callsOf app) t) ∧
      ∀ o t, Deployed (Y := Y) (udpComponent o) UdpInput.Undisturbed app s t →
        UdpDependable o (s.callsOf app) t := by
  constructor
  · intro fl t h
    exact (h.invariant (.init fl) (tcp_upholds fl app)).dependable
  · intro o t h
    exact (h.invariant .init (udp_upholds o app)).dependable o

def acceptorSurroundings : Surroundings plainYaml :=
  { plainSurroundings (loggerConfig [.map [("type", .scalar "tcp_acceptor")]]) with
    symbols := fun _ => .ok ["tcp_acceptor"] }

def acceptorStarted : Server := ((Server.start acceptorSurroundings "config.yaml").on {}).2

def acceptorStopped : Server := ((Server.stop acceptorSurroundings).on acceptorStarted).2

/-- The inputs of an acceptor that serves one connection between its `start` and its `stop`. -/
def oneServed : List TcpInput :=
  [.start goodTcpConf, .complete (.accept 0 { processor := some 0 }) .success,
    .run (.accept 0 { processor := some 0 }) .success, .stop]

def oneServedAcceptor : TcpAcceptor := oneServed.foldl (tcpMachine .tcp).next {}

theorem oneServed_quiet : (((oneServed.take 3).foldl (tcpMachine .tcp).next {})).Quiet := by
  constructor
  · intro a c r hm
    cases hm
  · intro a c hm
    cases List.mem_singleton.mp hm
    exact .inl rfl

theorem acceptorStopped_deployed : Deployed (Y := plainYaml) (tcpComponent .tcp)
    TcpInput.Undisturbed 0 acceptorStopped oneServedAcceptor := by
  have hstart : acceptorStarted.calls.drop 0 = [⟨0, .start, true⟩] := by decide +kernel
  have hstop : acceptorStopped.calls.drop acceptorStarted.calls.length = [⟨0, .stop, true⟩] := by
    decide +kernel
  apply Deployed.call (.stop acceptorSurroundings)
  · apply Deployed.call (.start acceptorSurroundings "config.yaml") .init
    change Attends _ _ 0 (acceptorStarted.calls.drop 0) _ _
    rw [hstart]
    exact .call (i := TcpInput.start goodTcpConf) rfl rfl trivial trivial rfl .done
  · change Attends _ _ 0 (acceptorStopped.calls.drop acceptorStarted.calls.length) _ _
    rw [hstop]
    apply Attends.own (i := TcpInput.complete (.accept 0 { processor := some 0 }) .success)
    · rfl
    · exact ⟨List.mem_singleton_self _, fun hc => by cases hc⟩
    · exact fun _ _ _ he => by cases he
    apply Attends.own (i := TcpInput.run (.accept 0 { processor := some 0 }) .success)
    · rfl
    · exact List.mem_singleton_self _
    · trivial
    exact .call (i := TcpInput.stop) rfl rfl trivial oneServed_quiet rfl .done

theorem one_served_dependable :
    oneServedAcceptor.served.length = 1 ∧
      TcpDependable .tcp (acceptorStopped.callsOf 0) oneServedAcceptor :=
  ⟨rfl, (deployed_acceptors plainYaml 0 acceptorStopped).1 .tcp _ acceptorStopped_deployed⟩

end CppAlls
