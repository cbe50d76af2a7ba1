import CppAlls.Apps.Deployment
import CppAlls.Apps.Wiring

namespace CppAlls
set_option autoImplicit true

open Failing Machines

namespace TcpAcceptor

variable {s s' : TcpAcceptor}

/-- Every connection, from the accept that makes it on, is for the processor `p`. -/
structure ServesFor (s : TcpAcceptor) (p : Nat) : Prop where
  processor : s.processor = some p
  outstanding : ∀ op ∈ s.outstanding, op.connection.processor = some p
  queued : ∀ x ∈ s.queued, x.1.connection.processor = some p
  served : ∀ x ∈ s.served, x.1 = p ∧ x.2.processor = some p

theorem ServesFor.begun (h : s.ServesFor p) (hop : op.connection.processor = some p) :
    ServesFor { s with outstanding := s.outstanding ++ [op] } p := by
  refine ⟨h.processor, ?_, h.queued, h.served⟩
  rw [List.forall_mem_append, List.forall_mem_singleton]
  exact ⟨h.outstanding, hop⟩

theorem ServesFor.accepting (h : s.ServesFor p) (a : Nat) : (s.accepting a).ServesFor p :=
  h.begun h.processor

theorem ServesFor.called (h : s.ServesFor p) (hq : q = p) (hc : c.processor = some p) :
    ServesFor { s with served := s.served ++ [(q, c)] } p := by
  refine ⟨h.processor, h.outstanding, h.queued, ?_⟩
  rw [List.forall_mem_append, List.forall_mem_singleton]
  exact ⟨h.served, hq, hc⟩

theorem ServesFor.completed (h : s.ServesFor p) (hop : op ∈ s.outstanding) (error : Result) :
    ServesFor { s with
      outstanding := s.outstanding.erase op, queued := s.queued ++ [(op, error)] } p := by
  refine ⟨h.processor, fun op' hop' => h.outstanding op' (List.mem_of_mem_erase hop'), ?_, h.served⟩
  rw [List.forall_mem_append, List.forall_mem_singleton]
  exact ⟨h.queued, h.outstanding op hop⟩

theorem ServesFor.taken (h : s.ServesFor p) (x : TcpOperation × Result) :
    ServesFor { s with queued := s.queued.erase x } p :=
  ⟨h.processor, h.outstanding, fun y hy => h.queued y (List.mem_of_mem_erase hy), h.served⟩

theorem ServesFor.handled (h : s.ServesFor p) (hh : Handles fl s op error s')
    (hop : op.connection.processor = some p) : s'.ServesFor p := by
  cases hh with
  | ignored => exact h
  | null _ _ => exact h
  | again _ _ => exact h.accepting _
  | shaking _ => exact (h.accepting _).begun hop
  | processed _ _ hq =>
    exact (h.accepting _).called (Option.some.inj (hq.symm.trans h.processor)) hop
  | unshaken => exact h
  | shaken hq => exact h.called (Option.some.inj (hq.symm.trans hop)) hop

theorem ServesFor.stepped (h : s.ServesFor p) (he : (tcpMachine fl).Enabled s i)
    (hi : i.lifecycle = none) : ((tcpMachine fl).next s i).ServesFor p := by
  cases i with
  | start conf => cases hi
  | stop => cases hi
  | reload conf => cases hi
  | complete op error => exact h.completed he.1 error
  | run op error => exact (h.taken _).handled (handler_handles fl op error _) (h.queued _ he)

/-- Up to the next call of the server. -/
theorem ServesFor.run (h : s.ServesFor p)
    (hf : (tcpMachine fl).Follows (fun _ i => i.lifecycle = none) s inputs) :
    (inputs.foldl (tcpMachine fl).next s).ServesFor p :=
  hf.invariant (I := fun s => s.ServesFor p) h fun _ _ h he hi => h.stepped he hi

theorem ServesFor.first (hproc : s.processor = some p)
    (hout : s.outstanding = [.accept a { processor := some p }]) (hqueued : s.queued = [])
    (hserved : s.served = []) : s.ServesFor p := by
  refine ⟨hproc, ?_, ?_, ?_⟩
  · rw [hout, List.forall_mem_singleton]
    rfl
  · rw [hqueued]
    exact List.forall_mem_nil _
  · rw [hserved]
    exact List.forall_mem_nil _

theorem start_first {conf : TcpConf} (h : conf.Succeeds fl) (hp : conf.processor = some p) :
    ∃ t, (start fl conf).on {} = (.ok (), t) ∧ t.ServesFor p ∧
      t.outstanding = [.accept 0 { processor := some p }] := by
  obtain ⟨logger, processor, ioService, listens, options, contextFiles⟩ := conf
  obtain ⟨hlogger, _, hne, hlistens, hoptions, hfiles⟩ := h
  obtain ⟨io, hio⟩ := Option.ne_none_iff_exists'.mp hne
  simp only at hlogger hio hlistens hoptions hfiles hp
  subst hlogger hio hlistens hoptions hp
  cases fl with
  | tcp => exact ⟨_, rfl, .first rfl rfl rfl rfl, rfl⟩
  | tcpSsl =>
    cases hfiles rfl
    exact ⟨_, rfl, .first rfl rfl rfl rfl, rfl⟩

end TcpAcceptor

namespace UdpAcceptor

variable {s s' : UdpAcceptor}

/-- A peek has no connection yet. -/
def MadeFor (p : Nat) : UdpOperation → Prop
  | .peek _ => True
  | .read c _ => c.processor = some p

structure ServesFor (s : UdpAcceptor) (p : Nat) : Prop where
  processor : s.processor = some p
  outstanding : ∀ op ∈ s.outstanding, MadeFor p op
  queued : ∀ x ∈ s.queued, MadeFor p x.1
  served : ∀ x ∈ s.served, x.1 = p ∧ x.2.1.processor = some p

theorem ServesFor.begun (h : s.ServesFor p) (hop : MadeFor p op) :
    ServesFor { s with outstanding := s.outstanding ++ [op] } p := by
  refine ⟨h.processor, ?_, h.queued, h.served⟩
  rw [List.forall_mem_append, List.forall_mem_singleton]
  exact ⟨h.outstanding, hop⟩

theorem ServesFor.peeking (h : s.ServesFor p) (k : Nat) : (s.peeking k).ServesFor p :=
  h.begun trivial

theorem ServesFor.called (h : s.ServesFor p) (hq : q = p) (hc : c.processor = some p) :
    ServesFor { s with served := s.served ++ [(q, c, request)] } p := by
  refine ⟨h.processor, h.outstanding, h.queued, ?_⟩
  rw [List.forall_mem_append, List.forall_mem_singleton]
  exact ⟨h.served, hq, hc⟩

theorem ServesFor.completed (h : s.ServesFor p) (hop : op ∈ s.outstanding) (error : Result)
    (received : Bytes) : ServesFor { s with
      outstanding := s.outstanding.erase op, queued := s.queued ++ [(op, error, received)] } p := by
  refine ⟨h.processor, fun op' hop' => h.outstanding op' (List.mem_of_mem_erase hop'), ?_, h.served⟩
  rw [List.forall_mem_append, List.forall_mem_singleton]
  exact ⟨h.queued, h.outstanding op hop⟩

theorem ServesFor.taken (h : s.ServesFor p) (x : UdpOperation × Result × Bytes) :
    ServesFor { s with queued := s.queued.erase x } p :=
  ⟨h.processor, h.outstanding, fun y hy => h.queued y (List.mem_of_mem_erase hy), h.served⟩

theorem ServesFor.handled (h : s.ServesFor p) (hh : Handles s op s') (hop : MadeFor p op) :
    s'.ServesFor p := by
  cases hh with
  | nothing => exact h
  | peeking _ => exact h.peeking _
  | reading hc => exact h.begun (hc.trans h.processor)
  | processed _ hq => exact (h.peeking _).called (Option.some.inj (hq.symm.trans hop)) hop

theorem ServesFor.stepped (h : s.ServesFor p) (he : (udpMachine o).Enabled s i)
    (hi : i.lifecycle = none) : ((udpMachine o).next s i).ServesFor p := by
  cases i with
  | start conf => cases hi
  | stop => cases hi
  | reload conf => cases hi
  | close k => exact ⟨h.processor, h.outstanding, h.queued, h.served⟩
  | complete op error received => exact h.completed he.1 error received
  | run op error received available =>
    exact (h.taken _).handled (handler_handles o op error received available _) (h.queued _ he)

theorem ServesFor.run (h : s.ServesFor p)
    (hf : (udpMachine o).Follows (fun _ i => i.lifecycle = none) s inputs) :
    (inputs.foldl (udpMachine o).next s).ServesFor p :=
  hf.invariant (I := fun s => s.ServesFor p) h fun _ _ h he hi => h.stepped he hi

theorem start_first {conf : UdpConf} (h : conf.Succeeds) (hp : conf.processor = some p) :
    ∃ t, (start conf).on {} = (.ok (), t) ∧ t.ServesFor p ∧ t.outstanding = [.peek 0] := by
  obtain ⟨logger, processor, derives, ioService, binds, options⟩ := conf
  obtain ⟨hlogger, _, hderives, hne, hbinds, hoptions⟩ := h
  obtain ⟨io, hio⟩ := Option.ne_none_iff_exists'.mp hne
  simp only at hlogger hderives hio hbinds hoptions hp
  subst hlogger hderives hio hbinds hoptions hp
  refine ⟨_, rfl, ⟨rfl, ?_, List.forall_mem_nil _, List.forall_mem_nil _⟩, rfl⟩
  exact List.forall_mem_singleton.mpr trivial

end UdpAcceptor

open Server

namespace Host

variable {Y : YamlEntries} (H : Host Y)

/-- The node of the application `self` names the application `p`, which is there before it, as its
processor. -/
def NamesProcessor (is : Instances) (self : Nat) (conf : Y.Node) (p : Nat) : Prop :=
  ∃ name, text conf "processor" = .ok name ∧ is.lookup (cStr name) = some p ∧
    H.isA p .connectionProcessor = true ∧ p < self

/-- The acceptor of the node starts with what the node names, and up to the next call of the server
it serves all that it accepts by the processor that the node names. -/
def Serves (o : ByteOrder) (is : Instances) (self : Nat) (conf : Y.Node) : AppType → Prop
  | .acceptor fl => ∃ p t, H.NamesProcessor is self conf p ∧
      (TcpAcceptor.start fl (H.tcpConf is self conf)).on {} = (.ok (), t) ∧
      t.outstanding = [.accept 0 { processor := some p }] ∧
      ∀ inputs, (tcpMachine fl).Follows (fun _ i => i.lifecycle = none) t inputs →
        ∀ x ∈ (inputs.foldl (tcpMachine fl).next t).served, x.1 = p ∧ x.2.processor = some p
  | .udpAcceptor => ∃ p t, H.NamesProcessor is self conf p ∧ H.isA p .processor = true ∧
      (UdpAcceptor.start (H.udpConf is self conf)).on {} = (.ok (), t) ∧
      t.outstanding = [.peek 0] ∧
      ∀ inputs, (udpMachine o).Follows (fun _ i => i.lifecycle = none) t inputs →
        ∀ x ∈ (inputs.foldl (udpMachine o).next t).served, x.1 = p ∧ x.2.1.processor = some p
  | _ => True

variable {H}

/-- What earlier nodes offer is there when all are started. -/
theorem Offered.given {appNodes : List Y.Node} {conf : Y.Node} {is : Instances}
    (h : H.Offered (appNodes.take i) conf want) (hreg : RegistryOf first appNodes is)
    (hcasts : H.Casts first appNodes) : ∃ name app, text conf want.1 = .ok name ∧
      is.lookup (cStr name) = some app ∧ H.isA app want.2 = true ∧ app < first + i := by
  obtain ⟨name, n, appType, htext, hmem, hname, htype, himplements⟩ := h
  obtain ⟨j, hj⟩ := List.getElem?_of_mem hmem
  obtain ⟨hlt, _⟩ := List.getElem?_eq_some_iff.mp hj
  have hji : j < i := Nat.lt_of_lt_of_le hlt (List.length_take_le _ _)
  rw [List.getElem?_take_of_lt hji] at hj
  refine ⟨name, first + j, htext, ?_, ?_, Nat.add_lt_add_left hji first⟩
  · exact (hreg _ _).mpr ⟨j, n, hj, hname, rfl⟩
  · rw [hcasts j n appType hj htype]
    exact himplements

variable {is : Instances}

theorem NamesProcessor.member {conf : Y.Node} (h : H.NamesProcessor is self conf p) :
    (H.member conf "processor" .connectionProcessor).eval is = .ok p := by
  obtain ⟨name, htext, hlookup, his, _⟩ := h
  exact member_eval.mpr ⟨name, htext, hlookup, his⟩

/-- What an acceptor needs besides the instances that it names does not depend on the registry. -/
theorem serves_of_start (o : ByteOrder) {conf : Y.Node} (t : AppType) {is' : Instances}
    (hsettles : H.settles is' self t conf = .ok ())
    (hgiven : ∀ want ∈ wants t, ∃ name app, text conf want.1 = .ok name ∧
      is.lookup (cStr name) = some app ∧ H.isA app want.2 = true ∧ app < self) :
    H.Serves o is self conf t := by
  have hwants (want : String × Api) (hwant : want ∈ wants t) : H.Given is conf want := by
    obtain ⟨name, app, htext, hlookup, his, _⟩ := hgiven want hwant
    exact ⟨name, app, htext, hlookup, his⟩
  cases t with
  | acceptor fl =>
    obtain ⟨name, p, hnames⟩ := hgiven ("processor", .connectionProcessor) (by simp [wants])
    have hp : H.NamesProcessor is self conf p := ⟨name, hnames⟩
    have hprocessor : (H.tcpConf is self conf).processor = some p := by
      rw [tcpConf, hp.member]
      rfl
    have hconf : (H.tcpConf is self conf).Succeeds fl :=
      tcpConf_succeeds.mpr ((start_eval self (.acceptor fl) conf).mpr ⟨hwants, hsettles⟩)
    obtain ⟨t, hon, hserves, hout⟩ := TcpAcceptor.start_first hconf hprocessor
    exact ⟨p, t, hp, hon, hout, fun inputs hf => (hserves.run hf).served⟩
  | udpAcceptor =>
    obtain ⟨name, p, hnames⟩ := hgiven ("processor", .connectionProcessor) (by simp [wants])
    obtain ⟨name', p', htext', hlookup', hderives, _⟩ := hgiven ("processor", .processor)
      (by simp [wants])
    cases hnames.1.symm.trans htext'
    cases hnames.2.1.symm.trans hlookup'
    have hp : H.NamesProcessor is self conf p := ⟨name, hnames⟩
    have hprocessor : (H.udpConf is self conf).processor = some p := by
      rw [udpConf, hp.member]
      rfl
    have hconf : (H.udpConf is self conf).Succeeds :=
      udpConf_succeeds.mpr ((start_eval self .udpAcceptor conf).mpr ⟨hwants, hsettles⟩)
    obtain ⟨t, hon, hserves, hout⟩ := UdpAcceptor.start_first hconf hprocessor
    exact ⟨p, t, hp, hderives, hon, hout, fun inputs hf => (hserves.run hf).served⟩
  | _ => trivial

/-- Each node that is wired serves once all are started. -/
theorem Wired.serves {E : Surroundings Y.toYamlCpp} {appNodes : List Y.Node} {n : Y.Node}
    (hwired : H.Wired E m first appNodes) (hreg : RegistryOf first appNodes is)
    (hcasts : H.Casts first appNodes) (o : ByteOrder) (hi : appNodes[i]? = some n)
    (htype : typeOf (Y := Y.toYamlCpp) n = .ok appType) :
    H.Serves o is (first + i) n (.ofName appType) := by
  obtain ⟨hlt, hn⟩ := List.getElem?_eq_some_iff.mp hi
  have hsplit : appNodes = appNodes.take i ++ n :: appNodes.drop (i + 1) := by
    rw [← hn, ← List.drop_eq_getElem_cons hlt, List.take_append_drop]
  obtain ⟨appType', name, hfollows⟩ := hwired _ n _ hsplit
  cases hfollows.typed.symm.trans htype
  have hgiven (want : String × Api) (hwant : want ∈ wants (.ofName appType)) :=
    (hfollows.given want hwant).given hreg hcasts
  obtain ⟨_, _, hsettles⟩ := hfollows.settles
  rw [List.length_take_of_le (Nat.le_of_lt hlt)] at hsettles
  exact serves_of_start o _ hsettles hgiven

end Host

namespace Server

variable {Y : YamlEntries}

/-- After a start with the applications of the repository every acceptor that is configured accepts,
and up to the next call of the server hands each connection or request to the processor that its
node names, which is configured before it. -/
theorem start_serves (o : ByteOrder) (E : Surroundings Y.toYamlCpp) (H : Host Y)
    (hE : Installed E H) (path : String) (s : Server) (hempty : s.instances = ∅)
    (hcasts : ∀ appNodes, E.configuredApps path = .ok appNodes →
      H.Casts s.objects.length appNodes)
    (hreturns : ((start E path).on s).1 = .ok ()) :
    ∃ appNodes, E.configuredApps path = .ok appNodes ∧ ∀ i n appType,
      appNodes[i]? = some n → typeOf (Y := Y.toYamlCpp) n = .ok appType →
        H.Serves o ((start E path).on s).2.instances (s.objects.length + i) n
          (.ofName appType) := by
  obtain ⟨hiff, hregistry⟩ := start_wires hE path hempty hcasts
  obtain ⟨config, m, apps, hconfig, _, happs, hwired, _⟩ := hiff.mp hreturns
  obtain ⟨appNodes, hnodes, hreg⟩ := hregistry hreturns
  cases hnodes.symm.trans (configuredApps_eq hconfig happs)
  refine ⟨Y.elements apps, hnodes, ?_⟩
  intro i n appType hi htype
  exact hwired.serves hreg (hcasts _ hnodes) o hi htype

/-- The acceptor is the last of the four applications, and its processor the one before it. -/
theorem echo_serves : ∃ n, echoNodes[3]? = some n ∧ echoHost.Serves .little
    ((start echoSurroundings "config.yaml").on {}).2.instances 3 n (.acceptor .tcp) := by
  obtain ⟨appNodes, hnodes, hserves⟩ := start_serves .little echoSurroundings echoHost
    echo_installed "config.yaml" {} rfl echo_casts echo_returns
  have hconfigured : echoSurroundings.configuredApps "config.yaml" = .ok echoNodes := rfl
  obtain rfl : echoNodes = appNodes := Except.ok.inj (hconfigured.symm.trans hnodes)
  have hacceptor := hserves 3 _ "tcp_acceptor" rfl rfl
  have hself : ({} : Server).objects.length + 3 = 3 := rfl
  have hname : AppType.ofName "tcp_acceptor" = .acceptor .tcp := rfl
  rw [hself, hname] at hacceptor
  exact ⟨_, rfl, hacceptor⟩

end Server

end CppAlls
