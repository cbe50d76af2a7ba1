import CppAlls.Apps.Applications

namespace CppAlls
set_option autoImplicit true

open Failing Tables Interaction BoostLoggerCore

namespace Server

variable {Y : YamlCpp} {E : Surroundings Y} {s s₀ s₁ : Server} {m : AppToPath}

theorem StartedAll.length {appNodes : List Y.Node} (h : StartedAll appNodes s₀ s) :
    s.objects.length = s₀.objects.length + appNodes.length := by
  obtain ⟨types, hobj, htypes⟩ := h.objects
  rw [hobj, List.length_append, htypes.length_eq]

theorem StartedAll.trans {before behind : List Y.Node} (h : StartedAll before s₀ s₁)
    (h' : StartedAll behind s₁ s) : StartedAll (before ++ behind) s₀ s := by
  constructor
  · intro name app
    rw [h'.lookup, h.lookup, h.length]
    constructor
    · rintro ((hn | ⟨i, n, hi, hn, rfl⟩) | ⟨i, n, hi, hn, rfl⟩)
      · exact .inl hn
      · obtain ⟨hlt, _⟩ := List.getElem?_eq_some_iff.mp hi
        exact .inr ⟨i, n, (List.getElem?_append_left hlt).trans hi, hn, rfl⟩
      · refine .inr ⟨before.length + i, n, ?_, hn, Nat.add_assoc _ _ _⟩
        rw [List.getElem?_append_right (Nat.le_add_right _ _), Nat.add_sub_cancel_left]
        exact hi
    · rintro (hn | ⟨i, n, hi, hn, rfl⟩)
      · exact .inl (.inl hn)
      · by_cases hlt : i < before.length
        · rw [List.getElem?_append_left hlt] at hi
          exact .inl (.inr ⟨i, n, hi, hn, rfl⟩)
        · rw [List.getElem?_append_right (Nat.le_of_not_lt hlt)] at hi
          exact .inr ⟨i - before.length, n, hi, hn, by omega⟩
  · obtain ⟨types, hobj, htypes⟩ := h.objects
    obtain ⟨types', hobj', htypes'⟩ := h'.objects
    refine ⟨types ++ types', ?_, List.rel_append htypes htypes'⟩
    rw [hobj', hobj, List.append_assoc]

theorem StartedAll.snoc {appNode : Y.Node} {before : List Y.Node} (hall : StartedAll before s₀ s)
    (h : Starts E appNode m s.instances s appType name) :
    StartedAll (before ++ [appNode]) s₀ (added E s appType name appNode) :=
  hall.trans (.cons h (.nil _))

end Server

open Server

/-- The server runs the applications of the repository. -/
structure Installed {Y : YamlEntries} (E : Surroundings Y.toYamlCpp) (H : Host Y) : Prop where
  start : ∀ app appType n, E.start app appType n = (H.start app (.ofName appType) n).body
  isLogger : ∀ appType, E.isLogger appType = H.implements (.ofName appType) .logger

namespace Host

variable {Y : YamlEntries} (H : Host Y)

/-- The application that is constructed for a node, the first one being number `first`, is cast by
the type of the node. -/
def Casts (first : Nat) (appNodes : List Y.Node) : Prop :=
  ∀ i n appType, appNodes[i]? = some n → typeOf (Y := Y.toYamlCpp) n = .ok appType → ∀ api,
    H.isA (first + i) api = H.implements (.ofName appType) api

/-- One of these nodes has the name that stands under a key, and is an application with the
interface. -/
def Offered (before : List Y.Node) (conf : Y.Node) (want : String × Api) : Prop :=
  ∃ name n appType, text conf want.1 = .ok name ∧ n ∈ before ∧
    StartName (Y := Y.toYamlCpp) n (cStr name) ∧ typeOf (Y := Y.toYamlCpp) n = .ok appType ∧
    H.implements (.ofName appType) want.2 = true

/-- The application of a node can be created and started behind these nodes: under a name of its
own, given all that it wants by them, and with no other instances than theirs. -/
structure Follows (E : Surroundings Y.toYamlCpp) (m : AppToPath) (first : Nat)
    (before : List Y.Node) (n : Y.Node) (appType name : String) : Prop
    extends Creates E m n appType name where
  fresh : ∀ n' ∈ before, ¬ StartName (Y := Y.toYamlCpp) n' name
  given : ∀ want ∈ wants (.ofName appType), H.Offered before n want
  settles : ∃ is, RegistryOf (Y := Y.toYamlCpp) first before is ∧
    H.settles is (first + before.length) (.ofName appType) n = .ok ()

/-- Each application follows those of the nodes before it. -/
def Wired (E : Surroundings Y.toYamlCpp) (m : AppToPath) (first : Nat) (appNodes : List Y.Node) :
    Prop :=
  ∀ before n behind, appNodes = before ++ n :: behind →
    ∃ appType name, H.Follows E m first before n appType name

end Host

theorem forall_split_cons {P : List α → α → Prop} {x : α} {xs : List α} :
    (∀ before n behind, x :: xs = before ++ n :: behind → P before n) ↔
      P [] x ∧ ∀ before n behind, xs = before ++ n :: behind → P (x :: before) n := by
  constructor
  · intro h
    exact ⟨h [] x xs rfl, fun before n behind he => h (x :: before) n behind (congrArg _ he)⟩
  · intro ⟨hx, hxs⟩ before n behind he
    cases before with
    | nil =>
      cases he
      exact hx
    | cons y before =>
      cases he
      exact hxs before n behind rfl

namespace Server

variable {Y : YamlEntries} {H : Host Y} {E : Surroundings Y.toYamlCpp} {s s₀ : Server}
  {appNodes before : List Y.Node} {n : Y.Node}

theorem StartedAll.given_iff (hall : StartedAll before s₀ s) (hempty : s₀.instances = ∅)
    (hcasts : H.Casts s₀.objects.length appNodes) (hbefore : before <+: appNodes) :
    H.Given s.instances n want ↔ H.Offered before n want := by
  have hcast (i : Nat) (n' : Y.Node) (hi : before[i]? = some n') : appNodes[i]? = some n' := by
    obtain ⟨behind, rfl⟩ := hbefore
    obtain ⟨hlt, _⟩ := List.getElem?_eq_some_iff.mp hi
    exact (List.getElem?_append_left hlt).trans hi
  constructor
  · intro ⟨name, app, htext, hlookup, his⟩
    rcases (hall.lookup _ _).mp hlookup with hn | ⟨i, n', hi, hname, rfl⟩
    · rw [hempty] at hn
      cases hn
    · obtain ⟨appType, htype, hnamed⟩ := hname
      rw [hcasts i n' appType (hcast i n' hi) htype] at his
      refine ⟨name, n', appType, htext, List.mem_of_getElem? hi, ?_, htype, his⟩
      exact ⟨appType, htype, hnamed⟩
  · intro ⟨name, n', appType, htext, hmem, hname, htype, himplements⟩
    obtain ⟨i, hi⟩ := List.getElem?_of_mem hmem
    refine ⟨name, s₀.objects.length + i, htext, ?_, ?_⟩
    · exact (hall.lookup _ _).mpr (.inr ⟨i, n', hi, hname, rfl⟩)
    · rw [hcasts i n' appType (hcast i n' hi) htype]
      exact himplements

theorem StartedAll.registryOf (hall : StartedAll before s₀ s) (hempty : s₀.instances = ∅) :
    RegistryOf (Y := Y.toYamlCpp) s₀.objects.length before s.instances := by
  intro name app
  rw [hall.lookup, hempty]
  exact or_iff_right nofun

theorem RegistryOf.lookup_eq {first : Nat} {is is' : Instances}
    (h : RegistryOf (Y := Y.toYamlCpp) first before is)
    (h' : RegistryOf (Y := Y.toYamlCpp) first before is') (name : String) :
    is.lookup name = is'.lookup name := by
  apply Option.ext
  intro app
  rw [h, h']

theorem StartedAll.fresh_iff (hall : StartedAll before s₀ s) (hempty : s₀.instances = ∅) :
    name ∉ s.instances ↔ ∀ n' ∈ before, ¬ StartName (Y := Y.toYamlCpp) n' name := by
  rw [← AList.lookup_eq_none]
  constructor
  · intro hnone n' hmem hname
    obtain ⟨i, hi⟩ := List.getElem?_of_mem hmem
    have hlookup := (hall.lookup name _).mpr (.inr ⟨i, n', hi, hname, rfl⟩)
    cases hnone.symm.trans hlookup
  · intro hno
    cases hlookup : s.instances.lookup name with
    | none => rfl
    | some app =>
      rcases (hall.lookup name app).mp hlookup with hn | ⟨i, n', hi, hname, _⟩
      · rw [hempty] at hn
        cases hn
      · exact absurd hname (hno n' (List.mem_of_getElem? hi))

/-- What the next node needs when those before it are started. -/
theorem StartedAll.starts_iff (hall : StartedAll before s₀ s) (hE : Installed E H)
    (hempty : s₀.instances = ∅) (hcasts : H.Casts s₀.objects.length appNodes)
    (hbefore : before <+: appNodes) : Starts E n m s.instances s appType name ↔
      H.Follows E m s₀.objects.length before n appType name := by
  have hbody : (startBody E s appType n).outcome s.instances = none ↔
      (∀ want ∈ Host.wants (.ofName appType), H.Offered before n want) ∧
        ∃ is, RegistryOf (Y := Y.toYamlCpp) s₀.objects.length before is ∧
          H.settles is (s₀.objects.length + before.length) (.ofName appType) n = .ok () := by
    have hregistry := hall.registryOf hempty
    have hsettles : H.settles s.instances (s₀.objects.length + before.length) (.ofName appType) n =
          .ok () ↔ ∃ is, RegistryOf (Y := Y.toYamlCpp) s₀.objects.length before is ∧
            H.settles is (s₀.objects.length + before.length) (.ofName appType) n = .ok () := by
      constructor
      · exact fun h => ⟨s.instances, hregistry, h⟩
      · intro ⟨is, his, h⟩
        rw [Host.settles_congr (hregistry.lookup_eq his)]
        exact h
    rw [startBody, hE.start, BodyM.body_outcome, Host.start_eval, hall.length, hsettles]
    simp only [hall.given_iff hempty hcasts hbefore]
  constructor
  · intro hstarts
    obtain ⟨hgiven, hsettles⟩ := hbody.mp hstarts.returns
    exact ⟨hstarts.toCreates, (hall.fresh_iff hempty).mp hstarts.fresh, hgiven, hsettles⟩
  · intro hfollows
    exact ⟨hfollows.toCreates, hbody.mpr ⟨hfollows.given, hfollows.settles⟩,
      (hall.fresh_iff hempty).mpr hfollows.fresh⟩

theorem startApps_wired (hE : Installed E H) (hempty : s₀.instances = ∅)
    (hcasts : H.Casts s₀.objects.length appNodes) (nodes : List Y.Node)
    (hnodes : appNodes = before ++ nodes) (hall : StartedAll before s₀ s) :
    (startApps E nodes).Wp (fun r s' =>
      (r = .ok () ↔ ∀ b n e, nodes = b ++ n :: e → ∃ appType name,
        H.Follows E s.appToPath s₀.objects.length (before ++ b) n appType name) ∧
      (r = .ok () → StartedAll appNodes s₀ s')) s := by
  induction nodes generalizing before s with
  | nil =>
    rw [List.append_nil] at hnodes
    refine FailM.Wp.pure ⟨⟨fun _ => ?_, fun _ => rfl⟩, fun _ => hnodes ▸ hall⟩
    intro b n e he
    cases b <;> cases he
  | cons n nodes ih =>
    have hbefore : before <+: appNodes := ⟨_, hnodes.symm⟩
    rw [forall_split_cons, List.append_nil]
    apply startApps_cons_wp
    · intro appType name hstarts
      have hfollows := (hall.starts_iff hE hempty hcasts hbefore).mp hstarts
      apply (ih (hnodes.trans (List.append_cons _ _ _)) (hall.snoc hstarts)).mono
      intro r s₁ ⟨hiff, hstarted⟩
      simp only [List.append_assoc, List.singleton_append] at hiff
      exact ⟨hiff.trans (and_iff_right ⟨appType, name, hfollows⟩).symm, hstarted⟩
    · intro e s₁ hlaunch
      refine ⟨⟨nofun, ?_⟩, nofun⟩
      intro ⟨⟨appType, name, hfollows⟩, _⟩
      have hstarts := (hall.starts_iff hE hempty hcasts hbefore).mpr hfollows
      exact absurd hstarts (hlaunch.not_starts appType name)

theorem start_wires (hE : Installed E H) (path : String) (hempty : s.instances = ∅)
    (hcasts : ∀ appNodes, E.configuredApps path = .ok appNodes →
      H.Casts s.objects.length appNodes) :
    (start E path).Wp (fun r s' =>
      (r = .ok () ↔
        ReadsNodes E (fun m appNodes => H.Wired E m s.objects.length appNodes) path s.appToPath) ∧
      (r = .ok () → ∃ appNodes, E.configuredApps path = .ok appNodes ∧
        RegistryOf s.objects.length appNodes s'.instances)) s := by
  apply start_of_loop path hempty
  intro m appNodes hconfigured
  apply (startApps_wired hE hempty (hcasts appNodes hconfigured) appNodes
    (List.nil_append _).symm ?_).mono
  · exact fun r s' h => h
  · exact ⟨(StartedAll.nil s).lookup, (StartedAll.nil s).objects⟩

/-- With the applications of the repository, and with a logger that does not throw for the records
that it takes over, a start from an empty registry returns exactly when the instance that each node
names as its logger, processor or io_service is configured before it and has that interface, the
rest of its settings is in order, and the names are all different. -/
theorem start_wired (E : Surroundings Y.toYamlCpp) (H : Host Y) (L : Loggers Y.toYamlCpp)
    (hE : Installed E H) (path : String) (x : Server × Journal) (hempty : x.1.instances = ∅)
    (hcasts : ∀ appNodes, E.configuredApps path = .ok appNodes →
      H.Casts x.1.objects.length appNodes)
    (hL : Logged.Replays L x) :
    (((Logged.start E L path).on x).1 = .ok () ↔
      ReadsNodes E (fun m appNodes => H.Wired E m x.1.objects.length appNodes) path
        x.1.appToPath) ∧
    ∀ x', (Logged.start E L path).on x = (.ok (), x') → ∃ appNodes,
      E.configuredApps path = .ok appNodes ∧
        RegistryOf x.1.objects.length appNodes x'.1.instances := by
  have h := Logged.wp_of_ends (Logged.start_ends path) (Logged.start_tracks path) hL
    (start_wires hE path hempty hcasts)
  refine ⟨h.1, ?_⟩
  intro x' hon
  rw [FailM.Wp, hon] at h
  exact h.2 rfl

/-- Four applications: a logger, an io_service, a processor of a plugin that asks for the logger, and
an acceptor. -/
def echoHost : Host plainEntries where
  Address := String
  isA
    | 0, api => api = .logger
    | 1, api => api = .ioServiceProvider
    | 2, api => api = .connectionProcessor
    | _, _ => false
  asBoolOr
    | PlainNode.scalar "false", _ => .ok false
    | _, fallback => .ok fallback
  asUnsignedShort
    | PlainNode.scalar "18080" => .ok 18080
    | _ => .error (.std "bad conversion")
  asSizeOr
    | PlainNode.scalar "2", _ => .ok 2
    | _, fallback => .ok fallback
  fromString address := .ok address
  listen _ _ _ := .ok ()
  bind _ _ _ := .ok ()
  reuseAddress _ := .ok ()
  useCertificateChainFile _ := .ok ()
  usePrivateKeyFile _ := .ok ()
  useTmpDhFile _ := .ok ()
  initFromStream _ := .ok ()
  hardwareConcurrency := 4
  createThread _ _ := .ok ()
  plugin _ _ _ := do
    match ← BodyM.find "tcp_logger" with
    | some _ => return
    | none => throw (.std "no logger")
  pluginIs name api := name = "echo_int_connection" && api = .connectionProcessor

def echoNodes : List PlainNode :=
  [.map [("type", .scalar "boost_logger"), ("instance-name", .scalar "tcp_logger"),
      ("tag", .scalar "tcp")],
    .map [("type", .scalar "boost_io_service"), ("instance-name", .scalar "io"),
      ("logger", .scalar "tcp_logger"), ("threads", .scalar "2")],
    .map [("type", .scalar "echo_int_connection")],
    .map [("type", .scalar "tcp_acceptor"), ("instance-name", .scalar "ac1"),
      ("logger", .scalar "tcp_logger"), ("listen-port", .scalar "18080"),
      ("io_service", .scalar "io"), ("processor", .scalar "echo_int_connection")]]

def echoSurroundings : Surroundings plainEntries.toYamlCpp :=
  { plainSurroundings (loggerConfig echoNodes) with
    symbols := fun _ =>
      .ok ["boost_logger", "boost_io_service", "echo_int_connection", "tcp_acceptor"]
    isLogger := fun appType => echoHost.implements (.ofName appType) .logger
    start := fun app appType n => (echoHost.start app (.ofName appType) n).body }

theorem echo_installed : Installed echoSurroundings echoHost where
  start _ _ _ := rfl
  isLogger _ := rfl

theorem echo_casts (appNodes : List PlainNode)
    (hnodes : echoSurroundings.configuredApps "config.yaml" = .ok appNodes) :
    echoHost.Casts 0 appNodes := by
  cases hnodes
  intro i n appType hi htype api
  match i, hi with
  | 0, hi => cases hi; cases htype; cases api <;> rfl
  | 1, hi => cases hi; cases htype; cases api <;> rfl
  | 2, hi => cases hi; cases htype; cases api <;> rfl
  | 3, hi => cases hi; cases htype; cases api <;> rfl

theorem echo_returns : ((start echoSurroundings "config.yaml").on {}).1 = .ok () := by
  decide +kernel

def quietLoggers : Loggers plainEntries.toYamlCpp where
  log _ _ _ := none
  dump _ := ""

theorem echo_wired :
    ((Logged.start echoSurroundings quietLoggers "config.yaml").on ({}, {})).1 = .ok () ∧
      ReadsNodes echoSurroundings (fun m appNodes => echoHost.Wired echoSurroundings m 0 appNodes)
        "config.yaml" ∅ := by
  obtain ⟨hiff, _⟩ := start_wired echoSurroundings echoHost quietLoggers echo_installed
    "config.yaml" ({}, {}) rfl echo_casts fun _ _ _ _ => rfl
  have hreturns : ((Logged.start echoSurroundings quietLoggers "config.yaml").on ({}, {})).1 =
      .ok () := by
    decide +kernel
  exact ⟨hreturns, hiff.mp hreturns⟩

end Server

end CppAlls
