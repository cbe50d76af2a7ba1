import CppAlls.Apps.BoostIoService
import CppAlls.Apps.BoostLogger
import CppAlls.Apps.UdpAcceptor
import CppAlls.Server.Loggers
import CppAlls.Server.Startup

namespace CppAlls
set_option autoImplicit true

open Failing Tables Interaction

/-- The interfaces that the applications cast instances to. -/
inductive Api where
  | logger
  | connectionProcessor
  | processor
  | ioServiceProvider
deriving DecidableEq, Repr

def Api.prettyName : Api → String
  | .logger => "cppalls::api::logger"
  | .connectionProcessor => "cppalls::api::connection_processor"
  | .processor => "cppalls::api::processor"
  | .ioServiceProvider => "cppalls::api::io_service_provider"

/-- The applications of the repository under the names that their binaries export, and those of
other binaries. -/
inductive AppType where
  | cppLogger
  | boostLoggerCore
  | boostLogger
  | boostIoService
  | acceptor (fl : Flavour)
  | udpAcceptor
  | plugin (name : String)
deriving DecidableEq, Repr

def AppType.ofName (name : String) : AppType :=
  if name = "cpp_logger" then .cppLogger
  else if name = "boost_logger_core" then .boostLoggerCore
  else if name = "boost_logger" then .boostLogger
  else if name = "boost_io_service" then .boostIoService
  else if name = "tcp_acceptor" then .acceptor .tcp
  else if name = "tcp_ssl_acceptor" then .acceptor .tcpSsl
  else if name = "udp_acceptor" then .udpAcceptor
  else .plugin name

theorem Except.bind_ok_iff {x : Except ε α} {f : α → Except ε β} {b : β} :
    (x >>= f) = .ok b ↔ ∃ a, x = .ok a ∧ f a = .ok b := by
  cases x with
  | ok a =>
    constructor
    · exact fun h => ⟨a, rfl, h⟩
    · rintro ⟨a', ha, h⟩
      cases ha
      exact h
  | error e =>
    constructor
    · intro h
      cases h
    · rintro ⟨a, ha, _⟩
      cases ha

theorem Except.isOk_iff {x : Except ε α} : x.isOk = true ↔ ∃ a, x = .ok a := by
  cases x with
  | ok a => exact ⟨fun _ => ⟨a, rfl⟩, fun _ => rfl⟩
  | error e =>
    constructor
    · intro h
      cases h
    · rintro ⟨a, h⟩
      cases h

theorem Except.exists_unit {x : Except ε Unit} : (∃ a, x = .ok a) ↔ x = .ok () :=
  ⟨fun ⟨_, h⟩ => h, fun h => ⟨(), h⟩⟩

theorem Except.toOption_ne_none {x : Except ε α} : x.toOption ≠ none ↔ ∃ a, x = .ok a := by
  cases x with
  | ok a => exact ⟨fun _ => ⟨a, rfl⟩, fun _ => nofun⟩
  | error e =>
    constructor
    · exact fun h => absurd rfl h
    · rintro ⟨a, h⟩
      cases h

/-- A lifecycle function that calls `app::get` and throws. -/
abbrev BodyM (α : Type) := ExceptT ServerExn (Prog String fun _ => Option Nat) α

namespace BodyM

def ofExcept (r : Except ServerExn α) : BodyM α := ExceptT.mk (.pure r)

def find (instanceName : String) : BodyM (Option Nat) :=
  ExceptT.mk (.call instanceName fun app => .pure (.ok app))

def body (m : BodyM Unit) : AppBody := m.run >>= fun
  | .ok _ => .pure none
  | .error e => .pure (some e)

/-- What a program returns when `app::get` finds the instances of `is`. -/
def answered (is : Instances) : Prog String (fun _ => Option Nat) α → α
  | .pure a => a
  | .call name k => answered is (k (is.lookup (cStr name)))

def eval (is : Instances) (m : BodyM α) : Except ServerExn α := answered is m.run

theorem answered_bind (is : Instances) (p : Prog String (fun _ => Option Nat) α)
    (f : α → Prog String (fun _ => Option Nat) β) :
    answered is (p >>= f) = answered is (f (answered is p)) := by
  induction p with
  | pure a => rfl
  | call name k ih => exact ih _

theorem answered_congr {is is' : Instances} (h : ∀ name, is.lookup name = is'.lookup name)
    (p : Prog String (fun _ => Option Nat) α) : answered is p = answered is' p := by
  induction p with
  | pure a => rfl
  | call name k ih =>
    rw [answered, answered, h]
    exact ih _

theorem outcome_eq_answered (is : Instances) (b : AppBody) : b.outcome is = answered is b := by
  induction b with
  | pure e => rfl
  | call name k ih => exact ih _

variable {is : Instances} {m : BodyM α}

@[simp] theorem eval_pure (a : α) : (pure a : BodyM α).eval is = .ok a := rfl

@[simp] theorem eval_ofExcept (r : Except ServerExn α) : (ofExcept r).eval is = r := rfl

@[simp] theorem eval_find (name : String) : (find name).eval is = .ok (is.lookup (cStr name)) := rfl

@[simp] theorem eval_throw (e : ServerExn) : (throw e : BodyM α).eval is = .error e := rfl

theorem eval_bind (f : α → BodyM β) : (m >>= f).eval is = m.eval is >>= fun a => (f a).eval is := by
  change answered is (m.run >>= ExceptT.bindCont f) = _
  rw [answered_bind, eval]
  cases answered is m.run with
  | ok a => rfl
  | error e => rfl

theorem eval_bind_ok {f : α → BodyM β} {b : β} :
    (m >>= f).eval is = .ok b ↔ ∃ a, m.eval is = .ok a ∧ (f a).eval is = .ok b := by
  rw [eval_bind]
  exact Except.bind_ok_iff

theorem body_outcome {m : BodyM Unit} : m.body.outcome is = none ↔ m.eval is = .ok () := by
  rw [outcome_eq_answered, body, answered_bind, eval]
  cases answered is m.run with
  | ok a => exact ⟨fun _ => rfl, fun _ => rfl⟩
  | error e =>
    constructor
    · intro h
      cases h
    · intro h
      cases h

end BodyM

/-- What the applications of the repository meet: the casts of instances, the conversions of
yaml-cpp, asio and the threads for the application of each number, Boost.Log, and the plugins, which
can call `app::get` as well. -/
structure Host (Y : YamlEntries) where
  Address : Type
  isA : Nat → Api → Bool
  asBoolOr : Y.Node → Bool → Except ServerExn Bool
  asUnsignedShort : Y.Node → Except ServerExn Nat
  asSizeOr : Y.Node → Nat → Except ServerExn Nat
  fromString : String → Except ServerExn Address
  listen : Nat → Address → Nat → Except ServerExn Unit
  bind : Nat → Address → Nat → Except ServerExn Unit
  reuseAddress : Nat → Except ServerExn Unit
  useCertificateChainFile : String → Except ServerExn Unit
  usePrivateKeyFile : String → Except ServerExn Unit
  useTmpDhFile : String → Except ServerExn Unit
  initFromStream : String → Except ServerExn Unit
  hardwareConcurrency : Nat
  createThread : Nat → Nat → Except ServerExn Unit
  plugin : Nat → String → Y.Node → BodyM Unit
  pluginIs : String → Api → Bool

namespace Host

variable {Y : YamlEntries} (H : Host Y)

def implements : AppType → Api → Bool
  | .cppLogger, api => api = .logger
  | .boostLogger, api => api = .logger
  | .boostIoService, api => api = .ioServiceProvider
  | .plugin name, api => H.pluginIs name api
  | _, _ => false

/-- `app::get<T>`. -/
def getAs (api : Api) (instanceName : String) : BodyM Nat := do
  match ← BodyM.find instanceName with
  | none => throw (.errorRuntime ("Faild to get() application with instance-name = '" ++
      cStr instanceName ++ "'"))
  | some app =>
    if H.isA app api then return app
    else throw (.errorRuntime ("Failed to call app::get< " ++ api.prettyName ++ " >(\"" ++
      cStr instanceName ++ "\")"))

def text (conf : Y.Node) (key : String) : Except ServerExn String := do
  let node ← Y.index conf key
  Y.asString node

def textOr (conf : Y.Node) (key fallback : String) : Except ServerExn String := do
  let node ← Y.index conf key
  Y.asStringOr node fallback

def flag (conf : Y.Node) (key : String) : Except ServerExn Bool := do
  let node ← Y.index conf key
  H.asBoolOr node true

def member (conf : Y.Node) (key : String) (api : Api) : BodyM Nat := do
  let name ← BodyM.ofExcept (text conf key)
  H.getAs api name

def endpoint (conf : Y.Node) : Except ServerExn (H.Address × Nat) := do
  let address ← textOr conf "listen-address" "0.0.0.0"
  let address ← H.fromString address
  let node ← Y.index conf "listen-port"
  let port ← H.asUnsignedShort node
  return (address, port)

def reuse (self : Nat) (conf : Y.Node) : Except ServerExn Unit := do
  if ← H.flag conf "reuse-address" then H.reuseAddress self

def tcpListens (self : Nat) (conf : Y.Node) : Except ServerExn Unit := do
  let (address, port) ← H.endpoint conf
  H.listen self address port

def tcpOptions (self : Nat) (conf : Y.Node) : Except ServerExn Unit := do
  H.reuse self conf
  let _nodelay ← H.flag conf "nodelay"
  return

def contextFiles (conf : Y.Node) : Except ServerExn Unit := do
  let password ← Y.index conf "password"
  if Y.isDefined password then
    let _p ← Y.asStringOr password ""
  let chain ← textOr conf "certificate-chain-file" "server.pem"
  H.useCertificateChainFile chain
  let key ← textOr conf "private-key-file" "server.pem"
  H.usePrivateKeyFile key
  let dh ← textOr conf "tmp-dh-file" "dh512.pem"
  H.useTmpDhFile dh

/-- `start` of `tcp` and `tcp_ssl`. -/
def tcpStart (fl : Flavour) (self : Nat) (conf : Y.Node) : BodyM Unit := do
  let _log ← H.member conf "logger" .logger
  let _processor ← H.member conf "processor" .connectionProcessor
  let _ioService ← H.member conf "io_service" .ioServiceProvider
  BodyM.ofExcept (H.tcpListens self conf)
  BodyM.ofExcept (H.tcpOptions self conf)
  if fl = .tcpSsl then BodyM.ofExcept (H.contextFiles conf)

def udpBinds (self : Nat) (conf : Y.Node) : Except ServerExn Unit := do
  let (address, port) ← H.endpoint conf
  H.bind self address port

/-- The check of the processor in the `start` of `udp`. -/
def derives (processor : Nat) : Except ServerExn Unit :=
  if H.isA processor .processor then return
  else throw (.std ("`processor` application for `udp_acceptor` must derive from " ++
    "cppalls::api::processor"))

def udpStart (self : Nat) (conf : Y.Node) : BodyM Unit := do
  let _log ← H.member conf "logger" .logger
  let processor ← H.member conf "processor" .connectionProcessor
  BodyM.ofExcept (H.derives processor)
  let _ioService ← H.member conf "io_service" .ioServiceProvider
  BodyM.ofExcept (H.udpBinds self conf)
  BodyM.ofExcept (H.reuse self conf)

def threadsCount (conf : Y.Node) : Except ServerExn Nat := do
  let node ← Y.index conf "threads"
  let threadCount ← H.asSizeOr node 0
  return getThreadsCount H.hardwareConcurrency threadCount

def createThreads (self threadsCount : Nat) : Except ServerExn Unit :=
  (List.range threadsCount).forM (H.createThread self)

/-- `reload` of `boost_io_service` as its `start` calls it, when there are no threads. -/
def ioServiceReload (self : Nat) (conf : Y.Node) : BodyM Unit := do
  let threadsCountNew ← BodyM.ofExcept (H.threadsCount conf)
  let _log ← H.member conf "logger" .logger
  BodyM.ofExcept (H.createThreads self threadsCountNew)

def boostLoggerStart (conf : Y.Node) : Except ServerExn Unit := do
  let tag ← Y.index conf "tag"
  if Y.isDefined tag then
    let _tag ← Y.asString tag

def start (self : Nat) : AppType → Y.Node → BodyM Unit
  | .cppLogger, conf => BodyM.ofExcept ((CppLogger.start (Y := Y.toYamlCpp) conf).on {}).1
  | .boostLoggerCore, conf =>
    BodyM.ofExcept ((BoostLoggerCore.start H.initFromStream conf).on "").1
  | .boostLogger, conf => BodyM.ofExcept (boostLoggerStart conf)
  | .boostIoService, conf => H.ioServiceReload self conf
  | .acceptor fl, conf => H.tcpStart fl self conf
  | .udpAcceptor, conf => H.udpStart self conf
  | .plugin name, conf => H.plugin self name conf

/-- What an application is given by the server: the interfaces of the instances that its node names
under these keys. -/
def wants : AppType → List (String × Api)
  | .boostIoService => [("logger", .logger)]
  | .acceptor _ => [("logger", .logger), ("processor", .connectionProcessor),
      ("io_service", .ioServiceProvider)]
  | .udpAcceptor => [("logger", .logger), ("processor", .connectionProcessor),
      ("processor", .processor), ("io_service", .ioServiceProvider)]
  | _ => []

/-- The rest of the `start` of an application. For a plugin it is all of it, with the instances that
`app::get` finds. -/
def settles (is : Instances) (self : Nat) : AppType → Y.Node → Except ServerExn Unit
  | .cppLogger, conf => ((CppLogger.start (Y := Y.toYamlCpp) conf).on {}).1
  | .boostLoggerCore, conf => ((BoostLoggerCore.start H.initFromStream conf).on "").1
  | .boostLogger, conf => boostLoggerStart conf
  | .boostIoService, conf => do
    let threadsCountNew ← H.threadsCount conf
    H.createThreads self threadsCountNew
  | .acceptor fl, conf => do
    H.tcpListens self conf
    H.tcpOptions self conf
    if fl = .tcpSsl then H.contextFiles conf
  | .udpAcceptor, conf => do
    H.udpBinds self conf
    H.reuse self conf
  | .plugin name, conf => (H.plugin self name conf).eval is

/-- Under the key of the node there is the name of an instance with the interface. -/
def Given (is : Instances) (conf : Y.Node) (want : String × Api) : Prop :=
  ∃ name app, text conf want.1 = .ok name ∧ is.lookup (cStr name) = some app ∧
    H.isA app want.2 = true

/-- What the `start` of an acceptor finds in its node when the server has these instances. -/
def tcpConf (is : Instances) (self : Nat) (conf : Y.Node) : TcpConf where
  logger := ((H.member conf "logger" .logger).eval is).isOk
  processor := ((H.member conf "processor" .connectionProcessor).eval is).toOption
  ioService := ((H.member conf "io_service" .ioServiceProvider).eval is).toOption
  listens := (H.tcpListens self conf).isOk
  options := (H.tcpOptions self conf).isOk
  contextFiles := (H.contextFiles conf).isOk

def udpConf (is : Instances) (self : Nat) (conf : Y.Node) : UdpConf where
  logger := ((H.member conf "logger" .logger).eval is).isOk
  processor := ((H.member conf "processor" .connectionProcessor).eval is).toOption
  derives := ((H.member conf "processor" .connectionProcessor).eval is >>= H.derives).isOk
  ioService := ((H.member conf "io_service" .ioServiceProvider).eval is).toOption
  binds := (H.udpBinds self conf).isOk
  options := (H.reuse self conf).isOk

variable {H} {is : Instances}

theorem getAs_eval : (H.getAs api name).eval is = .ok app ↔
    is.lookup (cStr name) = some app ∧ H.isA app api = true := by
  rw [getAs, BodyM.eval_bind_ok]
  simp only [BodyM.eval_find, Except.ok.injEq, exists_eq_left']
  cases is.lookup (cStr name) with
  | none =>
    constructor
    · intro h
      cases h
    · rintro ⟨h, _⟩
      cases h
  | some app' =>
    by_cases his : H.isA app' api = true
    · simp only [if_pos his, BodyM.eval_pure, Except.ok.injEq, Option.some.injEq]
      constructor
      · rintro rfl
        exact ⟨rfl, his⟩
      · exact And.left
    · simp only [if_neg his, BodyM.eval_throw]
      constructor
      · intro h
        cases h
      · rintro ⟨h, his'⟩
        cases h
        exact absurd his' his

theorem member_eval {conf : Y.Node} : (H.member conf key api).eval is = .ok app ↔
    ∃ name, text conf key = .ok name ∧ is.lookup (cStr name) = some app ∧
      H.isA app api = true := by
  rw [member, BodyM.eval_bind_ok]
  simp only [BodyM.eval_ofExcept, getAs_eval]

theorem given_iff {conf : Y.Node} :
    H.Given is conf (key, api) ↔ ∃ app, (H.member conf key api).eval is = .ok app := by
  simp only [Given, member_eval]
  exact exists_comm

theorem derives_ok {processor : Nat} :
    H.derives processor = .ok () ↔ H.isA processor .processor = true := by
  rw [derives]
  by_cases his : H.isA processor .processor = true
  · rw [if_pos his]
    exact ⟨fun _ => his, fun _ => rfl⟩
  · rw [if_neg his]
    constructor
    · intro h
      cases h
    · exact fun h => absurd h his

/-- The processor of a UDP acceptor has both interfaces. -/
theorem given_processors {conf : Y.Node} :
    (∃ app, (H.member conf "processor" .connectionProcessor).eval is = .ok app ∧
      H.derives app = .ok ()) ↔
    H.Given is conf ("processor", .connectionProcessor) ∧
      H.Given is conf ("processor", .processor) := by
  simp only [member_eval, derives_ok]
  constructor
  · rintro ⟨app, ⟨name, htext, hfind, hconnection⟩, hprocessor⟩
    exact ⟨⟨name, app, htext, hfind, hconnection⟩, name, app, htext, hfind, hprocessor⟩
  · rintro ⟨⟨name, app, htext, hfind, hconnection⟩, name', app', htext', hfind', hprocessor⟩
    cases htext.symm.trans htext'
    cases hfind.symm.trans hfind'
    exact ⟨app, ⟨name, htext, hfind, hconnection⟩, hprocessor⟩

/-- The `start` of an application returns exactly when the server gives it all that it wants and the
rest of its configuration is in order. -/
theorem start_eval (self : Nat) (t : AppType) (conf : Y.Node) :
    (H.start self t conf).eval is = .ok () ↔
      (∀ want ∈ wants t, H.Given is conf want) ∧ H.settles is self t conf = .ok () := by
  have hnone : ∀ want ∈ ([] : List (String × Api)), H.Given is conf want := nofun
  cases t with
  | cppLogger => exact (and_iff_right hnone).symm
  | boostLoggerCore => exact (and_iff_right hnone).symm
  | boostLogger => exact (and_iff_right hnone).symm
  | plugin name => exact (and_iff_right hnone).symm
  | boostIoService =>
    simp only [start, ioServiceReload, wants, settles, BodyM.eval_bind_ok, BodyM.eval_ofExcept,
      Except.bind_ok_iff, List.forall_mem_cons, given_iff]
    constructor
    · intro ⟨threads, hthreads, app, hlogger, hcreated⟩
      exact ⟨⟨⟨app, hlogger⟩, hnone⟩, threads, hthreads, hcreated⟩
    · intro ⟨⟨⟨app, hlogger⟩, _⟩, threads, hthreads, hcreated⟩
      exact ⟨threads, hthreads, app, hlogger, hcreated⟩
  | acceptor fl =>
    have hcontext : BodyM.eval is (if fl = .tcpSsl then BodyM.ofExcept (H.contextFiles conf)
        else pure ()) = if fl = .tcpSsl then H.contextFiles conf else pure () := by
      split
      · rfl
      · rfl
    simp only [start, tcpStart, wants, settles, BodyM.eval_bind_ok, BodyM.eval_ofExcept,
      Except.bind_ok_iff, List.forall_mem_cons, given_iff, hcontext]
    constructor
    · intro ⟨log, hlog, processor, hprocessor, ioService, hioService, hsettles⟩
      exact ⟨⟨⟨log, hlog⟩, ⟨processor, hprocessor⟩, ⟨ioService, hioService⟩, hnone⟩, hsettles⟩
    · intro ⟨⟨⟨log, hlog⟩, ⟨processor, hprocessor⟩, ⟨ioService, hioService⟩, _⟩, hsettles⟩
      exact ⟨log, hlog, processor, hprocessor, ioService, hioService, hsettles⟩
  | udpAcceptor =>
    simp only [start, udpStart, wants, settles, BodyM.eval_bind_ok, BodyM.eval_ofExcept,
      Except.bind_ok_iff, List.forall_mem_cons]
    constructor
    · intro ⟨log, hlog, processor, hprocessor, _, hderives, ioService, hioService, hsettles⟩
      obtain ⟨hconnection, hprocessor⟩ := given_processors.mp ⟨processor, hprocessor, hderives⟩
      exact ⟨⟨given_iff.mpr ⟨log, hlog⟩, hconnection, hprocessor,
        given_iff.mpr ⟨ioService, hioService⟩, hnone⟩, hsettles⟩
    · intro ⟨⟨hlog, hconnection, hprocessor, hioService, _⟩, hsettles⟩
      obtain ⟨log, hlog⟩ := given_iff.mp hlog
      obtain ⟨processor, hprocessor, hderives⟩ := given_processors.mpr ⟨hconnection, hprocessor⟩
      obtain ⟨ioService, hioService⟩ := given_iff.mp hioService
      exact ⟨log, hlog, processor, hprocessor, (), hderives, ioService, hioService, hsettles⟩

theorem settles_congr {is' : Instances} (h : ∀ name, is.lookup name = is'.lookup name)
    (self : Nat) (t : AppType) (conf : Y.Node) :
    H.settles is self t conf = H.settles is' self t conf := by
  cases t with
  | plugin name => exact BodyM.answered_congr h _
  | _ => rfl

theorem tcpConf_succeeds {conf : Y.Node} {fl : Flavour} : (H.tcpConf is self conf).Succeeds fl ↔
    (H.start self (.acceptor fl) conf).eval is = .ok () := by
  rw [start_eval]
  simp only [TcpConf.Succeeds, tcpConf, Except.isOk_iff, Except.exists_unit,
    Except.toOption_ne_none, wants, settles, List.forall_mem_cons, given_iff, Except.bind_ok_iff]
  have hcontext : ((if fl = .tcpSsl then H.contextFiles conf else pure ()) = .ok ()) ↔
      (fl = .tcpSsl → H.contextFiles conf = .ok ()) := by
    split
    · exact ⟨fun h _ => h, fun h => h ‹_›⟩
    · exact ⟨fun _ h => absurd h ‹_›, fun _ => rfl⟩
  constructor
  · rintro ⟨hlog, hprocessor, hio, hlistens, hoptions, hfiles⟩
    exact ⟨⟨hlog, hprocessor, hio, List.forall_mem_nil _⟩, (), hlistens, (), hoptions,
      hcontext.mpr hfiles⟩
  · rintro ⟨⟨hlog, hprocessor, hio, _⟩, ⟨⟩, hlistens, ⟨⟩, hoptions, hfiles⟩
    exact ⟨hlog, hprocessor, hio, hlistens, hoptions, hcontext.mp hfiles⟩

theorem udpConf_derives {conf : Y.Node} : (H.udpConf is self conf).derives = true ↔
    H.Given is conf ("processor", .connectionProcessor) ∧
      H.Given is conf ("processor", .processor) := by
  rw [udpConf, Except.isOk_iff, Except.exists_unit, Except.bind_ok_iff]
  exact given_processors

theorem udpConf_succeeds {conf : Y.Node} : (H.udpConf is self conf).Succeeds ↔
    (H.start self .udpAcceptor conf).eval is = .ok () := by
  rw [start_eval, UdpConf.Succeeds, udpConf_derives]
  simp only [udpConf, Except.isOk_iff, Except.exists_unit, Except.toOption_ne_none, wants, settles,
    List.forall_mem_cons, Except.bind_ok_iff, ← given_iff]
  constructor
  · rintro ⟨hlog, _, ⟨hconnection, hprocessor⟩, hio, hbinds, hoptions⟩
    exact ⟨⟨hlog, hconnection, hprocessor, hio, List.forall_mem_nil _⟩, (), hbinds, hoptions⟩
  · rintro ⟨⟨hlog, hconnection, hprocessor, hio, _⟩, ⟨⟩, hbinds, hoptions⟩
    exact ⟨hlog, hconnection, ⟨hconnection, hprocessor⟩, hio, hbinds, hoptions⟩

end Host

end CppAlls
