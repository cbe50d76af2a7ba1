import CppAlls.Lib.Interaction
import CppAlls.Lib.Machine
import CppAlls.Server.Configuration

namespace CppAlls
set_option autoImplicit true

open Failing Tables Interaction Machines

/-- `instances_t`, with the applications numbered in the order of their construction. -/
abbrev Instances := Table String Nat

inductive Log where
  | delayedLogger
  | cppLogger
  | application (app : Nat)
deriving DecidableEq, Repr

inductive LifecycleCall where
  | start
  | reload
  | stop
deriving DecidableEq, Repr

structure LifecycleRecord where
  application : Nat
  call : LifecycleCall
  returned : Bool
deriving DecidableEq, Repr

/-- `server_impl_t`, with history variables: the types of the applications constructed so far, the
lifecycle calls that they received, and the instances that they resolved through `app::get`. -/
structure Server where
  appToPath : AppToPath := ∅
  instances : Instances := ∅
  configPath : String := ""
  log : Log := .delayedLogger
  objects : List String := []
  calls : List LifecycleRecord := []
  resolved : List (Nat × Nat) := []

abbrev ServerM := FailM ServerExn Server

/-- The body of a lifecycle function: it calls `app::get`, and may end with an exception. -/
abbrev AppBody := Prog String (fun _ => Option Nat) (Option ServerExn)

/-- What a call of the server meets: files, libraries, applications, and the order in which an
`unordered_map` is enumerated. -/
structure Surroundings (Y : YamlCpp) extends Files Y where
  load : String → Except ServerExn Y.Node
  create : String → String → Except ServerExn Unit
  isLogger : String → Bool
  start : Nat → String → Y.Node → AppBody
  reload : Nat → Y.Node → AppBody
  stop : Nat → AppBody
  order : List Nat → List Nat
  order_perm : ∀ apps, (order apps).Perm apps

theorem Surroundings.mem_order {Y : YamlCpp} (E : Surroundings Y) {is : Instances} :
    app ∈ E.order is.values ↔ ∃ name, is.lookup name = some app :=
  (E.order_perm is.values).mem_iff.trans Table.mem_values

theorem Surroundings.forall_order {Y : YamlCpp} (E : Surroundings Y) {is : Instances}
    {P : Nat → Prop} :
    (∀ app ∈ E.order is.values, P app) ↔ ∀ name app, is.lookup name = some app → P app := by
  constructor
  · exact fun h name app hn => h app (E.mem_order.mpr ⟨name, hn⟩)
  · intro h app happ
    obtain ⟨name, hn⟩ := E.mem_order.mp happ
    exact h name app hn

/-- The characters that a `const char*` into a string is read for. -/
def cStr (s : String) : String := String.ofList (s.toList.takeWhile (· ≠ '\x00'))

namespace Server

def find (s : Server) (instanceName : String) : Option Nat := s.instances.lookup (cStr instanceName)

/-- `app::get`. -/
def getInstance (instanceName : String) : ServerM Nat := do
  let s ← get
  match s.find instanceName with
  | some app => return app
  | none => throw (.errorRuntime ("Faild to get() application with instance-name = '" ++
      cStr instanceName ++ "'"))

def getLogger (isLogger : String → Bool) (instanceName : String) : ServerM Nat := do
  let app ← getInstance instanceName
  let s ← get
  if (s.objects[app]?).any isLogger then return app
  else throw (.errorRuntime ("Failed to call app::get< cppalls::api::logger >(\"" ++
    cStr instanceName ++ "\")"))

def resolve (self : Nat) (instanceName : String) : ServerM (Option Nat) := do
  let s ← get
  set { s with resolved := s.resolved ++ ((s.find instanceName).map (Prod.mk self)).toList }
  return s.find instanceName

def lifecycle (self : Nat) (call : LifecycleCall) (body : AppBody) : ServerM Unit := do
  let e ← body.interp (resolve self)
  modify fun s => { s with calls := s.calls ++ [⟨self, call, e.isNone⟩] }
  match e with
  | none => return
  | some e => throw e

variable {Y : YamlCpp} (E : Surroundings Y)

/-- `node["instance-name"].as<std::string>(appType)`. -/
def instanceNameOr (appNode : Y.Node) (appType : String) : Except ServerExn String := do
  let name ← Y.index appNode "instance-name"
  Y.asStringOr name appType

def typeOf (appNode : Y.Node) : Except ServerExn String := do
  let type ← Y.index appNode "type"
  Y.asString type

/-- The part of `start_instance` behind the search for the binary. -/
def startInstanceFrom (path appType : String) (appNode : Y.Node) (instances : Instances) :
    ServerM (Instances × Nat) := do
  FailM.ofExcept (E.create path appType)
  let s ← get
  let sharedApp := s.objects.length
  set { s with objects := s.objects ++ [appType] }
  -- the name is part of a debug message first
  let _ ← FailM.ofExcept (instanceNameOr appNode appType)
  lifecycle sharedApp .start (E.start sharedApp appType appNode)
  let instanceName ← FailM.ofExcept (instanceNameOr appNode appType)
  if instanceName ∈ instances then
    throw (.errorRuntime ("Instance with name '" ++ instanceName ++ "' already exist."))
  return (instances.emplace instanceName sharedApp, sharedApp)

/-- `start_instance`, with the instances it was given and the new one as its result. -/
def startInstance (appNode : Y.Node) (appToPath : AppToPath) (instances : Instances) :
    ServerM (Instances × Nat) := do
  let appType ← FailM.ofExcept (typeOf appNode)
  match appToPath.lookup appType with
  | none => throw (.errorRuntime ("Failed to find binary that contains application of type '" ++
      appType ++ "'"))
  | some path => startInstanceFrom E path appType appNode instances

/-- `init_logger` up to the choice of the logger. Which records it then takes over from the delayed
logger, and that it can throw as it does, is in `Logged.initLogger`. -/
def initLogger (config : Y.Node) : ServerM Unit := do
  let core ← FailM.ofExcept (Y.index config "core")
  let logger ← FailM.ofExcept (Y.index core "logger")
  if Y.isDefined logger then do
    let name ← FailM.ofExcept (Y.asString logger)
    let app ← getLogger E.isLogger name
    modify fun s => { s with log := .application app }
  else modify fun s => { s with log := .cppLogger }

def instanceConstruct (config : String) : ServerM Nat := do
  let appNode ← FailM.ofExcept (E.load (cStr config))
  let s ← get
  let (instances, app) ← startInstance E appNode s.appToPath s.instances
  modify fun s => { s with instances := instances }
  return app

def instanceFree (instanceName : String) : ServerM Unit :=
  modify fun s => { s with instances := s.instances.erase (cStr instanceName) }

def startApps : List Y.Node → ServerM Unit
  | [] => return
  | appNode :: appNodes => do
    let s ← get
    let (instances, _) ← startInstance E appNode s.appToPath s.instances
    modify fun s => { s with instances := instances }
    startApps appNodes

def start (pathToConfig : String) : ServerM Unit := do
  modify fun s => { s with configPath := pathToConfig }
  let config ← FailM.ofExcept (E.readConfig pathToConfig)
  (E.fillAppsToPath pathToConfig config).part (fun s => s.appToPath)
    (fun s m => { s with appToPath := m })
  let apps ← FailM.ofExcept (Y.index config "applications")
  startApps E (Y.elements apps)
  initLogger E config

def stopApps : List Nat → ServerM Unit
  | [] => return
  | app :: apps => do
    lifecycle app .stop (E.stop app)
    stopApps apps

def stop : ServerM Unit := do
  let s ← get
  stopApps E (E.order s.instances.values)
  modify fun s => { s with instances := ∅, appToPath := ∅ }

/-- The name under which `reload` looks for an instance. -/
def instanceName (appNode : Y.Node) : Except ServerExn String := do
  let name ← Y.index appNode "instance-name"
  if Y.isDefined name then Y.asString name else typeOf appNode

/-- One round of the loop of `reload`: the new instances with the one of the node. -/
def reloadApp (newAppToPath : AppToPath) (newInstances : Instances) (appNode : Y.Node) :
    ServerM Instances := do
  let name ← FailM.ofExcept (instanceName appNode)
  let s ← get
  match s.instances.lookup name with
  | some app => do
    lifecycle app .reload (E.reload app appNode)
    return newInstances.emplace name app
  | none => do
    let (newInstances, _) ← startInstance E appNode newAppToPath newInstances
    match newInstances.lookup name with
    | some app => do
      modify fun s => { s with instances := s.instances.emplace name app }
      return newInstances
    -- the iterator of a name that is not there is dereferenced
    | none => throw .undefined

def reloadApps (newAppToPath : AppToPath) (newInstances : Instances) :
    List Y.Node → ServerM Instances
  | [] => return newInstances
  | appNode :: appNodes => do
    let newInstances ← reloadApp E newAppToPath newInstances appNode
    reloadApps newAppToPath newInstances appNodes

def checkBinaries (newAppToPath : AppToPath) : ServerM Unit := do
  let s ← get
  if s.appToPath.entries ≠ [] ∧ newAppToPath.toFinmap ≠ s.appToPath.toFinmap then
    throw (.errorRuntime
      "Currently server does not support reload() on changed application binaries")

def reload : ServerM Unit := do
  let s ← get
  let config ← FailM.ofExcept (E.readConfig s.configPath)
  let newAppToPath ← FailM.ofExcept (E.newAppToPath s.configPath config)
  checkBinaries newAppToPath
  let apps ← FailM.ofExcept (Y.index config "applications")
  let newInstances ← reloadApps E newAppToPath ∅ (Y.elements apps)
  let s ← get
  stopApps E (E.order s.instances.values)
  modify fun s => { s with instances := newInstances, appToPath := newAppToPath }
  initLogger E config

/-- `reload(path_to_config)`, or `reload()` without a path. -/
def reloadFrom (pathToConfig : Option String) : ServerM Unit := do
  modify fun s => { s with configPath := pathToConfig.getD s.configPath }
  reload E

end Server

/-- The calls that the owner of the server makes. -/
inductive ServerInput (Y : YamlCpp) where
  | start (E : Surroundings Y) (pathToConfig : String)
  | stop (E : Surroundings Y)
  | reload (E : Surroundings Y) (pathToConfig : Option String)
  | construct (E : Surroundings Y) (config : String)
  | free (instanceName : String)

/-- The state after the call, whether it returns or throws. -/
def ServerInput.next (s : Server) : ServerInput Y → Server
  | .start E path => ((Server.start E path).on s).2
  | .stop E => ((Server.stop E).on s).2
  | .reload E path => ((Server.reloadFrom E path).on s).2
  | .construct E config => ((Server.instanceConstruct E config).on s).2
  | .free name => ((Server.instanceFree name).on s).2

def serverMachine (Y : YamlCpp) : Machine Server (ServerInput Y) where
  init := {}
  Enabled _ _ := True
  next s i := i.next s

end CppAlls
