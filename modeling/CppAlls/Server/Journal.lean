import CppAlls.Lib.Recording
import CppAlls.Server.Loggers

namespace CppAlls
set_option autoImplicit true

open Failing Tables Machines Recording

/-- The messages of the server. -/
inductive Message where
  | failedOpening (path what : String)
  | starting (appType name : String)
  | reloading (instanceName : String)
  | resulting (config : String)
deriving DecidableEq, Repr

/-- A path as `operator<<` writes it. -/
def quotedPath (p : String) : String :=
  "\"" ++ String.ofList (p.toList.flatMap fun c => if c = '\x22' ∨ c = '&' then ['&', c] else [c]) ++
    "\""

namespace Message

def lvl : Message → SeverityLevel
  | .failedOpening .. => .info
  | _ => .debug

def text : Message → String
  | .failedOpening path what => "Failed opening plugin `" ++ quotedPath path ++ "`: " ++ what
  | .starting appType name => "Starting '" ++ appType ++ "' with name '" ++ name ++ "'\n"
  | .reloading instanceName => "Reloading application instance '" ++ instanceName ++ "'\n"
  | .resulting config => "Resulting confilg file is following:\n" ++ config

def record (m : Message) : LogRecord := (m.lvl, cStr m.text)

end Message

/-- The loggers that a call of the server meets: how `log` of an application ends, which can depend
on the calls that it has had before, and how a node is written to a stream. -/
structure Loggers (Y : YamlCpp) where
  log : Nat → List LogRecord → LogRecord → Option ServerExn
  dump : Y.Node → String

/-- No application throws when it logs. -/
def Loggers.Accepts (L : Loggers Y) : Prop := ∀ app calls r, L.log app calls r = none

/-- What the delayed logger holds, and the calls of `log` that the other loggers have had. All
messages of the server are a history variable. -/
structure Journal where
  records : List LogRecord := []
  received : List (Log × LogRecord) := []
  logged : List Message := []
deriving DecidableEq, Repr

namespace Journal

variable {Y : YamlCpp} (L : Loggers Y)

def callsOf (j : Journal) (app : Nat) : List LogRecord :=
  (j.received.filter fun x => x.1 = .application app).map Prod.snd

def log (l : Log) (r : LogRecord) (j : Journal) : Option ServerExn × Journal :=
  match l with
  | .delayedLogger => (none, { j with records := j.records ++ [r] })
  | .cppLogger => (none, { j with received := j.received ++ [(l, r)] })
  | .application app => (L.log app (j.callsOf app) r, { j with received := j.received ++ [(l, r)] })

/-- A message goes to the logger when its stream is destroyed, which lets no exception out. -/
def stream (l : Log) (m : Message) (j : Journal) : Journal :=
  let j := { j with logged := j.logged ++ [m] }
  if m.text = "" then j else (j.log L l m.record).2

def logEach (l : Log) : List LogRecord → Journal → Option ServerExn × Journal
  | [], j => (none, j)
  | r :: rs, j =>
    match j.log L l r with
    | (none, j) => j.logEach l rs
    | (some e, j) => (some e, j)

/-- `delayed_logger::reset`: the records are left when a call throws. -/
def reset (l : Log) (j : Journal) : Option ServerExn × Journal :=
  match j.logEach L l j.records with
  | (none, j) => (none, { j with records := [] })
  | (some e, j) => (some e, j)

/-- `~delayed_logger()`. -/
def destroyDelayed (j : Journal) : Journal := { (j.reset L .cppLogger).2 with records := [] }

end Journal

namespace Logged

variable {Y : YamlCpp} (E : Surroundings Y) (L : Loggers Y)

abbrev SearchM := FailM ServerExn (AppToPath × Journal)

abbrev LoggedM := FailM ServerExn (Server × Journal)

section Search

variable (l : Log)

def searchInBinary (p : String) : SearchM Unit :=
  match E.symbols p with
  | .ok apps => beside (modify (Files.emplaceAll apps p))
  | .error e => note fun _ => Journal.stream L l (.failedOpening p e.what)

def findAppsInEntry (configPath entry : String) : SearchM Unit := do
  let p := E.resolve configPath entry
  let (ms, e) := E.members p
  ms.forM fun m => if E.isSkipped m then return else searchInBinary E L l m
  if let some e := e then throw e
  if E.isFile p then searchInBinary E L l p

def fillAppsToPath (configPath : String) (config : Y.Node) : SearchM Unit := do
  let apps ← FailM.ofExcept (E.symbols E.thisLineLocation)
  beside (modify (Files.emplaceAll apps E.thisLineLocation))
  let core ← FailM.ofExcept (Y.index config "core")
  let bins ← FailM.ofExcept (Y.index core "binaries")
  if ← FailM.ofExcept (Y.isScalar bins) then do
    let entry ← FailM.ofExcept (Y.asString bins)
    findAppsInEntry E L l configPath entry
  else if ← FailM.ofExcept (Y.isSequence bins) then
    (Y.elements bins).forM fun v => do
      let entry ← FailM.ofExcept (Y.asString v)
      findAppsInEntry E L l configPath entry
  else if !Y.isDefined bins then findAppsInEntry E L l configPath "./apps/"
  else throw (.errorRuntime ("Invalid configuration for `core: binaries:` section. Binaries must " ++
    "be a sinle path to binaries or a sequence of paths [path1, path2]"))

end Search

/-- `LDEBUG(log_) << …`. -/
def say (m : Message) : LoggedM Unit := note fun s => Journal.stream L s.log m

def startInstanceFrom (path appType : String) (appNode : Y.Node) (instances : Instances) :
    LoggedM (Instances × Nat) := do
  FailM.ofExcept (E.create path appType)
  let s ← beside get
  let sharedApp := s.objects.length
  beside (set { s with objects := s.objects ++ [appType] })
  let name ← FailM.ofExcept (Server.instanceNameOr appNode appType)
  say L (.starting appType name)
  beside (Server.lifecycle sharedApp .start (E.start sharedApp appType appNode))
  let instanceName ← FailM.ofExcept (Server.instanceNameOr appNode appType)
  if instanceName ∈ instances then
    throw (.errorRuntime ("Instance with name '" ++ instanceName ++ "' already exist."))
  return (instances.emplace instanceName sharedApp, sharedApp)

def startInstance (appNode : Y.Node) (appToPath : AppToPath) (instances : Instances) :
    LoggedM (Instances × Nat) := do
  let appType ← FailM.ofExcept (Server.typeOf appNode)
  match appToPath.lookup appType with
  | none => throw (.errorRuntime ("Failed to find binary that contains application of type '" ++
      appType ++ "'"))
  | some path => startInstanceFrom E L path appType appNode instances

/-- The records go to the new logger, and to `std::cerr` when that throws: the old logger is
destroyed in any case. -/
def takeOver : LoggedM Unit := do
  let (s, j) ← get
  let (e, j) := j.reset L s.log
  set (s, j.destroyDelayed L)
  if let some e := e then throw e

def initLogger (config : Y.Node) : LoggedM Unit := do
  let old ← beside get
  beside (Server.initLogger E config)
  if old.log = .delayedLogger then takeOver L

def instanceConstruct (config : String) : LoggedM Nat := do
  let appNode ← FailM.ofExcept (E.load (cStr config))
  let s ← beside get
  let (instances, app) ← startInstance E L appNode s.appToPath s.instances
  beside (modify fun s => { s with instances := instances })
  return app

def startApps : List Y.Node → LoggedM Unit
  | [] => return
  | appNode :: appNodes => do
    let s ← beside get
    let (instances, _) ← startInstance E L appNode s.appToPath s.instances
    beside (modify fun s => { s with instances := instances })
    startApps appNodes

def start (pathToConfig : String) : LoggedM Unit := do
  beside (modify fun s => { s with configPath := pathToConfig })
  let config ← FailM.ofExcept (E.readConfig pathToConfig)
  let s ← beside get
  (fillAppsToPath E L s.log pathToConfig config).part (fun x => (x.1.appToPath, x.2))
    (fun x y => ({ x.1 with appToPath := y.1 }, y.2))
  let apps ← FailM.ofExcept (Y.index config "applications")
  startApps E L (Y.elements apps)
  initLogger E L config

def reloadApp (newAppToPath : AppToPath) (newInstances : Instances) (appNode : Y.Node) :
    LoggedM Instances := do
  let name ← FailM.ofExcept (Server.instanceName appNode)
  let s ← beside get
  match s.instances.lookup name with
  | some app => do
    say L (.reloading name)
    beside (Server.lifecycle app .reload (E.reload app appNode))
    return newInstances.emplace name app
  | none => do
    let (newInstances, _) ← startInstance E L appNode newAppToPath newInstances
    match newInstances.lookup name with
    | some app => do
      beside (modify fun s => { s with instances := s.instances.emplace name app })
      return newInstances
    | none => throw .undefined

def reloadApps (newAppToPath : AppToPath) (newInstances : Instances) :
    List Y.Node → LoggedM Instances
  | [] => return newInstances
  | appNode :: appNodes => do
    let newInstances ← reloadApp E L newAppToPath newInstances appNode
    reloadApps newAppToPath newInstances appNodes

/-- The search of `reload`, which fills a map of its own. -/
def newAppToPath (configPath : String) (config : Y.Node) : LoggedM AppToPath := do
  let (s, j) ← get
  let (r, m, j) := (fillAppsToPath E L s.log configPath config).on (∅, j)
  set (s, j)
  FailM.ofExcept r
  return m

def reload : LoggedM Unit := do
  let s ← beside get
  let config ← FailM.ofExcept (E.readConfig s.configPath)
  let m ← newAppToPath E L s.configPath config
  beside (Server.checkBinaries m)
  let apps ← FailM.ofExcept (Y.index config "applications")
  let newInstances ← reloadApps E L m ∅ (Y.elements apps)
  let s ← beside get
  beside (Server.stopApps E (E.order s.instances.values))
  beside (modify fun s => { s with instances := newInstances, appToPath := m })
  initLogger E L config
  say L (.resulting (L.dump config))

def reloadFrom (pathToConfig : Option String) : LoggedM Unit := do
  beside (modify fun s => { s with configPath := pathToConfig.getD s.configPath })
  reload E L

/-- `~server_impl_t()`: an exception of `stop` ends the program, and otherwise the logger goes. -/
def destroyServer (x : Server × Journal) : Option Journal :=
  match (Server.stop E).on x.1 with
  | (.ok _, s) => some (if s.log = .delayedLogger then x.2.destroyDelayed L else x.2)
  | (.error _, _) => none

end Logged

structure LoggedInput (Y : YamlCpp) where
  input : ServerInput Y
  loggers : Loggers Y

namespace LoggedInput

def run (i : LoggedInput Y) : Logged.LoggedM Unit :=
  match i.input with
  | .start E path => Logged.start E i.loggers path
  | .stop E => beside (Server.stop E)
  | .reload E path => Logged.reloadFrom E i.loggers path
  | .construct E config => do
    let _ ← Logged.instanceConstruct E i.loggers config
  | .free name => beside (Server.instanceFree name)

end LoggedInput

def loggedMachine (Y : YamlCpp) : Machine (Server × Journal) (LoggedInput Y) where
  init := ({}, {})
  Enabled _ _ := True
  next x i := (i.run.on x).2

end CppAlls
