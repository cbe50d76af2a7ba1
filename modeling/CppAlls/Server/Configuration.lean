import CppAlls.Lib.Failing
import CppAlls.Lib.Tables

namespace CppAlls
set_option autoImplicit true

open Failing Tables

/-- What a function of the server can throw. The characters of a string stand for its bytes. -/
inductive ServerExn where
  | errorRuntime (message : String)
  | std (what : String)
  | undefined
deriving DecidableEq, Repr

def ServerExn.what : ServerExn → String
  | .errorRuntime message => message
  | .std what => what
  | .undefined => ""

/-- The nodes of yaml-cpp with the operations that the server uses: `index` is the `operator[]` of
a constant node and `indexMutable` the other one, `elements` what a range-based `for` goes over,
and `pushBack n key v` is `n[key].push_back(v)`. -/
structure YamlCpp where
  Node : Type
  index : Node → String → Except ServerExn Node
  indexMutable : Node → String → Except ServerExn Node
  isDefined : Node → Bool
  isScalar : Node → Except ServerExn Bool
  isSequence : Node → Except ServerExn Bool
  asString : Node → Except ServerExn String
  asStringOr : Node → String → Except ServerExn String
  elements : Node → List Node
  pushBack : Node → String → Node → Except ServerExn Node

/-- What the server finds on disk. A test of the file system comes with its error code, and the
members of a directory with the exception that ends their enumeration. -/
structure Files (Y : YamlCpp) where
  loadFile : String → Except ServerExn Y.Node
  isRelative : String → Bool
  parentPath : String → String
  join : String → String → String
  isDirectory : String → Bool × Bool
  isRegularFile : String → Bool × Bool
  members : String → List String × Option ServerExn
  symbols : String → Except ServerExn (List String)
  thisLineLocation : String
  programDirectory : String

/-- `app_to_path_t`: the binaries of the application types. -/
abbrev AppToPath := Table String String

namespace Files

variable {Y : YamlCpp} (F : Files Y)

def resolve (configPath entry : String) : String :=
  if F.isRelative entry then F.join (F.parentPath configPath) entry else entry

/-- `is_directory(p, error) || error`. -/
def isSkipped (p : String) : Bool := (F.isDirectory p).1 || (F.isDirectory p).2

def isFile (p : String) : Bool := (F.isRegularFile p).1 && !(F.isRegularFile p).2

def directoryConfigs (p : String) : Except ServerExn (List String) :=
  if (F.isDirectory p).1 && !(F.isDirectory p).2 then
    match F.members p with
    | (ms, none) => .ok (ms.filter fun m => !F.isSkipped m)
    | (_, some e) => .error e
  else .ok []

def selectConfigs (configPath fileOrPath : String) : Except ServerExn (List String) := do
  let p := F.resolve configPath fileOrPath
  let configs ← F.directoryConfigs p
  let configs := configs ++ (if F.isFile p then [p] else [])
  return configs.mergeSort (fun a b => decide (a ≤ b))

def loadError (kind path : String) (e : ServerExn) : ServerExn :=
  .errorRuntime ("Error while loading " ++ kind ++ " '" ++ path ++ "' from directory '" ++
    F.programDirectory ++ "':\n    " ++ e.what)

def patchConfig (configToPatch anotherConf : Y.Node) : Except ServerExn Y.Node := do
  let apps ← Y.indexMutable anotherConf "applications"
  (Y.elements apps).foldlM (fun config app => Y.pushBack config "applications" app) configToPatch

/-- `read_single_config_file`, with the patched configuration as its result. -/
def readSingleConfigFile (configPath fileOrPath : String) (configToPatch : Y.Node) :
    Except ServerExn Y.Node := do
  let configs ← F.selectConfigs configPath fileOrPath
  configs.foldlM (fun config confPath =>
    (F.loadFile confPath >>= patchConfig config).mapError
      (F.loadError "dependent configuration file" confPath)) configToPatch

def readConfig (configPath : String) : Except ServerExn Y.Node := do
  let config ← (F.loadFile configPath).mapError (F.loadError "configuration file" configPath)
  let core ← Y.indexMutable config "core"
  let configs ← Y.indexMutable core "configs"
  if !Y.isDefined configs then return config
  if ← Y.isSequence configs then
    (Y.elements configs).foldlM (fun config conf => do
      let entry ← Y.asString conf
      F.readSingleConfigFile configPath entry config) config
  else do
    let entry ← Y.asString configs
    F.readSingleConfigFile configPath entry config

/-- The first binary that exports a type keeps it. -/
def emplaceAll (apps : List String) (p : String) (appToPath : AppToPath) : AppToPath :=
  apps.foldl (fun m app => m.emplace app p) appToPath

/-- A plugin that cannot be opened is only logged. -/
def searchInBinary (p : String) : FailM ServerExn AppToPath Unit :=
  match F.symbols p with
  | .ok apps => modify (emplaceAll apps p)
  | .error _ => return

def findAppsInEntry (configPath entry : String) : FailM ServerExn AppToPath Unit := do
  let p := F.resolve configPath entry
  let (ms, e) := F.members p
  ms.forM fun m => if F.isSkipped m then return else F.searchInBinary m
  if let some e := e then throw e
  if F.isFile p then F.searchInBinary p

def fillAppsToPath (configPath : String) (config : Y.Node) : FailM ServerExn AppToPath Unit := do
  let apps ← FailM.ofExcept (F.symbols F.thisLineLocation)
  modify (emplaceAll apps F.thisLineLocation)
  let core ← FailM.ofExcept (Y.index config "core")
  let bins ← FailM.ofExcept (Y.index core "binaries")
  if ← FailM.ofExcept (Y.isScalar bins) then do
    let entry ← FailM.ofExcept (Y.asString bins)
    F.findAppsInEntry configPath entry
  else if ← FailM.ofExcept (Y.isSequence bins) then
    (Y.elements bins).forM fun v => do
      let entry ← FailM.ofExcept (Y.asString v)
      F.findAppsInEntry configPath entry
  else if !Y.isDefined bins then F.findAppsInEntry configPath "./apps/"
  else throw (.errorRuntime ("Invalid configuration for `core: binaries:` section. Binaries must " ++
    "be a sinle path to binaries or a sequence of paths [path1, path2]"))

/-- The map that `reload` fills. -/
def newAppToPath (configPath : String) (config : Y.Node) : Except ServerExn AppToPath :=
  match (F.fillAppsToPath configPath config).on ∅ with
  | (.ok _, m) => .ok m
  | (.error e, _) => .error e

/-- The application nodes of the configuration that the server reads. -/
def configuredApps (configPath : String) : Except ServerExn (List Y.Node) := do
  let config ← F.readConfig configPath
  let apps ← Y.index config "applications"
  return Y.elements apps

end Files

end CppAlls
