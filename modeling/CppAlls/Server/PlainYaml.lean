import CppAlls.Server.Lifecycle

namespace CppAlls
set_option autoImplicit true

inductive PlainNode where
  | undefined
  | scalar (s : String)
  | sequence (nodes : List PlainNode)
  | map (entries : List (String × PlainNode))

def PlainNode.index : PlainNode → String → Except ServerExn PlainNode
  | .undefined, _ => .error (.std "invalid node")
  | .scalar _, _ => .error (.std "operator[] call on a scalar")
  | .sequence _, _ => .ok .undefined
  | .map entries, key => .ok ((entries.lookup key).getD .undefined)

def PlainNode.type : PlainNode → Except ServerExn PlainNode
  | .undefined => .error (.std "invalid node")
  | n => .ok n

def plainYaml : YamlCpp where
  Node := PlainNode
  index := PlainNode.index
  indexMutable
    | .undefined, _ => .ok .undefined
    | n, key => n.index key
  isDefined
    | .undefined => false
    | _ => true
  isScalar n := do
    match ← n.type with
    | .scalar _ => return true
    | _ => return false
  isSequence n := do
    match ← n.type with
    | .sequence _ => return true
    | _ => return false
  asString
    | .scalar s => .ok s
    | _ => .error (.std "bad conversion")
  asStringOr
    | .scalar s, _ => .ok s
    | _, fallback => .ok fallback
  elements
    | .sequence nodes => nodes
    | .map entries => entries.map fun _ => .undefined
    | _ => []
  pushBack
    | .map entries, key, n =>
      match entries.lookup key with
      | some (.sequence nodes) =>
        .ok (.map ((key, .sequence (nodes ++ [n])) :: entries.filter (·.1 ≠ key)))
      | none => .ok (.map ((key, .sequence [n]) :: entries))
      | _ => .error (.std "appending to a non-sequence")
    | _, _, _ => .error (.std "appending to a non-sequence")

/-- A configuration file next to the core library, which exports `cpp_logger`. -/
def plainSurroundings (config : PlainNode) : Surroundings plainYaml where
  loadFile _ := .ok config
  isRelative _ := false
  parentPath p := p
  join _ q := q
  isDirectory _ := (false, false)
  isRegularFile _ := (false, false)
  members _ := ([], none)
  symbols _ := .ok ["cpp_logger"]
  thisLineLocation := "libcore.so"
  programDirectory := "."
  load _ := .ok config
  create _ _ := .ok ()
  isLogger _ := true
  start _ _ _ := .pure none
  reload _ _ := .pure none
  stop _ := .pure none
  order apps := apps
  order_perm apps := .refl apps

def loggerConfig (loggers : List PlainNode) : PlainNode :=
  .map [("core", .map [("binaries", .sequence [])]), ("applications", .sequence loggers)]

def loggerNode : PlainNode := .map [("type", .scalar "cpp_logger")]

end CppAlls
