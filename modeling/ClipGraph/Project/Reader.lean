import ClipGraph.Json.Reader
import ClipGraph.Project

/-!
# Projects from JSON

A node is kept whole before it is read, because its kind may stand behind the fields that the kind
calls for: while its text is gone through only the kind itself is checked, and its fields follow
when the text has ended. Everything else is read as it comes. Every record may also be an array of
its fields.
-/

namespace ClipGraph.Project

open Json (Partial Fault Reader)

/-- A parameter value by its kind: a truth value, an integer of 64 bits, any other number, a text. -/
def readParam (depth : Nat) : Reader Param := fun v =>
  match v.value? depth with
  | none => .error .malformed
  | some (.bool b) => .ok (.bool b)
  | some (.number (.integer n)) =>
    if n < Nat.pow 2 63 then .ok (.int (Int64.ofInt n))
    else .ok (.float (Decimal.toBinary64 false ⟨n.toNat, 0⟩))
  | some (.number (.float x)) => .ok (.float x)
  | some (.string s) => .ok (.text s)
  | some _ => .error (.noVariant "ParamValue")

def readArgument (kept : Bool) (depth : Nat) : Reader Argument := fun v => do
  let (name, value) ← Reader.pair kept "Parameter" "name" "value" Reader.text
    (readParam (depth - 1)) v
  return ⟨name, value⟩

def kinds : List (String × NodeKind) :=
  [NodeKind.source, .filter, .output].map fun kind => (kind.tag, kind)

def readTag : Reader NodeKind := fun v => do
  let tag ← Reader.textOr "variant identifier" v
  match kinds.lookup tag with
  | some kind => return kind
  | none => .error (.unknownVariant tag (kinds.map Prod.fst))

def readPath : Reader FilePath := fun v => (Reader.textOr "path string" v).map .ofText

/-- The fields of a source met so far. -/
structure SourceFields where
  path : Option FilePath
  hint : Option (Option String)

def readSourceFields (members : List (Option String × Partial)) : Except Fault SourceNode := do
  let take (s : SourceFields) (key : String) (v : Partial) :
      Except Fault (Option SourceFields) :=
    if key = "file_path" then
      (Reader.once key s.path (readPath v)).map fun path => some { s with path }
    else if key = "source_plugin_hint" then
      (Reader.once key s.hint (Reader.textOrNull v)).map fun hint => some { s with hint }
    else .ok none
  let s ← Reader.foldMembers take ⟨none, none⟩ members
  return ⟨← Reader.require "file_path" s.path, s.hint.getD none⟩

def readSourceItems : List Partial → Except Fault SourceNode
  | [] => Reader.tooShort "SourceNode" 2 0
  | [path] => do return ⟨← readPath path, none⟩
  | path :: hint :: rest => do
    let path ← readPath path
    let hint ← Reader.textOrNull hint
    if rest.isEmpty then return ⟨path, hint⟩ else Reader.tooLong true 2 (rest.length + 2)

structure FilterFields where
  displayName : Option String
  plugin : Option String
  function : Option String
  arguments : Option (List Argument)

/-- The arguments of a filter, in a list that may itself be nested `depth` deep. -/
def readArguments (depth : Nat) : Reader (List Argument) :=
  Reader.listOf (readArgument true (depth - 1))

def readFilterFields (depth : Nat) (members : List (Option String × Partial)) :
    Except Fault FilterNode := do
  let take (s : FilterFields) (key : String) (v : Partial) :
      Except Fault (Option FilterFields) :=
    if key = "display_name" then
      (Reader.once key s.displayName (Reader.text v)).map fun displayName =>
        some { s with displayName }
    else if key = "plugin_namespace" then
      (Reader.once key s.plugin (Reader.text v)).map fun plugin => some { s with plugin }
    else if key = "function_name" then
      (Reader.once key s.function (Reader.text v)).map fun function => some { s with function }
    else if key = "parameters" then
      (Reader.once key s.arguments (readArguments depth v)).map fun arguments =>
        some { s with arguments }
    else .ok none
  let s ← Reader.foldMembers take ⟨none, none, none, none⟩ members
  let displayName ← Reader.require "display_name" s.displayName
  let plugin ← Reader.require "plugin_namespace" s.plugin
  let function ← Reader.require "function_name" s.function
  return ⟨displayName, plugin, function, s.arguments.getD []⟩

def readFilterItems (depth : Nat) : List Partial → Except Fault FilterNode
  | [] => Reader.tooShort "FilterNode" 4 0
  | [displayName] => do
    let _ ← Reader.text displayName
    Reader.tooShort "FilterNode" 4 1
  | [displayName, plugin] => do
    let _ ← Reader.text displayName
    let _ ← Reader.text plugin
    Reader.tooShort "FilterNode" 4 2
  | [displayName, plugin, function] => do
    return ⟨← Reader.text displayName, ← Reader.text plugin, ← Reader.text function, []⟩
  | displayName :: plugin :: function :: arguments :: rest => do
    let displayName ← Reader.text displayName
    let plugin ← Reader.text plugin
    let function ← Reader.text function
    let arguments ← readArguments depth arguments
    if rest.isEmpty then return ⟨displayName, plugin, function, arguments⟩
    else Reader.tooLong true 4 (rest.length + 4)

def readOutputFields (members : List (Option String × Partial)) : Except Fault OutputNode := do
  let take (slot : Option UInt32) (key : String) (v : Partial) :
      Except Fault (Option (Option UInt32)) :=
    if key = "output_index" then (Reader.once key slot (Reader.word v)).map some else .ok none
  let slot ← Reader.foldMembers take none members
  return ⟨← Reader.require "output_index" slot⟩

def readOutputItems : List Partial → Except Fault OutputNode
  | [] => Reader.tooShort "OutputNode" 1 0
  | slot :: rest => do
    let slot ← Reader.word slot
    if rest.isEmpty then return ⟨slot⟩ else Reader.tooLong true 1 (rest.length + 1)

/-- Goes through the members of a node: the kind is read where it stands, and the other members have
to be values. -/
def splitTag (depth : Nat) : Option NodeKind → List (Option String × Partial) →
    Except Fault (Option NodeKind × List (Option String × Partial))
  | kind, [] => .ok (kind, [])
  | _, (none, _) :: _ => .error .malformed
  | kind, (some key, v) :: rest =>
    if key = "type" then do
      let kind ← Reader.once key kind (readTag v)
      splitTag depth kind rest
    else if (v.value? depth).isNone then .error .malformed
    else do
      let (kind, others) ← splitTag depth kind rest
      return (kind, (some key, v) :: others)

/-- A node whose containers, itself included, are nested no deeper than `depth`. -/
def readNode (depth : Nat) : Reader Node
  | .object members => do
    if depth = 0 then .error .malformed
    let (kind, members) ← splitTag (depth - 1) none members
    match ← Reader.require "type" kind with
    | .source => return .source (← readSourceFields members)
    | .filter => return .filter (← readFilterFields (depth - 1) members)
    | .output => return .output (← readOutputFields members)
  | .array items => do
    if depth = 0 then .error .malformed
    match items with
    | [] => .error (.missingField "type")
    | tag :: items =>
      let kind ← readTag tag
      if items.any fun v => (v.value? (depth - 1)).isNone then .error .malformed
      match kind with
      | .source => return .source (← readSourceItems items)
      | .filter => return .filter (← readFilterItems (depth - 1) items)
      | .output => return .output (← readOutputItems items)
  | v => Reader.mismatch "internally tagged enum Node" v

def readNodeId : Reader NodeId := fun v => (Reader.word v).map NodeId.mk

def readConnectionId : Reader ConnectionId := fun v => (Reader.word v).map ConnectionId.mk

def readConnector : Reader Connector := fun v => (Reader.word v).map Connector.mk

def readConnection : Reader Connection := fun v => do
  let (source, target) ← Reader.pair false "Connection" "source" "target" readConnector
    readConnector v
  return ⟨source, target⟩

def readLink : Reader Link := fun v => do
  let (producer, consumer) ← Reader.pair false "ConnectionDef" "from" "to" readNodeId readNodeId v
  return ⟨producer, consumer⟩

def readKind : Reader NodeKind := Reader.choice kinds

def readDirection : Reader Direction :=
  Reader.choice ([Direction.input, .output].map fun d => (d.text, d))

/-- The nodes of a project. Two containers lie around each of them. -/
def readNodes : Reader (List Node) := Reader.listOf (readNode (Json.depthLimit - 2))

structure Fields where
  version : Option UInt32
  name : Option String
  nodes : Option (List Node)
  links : Option (List Link)

/-- The project with these fields. What is missing takes its default. -/
def ofFields (s : Fields) : Project :=
  ⟨s.version.getD currentVersion, s.name.getD "", s.nodes.getD [], s.links.getD []⟩

def takeField (s : Fields) (key : String) (v : Partial) : Except Fault (Option Fields) :=
  if key = "version" then
    (Reader.once key s.version (Reader.word v)).map fun version => some { s with version }
  else if key = "name" then
    (Reader.once key s.name (Reader.text v)).map fun name => some { s with name }
  else if key = "nodes" then
    (Reader.once key s.nodes (readNodes v)).map fun nodes => some { s with nodes }
  else if key = "connections" then
    (Reader.once key s.links (Reader.listOf readLink v)).map fun links => some { s with links }
  else .ok none

/-- The first items of an array, each under the key it stands for. -/
def readItems (s : Fields) : List String → List Partial → Except Fault Fields
  | _, [] => .ok s
  | [], _ :: _ => .error .malformed
  | key :: keys, v :: rest => do
    match ← takeField s key v with
    | some s => readItems s keys rest
    | none => .error .malformed

def reader : Reader Project
  | .object members => (Reader.foldMembers takeField ⟨none, none, none, none⟩ members).map ofFields
  | .array items =>
    (readItems ⟨none, none, none, none⟩ ["version", "name", "nodes", "connections"] items).map
      ofFields
  | v => Reader.mismatch "struct ProjectFile" v

end ClipGraph.Project
