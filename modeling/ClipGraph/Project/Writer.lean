import ClipGraph.Json.Fault
import ClipGraph.Project

/-!
# Projects as JSON

The members of every object are written in one fixed order. A node starts with its kind, and a hint
that is absent is left out.
-/

namespace ClipGraph

namespace Json

def word (n : UInt32) : Json := .number (.integer n.toNat)

end Json

def Param.toJson : Param → Json
  | .bool b => .bool b
  | .int n => .number (.integer n.toInt)
  | .float x => .number (.float x)
  | .text s => .string s

def Argument.toJson (a : Argument) : Json :=
  .object [("name", .string a.name), ("value", a.value.toJson)]

/-- The object of a node. A source path that is no text has none. -/
def Node.toJson : Node → Except Json.Fault Json
  | .source n =>
    match n.path.text? with
    | none => .error .pathNotText
    | some path =>
      let hint := match n.hint with
        | some hint => [("source_plugin_hint", Json.string hint)]
        | none => []
      .ok (.object ([("type", .string "source"), ("file_path", .string path)] ++ hint))
  | .filter n =>
    .ok (.object [("type", .string "filter"), ("display_name", .string n.displayName),
      ("plugin_namespace", .string n.plugin), ("function_name", .string n.function),
      ("parameters", .array (n.arguments.map Argument.toJson))])
  | .output n => .ok (.object [("type", .string "output"), ("output_index", .word n.slot)])

def NodeId.toJson (id : NodeId) : Json := .word id.val

def Connector.toJson (c : Connector) : Json := .word c.word

def Connection.toJson (c : Connection) : Json :=
  .object [("source", c.source.toJson), ("target", c.target.toJson)]

def Link.toJson (l : Link) : Json :=
  .object [("from", l.producer.toJson), ("to", l.consumer.toJson)]

def Graph.toJson (g : Graph) : Except Json.Fault Json := do
  let nodes ← g.nodes.toList.mapM Node.toJson
  return .object [("nodes", .array nodes),
    ("connections", .array (g.connections.toList.map Connection.toJson))]

def Project.toJson (p : Project) : Except Json.Fault Json := do
  let nodes ← p.nodes.mapM Node.toJson
  return .object [("version", .word p.version), ("name", .string p.name), ("nodes", .array nodes),
    ("connections", .array (p.links.map Link.toJson))]

def Project.write (p : Project) : Except Json.Fault String :=
  p.toJson.map fun json => .ofList (json.pretty 0)

end ClipGraph
