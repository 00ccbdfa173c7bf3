import ClipGraph.Connector
import ClipGraph.FilePath
import ClipGraph.Number.Binary64

/-!
# Nodes

A source reads a media file, a filter calls a plugin function on the clip it receives, and an output
binds a clip to a numbered slot. The kind of a node alone decides its ports.

Plugin, function and parameter names are written into the script as they stand, so each has to be
one word of the script language and none of its reserved words. The value of a parameter is a truth
value, a signed word, a double or a text, and nothing checks it against the plugin that will receive
it.
-/

namespace ClipGraph

namespace Identifier

def reservedWords : List String :=
  ["False", "None", "True", "and", "as", "assert", "async", "await", "break", "class",
    "continue", "def", "del", "elif", "else", "except", "finally", "for", "from", "global",
    "if", "import", "in", "is", "lambda", "nonlocal", "not", "or", "pass", "raise", "return",
    "try", "while", "with", "yield"]

def isHead (c : Char) : Bool := c.isAlpha || c == '_'

def isTail (c : Char) : Bool := c.isAlphanum || c == '_'

/-- Whether the characters are those of a word, reserved or not. -/
def isWord : List Char → Bool
  | [] => false
  | c :: rest => isHead c && rest.all isTail

end Identifier

/-- Whether a text may stand in a script as a name. -/
def isIdentifier (s : String) : Bool :=
  Identifier.isWord s.toList && !Identifier.reservedWords.contains s

inductive Param where
  | bool (b : Bool)
  | int (n : Int64)
  | float (x : Binary64)
  | text (s : String)
  deriving DecidableEq, Repr

namespace Param

def asBool? : Param → Option Bool
  | .bool b => some b
  | _ => none

def asInt? : Param → Option Int64
  | .int n => some n
  | _ => none

def asFloat? : Param → Option Binary64
  | .float x => some x
  | _ => none

def asText? : Param → Option String
  | .text s => some s
  | _ => none

/-- Sameness of values. Kinds never mix, and doubles compare as numbers. -/
def same : Param → Param → Bool
  | .bool a, .bool b => a == b
  | .int a, .int b => a == b
  | .float a, .float b => a.sameNumber b
  | .text a, .text b => a == b
  | _, _ => false

end Param

/-- Whether a port consumes or produces a clip. -/
inductive Direction where
  | input
  | output
  deriving DecidableEq, Repr

def Direction.text : Direction → String
  | .input => "input"
  | .output => "output"

/-- A port of a kind of node. Its number is its place in the list of ports. -/
structure Port where
  name : String
  direction : Direction
  deriving DecidableEq, Repr

inductive NodeKind where
  | source
  | filter
  | output
  deriving DecidableEq, Repr

namespace NodeKind

def title : NodeKind → String
  | .source => "Source"
  | .filter => "Filter"
  | .output => "Output"

def tag : NodeKind → String
  | .source => "source"
  | .filter => "filter"
  | .output => "output"

def ports : NodeKind → List Port
  | .source => [⟨"clip", .output⟩]
  | .filter => [⟨"clip", .input⟩, ⟨"clip", .output⟩]
  | .output => [⟨"clip", .input⟩]

end NodeKind

/-- A media file, read by the plugin that the hint asks for. -/
structure SourceNode where
  path : FilePath
  hint : Option String
  deriving DecidableEq, Repr

structure Argument where
  name : String
  value : Param
  deriving DecidableEq, Repr

/-- A plugin call on one clip. The arguments keep their order. -/
structure FilterNode where
  displayName : String
  plugin : String
  function : String
  arguments : List Argument
  deriving DecidableEq, Repr

/-- A numbered slot that a clip is bound to. -/
structure OutputNode where
  slot : UInt32
  deriving DecidableEq, Repr

inductive Node where
  | source (node : SourceNode)
  | filter (node : FilterNode)
  | output (node : OutputNode)
  deriving DecidableEq, Repr

namespace Argument

def same (a b : Argument) : Bool := a.name == b.name && a.value.same b.value

end Argument

namespace Node

def kind : Node → NodeKind
  | .source _ => .source
  | .filter _ => .filter
  | .output _ => .output

def isSource (n : Node) : Bool := n.kind == .source

def isFilter (n : Node) : Bool := n.kind == .filter

def isOutput (n : Node) : Bool := n.kind == .output

def label : Node → String
  | .source n => s!"Source({n.path.display})"
  | .filter n => n.displayName
  | .output n => s!"Output({n.slot.toNat})"

def ports (n : Node) : List Port := n.kind.ports

def direction? (n : Node) (port : UInt16) : Option Direction :=
  n.ports[port.toNat]?.map (·.direction)

/-- The first connector of a direction on the node stored under `id`. -/
def connector? (n : Node) (id : NodeId) (d : Direction) : Option Connector :=
  (n.ports.findIdx? (·.direction == d)).bind fun port => Connector.ofPort? id (UInt16.ofNat port)

def input? (n : Node) (id : NodeId) : Option Connector := n.connector? id .input

def output? (n : Node) (id : NodeId) : Option Connector := n.connector? id .output

def sameArguments : List Argument → List Argument → Bool
  | [], [] => true
  | a :: as, b :: bs => a.same b && sameArguments as bs
  | _, _ => false

/-- Sameness of nodes: paths compare by their parts and doubles as numbers. -/
def same : Node → Node → Bool
  | .source a, .source b => a.path.same b.path && a.hint == b.hint
  | .filter a, .filter b =>
    a.displayName == b.displayName && a.plugin == b.plugin && a.function == b.function &&
      sameArguments a.arguments b.arguments
  | .output a, .output b => a.slot == b.slot
  | _, _ => false

end Node

end ClipGraph
