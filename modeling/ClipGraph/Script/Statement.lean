import ClipGraph.Node
import ClipGraph.Script.Literal

/-!
# Statements of a script

A script loads sources, calls filters and binds output slots, one statement a line. A variable is
named after its node, and a filter's also after the place of its node in the emission order, so the
names are as stable as the order is.
-/

namespace ClipGraph

def decimal (n : Nat) : List Char := Nat.toDigits 10 n

inductive Variable where
  | source (node : NodeId)
  | filter (node : NodeId) (position : Nat)
  deriving DecidableEq, Repr

def Variable.name : Variable → List Char
  | .source node => "src_".toList ++ decimal node.index
  | .filter node position => "fx_".toList ++ decimal node.index ++ '_' :: decimal position

inductive Statement where
  /-- Reads a media file into the variable of a source. -/
  | load (node : NodeId) (function path : String)
  /-- Calls a plugin function on a clip and keeps the result in the variable of a filter. -/
  | call (node : NodeId) (position : Nat) (plugin function : String) (input : Variable)
      (arguments : List Argument)
  /-- Binds a clip to an output slot. -/
  | bind (input : Variable) (slot : UInt32)
  deriving DecidableEq, Repr

namespace Statement

def reads? : Statement → Option Variable
  | .load _ _ _ => none
  | .call _ _ _ _ input _ => some input
  | .bind input _ => some input

/-- A named argument with the comma that sets it off. -/
def argument (a : Argument) : List Char :=
  ", ".toList ++ a.name.toList ++ '=' :: a.value.literal

def line : Statement → List Char
  | .load node function path =>
    (Variable.source node).name ++ " = core.".toList ++ function.toList ++ "(source=".toList ++
      Literal.quote path.toList ++ [')']
  | .call node position plugin function input arguments =>
    (Variable.filter node position).name ++ " = core.".toList ++ plugin.toList ++ '.' ::
      function.toList ++ '(' :: input.name ++ arguments.flatMap argument ++ [')']
  | .bind input slot => input.name ++ ".set_output(".toList ++ decimal slot.toNat ++ [')']

end Statement

/-- A script as statements: those that make clips, then those that bind slots. -/
structure Program where
  body : List Statement
  bindings : List Statement
  deriving DecidableEq, Repr

namespace Program

def preamble : List (List Char) := ["import vapoursynth as vs".toList, "core = vs.core".toList]

def statements (p : Program) : List Statement := p.body ++ p.bindings

def lines (p : Program) : List (List Char) := preamble ++ p.statements.map Statement.line

/-- The text of a script. Every line has an end. -/
def text (p : Program) : List Char := p.lines.flatMap (· ++ ['\n'])

end Program
end ClipGraph
