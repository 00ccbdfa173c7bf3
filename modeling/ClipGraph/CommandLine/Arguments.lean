import ClipGraph.FilePath

/-!
# Command-line arguments

Arguments are read from left to right, first those of the program and, from the name of a command
on, those of the command. An option that takes a value stays open until the value has come and the
next argument shows that it is complete, and so does a path that stands for itself; only then is it
looked at. Behind two dashes every argument stands for itself.
-/

namespace ClipGraph.CommandLine

inductive Slot where
  | config
  | output
  | write
  | force
  | help
  | version
  | project
  deriving DecidableEq, Repr

def Slot.text : Slot → String
  | .config => "--config <CONFIG>"
  | .output => "--output <OUTPUT>"
  | .write => "--write"
  | .force => "--force"
  | .help => "--help"
  | .version => "--version"
  | .project => "<PROJECT>"

def Slot.takesValue : Slot → Bool
  | .config => true
  | .output => true
  | .project => true
  | _ => false

inductive Verb where
  | compile
  | check
  | order
  deriving DecidableEq, Repr

def Verb.named : List (String × Verb) :=
  [("compile", .compile), ("check", .check), ("order", .order)]

def helpName : String := "help"

inductive Topic where
  | program
  | verb (v : Verb)
  | help
  deriving DecidableEq, Repr

structure Scope where
  topic : Topic
  options : List (String × Slot)
  letters : List (Char × Slot)
  takesProject : Bool
  deriving Repr

namespace Scope

def program : Scope :=
  ⟨.program, [("config", .config), ("help", .help), ("version", .version)],
    [('h', .help), ('V', .version)], false⟩

def ofVerb (v : Verb) : Scope :=
  match v with
  | .compile =>
    ⟨.verb v, [("output", .output), ("write", .write), ("force", .force), ("config", .config),
      ("help", .help)], [('o', .output), ('h', .help)], true⟩
  | _ => ⟨.verb v, [("config", .config), ("help", .help)], [('h', .help)], true⟩

end Scope

inductive Refusal where
  | unknownArgument (text : String)
  | unknownCommand (name : String)
  | missingValue (slot : Slot)
  | unwantedValue (slot : Slot) (value : String)
  | repeated (slot : Slot)
  | conflict (first second : Slot)
  | missingProject
  | missingCommand
  /-- There are no arguments. -/
  | nothing
  deriving DecidableEq, Repr

/-- What ends the reading of arguments early. -/
inductive Halt where
  | refused (refusal : Refusal)
  | help (topic : Topic)
  | version
  deriving DecidableEq, Repr

/-- The arguments of a scope so far: the complete ones in their order, and the open one with the
value that it has got. -/
structure Scan where
  complete : List (Slot × String)
  pending : Option (Slot × Option String)
  /-- Whether two dashes have been met. -/
  plainOnly : Bool
  deriving DecidableEq, Repr

namespace Scan

def empty : Scan := ⟨[], none, false⟩

def has (s : Scan) (slot : Slot) : Bool := s.complete.any (·.1 == slot)

def value? (s : Scan) (slot : Slot) : Option FilePath :=
  (s.complete.lookup slot).map FilePath.ofText

/-- Adds a complete argument. It must be the only one of its kind and must not be empty. -/
def accept (s : Scan) (slot : Slot) (value : String) : Except Halt Scan :=
  if s.has slot then .error (.refused (.repeated slot))
  else if slot.takesValue && value.isEmpty then .error (.refused (.missingValue slot))
  else .ok { s with complete := s.complete ++ [(slot, value)] }

def settle (s : Scan) : Except Halt Scan :=
  match s.pending with
  | none => .ok s
  | some (slot, none) => .error (.refused (.missingValue slot))
  | some (slot, some value) => accept { s with pending := none } slot value

/-- Whether the next argument is a value, should it not look like an option. -/
def isWaiting (s : Scan) : Bool :=
  match s.pending with
  | some (_, none) => true
  | _ => false

/-- An option without a value, or one whose value is attached or still to come. -/
def option (scope : Scope) (s : Scan) (slot : Slot) (attached : Option String) :
    Except Halt Scan :=
  match slot.takesValue, attached with
  | true, some value => do accept (← s.settle) slot value
  | true, none => do return { (← s.settle) with pending := some (slot, none) }
  | false, some value => .error (.refused (.unwantedValue slot value))
  | false, none => do
    let s ← s.settle
    match slot with
    | .help => .error (.help scope.topic)
    | .version => .error .version
    | _ => accept s slot ""

/-- An option by its name, with a value perhaps behind an equals sign. -/
def long (scope : Scope) (s : Scan) (text : List Char) : Except Halt Scan :=
  let name := text.takeWhile (· ≠ '=')
  let attached := match text.dropWhile (· ≠ '=') with
    | [] => none
    | _ :: value => some (String.ofList value)
  match scope.options.lookup (.ofList name) with
  | some slot => option scope s slot attached
  | none => .error (.refused (.unknownArgument ("--" ++ .ofList name)))

/-- Options by their letters. The first that takes a value takes the rest as such. -/
def short (scope : Scope) (s : Scan) : List Char → Except Halt Scan
  | [] => .ok s
  | c :: rest =>
    match scope.letters.lookup c with
    | none => .error (.refused (.unknownArgument (.ofList ['-', c])))
    | some slot =>
      if slot.takesValue then
        match rest with
        | [] => option scope s slot none
        | '=' :: value => option scope s slot (some (.ofList value))
        | value => option scope s slot (some (.ofList value))
      else do short scope (← option scope s slot none) rest

def plain (scope : Scope) (s : Scan) (text : String) : Except Halt Scan :=
  let isOpen := match s.pending with
    | some (slot, _) => slot == .project
    | none => false
  if !scope.takesProject || isOpen || s.has .project then
    .error (.refused (.unknownArgument text))
  else do return { (← s.settle) with pending := some (.project, some text) }

def take (scope : Scope) (s : Scan) (text : String) : Except Halt Scan :=
  if s.plainOnly then s.plain scope text
  else match text.toList, s.pending with
    | ['-', '-'], _ => .ok { s with plainOnly := true }
    | '-' :: '-' :: rest, _ => s.long scope rest
    | '-' :: c :: rest, _ => s.short scope (c :: rest)
    | _, some (slot, none) => .ok { s with pending := some (slot, some text) }
    | _, _ => s.plain scope text

end Scan

inductive Command where
  | compile (project : FilePath) (output : Option FilePath) (write force : Bool)
  | check (project : FilePath)
  | order (project : FilePath)
  deriving DecidableEq, Repr

structure Invocation where
  config : Option FilePath
  command : Command
  deriving DecidableEq, Repr

namespace Invocation

/-- The command that a complete scan spells. A script goes to one place only. -/
def finish (verb : Verb) (s : Scan) : Except Halt Invocation := do
  let s ← s.settle
  let places := (s.complete.map Prod.fst).filter fun slot => slot == .output || slot == .write
  match places, s.value? .project with
  | first :: second :: _, _ => .error (.refused (.conflict first second))
  | _, none => .error (.refused .missingProject)
  | _, some project =>
    let command := match verb with
      | .compile => .compile project (s.value? .output) (s.has .write) (s.has .force)
      | .check => .check project
      | .order => .order project
    return ⟨s.value? .config, command⟩

def ofCommand (verb : Verb) (arguments : List String) : Except Halt Invocation := do
  finish verb (← arguments.foldlM (Scan.take (.ofVerb verb)) .empty)

/-- The help that is asked for by the names of commands. -/
def helpOn : List String → Halt
  | [] => .help .program
  | name :: rest =>
    match Verb.named.lookup name, rest with
    | some v, [] => .help (.verb v)
    | some _, next :: _ => .refused (.unknownCommand next)
    | none, [] => if name = helpName then .help .help else .refused (.unknownCommand name)
    | none, next :: _ => .refused (.unknownCommand (if name = helpName then next else name))

/-- Reads arguments up to the name of a command and then those of the command, which are looked at
first. A command's own choice of settings counts before the program's. -/
def ofProgram (s : Scan) : List String → Except Halt Invocation
  | [] => do
    let s ← s.settle
    .error (.refused (if s.complete.isEmpty then .nothing else .missingCommand))
  | text :: rest =>
    let verb := Verb.named.lookup text
    if s.plainOnly then
      .error (.refused (if verb.isSome || text = helpName then .unknownArgument text
        else .unknownCommand text))
    else if s.isWaiting || text.startsWith "-" && text ≠ "-" then do
      ofProgram (← s.take .program text) rest
    else match verb with
      | some v => do
        let invocation ← ofCommand v rest
        let s ← s.settle
        return { invocation with config := invocation.config <|> s.value? .config }
      | none => .error (if text = helpName then helpOn rest else .refused (.unknownCommand text))

def ofArguments (arguments : List String) : Except Halt Invocation := ofProgram .empty arguments

end Invocation
end ClipGraph.CommandLine
