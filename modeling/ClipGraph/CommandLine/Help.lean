import ClipGraph.CommandLine.Arguments
import ClipGraph.Text.Shown

/-!
# What the program says about itself
-/

namespace ClipGraph.CommandLine

def versionText : String := "vsgraph 0.1.0\n"

def about : String := "Node-graph to VapourSynth script compiler"

def configHelp : String :=
  "      --config <CONFIG>  Path to a config file (default: platform config dir)\n"

def projectHelp : String :=
  "Arguments:\n  <PROJECT>  Path to the project file (JSON)\n\nOptions:\n"

def helpText : Topic → String
  | .program =>
    about ++ "\n\nUsage: vsgraph [OPTIONS] <COMMAND>\n\nCommands:\n" ++
      "  compile  Compile a project into a script\n" ++
      "  check    Run the full compile and report problems, without writing the script\n" ++
      "  order    Print the order in which nodes would be emitted\n" ++
      "  help     Print this message or the help of the given subcommand(s)\n\nOptions:\n" ++
      configHelp ++ "  -h, --help             Print help\n" ++
      "  -V, --version          Print version\n"
  | .verb .compile =>
    "Compile a project into a script\n\nUsage: vsgraph compile [OPTIONS] <PROJECT>\n\n" ++
      projectHelp ++
      "  -o, --output <OUTPUT>  Write the script here instead of stdout\n" ++ configHelp ++
      "      --write            Write the script next to the project, using the configured" ++
      " extension\n" ++
      "      --force            Replace an existing script file\n" ++
      "  -h, --help             Print help\n"
  | .verb .check =>
    "Run the full compile and report problems, without writing the script\n\n" ++
      "Usage: vsgraph check [OPTIONS] <PROJECT>\n\n" ++ projectHelp ++ configHelp ++
      "  -h, --help             Print help\n"
  | .verb .order =>
    "Print the order in which nodes would be emitted\n\n" ++
      "Usage: vsgraph order [OPTIONS] <PROJECT>\n\n" ++ projectHelp ++ configHelp ++
      "  -h, --help             Print help\n"
  | .help =>
    "Print this message or the help of the given subcommand(s)\n\n" ++
      "Usage: vsgraph help [COMMAND]...\n\nArguments:\n" ++
      "  [COMMAND]...  Print help for the subcommand(s)\n"

/-- Why arguments are refused, on one line. What comes from the arguments is shown without control
sequences. -/
def Refusal.message : Refusal → String
  | .unknownArgument text => s!"error: unexpected argument '{Text.plain text}' found"
  | .unknownCommand name => s!"error: unrecognized subcommand '{Text.plain name}'"
  | .missingValue slot =>
    s!"error: a value is required for '{slot.text}' but none was supplied"
  | .unwantedValue slot value =>
    let value := Text.plain value
    s!"error: unexpected value '{value}' for '{slot.text}' found; no more were expected"
  | .repeated slot => s!"error: the argument '{slot.text}' cannot be used multiple times"
  | .conflict first second =>
    s!"error: the argument '{first.text}' cannot be used with '{second.text}'"
  | .missingProject => "error: the following required arguments were not provided:"
  | .missingCommand => "error: 'vsgraph' requires a subcommand but one was not provided"
  | .nothing => about

def Refusal.advice : Refusal → String
  | .nothing => String.ofList ((helpText .program).toList.drop about.length)
  | .missingProject => s!"\n  {Slot.project.text}\n\nFor more information, try '--help'.\n"
  | _ => "\n\nFor more information, try '--help'.\n"

end ClipGraph.CommandLine
