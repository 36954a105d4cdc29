import Garnet.Interpreter.Start
import Garnet.Repl

/-!
# The command line

What the arguments of the command mean, and what the command does: start the
interactive loop, run a program, or say something about itself.
-/

namespace Garnet

/-- **What the command is asked to do.** -/
inductive Command where
  /-- Start the interactive loop. -/
  | irb
  /-- Run a file as a program, with arguments. -/
  | run (file : String) (args : List String)
  /-- Show how the command is used. -/
  | help
  /-- Show the version. -/
  | version
  deriving DecidableEq

/-- **What the arguments of the command say.** -/
structure Options where
  /-- Directories for the load path. -/
  includeDirs : List String
  /-- What to do. -/
  command : Command
  deriving DecidableEq

/-- **Why arguments make no sense.** -/
inductive UsageError where
  /-- The option for a directory has none. -/
  | missingDirectory
  /-- There is no file to run. -/
  | missingFile
  /-- A word is no command. -/
  | unknownCommand (word : String)
  deriving DecidableEq

/-- The message of a usage error. -/
def UsageError.message : UsageError → String
  | missingDirectory => "-I requires a directory"
  | missingFile => "run requires a file"
  | unknownCommand word => "unknown command '" ++ word ++ "'"

namespace Options

/-- The options with one more directory, before the others. -/
def including (dir : String) (o : Options) : Options :=
  { o with includeDirs := dir :: o.includeDirs }

/-- The directory in an argument that is the option and the directory in
one. -/
def attachedDirectory? (arg : String) : Option String :=
  match arg.toList with
  | '-' :: 'I' :: dir => some (String.ofList dir)
  | _ => none

/-- **What arguments say.** Options come before the command; what follows the
file of a program belongs to the program. -/
def parse : List String → Except UsageError Options
  | [] => .ok ⟨[], .irb⟩
  | "-I" :: [] => .error .missingDirectory
  | "-I" :: dir :: rest => (parse rest).map (including dir)
  | "irb" :: _ => .ok ⟨[], .irb⟩
  | "run" :: [] => .error .missingFile
  | "run" :: file :: args => .ok ⟨[], .run file args⟩
  | "help" :: _ | "--help" :: _ | "-h" :: _ => .ok ⟨[], .help⟩
  | "version" :: _ | "--version" :: _ | "-v" :: _ => .ok ⟨[], .version⟩
  | word :: rest =>
    match attachedDirectory? word with
    | some dir => (parse rest).map (including dir)
    | none => .error (.unknownCommand word)

/-- The directory of the user's own units, seen from the home directory. -/
def userDirectory (home : String) : String :=
  String.ofList (Path.within home.toList ".garnet".toList)

/-- **The load path**: the directories of the options, and the directory of
the user's own units if there is one. -/
def loadPath (o : Options) (files : FileSystem) (home : Option String) :
    Except Place (List String) :=
  match home with
  | none => .ok o.includeDirs
  | some home => do
    if ← files.isDirectory (userDirectory home) then
      return o.includeDirs ++ [userDirectory home]
    else return o.includeDirs

end Options

namespace CommandLine

/-- The lines that say how the command is used. -/
def usageLines : List String :=
  ["Garnet interpreter",
    "",
    "Usage: garnet [options] [command]",
    "",
    "Commands:",
    "  irb                       Interactive session (default)",
    "  run <file.rb> [args...]   Run a program; args become ARGV",
    "  help                      Show this help message",
    "  version                   Show version information",
    "",
    "Options:",
    "  -I <dir>                  Add a directory to the load path (repeatable)",
    "",
    "Environment:",
    "  HOME                      $HOME/.garnet is searched when it exists",
    "  GARNET_LOG, RUST_LOG      Tracing filter, e.g. GARNET_LOG=garnet_eval=debug",
    "",
    "Examples:",
    "  garnet",
    "  garnet run main.rb --verbose",
    "  garnet -I lib run main.rb"]

/-- How the command is used. -/
def usage : String :=
  String.join (usageLines.map fun line => line ++ "\n")

/-- The version of the command. -/
def versionText : String := "Garnet 0.1.0-alpha.1\n"

/-- How deeply programs can be nested in each other. -/
def depthLimit : Nat := 100000

/-- **What the command leaves behind.** -/
structure Outcome where
  /-- The exit status. -/
  status : Nat
  /-- What was written to the standard output. -/
  output : String
  /-- What was written to the standard error. -/
  errors : String

/-- The outcome of wrong arguments. -/
def misused (e : UsageError) : Outcome :=
  ⟨1, usage, "error: " ++ e.message ++ "\n\n"⟩

/-- The interpreter of the interactive loop. -/
def irbInterpreter (loadPath : List String) : Interpreter :=
  .start Repl.unitName loadPath []

/-- What the standard error says when the loop ended like this. -/
def irbErrors : Repl.Ending → String
  | .notText => "error: " ++ FileError.notText.message ++ "\n"
  | _ => ""

/-- The exit status of the loop. -/
def irbStatus : Repl.Ending → Nat
  | .notText => 1
  | _ => 0

/-- **The interactive loop as a command.** -/
def irb (host : Host) (loadPath : List String) (input : ByteArray) : Except Halt Outcome :=
  match Repl.loop host depthLimit (Repl.lines input) (irbInterpreter loadPath) with
  | .ok t _ => .ok ⟨irbStatus t.ending, t.shown, irbErrors t.ending⟩
  | .error h _ => .error h

/-- **Running a program as a command.** -/
def runProgram (host : Host) (loadPath : List String) (file : String) (args : List String) :
    Except Halt Outcome :=
  match Interpreter.runFile host.files (Interpreter.run host depthLimit) file
      (.start file loadPath args) with
  | .ok _ s => .ok ⟨0, s.printed, ""⟩
  | .error (.raised e) s =>
    .ok ⟨1, s.printed, file ++ ": " ++ e.kind.message ++ "\n" ++ e.backtraceText⟩
  | .error h _ => .error h

/-- **What the command does** with arguments and an input. -/
def execute (host : Host) (args : List String) (input : ByteArray) : Except Halt Outcome :=
  match Options.parse args with
  | .error e => .ok (misused e)
  | .ok o => do
    let loadPath ← (o.loadPath host.files host.home).mapError .unexplored
    match o.command with
    | .irb => irb host loadPath input
    | .run file args => runProgram host loadPath file args
    | .help => .ok ⟨0, usage, ""⟩
    | .version => .ok ⟨0, versionText, ""⟩

end CommandLine

end Garnet
