import Garnet.CommandLine

/-!
# The command

The outer layer: reads the arguments, the environment, the input and the
files, and writes what the command writes. The files are looked at when they
are needed: what the command does is tried on the part of the file system
that is known, and tried again from the start when a place was missing.

A symbolic link is taken for what it leads to, a special file for a regular
one, and what cannot be read for nothing. What the command logs when the
environment asks for it is left out.
-/

namespace Garnet.Main

/-- The names in an absolute path. -/
def placeOf (path : String) : Place :=
  (Path.follow [] (Path.pieces path.toList)).map String.ofList

/-- What stands at a place. -/
def lookAt (place : Place) : IO (Option Entry) := do
  try
    let path := (← IO.currentDir) / place.path
    match (← path.metadata).type with
    | .dir => return some .directory
    | _ => return some (.file (← IO.FS.readBinFile path))
  catch _ => return none

/-- The number of the process. -/
def processId : IO Int64 := do
  try
    let status ← IO.FS.readFile "/proc/self/stat"
    return Int64.ofNat (Float64.digitsValue (status.toList.takeWhile Char.isDigit))
  catch _ => return 0

/-- What surrounds the command, with no file looked at. -/
def surroundings : IO Host := do
  return ⟨.unexplored (placeOf (← IO.currentDir).toString), ← IO.getEnv "HOME", ← processId⟩

/-- What something leads to when the files it needs are looked at. -/
partial def settle {α : Type} (host : Host) (body : Host → Except Halt α) :
    IO (Except Halt α) := do
  match body host with
  | .error (.unexplored place) =>
    settle { host with files := host.files.put place (← lookAt place) } body
  | result => return result

/-- Reports a halt that is no error of the program. -/
def reportHalt : Halt → IO UInt32
  | .raised e => do
    IO.eprintln e.kind.message
    return 1
  | .fault f => do
    IO.eprintln f.message
    return 101
  | .unexplored place => do
    IO.eprintln place.path
    return 101
  | .exhausted => do
    IO.eprintln "programs are nested too deeply"
    return 101

/-- Writes what a command leaves behind. -/
def report (o : CommandLine.Outcome) : IO UInt32 := do
  IO.print o.output
  IO.eprint o.errors
  return UInt32.ofNat o.status

/-- The next line of the input, with the line feed that ends it. -/
partial def readLine (input : IO.FS.Stream) (line : ByteArray) : IO ByteArray := do
  let bytes ← input.read 1
  match bytes.toList with
  | [] => return line
  | b :: _ => if b = 10 then return line.push b else readLine input (line.push b)

/-- Writes to the standard output at once. -/
def write (text : String) : IO Unit := do
  IO.print text
  (← IO.getStdout).flush

/-- The interactive loop. -/
partial def irb (host : Host) (s : Interpreter) : IO UInt32 := do
  write Repl.prompt
  let bytes ← readLine (← IO.getStdin) .empty
  match Repl.lines bytes with
  | [] => finish .endOfInput
  | none :: _ => finish .notText
  | some line :: _ =>
    let answered ← settle host fun host =>
      match Repl.answer host CommandLine.depthLimit line s with
      | .ok a s => .ok (a, s)
      | .error h _ => .error h
    match answered with
    | .error h => reportHalt h
    | .ok (.quit, _) => finish .quit
    | .ok (.text reply, after) =>
      write (Repl.printedSince s after ++ reply)
      irb host after
where
  finish (ending : Repl.Ending) : IO UInt32 := do
    write (Repl.Transcript.closing ⟨[], ending⟩)
    IO.eprint (CommandLine.irbErrors ending)
    return UInt32.ofNat (CommandLine.irbStatus ending)

/-- The command. -/
def command (args : List String) : IO UInt32 := do
  let host ← surroundings
  match Options.parse args with
  | .ok ⟨dirs, .irb⟩ =>
    let loadPath ← settle host fun host =>
      (Options.loadPath ⟨dirs, .irb⟩ host.files host.home).mapError .unexplored
    match loadPath with
    | .ok loadPath => irb host (CommandLine.irbInterpreter loadPath)
    | .error h => reportHalt h
  | _ =>
    match ← settle host fun host => CommandLine.execute host args .empty with
    | .ok o => report o
    | .error h => reportHalt h

end Garnet.Main

/-- The command `garnet`. -/
def main (args : List String) : IO UInt32 :=
  Garnet.Main.command args
