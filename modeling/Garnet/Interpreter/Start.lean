import Garnet.Interpreter.State

/-!
# A new interpreter

The interpreter that a program finds: the classes of the language, the
top-level receiver, the arguments of the program, and the globals that tell
where units are searched and which ones were loaded.
-/

namespace Garnet.Interpreter

/-- An interpreter that knows the classes and nothing else. -/
def bare (unitName : String) : Interpreter :=
  let (h, t) := Startup.classes
  let (main, h) := Startup.mainObject h t
  { objects := .empty
    globals := .empty
    symbols := .empty
    heap := h
    classes := t
    stack := .empty
    unitName := unitName
    main := .object main
    printed := "" }

/-- The interpreter with the classes that programs can refer to bound to their
names. -/
def bindClasses (s : Interpreter) : Interpreter :=
  Startup.visibleClasses.foldl (fun s name =>
    match s.classes.find? name with
    | some r => s.bind name (.classValue r)
    | none => s) s

/-- A new array of new strings. -/
def newStrings (texts : List String) : Eval Value := do
  newArray (← texts.mapM newString)

/-- Binds what the host knows about the program: `ARGV`, and under two names
each, the load path, the loaded units, and the name of the program. -/
def bindProgram (programName : String) (loadPath argv : List String) : Eval Unit := do
  let arguments ← newStrings argv
  let dirs ← newStrings loadPath
  let features ← newArray []
  let name ← newString programName
  modify fun s => s.bind "ARGV" arguments
  modify fun s => (s.bindGlobal "LOAD_PATH" dirs).bindGlobal ":" dirs
  modify fun s => (s.bindGlobal "LOADED_FEATURES" features).bindGlobal "\"" features
  modify fun s => (s.bindGlobal "PROGRAM_NAME" name).bindGlobal "0" name

/-- The name of a program that is given as no file. -/
def standardUnit : String := "-"

/-- **A new interpreter** for a program with a name, the directories where
units are searched, and arguments. -/
def start (programName : String) (loadPath argv : List String) : Interpreter :=
  let s := bare programName
  match bindProgram programName loadPath argv (bindClasses (s.bind "main" s.main)) with
  | .ok _ s => s
  | .error _ s => s

end Garnet.Interpreter
