import Garnet.Object.ClassTable

/-!
# The classes at the start

What an interpreter knows before it has run anything: the classes of the
language with their builtin methods, and the top-level receiver. The classes
are listed in a table, every one after those it refers to.
-/

namespace Garnet

/-- **The description of a class that exists at the start.** -/
structure ClassPlan where
  /-- The name of the class. -/
  name : String
  /-- The name of the class it extends. -/
  superclass : Option String
  /-- The names of the modules it includes. -/
  includes : List String
  /-- How instances are made. -/
  factory : Option Factory
  /-- The methods of its instances. -/
  methods : List (String × Builtin)
  /-- The methods of the class itself. -/
  classMethods : List (String × Builtin)

namespace Startup

/-! ### The builtin methods by name -/

/-- The methods of every object. -/
def objectMethods : List (String × Builtin) :=
  [("to_s", .object .toS), ("inspect", .object .inspect), ("class", .object .classOf),
    ("respond_to?", .object .respondTo), ("nil?", .object .isNil), ("equal?", .object .isSame),
    ("frozen?", .object .isFrozen)]

/-- The methods of classes. -/
def classMethods : List (String × Builtin) :=
  [("new", .classValue .new), ("name", .classValue .name), ("to_s", .classValue .name),
    ("superclass", .classValue .superclass), ("ancestors", .classValue .ancestors),
    ("instance_methods", .classValue .instanceMethods)]

/-- The methods of arrays. -/
def arrayMethods : List (String × Builtin) :=
  [("push", .array .push), ("<<", .array .append), ("unshift", .array .unshift),
    ("length", .array .length), ("size", .array .length), ("first", .array .first),
    ("last", .array .last), ("include?", .array .includes), ("empty?", .array .isEmpty),
    ("join", .array .join), ("to_s", .object .inspect), ("inspect", .object .inspect)]

/-- The methods of strings. -/
def stringMethods : List (String × Builtin) :=
  [("length", .string .length), ("size", .string .length), ("upcase", .string .upcase),
    ("downcase", .string .downcase), ("to_sym", .string .toSym), ("to_s", .string .toS),
    ("inspect", .object .inspect), ("empty?", .string .isEmpty)]

/-- The methods of integers. -/
def integerMethods : List (String × Builtin) :=
  [("to_s", .object .toS), ("to_f", .integer .toF), ("succ", .integer .succ),
    ("zero?", .integer .isZero)]

/-- The methods of floating-point numbers. -/
def floatMethods : List (String × Builtin) :=
  [("to_s", .object .toS), ("to_i", .floatToInteger)]

/-- The methods of symbols. -/
def symbolMethods : List (String × Builtin) :=
  [("to_s", .symbol .toS), ("to_sym", .symbol .toSym), ("inspect", .object .inspect)]

/-- The methods of the booleans. -/
def booleanMethods : List (String × Builtin) :=
  [("to_s", .object .toS), ("inspect", .object .inspect)]

/-- The operations on paths and files. -/
def fileMethods : List (String × Builtin) :=
  [("join", .file .join), ("basename", .file .basename), ("dirname", .file .dirname),
    ("exist?", .file .isPresent), ("expand_path", .file .expandPath)]

/-- The methods of the top-level receiver. -/
def mainMethods : List (String × Builtin) :=
  [("to_s", .main .toS), ("puts", .main .puts), ("require", .main .require),
    ("load", .main .load), ("raise", .main .raise)]

/-! ### The classes -/

/-- A class that extends another one and has methods for its instances. -/
def subclass (name superclass : String) (factory : Option Factory)
    (methods : List (String × Builtin)) : ClassPlan :=
  ⟨name, some superclass, [], factory, methods, []⟩

/-- **The classes that exist at the start.** -/
def classPlans : List ClassPlan :=
  [⟨"BasicObject", none, [], none, [], []⟩,
    ⟨"Kernel", none, [], none, objectMethods, []⟩,
    ⟨"Object", some "BasicObject", ["Kernel"], some (.object none), [], []⟩,
    subclass "Module" "Object" none [],
    subclass "Class" "Module" none classMethods,
    subclass "Array" "Object" (some .array) arrayMethods,
    subclass "String" "Object" (some .string) stringMethods,
    subclass "Integer" "Object" none integerMethods,
    subclass "Float" "Object" none floatMethods,
    subclass "Symbol" "Object" none symbolMethods,
    subclass "TrueClass" "Object" none booleanMethods,
    subclass "FalseClass" "Object" none booleanMethods,
    subclass "NilClass" "Object" none [],
    subclass "Method" "Object" none [],
    ⟨"File", some "Object", [], none, [], fileMethods⟩,
    ⟨"Process", none, [], none, [], [("pid", .processId)]⟩,
    subclass "StandardError" "Object" none [],
    subclass "ParseError" "StandardError" none [],
    subclass "NameError" "StandardError" none [],
    subclass "LoadError" "StandardError" none [],
    subclass "ArgumentError" "StandardError" none [],
    subclass "TypeError" "StandardError" none [],
    subclass "RuntimeError" "StandardError" none [],
    subclass "NoMethodError" "NameError" none []]

/-- Further names of classes in the class table. -/
def aliases : List (String × String) :=
  [("True", "TrueClass"), ("False", "FalseClass"), ("Nil", "NilClass")]

/-- The names of the classes that programs can refer to. -/
def visibleClasses : List String :=
  ["Object", "Kernel", "File", "Process", "Array", "String", "Integer", "Float", "Symbol",
    "StandardError", "ParseError", "NameError", "NoMethodError", "LoadError", "ArgumentError",
    "TypeError", "RuntimeError"]

/-! ### Building them -/

/-- The heap with builtin methods that everyone may call, and the table of
them. -/
def methodTable (h : Heap) : List (String × Builtin) → MethodTable × Heap
  | [] => (.empty, h)
  | (name, b) :: rest =>
    let (m, h) := h.newMethod ⟨name, .everyone, .builtin b⟩
    let (table, h) := methodTable h rest
    (table.set name m, h)

/-- The heap with one more class, and the names with its name. -/
def addClass (start : Heap × Bindings ClassRef) (p : ClassPlan) : Heap × Bindings ClassRef :=
  let (h, names) := start
  let (methods, h) := methodTable h p.methods
  let (classMethods, h) := methodTable h p.classMethods
  let (r, h) := h.newClass
    { name := p.name
      superclass := p.superclass.bind names.find?
      includes := p.includes.filterMap names.find?
      methods := methods
      classMethods := classMethods
      factory := p.factory }
  (h, names.set p.name r)

/-- The names with a further one for a class. -/
def addAlias (names : Bindings ClassRef) (pair : String × String) : Bindings ClassRef :=
  match names.find? pair.2 with
  | some r => names.set pair.1 r
  | none => names

/-- The class that a name stands for at the start; every name that the
language itself uses has one. -/
def classNamed (names : Bindings ClassRef) (name : String) : ClassRef :=
  (names.find? name).getD ⟨0⟩

/-- **The heap and the class table at the start.** -/
def classes : Heap × ClassTable :=
  let (h, names) := classPlans.foldl addClass (.empty, .empty)
  (h, ⟨aliases.foldl addAlias names, classNamed names "Object", classNamed names "Class"⟩)

/-- The text of the top-level receiver. -/
def mainLabel : String := "main"

/-- **The heap with the top-level receiver**, an object with methods of its
own. -/
def mainObject (h : Heap) (t : ClassTable) : ObjectRef × Heap :=
  let (methods, h) := methodTable h mainMethods
  h.newObject ⟨t.objectClass, some mainLabel, methods⟩

end Startup

end Garnet
