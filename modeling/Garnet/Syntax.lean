import Garnet.Number.Notation

/-!
# The syntax tree

A program is a sequence of nodes. Statements and expressions are not told
apart: every node can stand wherever an expression can.

The text of a node (`Node.text`) is its source form for expressions and its
first line for the constructs that span lines.
-/

namespace Garnet

mutual

/-- **A node of the syntax tree.** -/
inductive Node where
  /-- A string between single quotes. -/
  | simpleString (text : String)
  /-- A string between double quotes. -/
  | interpolatedString (text : String)
  /-- An integer literal. -/
  | int (n : Int64)
  /-- A floating-point literal. -/
  | float (x : Float64)
  /-- `true` or `false`. -/
  | boolean (b : Bool)
  /-- A global variable, without its dollar sign. -/
  | globalVariable (name : String)
  /-- A symbol, without its colon. -/
  | symbol (name : String)
  /-- A name by itself: a variable, a constant, `nil` or `self`. -/
  | bareReference (name : String)
  /-- `__FILE__`. -/
  | fileName
  /-- `def name(params) … end`. -/
  | funcDecl (name : String) (params : List String) (body : List Node)
  /-- `target.func(args)`, or `func(args)` on the current receiver. -/
  | call (target : Option Node) (func : String) (args : List Node)
  /-- `lhs = rhs`. -/
  | assignment (lhs rhs : Node)
  /-- `if condition … else … end`; a branch that is absent is empty, and an
  `elsif` is an `if` in the `else` branch. -/
  | ifBlock (condition : Node) (body orElse : List Node)
  /-- `begin … rescue … end`. -/
  | beginBlock (body : List Node) (rescues : List RescueClause)
  /-- `class Name < Super … end`. -/
  | classDecl (name : String) (superclass : Option String) (body : List Node)
  /-- `return`, with a value or without. -/
  | returnValue (value : Option Node)

/-- **A `rescue` clause**: the name of the class it is for, and its body. -/
inductive RescueClause where
  /-- `rescue ClassName` and what follows it. -/
  | mk (className : String) (body : List Node)

end

/-- The name of the class a clause is for. -/
def RescueClause.className : RescueClause → String
  | mk name _ => name

/-- The body of a clause. -/
def RescueClause.body : RescueClause → List Node
  | mk _ body => body

namespace Node

/-- The name of a kind of node. -/
def kindName : Node → String
  | simpleString _ => "SimpleString"
  | interpolatedString _ => "InterpolatedString"
  | int _ => "ConstantInt"
  | float _ => "ConstantFloat"
  | boolean _ => "Boolean"
  | globalVariable _ => "GlobalVariable"
  | symbol _ => "Symbol"
  | bareReference _ => "BareReference"
  | fileName => "FileNameConstReference"
  | funcDecl .. => "FuncDecl"
  | call .. => "CallExpression"
  | assignment .. => "Assignment"
  | ifBlock .. => "IfBlock"
  | beginBlock .. => "Begin"
  | classDecl .. => "ClassDecl"
  | returnValue _ => "Return"

/-- Whether a value can be assigned to a node: names and globals only. -/
def isAssignable : Node → Bool
  | bareReference _ | globalVariable _ => true
  | _ => false

mutual

/-- **The text of a node.** -/
def text : Node → String
  | simpleString s => "'" ++ s ++ "'"
  | interpolatedString s => "\"" ++ s ++ "\""
  | int n => toString n
  | float x => x.text Float64.literal
  | boolean b => if b then "true" else "false"
  | globalVariable name => "$" ++ name
  | symbol name => ":" ++ name
  | bareReference name => name
  | fileName => "__FILE__"
  | funcDecl name _ _ => "def " ++ name
  | call none func args => func ++ "(" ++ argumentsText args ++ ")"
  | call (some target) func args => target.text ++ "." ++ func ++ "(" ++ argumentsText args ++ ")"
  | assignment lhs rhs => lhs.text ++ " = " ++ rhs.text
  | ifBlock condition _ _ => "if " ++ condition.text
  | beginBlock _ _ => "begin"
  | classDecl name _ _ => "class " ++ name
  | returnValue _ => "return"

/-- The texts of arguments, separated by commas. -/
def argumentsText : List Node → String
  | [] => ""
  | [n] => n.text
  | n :: ns => n.text ++ ", " ++ argumentsText ns

end

end Node

end Garnet
