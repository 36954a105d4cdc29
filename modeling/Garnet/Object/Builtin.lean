/-!
# The builtin methods

The names of the operations that the language brings along, grouped by the
values they work on. What they do is said where the interpreter calls them.
-/

namespace Garnet

/-- The methods every object has. -/
inductive ObjectMethod where
  | toS | inspect | classOf | respondTo | isNil | isSame | isFrozen
  deriving DecidableEq

/-- The methods of classes. -/
inductive ClassMethod where
  | new | name | superclass | ancestors | instanceMethods
  deriving DecidableEq

/-- The methods of arrays. -/
inductive ArrayMethod where
  | push | append | unshift | length | first | last | includes | isEmpty | join
  deriving DecidableEq

/-- The methods of strings. -/
inductive StringMethod where
  | length | upcase | downcase | toSym | toS | isEmpty
  deriving DecidableEq

/-- The methods of integers. -/
inductive IntegerMethod where
  | toF | succ | isZero
  deriving DecidableEq

/-- The methods of symbols. -/
inductive SymbolMethod where
  | toS | toSym
  deriving DecidableEq

/-- The operations on paths and files. -/
inductive FileMethod where
  | join | basename | dirname | isPresent | expandPath
  deriving DecidableEq

/-- The methods of the top-level receiver. -/
inductive MainMethod where
  | toS | puts | require | load | raise
  deriving DecidableEq

/-- **A builtin method.** -/
inductive Builtin where
  | object (m : ObjectMethod)
  | classValue (m : ClassMethod)
  | array (m : ArrayMethod)
  | string (m : StringMethod)
  | integer (m : IntegerMethod)
  /-- The integer part of a floating-point number. -/
  | floatToInteger
  | symbol (m : SymbolMethod)
  | file (m : FileMethod)
  /-- The number of the running process. -/
  | processId
  | main (m : MainMethod)
  deriving DecidableEq

end Garnet
