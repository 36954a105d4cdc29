import Garnet.Interpreter.Arguments
import Garnet.Text.LetterCase

/-!
# The methods of strings and symbols
-/

namespace Garnet

open Interpreter

/-- The text of the string that a receiver has to be. -/
def stringReceiver : Value → Eval String
  | .string _ text => return text
  | v => wrongReceiver v "String"

/-- **What the methods of strings do.** None of them takes arguments; the
length of a string is the number of its characters. -/
def StringMethod.call (m : StringMethod) (receiver : Value) (args : List Value) : Eval Value := do
  checkCount args 0
  let text ← stringReceiver receiver
  match m with
  | .length => return .ofNat text.length
  | .upcase => newString (String.ofList (Text.upcase text.toList))
  | .downcase => newString (String.ofList (Text.downcase text.toList))
  | .toSym => intern text
  | .toS => return receiver
  | .isEmpty => return .ofBool text.isEmpty

/-- **What the methods of symbols do.** A symbol is its own symbol. -/
def SymbolMethod.call (m : SymbolMethod) (receiver : Value) (args : List Value) : Eval Value := do
  checkCount args 0
  match m, receiver with
  | .toSym, v => return v
  | .toS, .symbol _ name => newString name
  | .toS, v => wrongReceiver v "Symbol"

end Garnet
