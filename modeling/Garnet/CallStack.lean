/-!
# The call stack

The labels of the calls that are active, and the record of them that an
error carries.
-/

namespace Garnet

/-- **A backtrace**: the labels of the calls that were active at some moment,
the innermost first. -/
structure Backtrace where
  /-- The labels, the innermost first. -/
  frames : List String
  deriving DecidableEq

/-- The line for a call: its number, counted from the innermost one, and its
label. -/
def Backtrace.frameLine (frame : String × Nat) : String :=
  "  " ++ toString frame.2 ++ ": " ++ frame.1 ++ "\n"

/-- **The text of a backtrace**: a heading, and a numbered line for each call;
nothing if no call was active. -/
def Backtrace.text (b : Backtrace) : String :=
  if b.frames.isEmpty then ""
  else
    "stack backtrace:\n" ++ String.join (b.frames.zipIdx.map frameLine)

/-- **The calls that are active.** -/
structure CallStack where
  /-- The labels of the calls, the innermost first. -/
  frames : List String
  deriving DecidableEq

namespace CallStack

/-- No call is active. -/
def empty : CallStack :=
  ⟨[]⟩

/-- The stack inside a further call. -/
def push (s : CallStack) (label : String) : CallStack :=
  ⟨label :: s.frames⟩

/-- The stack after the innermost call has ended. -/
def pop (s : CallStack) : CallStack :=
  ⟨s.frames.tail⟩

/-- How many calls are active. -/
def depth (s : CallStack) : Nat :=
  s.frames.length

/-- The backtrace of the present moment. -/
def capture (s : CallStack) : Backtrace :=
  ⟨s.frames⟩

@[simp] theorem pop_push (s : CallStack) (label : String) : (s.push label).pop = s := rfl

end CallStack

end Garnet
