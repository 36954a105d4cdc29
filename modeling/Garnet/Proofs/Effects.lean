import Garnet.Interpreter.Call
import Garnet.Proofs.Outcomes
import Mathlib.Logic.Relation

/-!
# What builtin methods do to an interpreter

A builtin method that evaluates no source text changes an interpreter only by
adding to it: it takes fresh numbers, makes symbols, arrays and objects, puts
elements before or after those of an array, and prints lines. These steps are
the relation `Effect`, and the interpreters that a sequence of them leads to
are `Effects`.

A computation is **ordinary** (`Ordinary`) if all it does is a sequence of
effects, however it ends, and if it ends with a value or an error – or, in a
file system that has been looked at only in part, at a place that has not
been looked at. Ordinary computations are closed under what `do` blocks are
made of, and the body of every method is ordinary as long as the source texts
it runs are (`Ordinary.method`). In particular no builtin method reads an
argument that it was not given: every such reading stands behind a check of
the number of arguments.
-/

namespace Garnet

open Interpreter

namespace Outcome

variable {α : Type} {m : Eval α} {s t : Interpreter}

/-- An evaluation ends with an error that can be handled, or it does not. -/
theorem raised_or_not (o : EStateM.Result Halt Interpreter α) :
    (∃ e t, o = .error (.raised e) t) ∨ ∀ e t, o ≠ .error (.raised e) t := by
  by_cases h : ∃ e t, o = .error (.raised e) t
  · exact Or.inl h
  · exact Or.inr fun e t he => h ⟨e, t, he⟩

/-- The result, if there is one. -/
def result? : EStateM.Result Halt Interpreter α → Option α
  | .ok a _ => some a
  | .error _ _ => none

theorem ok_of_result? {o : EStateM.Result Halt Interpreter α} {a : α} (h : result? o = some a) :
    ∃ t, o = .ok a t := by
  cases o with
  | ok b t =>
    cases h
    exact ⟨t, rfl⟩
  | error x t => cases h

/-- The error that was raised, if there is one. -/
def raised? : EStateM.Result Halt Interpreter α → Option Error
  | .error (.raised e) _ => some e
  | _ => none

theorem error_of_raised? {o : EStateM.Result Halt Interpreter α} {e : Error}
    (h : raised? o = some e) : ∃ t, o = .error (.raised e) t := by
  unfold raised? at h
  split at h
  · cases h
    exact ⟨_, rfl⟩
  · cases h

theorem rescuing_of_raised {handler : Error → Eval α} {e : Error}
    (h : m s = .error (.raised e) t) : rescuing m handler s = handler e t := by
  unfold rescuing
  rw [h]

theorem rescuing_of_not_raised {handler : Error → Eval α}
    (h : ∀ e t, m s ≠ .error (.raised e) t) : rescuing m handler s = m s := by
  unfold rescuing
  split
  · next hm => exact absurd hm (h _ _)
  · rfl

theorem undoing_of_raised {undo : Interpreter → Interpreter} {e : Error}
    (h : m s = .error (.raised e) t) : undoing undo m s = .error (.raised e) (undo t) := by
  unfold undoing
  rw [h]

theorem undoing_of_not_raised {undo : Interpreter → Interpreter}
    (h : ∀ e t, m s ≠ .error (.raised e) t) : undoing undo m s = m s := by
  unfold undoing
  split
  · next hm => exact absurd hm (h _ _)
  · rfl

/-- A call is left again, however its body ends. -/
theorem inFrame_eq (label : String) (m : Eval α) (s : Interpreter) :
    inFrame label m s = mapState (fun t => { t with stack := t.stack.pop })
      (m { s with stack := s.stack.push label }) := by
  unfold inFrame
  cases m { s with stack := s.stack.push label } with
  | ok a t => rfl
  | error e t => rfl

/-- So is a unit. -/
theorem inUnit_eq (name : String) (m : Eval α) (s : Interpreter) :
    inUnit name m s = mapState (fun t => { t with unitName := s.unitName })
      (m { s with unitName := name }) := by
  unfold inUnit
  cases m { s with unitName := name } with
  | ok a t => rfl
  | error e t => rfl

end Outcome

/-- **One step of what a builtin method does.** -/
inductive Effect : Interpreter → Interpreter → Prop where
  /-- A fresh number is taken. -/
  | fresh (s : Interpreter) : Effect s { s with heap := s.heap.freshId.2 }
  /-- A symbol is made that did not exist. -/
  | interned (s : Interpreter) (name : String) (absent : s.symbols.find? name = none) :
      Effect s
        { s with heap := s.heap.freshId.2, symbols := s.symbols.set name s.heap.freshId.1 }
  /-- An array is made. -/
  | newArray (s : Interpreter) (elements : List Value) :
      Effect s { s with heap := (s.heap.newArray elements).2 }
  /-- An object without methods of its own is made of a class that makes such
  objects. -/
  | newObject (s : Interpreter) (r : ClassRef) (label : Option String)
      (made : (s.heap.classAt r).factory = some (.object label)) :
      Effect s { s with heap := (s.heap.newObject ⟨r, label, .empty⟩).2 }
  /-- Elements are put before and after those of an array. -/
  | extended (s : Interpreter) (r : ArrayRef) (front back : List Value) :
      Effect s
        { s with heap := s.heap.setElements r (front ++ s.heap.elements r ++ back) }
  /-- A line is printed. -/
  | printed (s : Interpreter) (line : String) :
      Effect s { s with printed := s.printed ++ line ++ "\n" }

/-- **A sequence of effects.** -/
abbrev Effects : Interpreter → Interpreter → Prop :=
  Relation.ReflTransGen Effect

/-- Whether a reason to halt is an error, or a lack of knowledge about the
files. -/
def Halt.IsOrdinary (files : FileSystem) : Halt → Prop
  | .raised _ => True
  | .unexplored _ => files.complete = false
  | .fault _ | .exhausted => False

/-- **A computation that does nothing but effects**, and does not halt for any
other reason than an error or a lack of knowledge about the files. -/
structure Ordinary {α : Type} (files : FileSystem) (m : Eval α) : Prop where
  /-- All that is done is a sequence of effects. -/
  effects : ∀ s, Effects s (Outcome.state (m s))
  /-- It halts for no other reason. -/
  halts : ∀ s h s', m s = .error h s' → h.IsOrdinary files

namespace Ordinary

variable {α β : Type} {files : FileSystem}

/-! ## What computations are made of -/

/-- A computation that leaves the interpreter as it is and ends with a value
is ordinary. -/
theorem of_unchanged {m : Eval α} (h : ∀ s, ∃ a, m s = .ok a s) : Ordinary files m where
  effects s := by
    obtain ⟨a, ha⟩ := h s
    rw [ha]
    exact Relation.ReflTransGen.refl
  halts s h' s' hs := by
    obtain ⟨a, ha⟩ := h s
    rw [ha] at hs
    cases hs

/-- A computation that has one effect and ends with a value is ordinary. -/
theorem of_effect {m : Eval α} (h : ∀ s, ∃ a s', m s = .ok a s' ∧ Effect s s') :
    Ordinary files m where
  effects s := by
    obtain ⟨a, s', ha, he⟩ := h s
    rw [ha]
    exact Relation.ReflTransGen.single he
  halts s h' s' hs := by
    obtain ⟨a, s', ha, _⟩ := h s
    rw [ha] at hs
    cases hs

theorem pure (a : α) : Ordinary files (pure a : Eval α) :=
  of_unchanged fun _ => ⟨a, rfl⟩

theorem get : Ordinary files (get : Eval Interpreter) :=
  of_unchanged fun s => ⟨s, rfl⟩

/-- **One ordinary computation after another** is ordinary. -/
theorem bind {m : Eval α} {f : α → Eval β} (hm : Ordinary files m)
    (hf : ∀ a, Ordinary files (f a)) : Ordinary files (m >>= f) where
  effects s := by
    have h := hm.effects s
    cases hs : m s with
    | ok a s' =>
      rw [hs] at h
      rw [Outcome.bind_of_ok hs]
      exact h.trans ((hf a).effects s')
    | error e s' =>
      rw [hs] at h
      rw [Outcome.bind_of_error hs]
      exact h
  halts s h s'' hs := by
    cases hm' : m s with
    | ok a s' =>
      rw [Outcome.bind_of_ok hm'] at hs
      exact (hf a).halts s' h s'' hs
    | error e s' =>
      rw [Outcome.bind_of_error hm'] at hs
      cases hs
      exact hm.halts s _ _ hm'

/-- A condition chooses between ordinary computations. -/
theorem ite {c : Prop} [Decidable c] {m n : Eval α} (hm : c → Ordinary files m)
    (hn : ¬c → Ordinary files n) : Ordinary files (if c then m else n) := by
  split
  · next h => exact hm h
  · next h => exact hn h

/-- Halting for an ordinary reason is ordinary. -/
theorem throw {h : Halt} (ho : h.IsOrdinary files) : Ordinary files (throw h : Eval α) where
  effects _ := Relation.ReflTransGen.refl
  halts s h' s' hs := by
    cases hs
    exact ho

theorem raiseError (e : Error) : Ordinary files (raiseError e : Eval α) where
  effects _ := Relation.ReflTransGen.refl
  halts s h s' hs := by
    cases hs
    trivial

theorem raise (k : ErrorKind) : Ordinary files (raise k : Eval α) :=
  raiseError _

/-- A computation for every element of a list. -/
theorem mapM {f : α → Eval β} (hf : ∀ a, Ordinary files (f a)) (as : List α) :
    Ordinary files (as.mapM f) := by
  induction as with
  | nil => exact pure []
  | cons a as ih =>
    rw [List.mapM_cons]
    exact bind (hf a) fun _ => bind ih fun _ => pure _

/-! ## The effects themselves -/

theorem newString (text : String) : Ordinary files (newString text) :=
  of_effect fun s => ⟨_, _, rfl, Effect.fresh s⟩

theorem newArray (elements : List Value) : Ordinary files (newArray elements) :=
  of_effect fun s => ⟨_, _, rfl, Effect.newArray s elements⟩

theorem printLine (line : String) : Ordinary files (printLine line) :=
  of_effect fun s => ⟨_, _, rfl, Effect.printed s line⟩

/-- Making a symbol is an effect the first time and none afterwards. -/
theorem intern (name : String) : Ordinary files (intern name) where
  effects s := by
    unfold Interpreter.intern
    cases h : s.symbols.find? name with
    | none => exact Relation.ReflTransGen.single (Effect.interned s name h)
    | some id => exact Relation.ReflTransGen.refl
  halts s h s' hs := by
    unfold Interpreter.intern at hs
    cases hf : s.symbols.find? name <;> rw [hf] at hs <;> cases hs

/-- Putting elements after those of an array. -/
theorem pushElements (r : ArrayRef) (vs : List Value) :
    Ordinary files (updateElements r (· ++ vs)) :=
  of_effect fun s => ⟨_, _, rfl, by simpa using Effect.extended s r [] vs⟩

/-- Putting elements before those of an array. -/
theorem unshiftElements (r : ArrayRef) (vs : List Value) :
    Ordinary files (updateElements r (vs ++ ·)) :=
  of_effect fun s => ⟨_, _, rfl, by simpa using Effect.extended s r vs []⟩

/-- Noting that a unit is loaded makes a string and puts it into an array. -/
theorem markLoaded (feature : String) : Ordinary files (markLoaded feature) := by
  unfold Interpreter.markLoaded
  refine bind get fun s => ?_
  cases s.globalArray? "LOADED_FEATURES" with
  | some r => exact bind (newString feature) fun v => pushElements r [v]
  | none => exact pure ()

/-! ## Checks of arguments -/

theorem wrongCount (args : List Value) (expected : String) :
    Ordinary files (wrongCount args expected : Eval α) :=
  raise _

theorem wrongArgument (v : Value) (expected : String) :
    Ordinary files (wrongArgument v expected : Eval α) :=
  bind get fun _ => raise _

theorem wrongReceiver (v : Value) (expected : String) :
    Ordinary files (wrongReceiver v expected : Eval α) :=
  bind get fun _ => raise _

/-- **What follows a check of the number of arguments** may rely on that
number. -/
theorem afterCount {args : List Value} {n : Nat} {rest : Unit → Eval α}
    (h : args.length = n → Ordinary files (rest ())) :
    Ordinary files (checkCount args n >>= rest) := by
  unfold checkCount
  split
  · next hl => exact h hl
  · exact wrongCount (α := α) args _

/-- What follows a check that the number of arguments lies between two bounds
may rely on them. -/
theorem afterCountBetween {args : List Value} {least most : Nat} {rest : Unit → Eval α}
    (h : least ≤ args.length → Ordinary files (rest ())) :
    Ordinary files (checkCountBetween args least most >>= rest) := by
  unfold checkCountBetween
  split
  · next hl => exact h hl.1
  · exact wrongCount (α := α) args _

/-- **Reading an argument that was given** is no fault. -/
theorem argument {args : List Value} {place : Nat} (h : place < args.length) :
    Ordinary files (argument args place) := by
  unfold Interpreter.argument
  rw [List.getElem?_eq_getElem h]
  exact pure _

theorem stringArgument (v : Value) : Ordinary files (stringArgument v) := by
  cases v with
  | string id text => exact pure text
  | _ => exact wrongArgument _ _

theorem nameArgument (v : Value) : Ordinary files (nameArgument v) := by
  cases v with
  | string id text => exact pure text
  | symbol id name => exact pure name
  | _ => exact wrongArgument _ _

theorem textArgument {args : List Value} {place : Nat} (h : place < args.length) :
    Ordinary files (textArgument args place) :=
  bind (argument h) fun v => stringArgument v

theorem secondText? (args : List Value) : Ordinary files (secondText? args) := by
  unfold Garnet.secondText?
  split
  · exact bind (stringArgument _) fun _ => pure _
  · exact pure none

theorem separatorText (args : List Value) : Ordinary files (separatorText args) := by
  unfold Garnet.separatorText
  split
  · exact stringArgument _
  · exact pure ""

theorem arrayReceiver (v : Value) : Ordinary files (arrayReceiver v) := by
  cases v with
  | array r => exact pure r
  | _ => exact wrongReceiver _ _

theorem stringReceiver (v : Value) : Ordinary files (stringReceiver v) := by
  cases v with
  | string id text => exact pure text
  | _ => exact wrongReceiver _ _

theorem elementsOf (v : Value) : Ordinary files (elementsOf v) :=
  bind (arrayReceiver v) fun _ => bind get fun _ => pure _

/-! ## The builtin methods -/

theorem objectMethod (m : ObjectMethod) (receiver : Value) (args : List Value) :
    Ordinary files (m.call receiver args) := by
  cases m with
  | toS => exact afterCount fun _ => bind get fun _ => newString _
  | inspect => exact afterCount fun _ => bind get fun _ => newString _
  | classOf => exact afterCount fun _ => bind get fun _ => pure _
  | respondTo =>
    -- `h` is what the check of the number of arguments leaves behind
    refine afterCount fun h => bind (argument (by omega)) fun v => ?_
    exact bind (nameArgument v) fun _ => bind get fun _ => pure _
  | isNil => exact afterCount fun _ => pure _
  | isSame => exact afterCount fun h => bind (argument (by omega)) fun _ => pure _
  | isFrozen => exact afterCount fun _ => pure _

/-- **Making an instance** is an effect: it is made in the way that the class
has for it. -/
theorem newInstance (r : ClassRef) : Ordinary files (ClassMethod.new.onClass r) := by
  -- what is made depends on the class as it stands, so the two parts of `get` stay together
  have hnew (s : Interpreter) : ClassMethod.new.onClass r s
      = (s.heap.classAt r).factory.elim
          (Interpreter.raise (.noMethod "new" (s.inspect (.classValue r)) "Class"))
          (Garnet.newInstance r) s := by
    unfold ClassMethod.onClass
    rw [Outcome.get_bind]
    cases (s.heap.classAt r).factory <;> rfl
  refine ⟨fun s => ?_, fun s h t hs => ?_⟩
  · rw [hnew]
    cases hf : (s.heap.classAt r).factory with
    | none => exact Relation.ReflTransGen.refl
    | some factory =>
      cases factory with
      | object label => exact Relation.ReflTransGen.single (Effect.newObject s r label hf)
      | array => exact (newArray [] : Ordinary files _).effects s
      | string => exact (newString "" : Ordinary files _).effects s
  · rw [hnew] at hs
    cases hf : (s.heap.classAt r).factory with
    | none =>
      rw [hf] at hs
      exact (raise _ : Ordinary files _).halts s h t hs
    | some factory =>
      rw [hf] at hs
      cases factory <;> cases hs

/-- What a method of classes does with a class. -/
theorem onClass (m : ClassMethod) (r : ClassRef) : Ordinary files (m.onClass r) := by
  cases m with
  | new => exact newInstance r
  | name => exact bind get fun s => newString _
  | superclass =>
    refine bind get fun s => ?_
    dsimp only
    split
    · exact pure _
    · exact pure _
  | ancestors => exact bind get fun s => newArray _
  | instanceMethods =>
    exact bind get fun s => bind (mapM intern _) fun _ => newArray _

theorem classMethod (m : ClassMethod) (receiver : Value) (args : List Value) :
    Ordinary files (m.call receiver args) := by
  unfold ClassMethod.call
  refine afterCount fun _ => ?_
  cases receiver with
  | classValue r => exact onClass m r
  | _ => exact wrongReceiver _ _

theorem arrayMethod (m : ArrayMethod) (receiver : Value) (args : List Value) :
    Ordinary files (m.call receiver args) := by
  cases m with
  | push => exact bind (arrayReceiver _) fun r => bind (pushElements r args) fun _ => pure _
  | append =>
    -- the receiver is looked at between the check and the argument
    refine afterCount fun h => bind (arrayReceiver _) fun r => ?_
    exact bind (argument (by omega)) fun v => bind (pushElements r [v]) fun _ => pure _
  | unshift =>
    exact bind (arrayReceiver _) fun r => bind (unshiftElements r args) fun _ => pure _
  | length => exact afterCount fun _ => bind (elementsOf _) fun _ => pure _
  | first => exact afterCount fun _ => bind (elementsOf _) fun _ => pure _
  | last => exact afterCount fun _ => bind (elementsOf _) fun _ => pure _
  | includes =>
    refine afterCount fun h => bind (elementsOf _) fun _ => ?_
    exact bind (argument (by omega)) fun _ => bind get fun _ => pure _
  | isEmpty => exact afterCount fun _ => bind (elementsOf _) fun _ => pure _
  | join =>
    refine afterCountBetween fun _ => bind (separatorText args) fun separator => ?_
    exact bind (elementsOf _) fun _ => bind get fun _ => newString _

theorem stringMethod (m : StringMethod) (receiver : Value) (args : List Value) :
    Ordinary files (m.call receiver args) := by
  unfold StringMethod.call
  refine afterCount fun _ => bind (stringReceiver _) fun text => ?_
  cases m with
  | length => exact pure _
  | upcase => exact newString _
  | downcase => exact newString _
  | toSym => exact intern text
  | toS => exact pure _
  | isEmpty => exact pure _

theorem integerMethod (m : IntegerMethod) (receiver : Value) (args : List Value) :
    Ordinary files (m.call receiver args) := by
  unfold IntegerMethod.call
  refine afterCount fun _ => ?_
  cases receiver with
  | int n =>
    cases m with
    | toF => exact pure _
    | succ => exact ite (fun _ => raise _) fun _ => pure _
    | isZero => exact pure _
  | _ => exact wrongReceiver _ _

theorem floatToInteger (receiver : Value) (args : List Value) :
    Ordinary files (floatToInteger receiver args) := by
  unfold Garnet.floatToInteger
  refine afterCount fun _ => ?_
  cases receiver with
  | float x => exact ite (fun _ => pure _) fun _ => raise _
  | _ => exact wrongReceiver _ _

theorem symbolMethod (m : SymbolMethod) (receiver : Value) (args : List Value) :
    Ordinary files (m.call receiver args) := by
  unfold SymbolMethod.call
  refine afterCount fun _ => ?_
  cases m with
  | toSym => exact pure _
  | toS =>
    cases receiver with
    | symbol id name => exact newString name
    | _ => exact wrongReceiver _ _

theorem existsAt (path : String) : Ordinary files (existsAt files path) := by
  unfold Garnet.existsAt
  split
  · exact pure _
  · exact pure _
  · next h => exact throw (FileSystem.complete_eq_false_of_lookup h)

theorem expandedPath (host : Host) (base : Option String) (path : String) :
    Ordinary files (expandedPath host base path) := by
  unfold Garnet.expandedPath
  split
  · exact newString _
  · exact raise _

theorem fileMethod (host : Host) (m : FileMethod) (args : List Value) :
    Ordinary host.files (m.call host args) := by
  cases m with
  | join => exact bind (mapM stringArgument args) fun _ => newString _
  | basename =>
    refine afterCountBetween fun h => bind (textArgument (by omega)) fun _ => ?_
    exact bind (secondText? args) fun _ => newString _
  | dirname => exact afterCount fun h => bind (textArgument (by omega)) fun _ => newString _
  | isPresent => exact afterCount fun h => bind (textArgument (by omega)) fun _ => existsAt _
  | expandPath =>
    refine afterCountBetween fun h => bind (textArgument (by omega)) fun _ => ?_
    exact bind (secondText? args) fun _ => expandedPath host _ _

theorem printLines (lines : List String) : Ordinary files (printLines lines) := by
  induction lines with
  | nil => exact pure ()
  | cons line lines ih => exact bind (printLine line) fun _ => ih

theorem puts (args : List Value) : Ordinary files (puts args) :=
  bind get fun _ => bind (printLines _) fun _ => pure _

theorem onlyText (args : List Value) : Ordinary files (onlyText args) :=
  afterCount fun h => bind (argument (by omega)) fun v => stringArgument v

/-- Raising what is given to the method `raise`. -/
theorem raiseArgument (args : List Value) (host : Host) (run : String → Eval Value) :
    Ordinary files (MainMethod.raise.call host run args) := by
  refine afterCountBetween fun _ => ?_
  split
  · exact raise _
  · exact bind get fun _ => raiseError _

theorem readText (path : String) : Ordinary files (readText files path) := by
  unfold Interpreter.readText
  split
  · exact pure _
  · exact pure _
  · next h => exact throw (FileSystem.complete_eq_false_of_lookup h)

end Ordinary

/-- **Whether a method runs source texts**, which can do what no builtin
method does by itself. -/
def MethodBody.runsText : MethodBody → Bool
  | .builtin (.main .require) | .builtin (.main .load) | .runProgram _ => true
  | _ => false

/-- **The methods that run source texts.** -/
theorem MethodBody.eq_of_runsText {body : MethodBody} (h : body.runsText = true) :
    body = .builtin (.main .require) ∨ body = .builtin (.main .load) ∨
      ∃ source, body = .runProgram source := by
  unfold runsText at h
  split at h
  · exact .inl rfl
  · exact .inr (.inl rfl)
  · exact .inr (.inr ⟨_, rfl⟩)
  · cases h

/-- How source texts are run does not matter to other methods. -/
theorem MethodBody.call_eq {body : MethodBody} (h : body.runsText = false) (host : Host)
    (run run' : String → Eval Value) (receiver : Value) (args : List Value) :
    body.call host run' receiver args = body.call host run receiver args := by
  cases body with
  | runProgram source => cases h
  | builtin b =>
    cases b with
    | main m =>
      cases m with
      | require => cases h
      | load => cases h
      | _ => rfl
    | _ => rfl
  | _ => rfl

/-- **What a method does** is ordinary, unless it runs source texts. -/
theorem Ordinary.method {body : MethodBody} (h : body.runsText = false) (host : Host)
    (run : String → Eval Value) (receiver : Value) (args : List Value) :
    Ordinary host.files (body.call host run receiver args) := by
  cases body with
  | doNothing => exact pure _
  | returnReceiver => exact pure _
  | returnArguments => exact newArray args
  | returnConstant v => exact pure v
  | runProgram source => cases h
  | raiseError e => exact throw trivial
  | builtin b =>
    cases b with
    | object m => exact objectMethod m receiver args
    | classValue m => exact classMethod m receiver args
    | array m => exact arrayMethod m receiver args
    | string m => exact stringMethod m receiver args
    | integer m => exact integerMethod m receiver args
    | floatToInteger => exact floatToInteger receiver args
    | symbol m => exact symbolMethod m receiver args
    | file m => exact fileMethod host m args
    | processId => exact afterCount fun _ => pure _
    | main m =>
      cases m with
      | toS => exact afterCount fun _ => newString _
      | puts => exact puts args
      -- the two that come back to the evaluator
      | require => cases h
      | load => cases h
      | raise => exact raiseArgument args host run

end Garnet
