import Garnet.Proofs.Growth
import Garnet.Proofs.Invariants

/-!
# What values builtin methods deal in

A builtin method that runs no source text gets its values from few places: it
is given a receiver and arguments, it reads elements of arrays, and it makes
new values. What it leaves in the interpreter, and what it returns, comes from
there. So a property that the values of names and globals and the elements of
arrays have (`Interpreter.Holds`) passes on to results, if the values that are
made have it, too.

The walk through the builtin methods that shows this is done here once, for
every judgement on computations that obeys certain rules (`ValueRules`). What is
known of a value may depend on how far an evaluation has come: that a symbol is
in the table of symbols is not true before it is made, and true ever after. A
judgement is therefore relative to a stage.

The walk also tells for which reasons a builtin method raises errors. A method
for one kind of receiver does not complain about its receiver if that is of the
kind (`Innocent`).
-/

namespace Garnet

open Interpreter

/-! ## Kinds of receivers -/

/-- **The kinds of values that have builtin methods of their own.** -/
inductive ReceiverKind where
  | array | string | integer | float | symbol | classValue
  deriving DecidableEq

namespace ReceiverKind

/-- The name of the class of a kind of values. -/
def className : ReceiverKind → String
  | array => "Array"
  | string => "String"
  | integer => "Integer"
  | float => "Float"
  | symbol => "Symbol"
  | classValue => "Class"

/-- **Whether a value is of a kind.** -/
def admits : ReceiverKind → Value → Bool
  | array, .array _ => true
  | string, .string .. => true
  | integer, .int _ => true
  | float, .float _ => true
  | symbol, .symbol .. => true
  | classValue, .classValue _ => true
  | _, _ => false

end ReceiverKind

/-- **The kind of receiver that a builtin method is made for**, if it is not
made for all. -/
def Builtin.receiver? : Builtin → Option ReceiverKind
  | .array _ => some .array
  | .string _ => some .string
  | .integer _ => some .integer
  | .floatToInteger => some .float
  | .symbol _ => some .symbol
  | .classValue _ => some .classValue
  | .object _ | .file _ | .processId | .main _ => none

/-- **Not a complaint about a receiver**: an error other than the one for a
receiver that is not of a kind, if it is. -/
def Innocent (k : ReceiverKind) (receiver : Value) (κ : ErrorKind) : Prop :=
  k.admits receiver → ∀ given, κ ≠ .type given k.className

namespace Innocent

variable {k : ReceiverKind} {receiver : Value} {κ : ErrorKind}

/-- An error that is about no value. -/
theorem of_ne_type (h : ∀ given expected, κ ≠ .type given expected) : Innocent k receiver κ :=
  fun _ given => h given k.className

/-- An error about a value that should have been something else. -/
theorem of_ne_className {expected given : String} (h : expected ≠ k.className) :
    Innocent k receiver (.type given expected) := by
  intro _ other heq
  injection heq with _ hexpected
  exact h hexpected

/-- Any error, if the receiver is not of the kind. -/
theorem of_not_admits (h : k.admits receiver = false) : Innocent k receiver κ := by
  intro hadmits
  rw [h] at hadmits
  cases hadmits

theorem argument (n : Nat) (expected : String) : Innocent k receiver (.argument n expected) :=
  of_ne_type fun _ _ => ErrorKind.noConfusion

end Innocent

/-! ## The values of an interpreter -/

namespace Value

/-- Whether a value is an error. -/
def isError : Value → Bool
  | .error .. => Bool.true
  | _ => Bool.false

/-- **Whether a value is plain**: neither a symbol, which is in the table of
symbols, nor an error, which was raised somewhere. -/
def isPlain : Value → Bool
  | .symbol .. | .error .. => Bool.false
  | _ => Bool.true

theorem isError_of_isPlain {v : Value} (h : v.isPlain) : v.isError = Bool.false := by
  cases v with
  | error id e => cases h
  | _ => rfl

theorem isPlain_ofBool (b : Bool) : (ofBool b).isPlain = Bool.true := by
  cases b with
  | false => rfl
  | true => rfl

end Value

/-- Whether a method is a builtin one, or does nothing, as those do that
programs define. -/
def MethodBody.isOwn : MethodBody → Bool
  | .doNothing | .builtin _ => true
  | _ => false

/-- **An interpreter whose values have a property**: those of names and
globals, the elements of arrays, and the top-level receiver; and its methods
another one. -/
structure Interpreter.Holds (P : Value → Prop) (M : MethodBody → Prop) (s : Interpreter) :
    Prop where
  /-- The values of names. -/
  objects : ∀ name v, s.objects.find? name = some v → P v
  /-- The values of globals. -/
  globals : ∀ name v, s.globals.find? name = some v → P v
  /-- The elements of arrays. -/
  elements : ∀ r, ∀ v ∈ s.heap.elements r, P v
  /-- The top-level receiver. -/
  main : P s.main
  /-- What methods do. -/
  methods : ∀ r, M (s.heap.method r).body

/-- What a name is bound to is an entry of the table. -/
theorem Bindings.mem_entries {α : Type} {b : Bindings α} {name : String} {a : α}
    (h : b.find? name = some a) : (name, a) ∈ b.entries := by
  obtain ⟨before, after, hentries, _⟩ := List.lookup_eq_some_iff.mp h
  rw [hentries]
  exact List.mem_append_right _ List.mem_cons_self

/-- Bindings whose values have a property, after another such value was
bound. -/
theorem Bindings.forall_set {P : Value → Prop} {b : Bindings Value}
    (hb : ∀ name w, b.find? name = some w → P w) (name : String) {v : Value} (hv : P v) :
    ∀ other w, (b.set name v).find? other = some w → P w := by
  intro other w hw
  rw [Bindings.find?_set] at hw
  split at hw
  · cases hw
    exact hv
  · exact hb other w hw

namespace Interpreter.Holds

variable {P Q : Value → Prop} {M : MethodBody → Prop} {s : Interpreter}

/-- Values may be expected to have less of a property. -/
theorem mono (hs : s.Holds P M) (hPQ : ∀ v, P v → Q v) : s.Holds Q M where
  objects name v hv := hPQ v (hs.objects name v hv)
  globals name v hv := hPQ v (hs.globals name v hv)
  elements r v hv := hPQ v (hs.elements r v hv)
  main := hPQ _ hs.main
  methods := hs.methods

/-- The elements of arrays after those of one array were set. -/
theorem setElements (hs : s.Holds P M) (r : ArrayRef) {vs : List Value} (hvs : ∀ v ∈ vs, P v) :
    ({ s with heap := s.heap.setElements r vs } : Interpreter).Holds P M :=
  { hs with
    elements := fun q v hv => by
      rw [Heap.elements_setElements] at hv
      split at hv
      · exact hvs v hv
      · exact hs.elements q v hv }

/-- The elements of arrays after a further one was made. -/
theorem newArray (hs : s.Holds P M) {vs : List Value} (hvs : ∀ v ∈ vs, P v) :
    ({ s with heap := (s.heap.newArray vs).2 } : Interpreter).Holds P M :=
  { hs with
    elements := fun r v hv => by
      change v ∈ (((s.heap.arrays.push vs)[r.index]?).getD []) at hv
      rw [Array.getElem?_push] at hv
      split at hv
      · exact hvs v hv
      · exact hs.elements r v hv }

theorem bind (hs : s.Holds P M) (name : String) {v : Value} (hv : P v) :
    (s.bind name v).Holds P M :=
  { hs with objects := Bindings.forall_set hs.objects name hv }

theorem bindGlobal (hs : s.Holds P M) (name : String) {v : Value} (hv : P v) :
    (s.bindGlobal name v).Holds P M :=
  { hs with globals := Bindings.forall_set hs.globals name hv }

/-- What is assigned is held afterwards. -/
theorem assign (hs : s.Holds P M) (lhs : Node) {v : Value} (hv : P v) :
    (Outcome.state (assign lhs v s)).Holds P M := by
  cases lhs with
  | bareReference name => exact hs.bind name hv
  | globalVariable name => exact hs.bindGlobal name hv
  | _ => exact hs

/-- **A method that a program defines** does nothing, and the values stay where
they are. -/
theorem define (hs : s.Holds P M) (hM : M .doNothing) (name : String) :
    (Outcome.state (define name s)).Holds P M := by
  have hentered {r : MethodRef} {h k : Heap}
      (hmade : s.heap.newMethod ⟨name, .implicitReceiver, .doNothing⟩ = (r, h))
      (harrays : k.arrays = h.arrays) (hmethods : k.methods = h.methods) :
      ({ s with heap := k } : Interpreter).Holds P M := by
    have hh : h = (s.heap.newMethod ⟨name, .implicitReceiver, .doNothing⟩).2 :=
      congrArg Prod.snd hmade.symm
    refine { hs with elements := fun a v hv => ?_, methods := fun q => ?_ }
    · refine hs.elements a v ?_
      unfold Heap.elements at hv ⊢
      rwa [harrays, hh] at hv
    · have hmethod : k.method q = h.method q := by
        unfold Heap.method
        rw [hmethods]
      show M (k.method q).body
      rw [hmethod, hh, Heap.method_newMethod]
      split
      · exact hM
      · exact hs.methods q
  obtain ⟨κ, hκ⟩ | ⟨r, h, hmade, ⟨c, hc⟩ | ⟨o, ho⟩⟩ := define_cases name s
  · rw [hκ]
    exact hs
  · rw [hc]
    exact hentered hmade rfl rfl
  · rw [ho]
    exact hentered hmade rfl rfl

/-- Taking back the note for a unit takes elements out of an array. -/
theorem unmarkLoaded (hs : s.Holds P M) (feature : String) :
    (unmarkLoaded feature s).Holds P M := by
  unfold Interpreter.unmarkLoaded
  split
  · next r _ => exact hs.setElements r fun v hv => hs.elements r v (List.mem_filter.mp hv).1
  · exact hs

end Interpreter.Holds

/-! ## Rules -/

/-- **The rules of a judgement on computations.** `Φ w p Q m` says of the
computation `m` that it raises errors only for reasons in `p`, if it is started
at the stage `w`, and that its result has the property `Q` at the stage where it
ends. `P` is what is known of values, and `M` what is known of methods. -/
structure StepRules {W : Type} (later : W → W → Prop) (P : W → Value → Prop)
    (M : MethodBody → Prop)
    (Φ : ∀ {α : Type}, W → (ErrorKind → Prop) → (W → α → Prop) → Eval α → Prop) : Prop where
  /-- What is known of a value stays known. -/
  mono : ∀ {w w' : W} {v : Value}, later w w' → P w v → P w' v
  /-- A result. -/
  pure : ∀ {α : Type} {w : W} {p : ErrorKind → Prop} {Q : W → α → Prop} {a : α}, Q w a →
    Φ w p Q (Pure.pure a)
  /-- One computation after another. -/
  bind : ∀ {α β : Type} {w : W} {p : ErrorKind → Prop} {Q : W → α → Prop} {R : W → β → Prop}
    {m : Eval α} {f : α → Eval β}, Φ w p Q m →
    (∀ w', later w w' → ∀ a, Q w' a → Φ w' p R (f a)) → Φ w p R (m >>= f)
  /-- Looking at the interpreter. -/
  get : ∀ {w : W} {p : ErrorKind → Prop}, Φ w p (fun w s => s.Holds (P w) M) get
  /-- Raising a new error. -/
  raise : ∀ {α : Type} {w : W} {p : ErrorKind → Prop} {Q : W → α → Prop} {κ : ErrorKind}, p κ →
    Φ w p Q (raise κ)
  /-- A reason to halt that is no error. -/
  throw : ∀ {α : Type} {w : W} {p : ErrorKind → Prop} {Q : W → α → Prop} {x : Halt},
    (∀ e, x ≠ .raised e) → Φ w p Q (throw x)

/-- **The rules of a judgement on computations that make values**, where the
property is known of all values that are plain. -/
structure ValueRules {W : Type} (later : W → W → Prop) (P : W → Value → Prop)
    (M : MethodBody → Prop)
    (Φ : ∀ {α : Type}, W → (ErrorKind → Prop) → (W → α → Prop) → Eval α → Prop) : Prop
    extends StepRules later P M Φ where
  /-- Every plain value has the property. -/
  plain : ∀ (w : W) {v : Value}, v.isPlain → P w v
  /-- A new string. -/
  newString : ∀ {w : W} {p : ErrorKind → Prop} (text : String), Φ w p P (newString text)
  /-- A new array. -/
  newArray : ∀ {w : W} {p : ErrorKind → Prop} {vs : List Value}, (∀ v ∈ vs, P w v) →
    Φ w p P (newArray vs)
  /-- A new object. -/
  newObject : ∀ {w : W} {p : ErrorKind → Prop} (r : ClassRef) (label : Option String),
    Φ w p P (newInstance r (.object label))
  /-- The symbol of a name. -/
  intern : ∀ {w : W} {p : ErrorKind → Prop} (name : String), Φ w p P (intern name)
  /-- Changing the elements of an array. -/
  updateElements : ∀ {w : W} {p : ErrorKind → Prop} (r : ArrayRef)
    {change : List Value → List Value},
    (∀ vs, (∀ v ∈ vs, P w v) → ∀ v ∈ change vs, P w v) →
    Φ w p (fun _ _ => True) (updateElements r change)
  /-- Printing a line. -/
  printLine : ∀ {w : W} {p : ErrorKind → Prop} (line : String),
    Φ w p (fun _ _ => True) (printLine line)

section Walk

variable {W : Type} {later : W → W → Prop} {P : W → Value → Prop} {M : MethodBody → Prop}
  {Φ : ∀ {α : Type}, W → (ErrorKind → Prop) → (W → α → Prop) → Eval α → Prop}
  {α β : Type} {w : W} {p : ErrorKind → Prop} {receiver : Value} {args : List Value}

namespace StepRules

variable (h : StepRules later P M Φ)

include h

/-- Values keep a property that all of them have. -/
theorem mono_all {w' : W} {vs : List Value} (hw : later w w') (hvs : ∀ v ∈ vs, P w v) :
    ∀ v ∈ vs, P w' v :=
  fun v hv => h.mono hw (hvs v hv)

/-- A computation whose result does not matter to what follows. -/
theorem after {Q : W → α → Prop} {R : W → β → Prop} {m : Eval α} {f : α → Eval β}
    (hm : Φ w p Q m) (hf : ∀ w', later w w' → ∀ a, Φ w' p R (f a)) : Φ w p R (m >>= f) :=
  h.bind hm fun w' hw a _ => hf w' hw a

/-- A computation for every element of a list, none of which depends on the
stage. -/
theorem mapM {Q : W → β → Prop} (hQ : ∀ {w w' b}, later w w' → Q w b → Q w' b) {f : α → Eval β}
    (hf : ∀ {w} a, Φ w p Q (f a)) (as : List α) :
    Φ w p (fun w bs => ∀ b ∈ bs, Q w b) (as.mapM f) := by
  induction as generalizing w with
  | nil => exact h.pure fun _ hb => absurd hb List.not_mem_nil
  | cons a as ih =>
    rw [List.mapM_cons]
    refine h.bind (hf a) fun w₁ _ b hb => h.bind ih fun w₂ h₂ bs hbs => h.pure ?_
    exact List.forall_mem_cons.mpr ⟨hQ h₂ hb, hbs⟩

/-! ### Checks -/

section Checks

variable (hcount : ∀ given expected, p (.argument given expected))

include hcount

theorem checkCount (args : List Value) (expected : Nat) :
    Φ w p (fun _ _ => True) (checkCount args expected) := by
  unfold Interpreter.checkCount
  split
  · exact h.pure trivial
  · exact h.raise (hcount _ _)

theorem checkCountBetween (args : List Value) (least most : Nat) :
    Φ w p (fun _ _ => True) (checkCountBetween args least most) := by
  unfold Interpreter.checkCountBetween
  split
  · exact h.pure trivial
  · exact h.raise (hcount _ _)

end Checks

theorem argument (hargs : ∀ v ∈ args, P w v) (place : Nat) : Φ w p P (argument args place) := by
  unfold Interpreter.argument
  split
  · next v hv => exact h.pure (hargs v (List.mem_of_getElem? hv))
  · exact h.throw fun _ => Halt.noConfusion

section Types

variable {Q : W → α → Prop} {expected : String} (htype : ∀ given, p (.type given expected))

include htype

theorem wrongArgument (v : Value) : Φ w p Q (wrongArgument v expected : Eval α) :=
  h.after h.get fun _ _ _ => h.raise (htype _)

theorem wrongReceiver (v : Value) : Φ w p Q (wrongReceiver v expected : Eval α) :=
  h.after h.get fun _ _ _ => h.raise (htype _)

end Types

theorem stringArgument (htype : ∀ given, p (.type given "String")) (v : Value) :
    Φ w p (fun _ _ => True) (stringArgument v) := by
  cases v with
  | string id text => exact h.pure trivial
  | _ => exact h.wrongArgument htype _

theorem nameArgument (htype : ∀ given, p (.type given "Symbol")) (v : Value) :
    Φ w p (fun _ _ => True) (nameArgument v) := by
  cases v with
  | string id text => exact h.pure trivial
  | symbol id name => exact h.pure trivial
  | _ => exact h.wrongArgument htype _

theorem textArgument (hp : ∀ κ, p κ) (hargs : ∀ v ∈ args, P w v) (place : Nat) :
    Φ w p (fun _ _ => True) (textArgument args place) :=
  h.after (h.argument hargs place) fun _ _ v => h.stringArgument (fun _ => hp _) v

theorem secondText? (hp : ∀ κ, p κ) : Φ w p (fun _ _ => True) (secondText? args) := by
  unfold Garnet.secondText?
  split
  · exact h.after (h.stringArgument (fun _ => hp _) _) fun _ _ _ => h.pure trivial
  · exact h.pure trivial

theorem onlyText (hp : ∀ κ, p κ) (hargs : ∀ v ∈ args, P w v) :
    Φ w p (fun _ _ => True) (onlyText args) :=
  h.after (h.checkCount (fun _ _ => hp _) args _) fun _ hw _ =>
    h.textArgument hp (h.mono_all hw hargs) 0

theorem separatorText (htype : ∀ given, p (.type given "String")) :
    Φ w p (fun _ _ => True) (separatorText args) := by
  unfold Garnet.separatorText
  split
  · exact h.stringArgument htype _
  · exact h.pure trivial

theorem arrayReceiver (hp : ∀ κ, Innocent .array receiver κ → p κ) :
    Φ w p (fun _ _ => True) (arrayReceiver receiver) := by
  cases receiver with
  | array r => exact h.pure trivial
  | _ => exact h.wrongReceiver (fun _ => hp _ (Innocent.of_not_admits rfl)) _

theorem elementsOf (hp : ∀ κ, Innocent .array receiver κ → p κ) :
    Φ w p (fun w vs => ∀ v ∈ vs, P w v) (elementsOf receiver) :=
  h.after (h.arrayReceiver hp) fun _ _ r => h.bind h.get fun _ _ _ hs => h.pure (hs.elements r)

/-- **The method that is found for a call** is one of the interpreter. -/
theorem callable (hp : ∀ κ, p κ) (receiver : Value) (func : String) (hasTarget : Bool) :
    Φ w p (fun _ m => M m.body) (callable receiver func hasTarget) := by
  unfold Interpreter.callable
  split
  · exact h.raise (hp _)
  refine h.bind h.get fun _ _ s hs => ?_
  split
  · exact h.raise (hp _)
  · next r _ =>
    dsimp only
    split
    · exact h.raise (hp _)
    · exact h.pure (hs.methods r)

/-- Reading a file changes nothing, and raises no error itself. -/
theorem readText (files : FileSystem) (path : String) :
    Φ w p (fun _ _ => True) (readText files path) := by
  unfold Interpreter.readText
  split
  · exact h.pure trivial
  · exact h.pure trivial
  · exact h.throw fun _ => Halt.noConfusion

end StepRules

namespace ValueRules

variable (h : ValueRules later P M Φ)

include h

theorem ofBool (b : Bool) : P w (.ofBool b) :=
  h.plain w (Value.isPlain_ofBool b)

/-! ### The builtin methods -/

theorem objectMethod (hp : ∀ κ, p κ) (hargs : ∀ v ∈ args, P w v) (m : ObjectMethod) :
    Φ w p P (m.call receiver args) := by
  have hcount (n : Nat) : Φ w p (fun _ _ => True) (Interpreter.checkCount args n) :=
    h.checkCount (fun _ _ => hp _) args n
  cases m with
  | toS => exact h.after (hcount _) fun _ _ _ => h.after h.get fun _ _ _ => h.newString _
  | inspect => exact h.after (hcount _) fun _ _ _ => h.after h.get fun _ _ _ => h.newString _
  | classOf =>
    exact h.after (hcount _) fun _ _ _ => h.after h.get fun w _ _ => h.pure (h.plain w rfl)
  | respondTo =>
    refine h.after (hcount _) fun _ hw _ => ?_
    refine h.after (h.argument (h.mono_all hw hargs) _) fun _ _ v => ?_
    refine h.after (h.nameArgument (fun _ => hp _) v) fun _ _ _ => ?_
    exact h.after h.get fun _ _ _ => h.pure (h.ofBool _)
  | isNil => exact h.after (hcount _) fun _ _ _ => h.pure (h.ofBool _)
  | isSame =>
    refine h.after (hcount _) fun _ hw _ => ?_
    exact h.after (h.argument (h.mono_all hw hargs) _) fun _ _ _ => h.pure (h.ofBool _)
  | isFrozen => exact h.after (hcount _) fun _ _ _ => h.pure (h.ofBool _)

/-- What a method of classes does with a class. -/
theorem onClass (hnew : ∀ shown, p (.noMethod "new" shown "Class")) (m : ClassMethod)
    (r : ClassRef) : Φ w p P (m.onClass r) := by
  refine h.after h.get fun w _ s => ?_
  cases m with
  | new =>
    dsimp only
    split
    · next factory _ =>
      cases factory with
      | object label => exact h.newObject r label
      | array => exact h.newArray fun _ hv => absurd hv List.not_mem_nil
      | string => exact h.newString _
    · exact h.raise (hnew _)
  | name => exact h.newString _
  | superclass =>
    dsimp only
    split
    · exact h.pure (h.plain w rfl)
    · exact h.pure (h.plain w rfl)
  | ancestors =>
    refine h.newArray fun v hv => ?_
    obtain ⟨c, _, rfl⟩ := List.mem_map.mp hv
    exact h.plain w rfl
  | instanceMethods =>
    exact h.bind (h.mapM (Q := P) h.mono h.intern _) fun _ _ _ hvs => h.newArray hvs

theorem classMethod (hp : ∀ κ, Innocent .classValue receiver κ → p κ) (m : ClassMethod) :
    Φ w p P (m.call receiver args) := by
  have hcount := h.checkCount (w := w) (fun _ _ => hp _ (Innocent.argument _ _)) args 0
  refine h.after hcount fun _ _ _ => ?_
  cases receiver with
  | classValue r =>
    exact h.onClass (fun _ => hp _ (Innocent.of_ne_type fun _ _ => ErrorKind.noConfusion)) m r
  | _ => exact h.wrongReceiver (fun _ => hp _ (Innocent.of_not_admits rfl)) _

theorem arrayMethod (hp : ∀ κ, Innocent .array receiver κ → p κ) (hreceiver : P w receiver)
    (hargs : ∀ v ∈ args, P w v) (m : ArrayMethod) : Φ w p P (m.call receiver args) := by
  have hcount (n : Nat) : Φ w p (fun _ _ => True) (Interpreter.checkCount args n) :=
    h.checkCount (fun _ _ => hp _ (Innocent.argument _ _)) args n
  cases m with
  | push =>
    refine h.after (h.arrayReceiver hp) fun w₁ h₁ r => ?_
    refine h.after (h.updateElements r fun vs hvs => ?_) fun w₂ h₂ _ => h.pure ?_
    · exact List.forall_mem_append.mpr ⟨hvs, h.mono_all h₁ hargs⟩
    · exact h.mono h₂ (h.mono h₁ hreceiver)
  | append =>
    refine h.after (hcount _) fun w₁ h₁ _ => h.after (h.arrayReceiver hp) fun w₂ h₂ r => ?_
    have hargs₂ := h.mono_all h₂ (h.mono_all h₁ hargs)
    refine h.bind (h.argument hargs₂ _) fun w₃ h₃ v hv => ?_
    refine h.after (h.updateElements r fun vs hvs => ?_) fun w₄ h₄ _ => h.pure ?_
    · exact List.forall_mem_append.mpr ⟨hvs, List.forall_mem_singleton.mpr hv⟩
    · exact h.mono h₄ (h.mono h₃ (h.mono h₂ (h.mono h₁ hreceiver)))
  | unshift =>
    refine h.after (h.arrayReceiver hp) fun w₁ h₁ r => ?_
    refine h.after (h.updateElements r fun vs hvs => ?_) fun w₂ h₂ _ => h.pure ?_
    · exact List.forall_mem_append.mpr ⟨h.mono_all h₁ hargs, hvs⟩
    · exact h.mono h₂ (h.mono h₁ hreceiver)
  | length =>
    exact h.after (hcount _) fun _ _ _ => h.after (h.elementsOf hp) fun w _ _ =>
      h.pure (h.plain w rfl)
  | first =>
    refine h.after (hcount _) fun _ _ _ => h.bind (h.elementsOf hp) fun w _ vs hvs => h.pure ?_
    cases vs with
    | nil => exact h.plain w rfl
    | cons v vs => exact hvs v List.mem_cons_self
  | last =>
    refine h.after (hcount _) fun _ _ _ => h.bind (h.elementsOf hp) fun w _ vs hvs => h.pure ?_
    cases hlast : vs.getLast? with
    | none => exact h.plain w rfl
    | some v => exact hvs v (List.mem_of_getLast? hlast)
  | includes =>
    refine h.after (hcount _) fun w₁ h₁ _ => h.after (h.elementsOf hp) fun w₂ h₂ _ => ?_
    refine h.after (h.argument (h.mono_all h₂ (h.mono_all h₁ hargs)) _) fun _ _ _ => ?_
    exact h.after h.get fun _ _ _ => h.pure (h.ofBool _)
  | isEmpty =>
    exact h.after (hcount _) fun _ _ _ => h.after (h.elementsOf hp) fun _ _ _ =>
      h.pure (h.ofBool _)
  | join =>
    have hbetween := h.checkCountBetween (w := w) (fun _ _ => hp _ (Innocent.argument _ _)) args 0 1
    -- an argument of the wrong kind is no complaint about the receiver
    have htype (given : String) : p (.type given "String") :=
      hp _ (Innocent.of_ne_className (by decide))
    refine h.after hbetween fun _ _ _ => h.after (h.separatorText htype) fun _ _ _ => ?_
    exact h.after (h.elementsOf hp) fun _ _ _ => h.after h.get fun _ _ _ => h.newString _

theorem stringMethod (hp : ∀ κ, Innocent .string receiver κ → p κ) (hreceiver : P w receiver)
    (m : StringMethod) : Φ w p P (m.call receiver args) := by
  have hcount := h.checkCount (w := w) (fun _ _ => hp _ (Innocent.argument _ _)) args 0
  refine h.after hcount fun w₁ h₁ _ => ?_
  have htext : Φ w₁ p (fun _ _ => True) (stringReceiver receiver) := by
    cases receiver with
    | string id text => exact h.pure trivial
    | _ => exact h.wrongReceiver (fun _ => hp _ (Innocent.of_not_admits rfl)) _
  refine h.after htext fun w₂ h₂ text => ?_
  cases m with
  | length => exact h.pure (h.plain w₂ rfl)
  | upcase => exact h.newString _
  | downcase => exact h.newString _
  | toSym => exact h.intern text
  | toS => exact h.pure (h.mono h₂ (h.mono h₁ hreceiver))
  | isEmpty => exact h.pure (h.ofBool _)

theorem integerMethod (hp : ∀ κ, Innocent .integer receiver κ → p κ) (m : IntegerMethod) :
    Φ w p P (m.call receiver args) := by
  have hcount := h.checkCount (w := w) (fun _ _ => hp _ (Innocent.argument _ _)) args 0
  refine h.after hcount fun w _ _ => ?_
  cases receiver with
  | int n =>
    cases m with
    | toF => exact h.pure (h.plain w rfl)
    | succ =>
      dsimp only
      split
      · exact h.raise (hp _ (Innocent.of_ne_type fun _ _ => ErrorKind.noConfusion))
      · exact h.pure (h.plain w rfl)
    | isZero => exact h.pure (h.ofBool _)
  | _ => exact h.wrongReceiver (fun _ => hp _ (Innocent.of_not_admits rfl)) _

theorem floatToInteger (hp : ∀ κ, Innocent .float receiver κ → p κ) :
    Φ w p P (floatToInteger receiver args) := by
  have hcount := h.checkCount (w := w) (fun _ _ => hp _ (Innocent.argument _ _)) args 0
  refine h.after hcount fun w _ _ => ?_
  cases receiver with
  | float x =>
    dsimp only
    split
    · exact h.pure (h.plain w rfl)
    · exact h.raise (hp _ (Innocent.of_ne_type fun _ _ => ErrorKind.noConfusion))
  | _ => exact h.wrongReceiver (fun _ => hp _ (Innocent.of_not_admits rfl)) _

theorem symbolMethod (hp : ∀ κ, Innocent .symbol receiver κ → p κ) (hreceiver : P w receiver)
    (m : SymbolMethod) : Φ w p P (m.call receiver args) := by
  have hcount := h.checkCount (w := w) (fun _ _ => hp _ (Innocent.argument _ _)) args 0
  refine h.after hcount fun _ hw _ => ?_
  cases m with
  | toSym => exact h.pure (h.mono hw hreceiver)
  | toS =>
    cases receiver with
    | symbol id name => exact h.newString name
    | _ => exact h.wrongReceiver (fun _ => hp _ (Innocent.of_not_admits rfl)) _

theorem fileMethod (hp : ∀ κ, p κ) (hargs : ∀ v ∈ args, P w v) (host : Host) (m : FileMethod) :
    Φ w p P (m.call host args) := by
  have hbetween := h.checkCountBetween (w := w) (fun _ _ => hp _) args 1 2
  have hone := h.checkCount (w := w) (fun _ _ => hp _) args 1
  have htext {w'} (hw : later w w') := h.textArgument hp (h.mono_all hw hargs) 0
  cases m with
  | join =>
    have hparts := h.mapM (w := w) (Q := fun _ _ => True) (fun _ _ => trivial)
      (fun v => h.stringArgument (p := p) (fun _ => hp _) v) args
    exact h.after hparts fun _ _ _ => h.newString _
  | basename =>
    refine h.after hbetween fun _ hw _ => h.after (htext hw) fun _ _ _ => ?_
    exact h.after (h.secondText? hp) fun _ _ _ => h.newString _
  | dirname => exact h.after hone fun _ hw _ => h.after (htext hw) fun _ _ _ => h.newString _
  | isPresent =>
    refine h.after hone fun _ hw _ => h.after (htext hw) fun w _ path => ?_
    unfold existsAt
    split
    · exact h.pure (h.plain w rfl)
    · exact h.pure (h.plain w rfl)
    · exact h.throw fun _ => Halt.noConfusion
  | expandPath =>
    refine h.after hbetween fun _ hw _ => h.after (htext hw) fun _ _ _ => ?_
    refine h.after (h.secondText? hp) fun _ _ _ => ?_
    unfold expandedPath
    split
    · exact h.newString _
    · exact h.raise (hp _)

theorem printLines (lines : List String) : Φ w p (fun _ _ => True) (printLines lines) := by
  induction lines generalizing w with
  | nil => exact h.pure trivial
  | cons line lines ih => exact h.after (h.printLine line) fun _ _ _ => ih

theorem puts (args : List Value) : Φ w p P (puts args) :=
  h.after h.get fun _ _ _ => h.after (h.printLines _) fun w _ _ => h.pure (h.plain w rfl)

/-- **Raising what is given to the method `raise`**, which is a new error
unless it is an error already. -/
theorem raiseArgument (hp : ∀ κ, p κ) (hargs : ∀ v ∈ args, v.isError = false) (host : Host)
    (run : String → Eval Value) : Φ w p P (MainMethod.raise.call host run args) := by
  refine h.after (h.checkCountBetween (fun _ _ => hp _) args _ _) fun _ _ _ => ?_
  cases args with
  | nil => exact h.raise (hp _)
  | cons v vs =>
    refine h.after h.get fun _ _ s => ?_
    have hv := hargs v List.mem_cons_self
    cases v with
    | error id e => cases hv
    | _ => exact h.raise (hp _)

/-- **What a builtin method does** that runs no source text. What becomes of an
error that is raised again is left open. -/
theorem builtin {b : Builtin} (hruns : (MethodBody.builtin b).runsText = false) (host : Host)
    (run : String → Eval Value)
    (hraise : b = .main .raise → Φ w (fun κ => ∀ k, b.receiver? = some k → Innocent k receiver κ) P
      (MainMethod.raise.call host run args))
    (hreceiver : P w receiver) (hargs : ∀ v ∈ args, P w v) :
    Φ w (fun κ => ∀ k, b.receiver? = some k → Innocent k receiver κ) P
      (b.call host run receiver args) := by
  have hkind {k : ReceiverKind} (κ : ErrorKind) (hκ : Innocent k receiver κ) :
      ∀ k', some k = some k' → Innocent k' receiver κ := by
    intro k' hk
    cases hk
    exact hκ
  have hnone (κ : ErrorKind) : ∀ k, none = some k → Innocent k receiver κ :=
    fun _ hk => by cases hk
  cases b with
  | object m => exact h.objectMethod hnone hargs m
  | classValue m => exact h.classMethod hkind m
  | array m => exact h.arrayMethod hkind hreceiver hargs m
  | string m => exact h.stringMethod hkind hreceiver m
  | integer m => exact h.integerMethod hkind m
  | floatToInteger => exact h.floatToInteger hkind
  | symbol m => exact h.symbolMethod hkind hreceiver m
  | file m => exact h.fileMethod hnone hargs host m
  | processId =>
    exact h.after (h.checkCount (fun _ _ => hnone _) args _) fun w _ _ => h.pure (h.plain w rfl)
  | main m =>
    cases m with
    | toS => exact h.after (h.checkCount (fun _ _ => hnone _) args _) fun _ _ _ => h.newString _
    | puts => exact h.puts args
    -- the two that come back to the evaluator
    | require => cases hruns
    | load => cases hruns
    | raise => exact hraise rfl

/-! ### The other steps of an evaluation -/

theorem globalValue (name : String) : Φ w p P (globalValue name) := by
  refine h.bind h.get fun w _ s hs => h.pure ?_
  cases hv : s.globals.find? name with
  | none => exact h.plain w rfl
  | some v => exact hs.globals name v hv

theorem reference (hp : ∀ κ, p κ) {self : Value} (hself : P w self) (name : String) :
    Φ w p P (reference self name) := by
  unfold Interpreter.reference
  split
  · exact h.pure (h.plain w rfl)
  split
  · exact h.pure hself
  refine h.bind h.get fun _ _ s hs => ?_
  split
  · next v hv => exact h.pure (hs.objects name v hv)
  · exact h.raise (hp _)

/-- Noting that a unit is loaded puts a string into an array. -/
theorem markLoaded (feature : String) : Φ w p (fun _ _ => True) (markLoaded feature) := by
  refine h.after h.get fun _ _ s => ?_
  split
  · next r _ =>
    refine h.bind (h.newString feature) fun w₁ _ v hv => ?_
    show Φ w₁ p _ (Garnet.updateElements r (· ++ [v]))
    refine h.updateElements r fun vs hvs => ?_
    exact List.forall_mem_append.mpr ⟨hvs, List.forall_mem_singleton.mpr hv⟩
  · exact h.pure trivial

end ValueRules

end Walk

end Garnet
