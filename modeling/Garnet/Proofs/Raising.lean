import Garnet.Proofs.Values

/-!
# What the steps of an evaluation raise

A builtin method that runs no source text leaves the active calls alone, and
an error that it raises is a new one: it carries the backtrace of the calls
that are active when the method is entered (`Behaves`). The only way to raise
an error that exists already is to hand it to the method `raise`. The other
steps of an evaluation – looking up a name or a method, defining one, binding –
are no different.

This obeys the rules of a judgement on computations (`Behaves.rules`), for every
property that all values have which are no errors. So the results of builtin
methods have the property, too, and the values that an interpreter holds keep
it.
-/

namespace Garnet

open Interpreter

/-- Raising an error does not change its cause. -/
theorem Error.kind_raisedAt (e : Error) (stack : CallStack) : (e.raisedAt stack).kind = e.kind := by
  unfold raisedAt withBacktrace
  split
  · rfl
  · rfl

/-- **A proper outcome** of a computation that starts at `s`. -/
structure Outcome.Proper {α : Type} (P : Value → Prop) (M : MethodBody → Prop)
    (p : ErrorKind → Prop) (Q : α → Prop) (s : Interpreter)
    (o : EStateM.Result Halt Interpreter α) : Prop where
  /-- The active calls are the same afterwards. -/
  stack : (Outcome.state o).stack = s.stack
  /-- The values and methods of the interpreter have their properties. -/
  holds : (Outcome.state o).Holds P M
  /-- The result has its property. -/
  yields : ∀ a t, o = .ok a t → Q a
  /-- An error is a new one. -/
  raised : ∀ x t, o = .error (.raised x) t → ∃ κ, p κ ∧ x = (Error.ofKind κ).raisedAt s.stack

/-- **A computation that raises new errors only**, with the backtrace of where
it starts and for a reason in `p`. It leaves the active calls alone; the values
of the interpreter keep the property `P`, its methods the property `M`, and
its own result has the property `Q`. -/
def Behaves {α : Type} (P : Value → Prop) (M : MethodBody → Prop) (p : ErrorKind → Prop)
    (Q : α → Prop) (m : Eval α) : Prop :=
  ∀ s : Interpreter, s.Holds P M → Outcome.Proper P M p Q s (m s)

namespace Behaves

variable {α β : Type} {P : Value → Prop} {M : MethodBody → Prop} {p : ErrorKind → Prop}

/-! ## What computations are made of -/

/-- A computation that ends with a value, and leaves the active calls and the
properties of values alone. -/
theorem of_ok {Q : α → Prop} {m : Eval α}
    (h : ∀ s : Interpreter, s.Holds P M → ∃ a t, m s = .ok a t ∧ Q a ∧ t.stack = s.stack ∧
      t.Holds P M) : Behaves P M p Q m := by
  intro s hs
  obtain ⟨a, t, ha, hQ, hstack, ht⟩ := h s hs
  rw [ha]
  refine ⟨hstack, ht, fun b u hb => ?_, fun x u hx => ?_⟩
  · cases hb
    exact hQ
  · cases hx

theorem pure {Q : α → Prop} {a : α} (ha : Q a) : Behaves P M p Q (pure a : Eval α) :=
  of_ok fun s hs => ⟨a, s, rfl, ha, rfl, hs⟩

theorem get : Behaves P M p (Holds P M) (get : Eval Interpreter) :=
  of_ok fun s hs => ⟨s, s, rfl, hs, rfl, hs⟩

/-- **One computation after another.** -/
theorem bind {Q : α → Prop} {R : β → Prop} {m : Eval α} {f : α → Eval β}
    (hm : Behaves P M p Q m) (hf : ∀ a, Q a → Behaves P M p R (f a)) :
    Behaves P M p R (m >>= f) := by
  intro s hs
  have hms := hm s hs
  cases hma : m s with
  | ok a t =>
    rw [hma] at hms
    rw [Outcome.bind_of_ok hma]
    have hstack : t.stack = s.stack := hms.stack
    have hfa := hf a (hms.yields a t rfl) t hms.holds
    exact ⟨hfa.stack.trans hstack, hfa.holds, hfa.yields, hstack ▸ hfa.raised⟩
  | error x t =>
    rw [hma] at hms
    rw [Outcome.bind_of_error hma]
    refine ⟨hms.stack, hms.holds, fun b u hb => ?_, fun y u hy => ?_⟩
    · cases hb
    · cases hy
      exact hms.raised y t rfl

/-- **Raising a new error.** -/
theorem raise {Q : α → Prop} {κ : ErrorKind} (hκ : p κ) :
    Behaves P M p Q (raise κ : Eval α) := by
  refine fun s hs => ⟨rfl, hs, fun a t ha => ?_, fun x t hx => ?_⟩
  · cases ha
  · cases hx
    exact ⟨κ, hκ, rfl⟩

/-- A reason to halt that is no error. -/
theorem throw {Q : α → Prop} {h : Halt} (hh : ∀ e, h ≠ .raised e) :
    Behaves P M p Q (throw h : Eval α) := by
  refine fun s hs => ⟨rfl, hs, fun a t ha => ?_, fun x t hx => ?_⟩
  · cases ha
  · cases hx
    exact absurd rfl (hh x)

/-- New errors may be expected for more reasons. -/
theorem because {q : ErrorKind → Prop} {Q : α → Prop} {m : Eval α} (hm : Behaves P M p Q m)
    (hpq : ∀ κ, p κ → q κ) : Behaves P M q Q m :=
  fun s hs => { hm s hs with
    raised := fun x t hx => by
      obtain ⟨κ, hκ, hnew⟩ := (hm s hs).raised x t hx
      exact ⟨κ, hpq κ hκ, hnew⟩ }

/-- **Raising new errors only is a judgement on computations** that does not
depend on a stage. -/
theorem steps : StepRules (fun _ _ : Unit => True) (fun _ => P) M
    fun {_} _ p Q m => Behaves P M p (Q ()) m where
  mono _ := id
  pure := pure
  bind hm hf := bind hm (hf () trivial)
  get := get
  raise := raise
  throw := throw

section Steps

variable {args : List Value}

/-- A computation for every element of a list. -/
theorem mapM {Q : β → Prop} {f : α → Eval β} (hf : ∀ a, Behaves P M p Q (f a)) (as : List α) :
    Behaves P M p (fun bs => ∀ b ∈ bs, Q b) (as.mapM f) :=
  (steps (P := P) (M := M)).mapM (w := ()) (Q := fun _ => Q) (fun _ => id) (fun {_} => hf) as

theorem onlyText (hp : ∀ κ, p κ) (hargs : ∀ v ∈ args, P v) :
    Behaves P M p (fun _ => True) (onlyText args) :=
  steps.onlyText (w := ()) hp hargs

/-- **The method that is found for a call** is one of the interpreter. -/
theorem callable (hp : ∀ κ, p κ) (receiver : Value) (func : String) (hasTarget : Bool) :
    Behaves P M p (fun m => M m.body) (callable receiver func hasTarget) :=
  (steps (P := P)).callable (w := ()) hp receiver func hasTarget

/-- Reading a file changes nothing, and raises no error itself. -/
theorem readText (files : FileSystem) (path : String) :
    Behaves P M p (fun _ => True) (readText files path) :=
  (steps (P := P) (M := M)).readText (w := ()) files path

end Steps

/-! ## Values that are made -/

/-- A new array. -/
theorem newArray {vs : List Value} (hP : ∀ r, P (.array r)) (hvs : ∀ v ∈ vs, P v) :
    Behaves P M p P (newArray vs) :=
  of_ok fun _ hs => ⟨_, _, rfl, hP _, rfl, hs.newArray hvs⟩

/-- A new string. -/
theorem newString (hP : ∀ id text, P (.string id text)) (text : String) :
    Behaves P M p P (newString text) :=
  of_ok fun _ hs => ⟨_, _, rfl, hP _ _, rfl, { hs with elements := hs.elements }⟩

section Values

variable (hP : ∀ v : Value, v.isError = false → P v)

include hP

theorem intern (name : String) : Behaves P M p P (intern name) := by
  refine of_ok fun s hs => ?_
  unfold Interpreter.intern
  split
  · exact ⟨_, _, rfl, hP _ rfl, rfl, hs⟩
  · exact ⟨_, _, rfl, hP _ rfl, rfl, { hs with elements := hs.elements }⟩

/-- **The values of a computation that raises new errors only** have every
property that all values have which are no errors. -/
theorem rules : ValueRules (fun _ _ : Unit => True) (fun _ => P) M
    fun {_} _ p Q m => Behaves P M p (Q ()) m where
  toStepRules := steps
  plain _ v hv := hP v (Value.isError_of_isPlain hv)
  newString := newString fun _ _ => hP _ rfl
  newArray := newArray fun _ => hP _ rfl
  newObject _ _ := of_ok fun _ hs => ⟨_, _, rfl, hP _ rfl, rfl, { hs with elements := hs.elements }⟩
  intern := intern hP
  updateElements r _ h :=
    of_ok fun _ hs => ⟨(), _, rfl, trivial, rfl, hs.setElements r (h _ (hs.elements r))⟩
  printLine _ := of_ok fun _ hs => ⟨(), _, rfl, trivial, rfl, { hs with elements := hs.elements }⟩

/-! ## The builtin methods and the other steps -/

variable {receiver : Value} {args : List Value}

/-- **What a builtin method does** that runs no source text. -/
theorem builtin {b : Builtin} (hruns : (MethodBody.builtin b).runsText = false)
    (hraise : b = .main .raise → ∀ v ∈ args, v.isError = false) (hreceiver : P receiver)
    (hargs : ∀ v ∈ args, P v) (host : Host) (run : String → Eval Value) :
    Behaves P M (fun κ => ∀ k, b.receiver? = some k → Innocent k receiver κ) P
      (b.call host run receiver args) := by
  refine (rules hP).builtin (w := ()) hruns host run (fun heq => ?_) hreceiver hargs
  refine (rules hP).raiseArgument (w := ()) (fun κ k hk => ?_) (hraise heq) host run
  rw [heq] at hk
  cases hk

theorem globalValue (name : String) : Behaves P M p P (globalValue name) :=
  (rules hP).globalValue (w := ()) name

theorem reference (hp : ∀ κ, p κ) {self : Value} (hself : P self) (name : String) :
    Behaves P M p P (reference self name) :=
  (rules hP).reference (w := ()) hp hself name

/-- Noting that a unit is loaded puts a string into an array. -/
theorem markLoaded (feature : String) : Behaves P M p (fun _ => True) (markLoaded feature) :=
  (rules hP).markLoaded (w := ()) feature

/-- **The definition of a method** that does nothing. -/
theorem define (hp : ∀ κ, p κ) (hM : M .doNothing) (name : String) :
    Behaves P M p P (define name) := by
  intro s hs
  have hholds := hs.define hM name
  obtain ⟨κ, hκ⟩ | ⟨r, h, _, ⟨c, hc⟩ | ⟨o, ho⟩⟩ := define_cases name s
  · rw [hκ] at hholds ⊢
    refine ⟨rfl, hholds, fun a t ha => ?_, fun x t hx => ?_⟩
    · cases ha
    · cases hx
      exact ⟨κ, hp κ, rfl⟩
  · rw [hc] at hholds ⊢
    refine ⟨rfl, hholds, fun a t ha => ?_, fun x t hx => ?_⟩
    · cases ha
      exact hP _ rfl
    · cases hx
  · rw [ho] at hholds ⊢
    refine ⟨rfl, hholds, fun a t ha => ?_, fun x t hx => ?_⟩
    · cases ha
      exact hP _ rfl
    · cases hx

end Values

/-- **Binding a value** that has the property. -/
theorem assign (lhs : Node) {v : Value} (hv : P v) :
    Behaves P M p (fun _ => True) (assign lhs v) := by
  refine fun s hs => ⟨?_, hs.assign lhs hv, fun _ _ _ => trivial, fun x t hx => ?_⟩
  · cases lhs <;> rfl
  · cases lhs <;> cases hx

end Behaves

/-! ## New interpreters -/

namespace Interpreter

/-- **An interpreter with plain values only**, and with no methods but builtin
ones and those that do nothing. -/
abbrev IsPlain (s : Interpreter) : Prop :=
  s.Holds (fun v => v.isPlain) fun b => b.isOwn

/-- What an interpreter gets to know about its program are strings and arrays of
strings. -/
theorem behaves_bindProgram (programName : String) (loadPath argv : List String) :
    Behaves (fun v => v.isPlain) (fun b => b.isOwn) (fun _ => True) (fun _ => True)
      (bindProgram programName loadPath argv) := by
  have hstrings (texts : List String) :
      Behaves (fun v => v.isPlain) (fun b => b.isOwn) (fun _ => True) (fun v => v.isPlain)
        (newStrings texts) :=
    Behaves.bind (Behaves.mapM (Behaves.newString fun _ _ => rfl) texts) fun _ hvs =>
      Behaves.newArray (fun _ => rfl) hvs
  have hbind {f : Interpreter → Interpreter} (hf : ∀ s : Interpreter, s.IsPlain →
      (f s).IsPlain ∧ (f s).stack = s.stack) :
      Behaves (fun v => v.isPlain) (fun b => b.isOwn) (fun _ => True) (fun _ => True) (modify f) :=
    Behaves.of_ok fun s hs => ⟨(), f s, rfl, trivial, (hf s hs).2, (hf s hs).1⟩
  refine Behaves.bind (hstrings argv) fun arguments ha => ?_
  refine Behaves.bind (hstrings loadPath) fun dirs hd => ?_
  refine Behaves.bind (Behaves.newArray (fun _ => rfl) fun _ hv => absurd hv List.not_mem_nil) ?_
  intro features hf
  refine Behaves.bind (Behaves.newString (fun _ _ => rfl) programName) fun name hn => ?_
  refine Behaves.bind (hbind fun s hs => ⟨hs.bind _ ha, rfl⟩) fun _ _ => ?_
  refine Behaves.bind (hbind fun s hs => ⟨(hs.bindGlobal _ hd).bindGlobal _ hd, rfl⟩) fun _ _ => ?_
  refine Behaves.bind (hbind fun s hs => ⟨(hs.bindGlobal _ hf).bindGlobal _ hf, rfl⟩) fun _ _ => ?_
  exact hbind fun s hs => ⟨(hs.bindGlobal _ hn).bindGlobal _ hn, rfl⟩

/-- The classes are plain values. -/
theorem isPlain_bindClasses {s : Interpreter} (hs : s.IsPlain) : (bindClasses s).IsPlain := by
  unfold bindClasses
  generalize Startup.visibleClasses = names
  induction names generalizing s with
  | nil => exact hs
  | cons name names ih =>
    rw [List.foldl_cons]
    split
    · exact ih (hs.bind name rfl)
    · exact ih hs

/-- **A new interpreter has plain values only.** -/
theorem isPlain_start (programName : String) (loadPath argv : List String) :
    (start programName loadPath argv).IsPlain := by
  let k := (Startup.mainObject Startup.classes.1 Startup.classes.2).2
  have harrays : k.arrays.size = 0 := by decide +kernel
  have hmethods : k.methods.all (·.body.isOwn) = true := by decide +kernel
  have hbare : (bare programName).IsPlain :=
    { objects := fun _ _ hv => by cases hv
      globals := fun _ _ hv => by cases hv
      elements := fun r v hv => by
        obtain ⟨i, hi, _⟩ := List.mem_map.mp (Heap.mem_arrayRefs hv)
        exact absurd (harrays ▸ List.mem_range.mp hi : i < 0) (Nat.not_lt_zero i)
      main := rfl
      methods := Heap.forall_method hmethods rfl }
  have hclasses := isPlain_bindClasses (hbare.bind "main" hbare.main)
  have hprogram := (behaves_bindProgram programName loadPath argv _ hclasses).holds
  unfold start
  dsimp only
  split
  · next heq =>
    rw [heq] at hprogram
    exact hprogram
  · next heq =>
    rw [heq] at hprogram
    exact hprogram

end Interpreter

end Garnet
