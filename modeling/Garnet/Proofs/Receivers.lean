import Garnet.Proofs.Evolution
import Garnet.Proofs.Raising
import Mathlib.Tactic.MkIffOfInductiveProp

/-!
# Builtin methods meet the receivers they are made for

The builtin methods of arrays, strings, numbers, symbols and classes check that
their receiver is what they are made for. Programs cannot make these checks
fail, whatever they bind to the names of classes and of the top-level receiver,
and whatever objects they make.

The reason lies in the hierarchy at the start (`Startup.apart`): no class
extends or includes one of the six classes, their methods stand in no other
table, and none of them makes objects. Classes evolve in such a way that this
stays so, and a search that ends at a builtin method ends in a table where that
method stood at the start.
-/

namespace Garnet

open Interpreter

/-! ## The six classes at the start -/

namespace Startup

/-- The heap of a new interpreter, before it knows its program. -/
def heap : Heap :=
  (mainObject classes.1 classes.2).2

/-- The class of a kind of values. -/
def home (k : ReceiverKind) : ClassRef :=
  classes.2.resolve k.className

/-- The methods that stand in the table of that class. -/
def own (k : ReceiverKind) : List MethodRef :=
  (heap.classAt (home k)).methods.values

end Startup

/-- Whether a class makes objects. -/
def Class.makesObjects (c : Class) : Bool :=
  match c.factory with
  | some (.object _) => true
  | _ => false

/-- The kind of receiver that a method is made for. -/
def MethodBody.receiver? : MethodBody → Option ReceiverKind
  | .builtin b => b.receiver?
  | _ => none

namespace Startup

/-- Whether a method stands in the table of the class of a kind of values, or is
made for such values. -/
def serves (r : MethodRef) (k : ReceiverKind) : Bool :=
  (own k).contains r || (heap.method r).body.receiver? == some k

/-- **The class of a kind of values stands apart** at the start. -/
@[mk_iff]
structure Apart (k : ReceiverKind) : Prop where
  /-- It is none that a place outside the row of objects would lead to. -/
  index : home k ≠ ⟨0⟩
  /-- It makes no objects. -/
  factory : (heap.classAt (home k)).makesObjects = false
  /-- Its methods exist. -/
  exist : ∀ r ∈ own k, r.index < heap.methods.size
  /-- No class extends it. -/
  superclass : ∀ i < heap.classes.size, (heap.classAt ⟨i⟩).superclass ≠ some (home k)
  /-- No class includes it. -/
  includes : ∀ i < heap.classes.size, home k ∉ (heap.classAt ⟨i⟩).includes
  /-- The methods that serve its values stand in no table of another class. -/
  instances : ∀ i < heap.classes.size, ∀ r ∈ (heap.classAt ⟨i⟩).methods.values,
    serves r k → home k = ⟨i⟩
  /-- They are no methods of a class itself. -/
  classes : ∀ i < heap.classes.size, ∀ r ∈ (heap.classAt ⟨i⟩).classMethods.values,
    serves r k = false
  /-- They are no methods of an object. -/
  methods : ∀ i < heap.objects.size, ∀ r ∈ (heap.object ⟨i⟩).methods.values,
    serves r k = false
  /-- No object belongs to it. -/
  objects : ∀ i < heap.objects.size, (heap.object ⟨i⟩).classRef ≠ home k

instance (k : ReceiverKind) : Decidable (Apart k) :=
  decidable_of_iff _ (apart_iff k).symm

/-- All kinds of receivers. -/
def receiverKinds : List ReceiverKind :=
  [.array, .string, .integer, .float, .symbol, .classValue]

theorem mem_receiverKinds (k : ReceiverKind) : k ∈ receiverKinds := by
  cases k <;> decide

theorem apart (k : ReceiverKind) : Apart k := by
  have hall : ∀ k ∈ receiverKinds, Apart k := by decide +kernel
  exact hall k (mem_receiverKinds k)

/-- The names of the classes of errors. -/
def errorClasses : List String :=
  ["ParseError", "NameError", "NoMethodError", "LoadError", "ArgumentError", "TypeError",
    "RuntimeError"]

/-- The names of the classes of values that are no objects. -/
def valueClasses : List String :=
  ["NilClass", "TrueClass", "FalseClass", "Integer", "Float", "String", "Symbol", "Array", "Class",
    "Method"] ++ errorClasses

theorem mem_errorClasses (κ : ErrorKind) : κ.className ∈ errorClasses := by
  cases κ <;> simp [errorClasses, ErrorKind.className]

/-- Each of these names stands for a class of its own. -/
theorem className_of_resolve {k : ReceiverKind} {name : String} (hname : name ∈ valueClasses)
    (h : Startup.classes.2.resolve name = home k) : name = k.className := by
  have hall : ∀ k ∈ receiverKinds, ∀ name ∈ valueClasses,
      Startup.classes.2.resolve name = home k → name = k.className := by
    decide +kernel
  exact hall k (mem_receiverKinds k) name hname h

end Startup

/-! ## Where a search ends -/

/-- What a name is bound to is one of the values of a table. -/
theorem Bindings.mem_values {α : Type} {b : Bindings α} {name : String} {a : α}
    (h : b.find? name = some a) : a ∈ b.values :=
  List.mem_map.mpr ⟨(name, a), mem_entries h, rfl⟩

namespace Heap

/-- **What is found for the instances of a class** stands in the table of that
class, or of one that some class extends or includes. -/
theorem table_of_instanceMethodWithin {h : Heap} {name : String} {room : Nat} {c : ClassRef}
    {r : MethodRef} (hr : h.instanceMethodWithin name room c = some r) :
    ∃ q, (h.classAt q).methods.find? name = some r ∧
      (q = c ∨ ∃ d, (h.classAt d).superclass = some q ∨ q ∈ (h.classAt d).includes) := by
  induction room generalizing c with
  | zero => cases hr
  | succ room ih =>
    rw [instanceMethodWithin] at hr
    split at hr
    · next hfound =>
      cases hr
      exact ⟨c, hfound, Or.inl rfl⟩
    · split at hr
      · next hfound =>
        cases hr
        obtain ⟨q, hq, hrq⟩ := List.exists_of_findSome?_eq_some hfound
        obtain ⟨p, hp, hpq⟩ := ih hrq
        refine ⟨p, hp, Or.inr ?_⟩
        obtain rfl | hd := hpq
        · exact ⟨c, Or.inr hq⟩
        · exact hd
      · obtain ⟨q, hq, hrq⟩ := Option.bind_eq_some_iff.mp hr
        obtain ⟨p, hp, hpq⟩ := ih hrq
        refine ⟨p, hp, Or.inr ?_⟩
        obtain rfl | hd := hpq
        · exact ⟨c, Or.inl hq⟩
        · exact hd

end Heap

namespace Startup

variable {h : Heap} {k : ReceiverKind} {r : MethodRef}

/-- A method that serves the values of a kind is none that a program
defined. -/
theorem serves_old (hr : serves r k) : r.index < heap.methods.size := by
  obtain hlt | hge := Nat.lt_or_ge r.index heap.methods.size
  · exact hlt
  -- outside the row of methods at the start, nothing serves anyone
  · unfold serves at hr
    rw [Bool.or_eq_true, List.contains_iff_mem] at hr
    obtain hown | hbody := hr
    · exact absurd ((apart k).exist r hown) (Nat.not_lt_of_le hge)
    · have hnone : heap.methods[r.index]? = none := Array.getElem?_eq_none hge
      have hempty : (heap.method r).body = .doNothing := by
        unfold Heap.method
        rw [hnone]
        rfl
      rw [hempty] at hbody
      cases hbody

/-- **A class in whose table such a method stands** is the class of the kind. -/
theorem home_of_instances (hh : heap.Evolves (fun _ => True) h) (hr : serves r k) {q : ClassRef}
    {name : String} (hq : (h.classAt q).methods.find? name = some r) : home k = q := by
  have hfound := (hh.instanceMethods q).find?_of_old hq (serves_old hr)
  obtain hlt | hge := Nat.lt_or_ge q.index heap.classes.size
  · exact (apart k).instances q.index hlt r (Bindings.mem_values hfound) hr
  · rw [Heap.classAt_of_le hge] at hfound
    cases hfound

/-- **No class is searched on the way to the class of a kind**: the search
starts there. -/
theorem home_of_instanceMethod? (hh : heap.Evolves (fun _ => True) h) (hr : serves r k)
    {c : ClassRef} {name : String} (hc : h.instanceMethod? c name = some r) : home k = c := by
  obtain ⟨q, hq, hqc⟩ := Heap.table_of_instanceMethodWithin hc
  obtain rfl := home_of_instances hh hr hq
  obtain heq | ⟨d, hd⟩ := hqc
  · exact heq
  · rw [hh.superclass, hh.includes] at hd
    obtain hlt | hge := Nat.lt_or_ge d.index heap.classes.size
    · exact (hd.elim ((apart k).superclass d.index hlt) ((apart k).includes d.index hlt)).elim
    · rw [Heap.classAt_of_le hge] at hd
      obtain hd | hd := hd
      · cases hd
      · cases hd

/-- Such a method is none of a class itself. -/
theorem not_classMethod? (hh : heap.Evolves (fun _ => True) h) (hr : serves r k) {c : ClassRef}
    {name : String} : h.classMethod? c name ≠ some r := by
  intro hc
  obtain ⟨q, _, hq⟩ := List.exists_of_findSome?_eq_some hc
  rw [hh.classMethods] at hq
  obtain hlt | hge := Nat.lt_or_ge q.index heap.classes.size
  · rw [(apart k).classes q.index hlt r (Bindings.mem_values hq)] at hr
    cases hr
  · rw [Heap.classAt_of_le hge] at hq
    cases hq

/-- Nor of an object. -/
theorem not_objectMethod (hh : heap.Evolves (fun _ => True) h) (hr : serves r k) {o : ObjectRef}
    {name : String} : (h.object o).methods.find? name ≠ some r := by
  intro ho
  have hfound := (hh.objectMethods o).find?_of_old ho (serves_old hr)
  obtain hlt | hge := Nat.lt_or_ge o.index heap.objects.size
  · rw [(apart k).methods o.index hlt r (Bindings.mem_values hfound)] at hr
    cases hr
  · unfold Heap.object at hfound
    rw [Array.getElem?_eq_none hge] at hfound
    cases hfound

/-- **No object belongs to the class of a kind**, however it was made. -/
theorem home_ne_classRef (hh : heap.Evolves (fun _ => True) h) (o : ObjectRef) :
    home k ≠ (h.object o).classRef := by
  intro heq
  obtain hold | hge := Nat.lt_or_ge o.index heap.objects.size
  · rw [(hh.objects o hold).1] at heq
    exact (apart k).objects o.index hold heq.symm
  · obtain hlt | hout := Nat.lt_or_ge o.index h.objects.size
    · have hmade := hh.newObjects o hge hlt
      have hmakes := (apart k).factory
      rw [← heq] at hmade
      unfold Class.makesObjects at hmakes
      rw [hmade] at hmakes
      cases hmakes
    · unfold Heap.object at heq
      rw [Array.getElem?_eq_none hout] at heq
      exact (apart k).index heq

/-- The class of a value that is no object has one of the names at the start. -/
theorem className_mem {v : Value} (hv : ∀ o, v ≠ .object o) : v.className h ∈ valueClasses := by
  cases v with
  | object o => exact absurd rfl (hv o)
  | error id e => exact List.mem_append_right _ (mem_errorClasses e.kind)
  | _ => simp [valueClasses, Value.className]

/-- A value whose class has the name of a kind is of that kind. -/
theorem admits_of_className {v : Value} (hv : ∀ o, v ≠ .object o)
    (hname : v.className h = k.className) : k.admits v := by
  cases v with
  | object o => exact absurd rfl (hv o)
  | error id e =>
    have hapart : ∀ k ∈ receiverKinds, k.className ∉ errorClasses := by decide
    have hmem : e.kind.className ∈ errorClasses := mem_errorClasses e.kind
    have heq : e.kind.className = k.className := hname
    rw [heq] at hmem
    exact absurd hmem (hapart k (mem_receiverKinds k))
  | _ => cases k <;> simp_all [Value.className, ReceiverKind.className, ReceiverKind.admits]

/-- **A value is of the kind whose class it belongs to.** -/
theorem admits_of_classOf (hh : heap.Evolves (fun _ => True) h) {v : Value}
    (hv : home k = v.classOf h Startup.classes.2) : k.admits v := by
  by_cases hobject : ∃ o, v = .object o
  · obtain ⟨o, rfl⟩ := hobject
    exact absurd hv (home_ne_classRef hh o)
  · have hne (o : ObjectRef) : v ≠ .object o := fun heq => hobject ⟨o, heq⟩
    have hclass : v.classOf h Startup.classes.2 = Startup.classes.2.resolve (v.className h) := by
      cases v with
      | object o => exact absurd rfl (hne o)
      | _ => rfl
    rw [hclass] at hv
    exact admits_of_className hne (className_of_resolve (className_mem hne) hv.symm)

/-- **A method that serves a kind of values is found for those values only.** -/
theorem admits_of_method? (hh : heap.Evolves (fun _ => True) h) (hr : serves r k) {v : Value}
    {name : String} (hv : h.method? Startup.classes.2 v name = some r) : k.admits v := by
  unfold Heap.method? at hv
  split at hv
  · next o =>
    split at hv
    · next hfound =>
      cases hv
      exact absurd hfound (not_objectMethod hh hr)
    · exact absurd (home_of_instanceMethod? hh hr hv) (home_ne_classRef hh o)
  · next c =>
    split at hv
    · next hfound =>
      cases hv
      exact absurd hfound (not_classMethod? hh hr)
    -- the class of classes has a name like the classes of other values
    · exact admits_of_classOf hh (home_of_instanceMethod? hh hr hv)
  · exact admits_of_classOf hh (home_of_instanceMethod? hh hr hv)

end Startup

/-! ## Sessions -/

/-- **The builtin methods of the class of a kind of values.** -/
def Interpreter.installed (s : Interpreter) (k : ReceiverKind) : List MethodRef :=
  (s.heap.classAt (s.classes.resolve k.className)).methods.values

/-- **An interpreter whose classes have evolved** from those of a new one. -/
def Interpreter.Descends (s : Interpreter) : Prop :=
  Startup.heap.Evolves (fun _ => True) s.heap ∧ s.classes = Startup.classes.2

namespace Interpreter.Descends

variable {s : Interpreter} {k : ReceiverKind} {r : MethodRef}

theorem invariant : Invariant Descends :=
  (Invariant.of_heap (Heap.Evolves.invariant Startup.heap)).and
    (Invariant.of_fixed fun t _ => t = Startup.classes.2)

/-- A new interpreter. -/
theorem start (programName : String) (loadPath argv : List String) :
    (start programName loadPath argv).Descends := by
  obtain ⟨arrays, nextId, hheap⟩ := heap_start programName loadPath argv
  refine ⟨?_, classes_start programName loadPath argv⟩
  rw [hheap]
  exact Heap.Evolves.of_eq rfl rfl rfl

/-- The builtin methods of the six classes in a new interpreter. -/
theorem installed_start (programName : String) (loadPath argv : List String) :
    (Interpreter.start programName loadPath argv).installed k = Startup.own k := by
  obtain ⟨arrays, nextId, hheap⟩ := heap_start programName loadPath argv
  unfold installed
  rw [hheap, classes_start]
  rfl

/-- **A search finds them for values of their kind only.** -/
theorem admits (hs : s.Descends) (hr : Startup.serves r k) {v : Value} {func : String}
    (hv : s.method? v func = some r) : k.admits v := by
  unfold method? at hv
  rw [hs.2] at hv
  exact Startup.admits_of_method? hs.1 hr hv

/-- A method that a program can find and that is made for a kind of values
serves them. -/
theorem serves (hs : s.Descends) (hr : (s.heap.method r).body.receiver? = some k) :
    Startup.serves r k := by
  have hold : r.index < Startup.heap.methods.size := by
    refine hs.1.old_of_body fun hbody => ?_
    rw [hbody] at hr
    cases hr
  unfold Startup.serves
  rw [← hs.1.methods r hold, hr]
  simp

end Interpreter.Descends

/-- **A builtin method accepts a receiver of its kind**: whatever error it ends
with, it is not the one for a receiver of another kind. -/
theorem Builtin.accepts_receiver (b : Builtin) {k : ReceiverKind} {receiver : Value}
    (hk : b.receiver? = some k) (hadmits : k.admits receiver) (host : Host)
    (run : String → Eval Value) (args : List Value) (s : Interpreter) {given : String}
    {trace : Option Backtrace} {t : Interpreter} :
    b.call host run receiver args s ≠ .error (.raised ⟨.type given k.className, trace⟩) t := by
  intro hraised
  have hruns : (MethodBody.builtin b).runsText = false := by
    cases b with
    | main m => cases hk
    | _ => rfl
  have hraise (heq : b = .main .raise) : ∀ v ∈ args, v.isError = false := by
    rw [heq] at hk
    cases hk
  -- every error that it raises is new, and says nothing against its receiver
  have hbehaves : Behaves (fun _ => True) (fun _ => True)
      (fun κ => ∀ k, b.receiver? = some k → Innocent k receiver κ) (fun _ => True)
      (b.call host run receiver args) :=
    Behaves.builtin (fun _ _ => trivial) hruns hraise trivial (fun _ _ => trivial) host run
  have hholds : s.Holds (fun _ => True) fun _ => True :=
    ⟨fun _ _ _ => trivial, fun _ _ _ => trivial, fun _ _ _ => trivial, trivial, fun _ => trivial⟩
  obtain ⟨κ, hκ, hx⟩ := (hbehaves s hholds).raised _ _ hraised
  have hkind := congrArg Error.kind hx
  rw [Error.kind_raisedAt] at hkind
  exact hκ k hk hadmits given hkind.symm

/-- **Builtin methods meet the receivers they are made for.** In a session of a
new interpreter, however its requests end:

* whatever value is asked, before or after anything that takes place, a search
  that ends at a builtin method of one of the six classes was made for a value
  of the kind of that class;
* so was every search that led to a call; and if the method that is called is
  made for a kind of receivers, its receiver is of that kind, and the call does
  not end with the error for a receiver that is not. -/
theorem builtins_meet_their_receivers (host : Host) (depth : Nat) (rs : List Request)
    (programName : String) (loadPath argv : List String) :
    let s₀ := start programName loadPath argv
    let es := Session.journal host depth rs s₀
    (∀ e ∈ es, ∀ s, s = e.before ∨ s = e.after → ∀ k, ∀ r ∈ s₀.installed k, ∀ v func,
      s.method? v func = some r → k.admits v) ∧
    ∀ e ∈ es, ∀ m receiver args, e.activity = .method m receiver args →
      (∃ (s : Interpreter) (func : String) (r : MethodRef),
        s.method? receiver func = some r ∧ s.heap.method r = m ∧
        ∀ k, r ∈ s₀.installed k → k.admits receiver) ∧
      ∀ b k, m.body = .builtin b → b.receiver? = some k →
        k.admits receiver ∧
        ∀ given trace t, e.outcome ≠ .error (.raised ⟨.type given k.className, trace⟩) t := by
  intro s₀ es
  have hkeeps : ∀ e ∈ es, e.Keeps Descends :=
    Descends.invariant.session host depth rs (Descends.start programName loadPath argv)
  have hserves {k : ReceiverKind} {r : MethodRef} (hr : r ∈ s₀.installed k) :
      Startup.serves r k := by
    rw [Descends.installed_start] at hr
    unfold Startup.serves
    rw [List.contains_iff_mem.mpr hr]
    rfl
  refine ⟨fun e he s hs k r hr v func hv => ?_, fun e he m receiver args hm => ?_⟩
  · have hdescends : s.Descends := by
      obtain rfl | rfl := hs
      · exact (hkeeps e he).before
      · exact (hkeeps e he).after
    exact hdescends.admits (hserves hr) hv
  · obtain ⟨⟨s, func, hasTarget, t, hs, hcall⟩, host', run, hout⟩ :=
      (hkeeps e he).call m receiver args hm
    obtain ⟨r, hr, rfl⟩ := method?_of_callable hcall
    refine ⟨⟨s, func, r, hr, rfl, fun k hk => hs.admits (hserves hk) hr⟩, fun b k hb hk => ?_⟩
    have hbody : (s.heap.method r).body.receiver? = some k := by
      rw [hb]
      exact hk
    have hadmits : k.admits receiver := hs.admits (hs.serves hbody) hr
    refine ⟨hadmits, fun given trace u hraised => ?_⟩
    rw [hout, hb] at hraised
    exact b.accepts_receiver hk hadmits host' run args e.before hraised

end Garnet
