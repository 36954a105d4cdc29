import Garnet.Proofs.Invariants
import Garnet.Proofs.Targets

/-!
# What a fault is due to

Some nodes have no meaning to an evaluation: declarations of classes, and
`return`. Evaluating one is a fault, which nothing in a program can catch.
This module shows that there are no other faults: whatever a session asks for,
a fault is due to such a node, which an evaluation can come to in a text that
was run (`Halt.Explained`). In particular no assignment has a left side that
nothing can be assigned to, because no text spells one, and no builtin method
reads an argument that it was not given.

The texts that are run are those that the session asks for and those of files
(`Watched.RunsOnly`). So a session in which no text has such a node where it
can be evaluated has no faults.
-/

namespace Garnet

open Interpreter

/-- **Whether all that running a text can come to has a meaning.** A text that
cannot be read comes to nothing. -/
def isEvaluableText (source : String) : Bool :=
  match parse source with
  | .ok nodes => (Node.partsOfAll nodes).all Node.isEvaluable
  | .error _ => true

/-- **Whether running a text can come to a node.** -/
def ComesTo (source : String) (n : Node) : Prop :=
  ∃ nodes, parse source = .ok nodes ∧ n ∈ Node.partsOfAll nodes

/-- The text that an episode runs, if it runs one. -/
def Episode.text? (e : Episode) : Option String :=
  match e.activity with
  | .program source => some source
  | _ => none

/-- **The texts that were run** in a stretch of a journal. -/
def textsRun (es : List Episode) : List String :=
  es.filterMap Episode.text?

theorem isEvaluable_of_comesTo {source : String} {n : Node} (hs : isEvaluableText source = true)
    (hn : ComesTo source n) : n.isEvaluable = true := by
  obtain ⟨nodes, hparse, hmem⟩ := hn
  unfold isEvaluableText at hs
  rw [hparse] at hs
  exact List.all_eq_true.mp hs n hmem

/-- **What an evaluation may halt for**: an error, programs that are nested too
deep, a place that has not been looked at, or a node without a meaning – one
of `P`, or one that running a text of the journal comes to. -/
def Halt.Explained (files : FileSystem) (P : Node → Prop) (es : List Episode) : Halt → Prop
  | .raised _ | .exhausted => True
  | .unexplored _ => files.complete = false
  | .fault f => ∃ n, f = .notEvaluated n.kindName ∧ n.isEvaluable = false ∧
      (P n ∨ ∃ source ∈ textsRun es, ComesTo source n)

theorem mem_textsRun_append {es fs : List Episode} {source : String} :
    source ∈ textsRun (es ++ fs) ↔ source ∈ textsRun es ∨ source ∈ textsRun fs := by
  unfold textsRun
  rw [List.filterMap_append, List.mem_append]

theorem textsRun_subset {es fs : List Episode} (h : es ⊆ fs) : textsRun es ⊆ textsRun fs := by
  intro source hs
  obtain ⟨e, he, hes⟩ := List.mem_filterMap.mp hs
  exact List.mem_filterMap.mpr ⟨e, h he, hes⟩

namespace Halt

variable {files : FileSystem} {P Q : Node → Prop} {es fs : List Episode} {h : Halt}

/-- What is explained by a journal is explained by a longer one. -/
theorem Explained.mono (he : h.Explained files P es) (hsub : es ⊆ fs) :
    h.Explained files P fs := by
  cases h with
  | raised e => trivial
  | exhausted => trivial
  | unexplored place => exact he
  | fault f =>
    obtain ⟨n, hf, hn, hP | ⟨source, hrun, hcomes⟩⟩ := he
    · exact ⟨n, hf, hn, Or.inl hP⟩
    · exact ⟨n, hf, hn, Or.inr ⟨source, textsRun_subset hsub hrun, hcomes⟩⟩

/-- An ordinary reason to halt needs no explanation. -/
theorem IsOrdinary.explained (ho : h.IsOrdinary files) : h.Explained files P es := by
  cases h with
  | raised e => trivial
  | unexplored place => exact ho
  | fault f => exact ho.elim
  | exhausted => exact ho.elim

/-- **A node of a text is explained by the episode in which the text is
run.** -/
theorem Explained.of_program {source : String} (he : h.Explained files (ComesTo source) es)
    (hrun : source ∈ textsRun fs) (hsub : es ⊆ fs) : h.Explained files P fs := by
  cases h with
  | raised e => trivial
  | exhausted => trivial
  | unexplored place => exact he
  | fault f =>
    obtain ⟨n, hf, hn, hcomes | ⟨source', hrun', hcomes⟩⟩ := he
    · exact ⟨n, hf, hn, Or.inr ⟨source, hrun, hcomes⟩⟩
    · exact ⟨n, hf, hn, Or.inr ⟨source', textsRun_subset hsub hrun', hcomes⟩⟩

end Halt

namespace Watched

variable {α β : Type} {files : FileSystem} {P : Node → Prop}

/-- **An evaluation that halts only for what can be explained.** -/
def Answers (files : FileSystem) (P : Node → Prop) (m : Watched α) : Prop :=
  ∀ s h t, m.eval s = .error h t → h.Explained files P (m.journal s)

namespace Answers

theorem ordinary {m : Eval α} (hm : Ordinary files m) : Answers files P (quietly m) :=
  fun s h t hs => (hm.halts s h t hs).explained

theorem bind {m : Watched α} {f : α → Watched β} (hm : Answers files P m)
    (hf : ∀ a, (∃ s t, m.eval s = .ok a t) → Answers files P (f a)) :
    Answers files P (m >>= f) := by
  intro s h u hs
  rw [eval_bind] at hs
  cases hms : m.eval s with
  | ok a t =>
    rw [Outcome.bind_of_ok hms] at hs
    rw [journal_bind_of_ok hms]
    exact (hf a ⟨s, t, hms⟩ t h u hs).mono (List.subset_append_right _ _)
  | error x t =>
    rw [Outcome.bind_of_error hms] at hs
    rw [journal_bind_of_error hms]
    cases hs
    exact hm s _ _ hms

theorem rescuing {m : Watched α} {handler : Error → Watched α} (hm : Answers files P m)
    (hh : ∀ e, Answers files P (handler e)) : Answers files P (rescuing m handler) := by
  intro s h u hs
  rw [eval_rescuing] at hs
  obtain ⟨x, t, hms⟩ | hms := Outcome.raised_or_not (m.eval s)
  · rw [Outcome.rescuing_of_raised hms] at hs
    rw [journal_rescuing_of_raised hms]
    exact (hh x t h u hs).mono (List.subset_append_right _ _)
  · rw [Outcome.rescuing_of_not_raised hms] at hs
    rw [journal_rescuing_of_not_raised hms]
    exact hm s h u hs

theorem undoing {undo : Interpreter → Interpreter} {m : Watched α} (hm : Answers files P m) :
    Answers files P (undoing undo m) := by
  intro s h u hs
  rw [eval_undoing] at hs
  obtain ⟨x, t, hms⟩ | hms := Outcome.raised_or_not (m.eval s)
  · rw [Outcome.undoing_of_raised hms] at hs
    cases hs
    trivial
  · rw [Outcome.undoing_of_not_raised hms] at hs
    exact hm s h u hs

theorem inFrame {label : String} {m : Watched α} (hm : Answers files P m) :
    Answers files P (inFrame label m) := by
  intro s h u hs
  rw [eval_inFrame, Outcome.inFrame_eq] at hs
  obtain ⟨t, hms⟩ := Outcome.error_of_mapState hs
  exact hm _ _ _ hms

theorem inUnit {name : String} {m : Watched α} (hm : Answers files P m) :
    Answers files P (inUnit name m) := by
  intro s h u hs
  rw [eval_inUnit, Outcome.inUnit_eq] at hs
  obtain ⟨t, hms⟩ := Outcome.error_of_mapState hs
  exact hm _ _ _ hms

theorem noting {a : Activity} {m : Watched Value} (hm : Answers files P m) :
    Answers files P (noting a m) :=
  fun s h t hs => (hm s h t hs).mono (List.subset_append_left _ _)

/-- Running a text explains the nodes that it comes to. -/
theorem program {source : String} {m : Watched Value} (hm : Answers files (ComesTo source) m) :
    Answers files P (Watched.noting (.program source) m) := by
  intro s h t hs
  have hrun : source ∈ textsRun ((Watched.noting (.program source) m).journal s) :=
    mem_textsRun_append.mpr (Or.inr List.mem_cons_self)
  exact (hm s h t hs).of_program hrun (List.subset_append_left _ _)

/-- A method definition never is a fault. -/
theorem define (name : String) : Answers files P (quietly (define name)) := by
  intro s h t hs
  rw [eval_quietly] at hs
  obtain ⟨e, he⟩ | ⟨r, k, _, _, hk⟩ := define_eq name s
  · rw [he] at hs
    cases hs
    trivial
  · rw [hk] at hs
    cases hs

/-- An assignment to a name or a global never is a fault. -/
theorem assign {lhs : Node} (hl : lhs.isAssignable = true) (v : Value) :
    Answers files P (quietly (assign lhs v)) := by
  intro s h t hs
  cases lhs with
  | bareReference name => cases hs
  | globalVariable name => cases hs
  | _ => cases hl

/-- **No evaluation of well-assigned nodes halts for what cannot be
explained.** -/
theorem closed (host : Host) (hP : ∀ n, P n → n.wellAssigned = true) :
    Closed host { Domain.all with nodes := P } (Answers host.files P) where
  texts _ _ := trivial
  methods _ _ _ := trivial
  ordinary := ordinary
  bind hm hf := bind hm fun a ⟨s, t, hs⟩ => hf a ⟨s, t, trivial, hs⟩
  rescuing := rescuing
  inFrame := inFrame
  inUnit := inUnit
  method _ := noting
  file := noting
  program _ := noting
  require :=
    require_of_undoing (Answers host.files P) ordinary (fun hm hf => bind hm fun a _ => hf a)
      undoing inUnit noting fun _ _ => trivial
  node _ := noting
  define _ := noting (define _)
  assignment hn hm := by
    have hl := Node.isAssignable_of_wellAssigned (hP _ hn)
    exact noting (bind hm fun v _ => bind (assign hl v) fun _ _ => ordinary (Ordinary.pure v))
  notEvaluated {_ n} hn hne := noting fun s h t hs => by
    cases hs
    exact ⟨n, rfl, hne, Or.inl hn⟩
  exhausted s h t hs := by
    cases hs
    trivial

/-- **Running a text** halts only for what can be explained. The nodes that a
text comes to are well assigned, because they were read from tokens. -/
theorem run (host : Host) (depth : Nat) (hP : ∀ n, P n → n.wellAssigned = true)
    (source : String) : Answers host.files P (run host depth source) := by
  induction depth generalizing P source with
  | zero =>
    intro s h t hs
    cases hs
    trivial
  | succ depth ih =>
    have hcomes : ∀ n, ComesTo source n → n.wellAssigned = true := by
      rintro n ⟨nodes, hparse, hmem⟩
      exact Node.wellAssigned_of_mem_partsOfAll nodes (allWellAssigned_of_parse hparse) n hmem
    -- inside this text, its own nodes can be blamed; outside, the text itself is
    have hclosed := closed host hcomes
    rw [Watched.run]
    refine program (bind (ordinary Ordinary.get) fun s _ => ?_)
    cases hparse : parse source with
    | error e => exact ordinary (Ordinary.raise _)
    | ok nodes =>
      refine inFrame (hclosed.evalAll (fun source _ => ih hcomes source) s.main .nil nodes ?_)
      exact fun n hn => ⟨nodes, hparse, hn⟩

/-- Every request halts only for what its journal explains. -/
theorem request (host : Host) (depth : Nat) (r : Request) :
    Answers host.files (fun _ => False) (r.watched host depth) := by
  have hnone : ∀ n : Node, False → n.wellAssigned = true := fun _ h => h.elim
  exact Request.of_closed (closed host hnone) (fun source _ => run host depth hnone source)
    fun _ _ => trivial

end Answers

end Watched

/-! ## The texts that are run

A new interpreter has no method that runs a text of its own, and programs
cannot define one. So all texts come from the session or from files. -/

/-- The text of its own that a method runs. -/
def MethodBody.text? : MethodBody → Option String
  | .runProgram source => some source
  | _ => none

/-- **An interpreter whose methods have no text of their own to run.** -/
def Interpreter.HasNoTexts (s : Interpreter) : Prop :=
  ∀ r, (s.heap.method r).body.text? = none

namespace Interpreter.HasNoTexts

variable {s t : Interpreter}

/-- Programs define methods that do nothing. -/
theorem invariant : Heap.Invariant fun h => ∀ r, (h.method r).body.text? = none where
  arrays _ _ hs := hs
  object _ _ _ hs := hs
  classMethod c hs hnew := by
    cases hnew
    intro r
    show (((Heap.newMethod _ _).2).method r).body.text? = none
    rw [Heap.method_newMethod]
    split
    · rfl
    · exact hs r
  objectMethod o hs hnew := by
    cases hnew
    intro r
    show (((Heap.newMethod _ _).2).method r).body.text? = none
    rw [Heap.method_newMethod]
    split
    · rfl
    · exact hs r

theorem of_effects (hs : s.HasNoTexts) (h : Effects s t) : t.HasNoTexts :=
  invariant.of_effects h hs

theorem define (hs : s.HasNoTexts) (name : String) :
    (Outcome.state (define name s)).HasNoTexts :=
  invariant.define name hs

theorem assign (hs : s.HasNoTexts) (lhs : Node) (v : Value) :
    (Outcome.state (assign lhs v s)).HasNoTexts := by
  unfold HasNoTexts
  rw [heap_assign]
  exact hs

theorem unmarkLoaded (hs : s.HasNoTexts) (feature : String) :
    (unmarkLoaded feature s).HasNoTexts :=
  invariant.unmarkLoaded feature hs

/-- What can be called has no text of its own to run. -/
theorem callable (hs : s.HasNoTexts) {receiver : Value} {func : String} {hasTarget : Bool}
    {m : Method} (h : callable receiver func hasTarget s = .ok m t) : m.body.text? = none := by
  obtain ⟨r, _, rfl⟩ := method?_of_callable h
  exact hs r

/-- **A new interpreter** has builtin methods only. -/
theorem start (programName : String) (loadPath argv : List String) :
    (start programName loadPath argv).HasNoTexts := by
  let k := (Startup.mainObject Startup.classes.1 Startup.classes.2).2
  have hall : k.methods.all (·.body.text?.isNone) = true := by decide +kernel
  refine invariant.start (fun r => ?_) programName loadPath argv
  exact Option.isNone_iff_eq_none.mp (Heap.forall_method hall rfl r)

end Interpreter.HasNoTexts

namespace Watched

variable {α β : Type} {files : FileSystem} {S : String → Prop}

/-- **An evaluation that only runs texts with a property**, and leaves no
other texts behind. -/
def RunsOnly (S : String → Prop) (m : Watched α) : Prop :=
  ∀ s : Interpreter, s.HasNoTexts → (Outcome.state (m.eval s)).HasNoTexts ∧
    ∀ source ∈ textsRun (m.journal s), S source

namespace RunsOnly

/-- An evaluation in which nothing takes place. -/
theorem quietly {m : Eval α}
    (hm : ∀ s : Interpreter, s.HasNoTexts → (Outcome.state (m s)).HasNoTexts) :
    RunsOnly S (quietly m) := by
  exact fun s hs => ⟨hm s hs, fun source hrun => absurd hrun List.not_mem_nil⟩

theorem ordinary (files : FileSystem) {m : Eval α} (hm : Ordinary files m) :
    RunsOnly S (Watched.quietly m) :=
  quietly fun s hs => hs.of_effects (hm.effects s)

theorem throw (h : Halt) : RunsOnly S (Watched.quietly (throw h : Eval α)) :=
  quietly fun _ hs => hs

theorem bind {m : Watched α} {f : α → Watched β} (hm : RunsOnly S m)
    (hf : ∀ a, (∃ s t, s.HasNoTexts ∧ m.eval s = .ok a t) → RunsOnly S (f a)) :
    RunsOnly S (m >>= f) := by
  intro s hs
  obtain ⟨hms, hjs⟩ := hm s hs
  rw [eval_bind]
  cases hma : m.eval s with
  | ok a t =>
    rw [hma] at hms
    obtain ⟨hft, hjt⟩ := hf a ⟨s, t, hs, hma⟩ t hms
    rw [Outcome.bind_of_ok hma, journal_bind_of_ok hma]
    exact ⟨hft, fun source hrun => (mem_textsRun_append.mp hrun).elim (hjs source) (hjt source)⟩
  | error x t =>
    rw [hma] at hms
    rw [Outcome.bind_of_error hma, journal_bind_of_error hma]
    exact ⟨hms, hjs⟩

theorem rescuing {m : Watched α} {handler : Error → Watched α} (hm : RunsOnly S m)
    (hh : ∀ e, RunsOnly S (handler e)) : RunsOnly S (rescuing m handler) := by
  intro s hs
  obtain ⟨hms, hjs⟩ := hm s hs
  rw [eval_rescuing]
  obtain ⟨x, t, hma⟩ | hma := Outcome.raised_or_not (m.eval s)
  · rw [hma] at hms
    obtain ⟨hht, hjt⟩ := hh x t hms
    rw [Outcome.rescuing_of_raised hma, journal_rescuing_of_raised hma]
    exact ⟨hht, fun source hrun => (mem_textsRun_append.mp hrun).elim (hjs source) (hjt source)⟩
  · rw [Outcome.rescuing_of_not_raised hma, journal_rescuing_of_not_raised hma]
    exact ⟨hms, hjs⟩

theorem undoing {undo : Interpreter → Interpreter} {m : Watched α} (hm : RunsOnly S m)
    (hu : ∀ s : Interpreter, s.HasNoTexts → (undo s).HasNoTexts) :
    RunsOnly S (undoing undo m) := by
  intro s hs
  obtain ⟨hms, hjs⟩ := hm s hs
  refine ⟨?_, hjs⟩
  rw [eval_undoing]
  obtain ⟨x, t, hma⟩ | hma := Outcome.raised_or_not (m.eval s)
  · rw [hma] at hms
    rw [Outcome.undoing_of_raised hma]
    exact hu t hms
  · rw [Outcome.undoing_of_not_raised hma]
    exact hms

theorem inFrame {label : String} {m : Watched α} (hm : RunsOnly S m) :
    RunsOnly S (inFrame label m) := by
  intro s hs
  obtain ⟨hms, hjs⟩ := hm { s with stack := s.stack.push label } hs
  refine ⟨?_, hjs⟩
  rw [eval_inFrame, Outcome.inFrame_eq, Outcome.state_mapState]
  exact hms

theorem inUnit {name : String} {m : Watched α} (hm : RunsOnly S m) :
    RunsOnly S (inUnit name m) := by
  intro s hs
  obtain ⟨hms, hjs⟩ := hm { s with unitName := name } hs
  refine ⟨?_, hjs⟩
  rw [eval_inUnit, Outcome.inUnit_eq, Outcome.state_mapState]
  exact hms

/-- An episode runs no further text, unless it is itself that of a text, which
must then have the property. -/
theorem noting {a : Activity} {m : Watched Value} (ha : ∀ source, a = .program source → S source)
    (hm : RunsOnly S m) : RunsOnly S (noting a m) := by
  refine fun s hs => ⟨(hm s hs).1, fun source hrun => ?_⟩
  obtain hrun | hrun := mem_textsRun_append.mp hrun
  · exact (hm s hs).2 source hrun
  · obtain ⟨e, he, hea⟩ := List.mem_filterMap.mp hrun
    rw [List.mem_singleton.mp he] at hea
    cases a with
    | program source' => exact ha source (congrArg Activity.program (Option.some.inj hea))
    | _ => cases hea

/-- **No evaluation runs a text that is neither the one asked for nor that of a
file.** -/
theorem closed (host : Host)
    (hS : ∀ {path place entry source}, host.files.lookup path = .found place entry →
      entry.text = .ok source → S source) :
    Closed host ⟨fun _ => True, HasNoTexts, S⟩ (RunsOnly S) where
  texts := hS
  methods hs hm hbody := by
    have hnone := hs.callable hm
    rw [hbody] at hnone
    cases hnone
  ordinary := ordinary host.files
  bind := bind
  rescuing := rescuing
  inFrame := inFrame
  inUnit := inUnit
  method _ := noting fun _ => Activity.noConfusion
  file := noting fun _ => Activity.noConfusion
  program hsource := noting fun _ heq => Activity.program.inj heq ▸ hsource
  require :=
    require_of_undoing (RunsOnly S) (ordinary host.files) (fun hm hf => bind hm fun a _ => hf a)
      (fun hm => undoing hm fun _ hs => hs.unmarkLoaded _) inUnit
      (noting fun _ => Activity.noConfusion) hS
  node _ := noting fun _ => Activity.noConfusion
  define _ := noting (fun _ => Activity.noConfusion) (quietly fun _ hs => hs.define _)
  assignment _ hm := by
    refine noting (fun _ => Activity.noConfusion) (bind hm fun v _ => bind ?_ fun _ _ => ?_)
    · exact quietly fun _ hs => hs.assign _ v
    · exact quietly fun _ hs => hs
  notEvaluated _ _ := noting (fun _ => Activity.noConfusion) (throw _)
  exhausted := throw _

end RunsOnly

end Watched

/-! ## Sessions -/

/-- Whether a text is that of a file. -/
def FileSystem.HasText (files : FileSystem) (source : String) : Prop :=
  ∃ path place entry, files.lookup path = .found place entry ∧ entry.text = .ok source

namespace Session

variable (host : Host) (depth : Nat)

/-- **What the requests of a session halt for** is explained by its journal. -/
theorem explained (rs : List Request) (s : Interpreter) {o : EStateM.Result Halt Interpreter Value}
    (ho : o ∈ outcomes host depth rs s) {h : Halt} {t : Interpreter} (hh : o = .error h t) :
    h.Explained host.files (fun _ => False) (journal host depth rs s) := by
  induction rs generalizing s with
  | nil => cases ho
  | cons r rs ih =>
    obtain rfl | ho := List.mem_cons.mp ho
    · have hr := Watched.Answers.request host depth r s h t
      rw [Request.eval_watched] at hr
      exact (hr hh).mono (List.subset_append_left _ _)
    · exact (ih _ ho).mono (List.subset_append_right _ _)

/-- **The texts that a session runs** are those that it asks for and those of
files. -/
theorem runsOnly {S : String → Prop} (hfiles : ∀ source, host.files.HasText source → S source)
    {rs : List Request} (hrs : ∀ source, .run source ∈ rs → S source) {s : Interpreter}
    (hs : s.HasNoTexts) {source : String} (h : source ∈ textsRun (journal host depth rs s)) :
    S source := by
  have closed := Watched.RunsOnly.closed (S := S) host
    fun hl ht => hfiles _ ⟨_, _, _, hl, ht⟩
  have hrun := closed.run (fun _ => trivial) depth
  induction rs generalizing s with
  | nil =>
    cases h
  | cons r rs ih =>
    obtain ⟨hstate, hr⟩ := Request.of_closed closed hrun
      (fun source hsource => hrs source (hsource ▸ List.mem_cons_self)) s hs
    rw [Request.eval_watched] at hstate
    obtain h | h := mem_textsRun_append.mp h
    · exact hr source h
    · exact ih (fun source hmem => hrs source (List.mem_cons_of_mem _ hmem)) hstate h

end Session

/-- **Programs do not fault.** In a session of a new interpreter:

* if a request ends in a fault, the fault is due to a declaration of a class or
  a `return` that an evaluation can come to in a text that was run; it is
  never due to an assignment, nor to an argument that a builtin method was not
  given;
* every text that was run was asked for or is that of a file;
* so if none of these texts has such a node outside the bodies of methods and
  the conditions of `if`, every request ends with a value or an error – unless
  programs are nested too deep, or a place in the file system was needed that
  has not been looked at. -/
theorem programs_do_not_fault (host : Host) (depth : Nat) (rs : List Request)
    (programName : String) (loadPath argv : List String) :
    let s := start programName loadPath argv
    let es := Session.journal host depth rs s
    (∀ o ∈ Session.outcomes host depth rs s, ∀ f t, o = .error (.fault f) t →
      ∃ source ∈ textsRun es, ∃ n, ComesTo source n ∧ n.isEvaluable = false ∧
        f = .notEvaluated n.kindName) ∧
    (∀ source ∈ textsRun es, .run source ∈ rs ∨ host.files.HasText source) ∧
    ((∀ source ∈ textsRun es, isEvaluableText source = true) →
      ∀ o ∈ Session.outcomes host depth rs s,
        (∃ v t, o = .ok v t) ∨ (∃ e t, o = .error (.raised e) t) ∨
        (∃ t, o = .error .exhausted t) ∨
        (host.files.complete = false ∧ ∃ place t, o = .error (.unexplored place) t)) := by
  intro s es
  have hblame : ∀ o ∈ Session.outcomes host depth rs s, ∀ f t, o = .error (.fault f) t →
      ∃ source ∈ textsRun es, ∃ n, ComesTo source n ∧ n.isEvaluable = false ∧
        f = .notEvaluated n.kindName := by
    intro o ho f t hf
    have hexplained := Session.explained host depth rs s ho hf
    obtain ⟨n, hkind, hn, hfalse | ⟨source, hrun, hcomes⟩⟩ := hexplained
    · exact hfalse.elim
    · exact ⟨source, hrun, n, hcomes, hn, hkind⟩
  refine ⟨hblame, fun source hrun => ?_, fun hclean o ho => ?_⟩
  · exact Session.runsOnly host depth (fun _ => Or.inr) (fun _ => Or.inl)
      (HasNoTexts.start programName loadPath argv) hrun
  · cases o with
    | ok v t => exact Or.inl ⟨v, t, rfl⟩
    | error h t =>
      cases h with
      | raised e => exact Or.inr (Or.inl ⟨e, t, rfl⟩)
      | exhausted => exact Or.inr (Or.inr (Or.inl ⟨t, rfl⟩))
      | unexplored place =>
        have hincomplete := Session.explained host depth rs s ho rfl
        exact Or.inr (Or.inr (Or.inr ⟨hincomplete, place, t, rfl⟩))
      | fault f =>
        obtain ⟨source, hrun, n, hcomes, hn, _⟩ := hblame _ ho f t rfl
        rw [isEvaluable_of_comesTo (hclean source hrun) hcomes] at hn
        cases hn

/-- A host without files. -/
def hostWithoutFiles : Host where
  files := FileSystem.empty []
  home := none
  processId := 1

/-- A session with a `return` where nothing evaluates it: in the body of a
method that is called, and in a condition. The third request raises an
error. -/
theorem unreached_returns_do_not_fault :
    let rs := [.run "def f()\n  return 1\nend\nf()", .run "if return then 1 end", .load "missing"]
    let s := start "main.rb" [] []
    textsRun (Session.journal hostWithoutFiles 1 rs s)
      = ["def f()\n  return 1\nend\nf()", "if return then 1 end"] ∧
    ∀ o ∈ Session.outcomes hostWithoutFiles 1 rs s,
      (∃ v t, o = .ok v t) ∨ (∃ e t, o = .error (.raised e) t) ∨
      (∃ t, o = .error .exhausted t) ∨
      (hostWithoutFiles.files.complete = false ∧ ∃ place t, o = .error (.unexplored place) t) := by
  intro rs s
  refine ⟨by decide +kernel, ?_⟩
  exact (programs_do_not_fault hostWithoutFiles 1 rs "main.rb" [] []).2.2 (by decide +kernel)

end Garnet
