import Garnet.Proofs.LoadOnce
import Garnet.Proofs.Faults
import Garnet.Proofs.Tables

/-!
# Programs come to an end

Evaluating a tree is a recursion over the tree, except where a method comes
back to the evaluator and runs a source text. `load` does so every time, and a
file that loads itself never comes to an end. `require` does so only if the
unit is not noted as loaded. Nothing counts down for good there, because the
note is taken back when the unit fails, and the unit can be required again. But
while a unit is evaluated its note stands, so the units that are left to load
are fewer inside than outside (`Interpreter.unloaded`). Programs are therefore
nested no deeper than there are files.

How deeply programs are nested is bounded in the definition of the evaluator.
So what is shown is that the bound is not met, and that it could be any other
one: two evaluations with different bounds agree and are not exhausted
(`Settles`). This is an induction over the nodes of a tree, for two evaluators
side by side, inside an induction over how much is left to load.

The programs considered are **tame**: evaluating them comes to no call of the
name `load`, and to no assignment to the global `$LOADED_FEATURES`.
-/

namespace Garnet

open Interpreter

/-! ## Tame programs and interpreters -/

/-- **Whether a node neither calls `load` nor binds the global for the loaded
units anew.** -/
def Node.isTame : Node → Bool
  | .call _ func _ => func != "load"
  | .assignment (.globalVariable name) _ => name != "LOADED_FEATURES"
  | _ => true

/-- **Whether all that running a text can come to is tame.** A text that cannot
be read comes to nothing. -/
def isTameText (source : String) : Bool :=
  match parse source with
  | .ok nodes => (Node.partsOfAll nodes).all Node.isTame
  | .error _ => true

/-- **Whether a method may stand under a name**: `load` under its own only, and
none that runs a text of its own. -/
def MethodBody.isTameUnder (name : String) : MethodBody → Bool
  | .builtin (.main .load) => name == "load"
  | .runProgram _ => false
  | _ => true

/-- **An interpreter in which only `require` and `load` run source texts**, and
in which `load` is called by its name. -/
structure Interpreter.Tame (s : Interpreter) : Prop where
  /-- Loaded units can be listed. -/
  ready : s.Ready
  /-- Methods stand under names that they may stand under. -/
  tables : s.heap.Enters MethodBody.isTameUnder

namespace Interpreter.Tame

variable {s t : Interpreter}

theorem invariant : Heap.Invariant (Heap.Enters MethodBody.isTameUnder) :=
  Heap.Enters.invariant fun _ => rfl

theorem of_effects (hs : s.Tame) (h : Effects s t) : t.Tame :=
  ⟨(Grows.of_effects h).ready hs.ready, invariant.of_effects h hs.tables⟩

theorem define (hs : s.Tame) (name : String) : (Outcome.state (define name s)).Tame :=
  ⟨(Grows.define name s).ready hs.ready, invariant.define name hs.tables⟩

theorem assign (hs : s.Tame) {lhs : Node} (hl : lhs ≠ .globalVariable "LOADED_FEATURES")
    (v : Value) : (Outcome.state (assign lhs v s)).Tame :=
  ⟨(Grows.assign hl v s).ready hs.ready, (heap_assign lhs v s).symm ▸ hs.tables⟩

/-- **A new interpreter is tame.** -/
theorem start (programName : String) (loadPath argv : List String) :
    (start programName loadPath argv).Tame :=
  ⟨ready_start programName loadPath argv,
    invariant.start (Heap.Enters.of_allTables (by decide +kernel)) programName loadPath argv⟩

end Interpreter.Tame

/-! ## What is left to load -/

/-- The paths of all places that are listed. -/
def FileSystem.paths (files : FileSystem) : List String :=
  files.entries.map fun e => e.1.path

/-- The canonical path of a file that is found is one of them. -/
theorem FileSystem.path_mem_paths {files : FileSystem} {path : String} {place : Place}
    {bytes : ByteArray} (h : files.lookup path = .found place (.file bytes)) :
    place.path ∈ files.paths :=
  List.mem_map.mpr ⟨_, mem_entries_of_lookup h, rfl⟩

namespace Interpreter

variable {s t : Interpreter}

/-- The texts in the list of loaded units. -/
def listed (s : Interpreter) : List String :=
  s.features.filterMap text?

theorem mem_listed {p : String} : p ∈ s.listed ↔ s.isLoaded p = true := by
  rw [isLoaded_eq, List.any_eq_true, listed, List.mem_filterMap]
  refine exists_congr fun v => and_congr_right fun _ => ?_
  unfold isText
  exact beq_iff_eq.symm

/-- **How many files are left to load.** -/
def unloaded (files : FileSystem) (s : Interpreter) : Nat :=
  unvisited files.paths s.listed

/-- There are never more files left to load than places are listed. -/
theorem unloaded_le (files : FileSystem) (s : Interpreter) :
    s.unloaded files ≤ files.entries.length := by
  have hle := unvisited_le_length files.paths s.listed
  rwa [FileSystem.paths, List.length_map] at hle

/-- What is listed stays listed as an interpreter grows. -/
theorem Grows.listed (h : s.Grows t) (hs : s.Ready) : s.listed ⊆ t.listed :=
  fun _ hp => mem_listed.mpr (h.isLoaded hs (mem_listed.mp hp))

/-- As an interpreter grows, no file comes to be left to load. -/
theorem Grows.unloaded (h : s.Grows t) (hs : s.Ready) (files : FileSystem) :
    t.unloaded files ≤ s.unloaded files :=
  unvisited_anti files.paths (h.listed hs)

/-- **Noting a file leaves fewer.** -/
theorem Grows.unloaded_lt (h : s.Grows t) (hs : s.Ready) {files : FileSystem} {p : String}
    (hp : p ∈ files.paths) (hsp : s.isLoaded p = false) (htp : t.isLoaded p = true) :
    t.unloaded files < s.unloaded files := by
  refine unvisited_lt hp (fun hmem => ?_) (mem_listed.mpr htp) (h.listed hs)
  rw [mem_listed.mp hmem] at hsp
  cases hsp

end Interpreter

/-! ## Evaluations that come to an end -/

/-- **An outcome that is reached from a tame interpreter**: the interpreter is
left tame, it has grown, and the nesting of programs was not too deep. -/
structure Finishes {α : Type} (s : Interpreter) (o : EStateM.Result Halt Interpreter α) :
    Prop where
  /-- The interpreter is left tame. -/
  tame : (Outcome.state o).Tame
  /-- It has grown. -/
  grows : s.Grows (Outcome.state o)
  /-- Programs were not nested too deep. -/
  notExhausted : ∀ t, o ≠ .error .exhausted t

namespace Finishes

variable {α : Type} {s t : Interpreter} {o : EStateM.Result Halt Interpreter α}

theorem of_before (h : Finishes t o) (hg : s.Grows t) : Finishes s o :=
  ⟨h.tame, hg.trans h.grows, h.notExhausted⟩

/-- Where the stack and the unit are set back, nothing else is changed. -/
theorem mapState {f : Interpreter → Interpreter} (h : Finishes s o)
    (htame : (f (Outcome.state o)).Tame) (hg : (Outcome.state o).Grows (f (Outcome.state o))) :
    Finishes s (Outcome.mapState f o) := by
  refine ⟨?_, ?_, fun t ho => ?_⟩
  · rwa [Outcome.state_mapState]
  · rw [Outcome.state_mapState]
    exact h.grows.trans hg
  · cases o with
    | ok a u => cases ho
    | error x u =>
      cases ho
      exact h.notExhausted _ rfl

/-- **The end of a unit that was not loaded.** If it failed, the note for it is
taken back, which is growth when seen from before the note was made. -/
theorem ofUnit {o : EStateM.Result Halt Interpreter Value} {p : String} (h : Finishes t o)
    (hg : s.Grows t) (hs : s.Tame) (hp : s.isLoaded p = false) :
    Finishes s (Outcome.ofUnit p o) := by
  have hinside := h.of_before hg
  cases o with
  | ok v u => exact ⟨hinside.tame, hinside.grows, fun _ ho => by cases ho⟩
  | error x u =>
    cases x with
    | raised e =>
      have hgrows : s.Grows (unmarkLoaded p u) := hinside.grows.unmarkLoaded hp
      have htables := Tame.invariant.unmarkLoaded p hinside.tame.tables
      exact ⟨⟨hgrows.ready hs.ready, htables⟩, hgrows, fun _ ho => by cases ho⟩
    | fault f => exact hinside
    | unexplored place => exact hinside
    | exhausted => exact hinside

end Finishes

/-- **Two evaluations that agree and come to an end**, wherever fewer than `k`
files are left to load. -/
def Settles {α : Type} (files : FileSystem) (k : Nat) (m n : Eval α) : Prop :=
  ∀ s : Interpreter, s.Tame → s.unloaded files < k → n s = m s ∧ Finishes s (m s)

namespace Settles

variable {α β : Type} {files : FileSystem} {k : Nat}

/-! ### What evaluations are made of -/

theorem ordinary {m : Eval α} (hm : Ordinary files m) : Settles files k m m := by
  refine fun s hs _ => ⟨rfl, hs.of_effects (hm.effects s), Grows.of_effects (hm.effects s), ?_⟩
  exact fun t ho => hm.halts s _ t ho

theorem pure (a : α) : Settles files k (Pure.pure a : Eval α) (Pure.pure a) :=
  ordinary (Ordinary.pure a)

theorem fault (f : Fault) : Settles files k (throw (.fault f) : Eval α) (throw (.fault f)) :=
  fun s hs _ => ⟨rfl, hs, Grows.refl s, fun _ ho => by cases ho⟩

/-- **One evaluation after another.** Where the second one starts, no more is
left to load than where the first one did. -/
theorem bind {m n : Eval α} {f g : α → Eval β} (hm : Settles files k m n)
    (hf : ∀ a, (∃ s t, s.Tame ∧ m s = .ok a t) → Settles files k (f a) (g a)) :
    Settles files k (m >>= f) (n >>= g) := by
  intro s hs hk
  obtain ⟨heq, h⟩ := hm s hs hk
  cases hms : m s with
  | ok a t =>
    rw [hms] at heq h
    have hleft := Nat.lt_of_le_of_lt (h.grows.unloaded hs.ready files) hk
    obtain ⟨heq', h'⟩ := hf a ⟨s, t, hs, hms⟩ t h.tame hleft
    rw [Outcome.bind_of_ok hms, Outcome.bind_of_ok heq]
    exact ⟨heq', h'.of_before h.grows⟩
  | error x t =>
    rw [hms] at heq h
    rw [Outcome.bind_of_error hms, Outcome.bind_of_error heq]
    exact ⟨rfl, h.tame, h.grows, fun u hu => h.notExhausted u (by cases hu; rfl)⟩

theorem rescuing {m n : Eval α} {f g : Error → Eval α} (hm : Settles files k m n)
    (hf : ∀ e, Settles files k (f e) (g e)) :
    Settles files k (rescuing m f) (rescuing n g) := by
  intro s hs hk
  obtain ⟨heq, h⟩ := hm s hs hk
  obtain ⟨e, t, hms⟩ | hms := Outcome.raised_or_not (m s)
  · rw [hms] at heq h
    have hleft := Nat.lt_of_le_of_lt (h.grows.unloaded hs.ready files) hk
    obtain ⟨heq', h'⟩ := hf e t h.tame hleft
    rw [Outcome.rescuing_of_raised hms, Outcome.rescuing_of_raised heq]
    exact ⟨heq', h'.of_before h.grows⟩
  · rw [Outcome.rescuing_of_not_raised hms, Outcome.rescuing_of_not_raised (heq ▸ hms)]
    exact ⟨heq, h⟩

/-- Which calls are active does not matter to what is left to load. -/
theorem inFrame {m n : Eval α} (hm : Settles files k m n) (label : String) :
    Settles files k (inFrame label m) (inFrame label n) := by
  intro s hs hk
  have hpushed : s.Grows { s with stack := s.stack.push label } := Grows.of_arrays_eq rfl rfl
  obtain ⟨heq, h⟩ := hm { s with stack := s.stack.push label } ⟨hs.ready, hs.tables⟩ hk
  rw [Outcome.inFrame_eq, Outcome.inFrame_eq, heq]
  refine ⟨rfl, (h.of_before hpushed).mapState ⟨h.tame.ready, h.tame.tables⟩ ?_⟩
  exact Grows.of_arrays_eq rfl rfl

/-- Neither does the present unit. -/
theorem inUnit {m n : Eval α} (hm : Settles files k m n) (name : String) :
    Settles files k (inUnit name m) (inUnit name n) := by
  intro s hs hk
  have hnamed : s.Grows { s with unitName := name } := Grows.of_arrays_eq rfl rfl
  obtain ⟨heq, h⟩ := hm { s with unitName := name } ⟨hs.ready, hs.tables⟩ hk
  rw [Outcome.inUnit_eq, Outcome.inUnit_eq, heq]
  refine ⟨rfl, (h.of_before hnamed).mapState ⟨h.tame.ready, h.tame.tables⟩ ?_⟩
  exact Grows.of_arrays_eq rfl rfl

theorem define (name : String) : Settles files k (define name) (define name) := by
  refine fun s hs _ => ⟨rfl, hs.define name, Grows.define name s, fun t ho => ?_⟩
  obtain ⟨e, he⟩ | ⟨r, h, _, _, hk⟩ := define_eq name s
  · rw [he] at ho
    cases ho
  · rw [hk] at ho
    cases ho

theorem assign {lhs : Node} (hl : lhs ≠ .globalVariable "LOADED_FEATURES") (v : Value) :
    Settles files k (assign lhs v) (assign lhs v) := by
  refine fun s hs _ => ⟨rfl, hs.assign hl v, Grows.assign hl v s, fun t ho => ?_⟩
  cases lhs <;> cases ho

/-! ### Loading -/

/-- **Whether two ways of running programs settle** on the texts of some files. -/
def Programs (files : FileSystem) (k : Nat) (run run' : String → Eval Value) : Prop :=
  ∀ source, files.HasText source → Settles files k (run source) (run' source)

section Loading

variable {run run' : String → Eval Value}

/-- **Requiring a unit.** A unit that was not loaded is run where one file less
is left to load, because it is noted first. -/
theorem require (hrun : Programs files k run run') (name : String) :
    Settles files (k + 1) (require files run name) (require files run' name) := by
  intro s hs hk
  unfold Interpreter.require
  by_cases hname : name = builtinFeature
  · rw [if_pos hname, if_pos hname]
    exact pure _ s hs hk
  rw [if_neg hname, if_neg hname, Outcome.get_bind, Outcome.get_bind]
  cases hfound : search files (unitFile name) s.loadPath with
  | nothing => exact ordinary (Ordinary.raise _) s hs hk
  | unexplored place =>
    have hincomplete : (Halt.unexplored place).IsOrdinary files :=
      complete_eq_false_of_search hfound
    exact ordinary (Ordinary.throw hincomplete) s hs hk
  | file path place bytes =>
    dsimp only
    cases hloaded : s.isLoaded place.path with
    | true =>
      rw [if_pos rfl, if_pos rfl]
      exact pure _ s hs hk
    | false =>
      rw [if_neg Bool.false_ne_true, if_neg Bool.false_ne_true]
      cases htext : (Entry.file bytes).text with
      | error e => exact ordinary (Ordinary.raise _) s hs hk
      | ok source =>
        have hlookup := lookup_of_search hfound
        -- the unit is run from `t`, where it is noted as loaded
        obtain ⟨t, hmark, hgrows, ht⟩ := hs.ready.markLoaded place.path
        have htame : t.Tame := by
          have hordinary : Ordinary files (markLoaded place.path) := Ordinary.markLoaded _
          have heffects := hordinary.effects s
          rw [hmark] at heffects
          exact hs.of_effects heffects
        have hless : t.unloaded files < k := by
          have hpath := FileSystem.path_mem_paths hlookup
          exact Nat.lt_of_lt_of_le (hgrows.unloaded_lt hs.ready hpath hloaded ht)
            (Nat.le_of_lt_succ hk)
        obtain ⟨heq, h⟩ := (hrun source ⟨_, _, _, hlookup, htext⟩).inUnit path t htame hless
        dsimp only
        rw [Outcome.noted_unit _ hmark, Outcome.noted_unit _ hmark, heq]
        exact ⟨rfl, h.ofUnit hgrows hs hloaded⟩

/-- **The body of a method** that stands under another name than `load`. -/
theorem body {host : Host} (hrun : Programs host.files k run run') {name : String}
    (hname : name ≠ "load") {body : MethodBody} (hbody : body.isTameUnder name)
    (receiver : Value) (args : List Value) :
    Settles host.files (k + 1) (body.call host run receiver args)
      (body.call host run' receiver args) := by
  cases hruns : body.runsText with
  | false =>
    rw [MethodBody.call_eq hruns host run run']
    exact ordinary (Ordinary.method hruns host run receiver args)
  | true =>
    -- of the bodies that run source texts, only `require` may stand there
    obtain rfl | rfl | ⟨source, rfl⟩ := MethodBody.eq_of_runsText hruns
    · exact bind (ordinary (Ordinary.onlyText args)) fun text _ => require hrun text
    · exact absurd (beq_iff_eq.mp hbody) hname
    · cases hbody

/-! ### Trees -/

section Nodes

variable {host : Host}

/-- **The call of a method**, whose arguments are evaluated after it was
found. -/
theorem call (hrun : Programs host.files k run run') {func : String} (hfunc : func ≠ "load")
    (receiver : Value) (hasTarget : Bool)
    {args args' : Eval (List Value)} (hargs : Settles host.files (k + 1) args args') :
    Settles host.files (k + 1)
      (do
        let m ← callable receiver func hasTarget
        let vs ← args
        Interpreter.inFrame func (m.body.call host run receiver vs))
      (do
        let m ← callable receiver func hasTarget
        let vs ← args'
        Interpreter.inFrame func (m.body.call host run' receiver vs)) := by
  refine bind (ordinary (Ordinary.callable receiver func hasTarget)) fun m hm => ?_
  obtain ⟨s, t, hs, hm⟩ := hm
  have hbody := hs.tables.callable hm
  exact bind hargs fun vs _ => inFrame (body hrun hfunc hbody receiver vs) func

mutual

/-- **Every tree whose parts are tame.** -/
theorem evalNode (hrun : Programs host.files k run run') (self : Value) :
    (n : Node) → (∀ part ∈ n.parts, part.isTame) →
    Settles host.files (k + 1) (evalNode host run self n) (evalNode host run' self n)
  | .call none func args, hP => by
    rw [Interpreter.evalNode, Interpreter.evalNode]
    rw [Node.parts] at hP
    have hfunc := bne_iff_ne.mp (hP _ List.mem_cons_self)
    refine call hrun hfunc self false (evalEach hrun self args fun part hk => hP part ?_)
    exact List.mem_cons_of_mem _ hk
  | .call (some target) func args, hP => by
    rw [Interpreter.evalNode, Interpreter.evalNode]
    rw [Node.parts] at hP
    have hfunc := bne_iff_ne.mp (hP _ List.mem_cons_self)
    refine bind (evalNode hrun self target fun part hk => hP part ?_) fun receiver _ => ?_
    · exact List.mem_cons_of_mem _ (List.mem_append_left _ hk)
    refine call hrun hfunc receiver true (evalEach hrun self args fun part hk => hP part ?_)
    exact List.mem_cons_of_mem _ (List.mem_append_right _ hk)
  | .assignment lhs rhs, hP => by
    rw [Interpreter.evalNode, Interpreter.evalNode]
    rw [Node.parts] at hP
    have hlhs : lhs ≠ .globalVariable "LOADED_FEATURES" := by
      rintro rfl
      exact bne_iff_ne.mp (hP _ List.mem_cons_self) rfl
    refine bind (evalNode hrun self rhs fun part hk => hP part ?_) fun v _ => ?_
    · exact List.mem_cons_of_mem _ hk
    · exact bind (assign hlhs v) fun _ _ => pure v
  | .ifBlock condition body orElse, hP => by
    rw [Interpreter.evalNode, Interpreter.evalNode]
    rw [Node.parts] at hP
    -- the condition is looked at, not evaluated
    split
    · refine evalAll hrun self .nil body fun part hk => hP part ?_
      exact List.mem_cons_of_mem _ (List.mem_append_left _ hk)
    · refine evalAll hrun self .nil orElse fun part hk => hP part ?_
      exact List.mem_cons_of_mem _ (List.mem_append_right _ hk)
  | .beginBlock body rescues, hP => by
    rw [Interpreter.evalNode, Interpreter.evalNode]
    rw [Node.parts] at hP
    refine rescuing (evalAll hrun self .nil body fun part hk => hP part ?_) fun e => ?_
    · exact List.mem_cons_of_mem _ (List.mem_append_left _ hk)
    · refine evalRescues hrun self e.kind.toS rescues (fun part hk => hP part ?_) e
      exact List.mem_cons_of_mem _ (List.mem_append_right _ hk)
  | .funcDecl name params body, _ => by
    rw [Interpreter.evalNode, Interpreter.evalNode]
    exact define name
  | .classDecl _ _ _, _ | .returnValue _, _ => by
    rw [Interpreter.evalNode, Interpreter.evalNode]
    exact fault _
  | .simpleString text, _ | .interpolatedString text, _ => by
    rw [Interpreter.evalNode, Interpreter.evalNode]
    exact ordinary (Ordinary.newString text)
  | .int _, _ | .float _, _ | .boolean _, _ => by
    rw [Interpreter.evalNode, Interpreter.evalNode]
    exact pure _
  | .globalVariable name, _ => by
    rw [Interpreter.evalNode, Interpreter.evalNode]
    exact ordinary (Ordinary.globalValue name)
  | .symbol name, _ => by
    rw [Interpreter.evalNode, Interpreter.evalNode]
    exact ordinary (Ordinary.intern name)
  | .bareReference name, _ => by
    rw [Interpreter.evalNode, Interpreter.evalNode]
    exact ordinary (Ordinary.reference self name)
  | .fileName, _ => by
    rw [Interpreter.evalNode, Interpreter.evalNode]
    exact ordinary (Ordinary.bind Ordinary.get fun s => Ordinary.newString _)

/-- Every sequence of nodes whose parts are tame. -/
theorem evalAll (hrun : Programs host.files k run run') (self last : Value) :
    (ns : List Node) → (∀ part ∈ Node.partsOfAll ns, part.isTame) →
    Settles host.files (k + 1) (evalAll host run self last ns) (evalAll host run' self last ns)
  | [], _ => by
    rw [Interpreter.evalAll, Interpreter.evalAll]
    exact pure last
  | n :: ns, hP => by
    rw [Interpreter.evalAll, Interpreter.evalAll]
    rw [Node.partsOfAll] at hP
    refine bind (evalNode hrun self n fun part hk => hP part ?_) fun v _ => ?_
    · exact List.mem_append_left _ hk
    · exact evalAll hrun self v ns fun part hk => hP part (List.mem_append_right _ hk)

/-- Every list of arguments whose parts are tame. -/
theorem evalEach (hrun : Programs host.files k run run') (self : Value) :
    (ns : List Node) → (∀ part ∈ Node.partsOfAll ns, part.isTame) →
    Settles host.files (k + 1) (evalEach host run self ns) (evalEach host run' self ns)
  | [], _ => by
    rw [Interpreter.evalEach, Interpreter.evalEach]
    exact pure []
  | n :: ns, hP => by
    rw [Interpreter.evalEach, Interpreter.evalEach]
    rw [Node.partsOfAll] at hP
    refine bind (evalNode hrun self n fun part hk => hP part ?_) fun v _ => ?_
    · exact List.mem_append_left _ hk
    refine bind (evalEach hrun self ns fun part hk => hP part ?_) fun vs _ => pure (v :: vs)
    exact List.mem_append_right _ hk

/-- Every list of clauses whose parts are tame. -/
theorem evalRescues (hrun : Programs host.files k run run') (self : Value)
    (raised : String) : (rs : List RescueClause) →
    (∀ part ∈ Node.partsOfRescues rs, part.isTame) → ∀ e, Settles host.files (k + 1)
      (evalRescues host run self raised rs e) (evalRescues host run' self raised rs e)
  | [], _, e => by
    rw [Interpreter.evalRescues, Interpreter.evalRescues]
    exact ordinary (Ordinary.throw trivial)
  | .mk className body :: rest, hP, e => by
    rw [Interpreter.evalRescues, Interpreter.evalRescues]
    rw [Node.partsOfRescues] at hP
    have hrest := evalRescues hrun self raised rest fun part hk =>
      hP part (List.mem_append_right _ hk)
    split
    · refine rescuing ?_ hrest
      exact evalAll hrun self .nil body fun part hk => hP part (List.mem_append_left _ hk)
    · exact hrest e

end

end Nodes

end Loading

/-! ### Programs -/

/-- **Running a tame text.** Programs can be nested as deep as there are files
left to load, or deeper; it makes no difference. -/
theorem program {host : Host}
    (hfiles : ∀ source, host.files.HasText source → isTameText source = true) {k m n : Nat}
    (hm : k ≤ m) (hn : k ≤ n) {source : String} (hsource : isTameText source = true) :
    Settles host.files k (run host m source) (run host n source) := by
  induction k generalizing m n source with
  | zero => exact fun s _ hk => absurd hk (Nat.not_lt_zero _)
  | succ k ih =>
    obtain ⟨m, rfl⟩ := Nat.exists_eq_add_one_of_ne_zero (Nat.ne_zero_of_lt hm)
    obtain ⟨n, rfl⟩ := Nat.exists_eq_add_one_of_ne_zero (Nat.ne_zero_of_lt hn)
    unfold isTameText at hsource
    rw [Interpreter.run, Interpreter.run]
    refine bind (ordinary Ordinary.get) fun s _ => ?_
    cases hparse : parse source with
    | error e => exact ordinary (Ordinary.raise _)
    | ok nodes =>
      rw [hparse] at hsource
      -- `ih` is about the texts that the nodes of this one run
      have hrun : Programs host.files k (run host m) (run host n) := fun source htext =>
        ih (Nat.le_of_succ_le_succ hm) (Nat.le_of_succ_le_succ hn) (hfiles source htext)
      exact inFrame (evalAll hrun s.main .nil nodes (List.all_eq_true.mp hsource)) "main"

/-- **Every request**, if the text that it asks for is tame. -/
theorem request {host : Host}
    (hfiles : ∀ source, host.files.HasText source → isTameText source = true) {k m n : Nat}
    (hm : k < m) (hn : k < n) {r : Request}
    (hr : ∀ source, r = .run source → isTameText source = true) :
    Settles host.files (k + 1) (r.eval host m) (r.eval host n) := by
  have hread {path source : String}
      (h : ∃ s t : Interpreter, s.Tame ∧ readText host.files path s = .ok (.ok source) t) :
      Settles host.files (k + 1) (run host m source) (run host n source) := by
    obtain ⟨s, t, _, hs⟩ := h
    obtain ⟨place, entry, hlookup, htext⟩ := lookup_of_readText hs
    exact program hfiles hm hn (hfiles source ⟨_, _, _, hlookup, htext⟩)
  cases r with
  | run source => exact program hfiles hm hn (hr source rfl)
  | runFile path =>
    refine bind (ordinary (Ordinary.readText path)) fun text htext => ?_
    cases text with
    | error e => exact ordinary (Ordinary.raise _)
    | ok source => exact inUnit (hread htext) path
  | load path =>
    refine bind (ordinary (Ordinary.readText path)) fun text htext => ?_
    cases text with
    | error e => exact ordinary (Ordinary.raise _)
    | ok source => exact bind (inUnit (hread htext) path) fun _ _ => pure _
  | require name =>
    refine require (fun source htext => ?_) name
    exact program hfiles (Nat.le_of_lt hm) (Nat.le_of_lt hn) (hfiles source htext)

end Settles

/-! ## Sessions -/

/-- **A session of tame texts** has the same outcomes for any two depths that
exceed the number of places in the file system, and is not exhausted. -/
theorem Session.settles {host : Host}
    (hfiles : ∀ source, host.files.HasText source → isTameText source = true) {m n : Nat}
    (hm : host.files.entries.length < m) (hn : host.files.entries.length < n)
    {rs : List Request} (hrs : ∀ source, .run source ∈ rs → isTameText source = true)
    {s : Interpreter} (hs : s.Tame) :
    outcomes host n rs s = outcomes host m rs s ∧
      ∀ o ∈ outcomes host m rs s, ∀ t, o ≠ .error .exhausted t := by
  induction rs generalizing s with
  | nil => exact ⟨rfl, fun _ ho => absurd ho List.not_mem_nil⟩
  | cons r rs ih =>
    have hr (source : String) (h : r = .run source) : isTameText source = true :=
      hrs source (h ▸ List.mem_cons_self)
    obtain ⟨heq, h⟩ := Settles.request hfiles hm hn hr s hs
      (Nat.lt_succ_of_le (s.unloaded_le host.files))
    -- the next request starts where this one has stopped, also if it failed
    obtain ⟨heqs, hend⟩ := ih (fun source hmem => hrs source (List.mem_cons_of_mem _ hmem)) h.tame
    rw [outcomes, outcomes, heq, heqs]
    exact ⟨rfl, List.forall_mem_cons.mpr ⟨h.notExhausted, hend⟩⟩

/-- **Programs come to an end.** Take a session of a new interpreter in which
neither the texts that are asked for nor those of files come to a call of the
name `load` or to an assignment to the global `$LOADED_FEATURES`.

* Programs are nested no deeper in each other than there are places in the file
  system, even where units require each other in cycles or are required again
  after they failed: every greater bound gives the same outcomes.
* Every request ends with a value, an error or a fault – unless a place in the
  file system was needed that has not been looked at, which takes one that was
  looked at only in part.
* Wherever the session comes to, the search for a method and the walk upwards
  from a class end by themselves: greater bounds give the same result. -/
theorem tame_programs_terminate (host : Host) (rs : List Request) (programName : String)
    (loadPath argv : List String)
    (hrs : ∀ source, .run source ∈ rs → isTameText source = true)
    (hfiles : ∀ source, host.files.HasText source → isTameText source = true) :
    let s := start programName loadPath argv
    let bound := host.files.entries.length + 1
    (∀ depth ≥ bound, Session.outcomes host depth rs s = Session.outcomes host bound rs s) ∧
    (∀ o ∈ Session.outcomes host bound rs s,
      (∃ v t, o = .ok v t) ∨ (∃ e t, o = .error (.raised e) t) ∨
      (∃ f t, o = .error (.fault f) t) ∨
      (host.files.complete = false ∧ ∃ place t, o = .error (.unexplored place) t)) ∧
    ∀ e ∈ Session.journal host bound rs s, ∀ h, h = e.before.heap ∨ h = e.after.heap →
      ∀ room ≥ h.classes.size, ∀ r,
        (∀ name, h.instanceMethodWithin name room r = h.instanceMethod? r name) ∧
        h.lineageWithin room r = h.lineage r := by
  intro s bound
  have htame : s.Tame := Tame.start programName loadPath argv
  have hbound : host.files.entries.length < bound := Nat.lt_succ_self _
  refine ⟨fun depth hdepth => ?_, fun o ho => ?_, fun e he h hh room hroom r => ?_⟩
  · exact (Session.settles hfiles hbound (Nat.lt_of_lt_of_le hbound hdepth) hrs htame).1
  · cases o with
    | ok v t => exact Or.inl ⟨v, t, rfl⟩
    | error x t =>
      cases x with
      | raised e => exact Or.inr (Or.inl ⟨e, t, rfl⟩)
      | fault f => exact Or.inr (Or.inr (Or.inl ⟨f, t, rfl⟩))
      | unexplored place =>
        have hincomplete := Session.explained host bound rs s ho rfl
        exact Or.inr (Or.inr (Or.inr ⟨hincomplete, place, t, rfl⟩))
      | exhausted =>
        exact absurd rfl ((Session.settles hfiles hbound hbound hrs htame).2 _ ho t)
  · have hranked : h.Ranked := by
      obtain ⟨hbefore, hafter⟩ := Session.keeps Heap.Ranked.invariant host bound rs
        (Heap.Ranked.start programName loadPath argv) e he
      obtain rfl | rfl := hh
      · exact hbefore
      · exact hafter
    exact ⟨fun name => hranked.instanceMethod? hroom r name, hranked.lineage hroom r⟩

/-- The texts of the files that are listed. -/
def FileSystem.texts (files : FileSystem) : List String :=
  files.entries.filterMap fun e => e.2.bind fun entry => entry.text.toOption

/-- A text that a path leads to is that of a listed file. -/
theorem FileSystem.HasText.mem_texts {files : FileSystem} {source : String}
    (h : files.HasText source) : source ∈ files.texts := by
  obtain ⟨path, place, entry, hlookup, htext⟩ := h
  cases entry with
  | file bytes =>
    refine List.mem_filterMap.mpr ⟨_, mem_entries_of_lookup hlookup, ?_⟩
    show (Entry.file bytes).text.toOption = some source
    rw [htext]
    rfl
  | directory => cases htext

/-- A host with two units that require each other, and one that always fails,
after it has required one of them and itself. -/
def hostOfFailure : Host where
  files :=
    FileSystem.empty []
      |>.write ["left.rb"] (.file "require('right')\nputs('left')".toUTF8)
      |>.write ["right.rb"] (.file "require('left')\nputs('right')".toUTF8)
      |>.write ["flaky.rb"]
        (.file "require('left')\nrequire('flaky')\nputs('flaky')\nraise(TypeError)".toUTF8)
  home := none
  processId := 1

/-- A unit that fails is required again when its error is handled, and an array
is put into itself and printed, inspected, joined and searched. Both programs
come to an end. -/
theorem retried_failure_terminates :
    let retries := "begin\n require('flaky')\nrescue TypeError\n require('flaky')\n" ++
      "rescue TypeError\n puts('gave up')\nend"
    let contains := "$a = Array.new()\n$a.push($a, 'x')\n" ++
      "puts($a, $a.inspect(), $a.join('-'), $a.include?($a))"
    let rs := [retries, contains].map .run
    let s := start "main.rb" ["/"] []
    let bound := hostOfFailure.files.entries.length + 1
    (Session.outcomes hostOfFailure bound rs s).map (fun o => (Outcome.state o).printed)
      = ["right\nleft\nflaky\nflaky\ngave up\n",
        "right\nleft\nflaky\nflaky\ngave up\n" ++
          "[...]\nx\n[[...], \"x\"]\n[[...], \"x\"]-x\ntrue\n"] ∧
    ∀ depth ≥ bound,
      Session.outcomes hostOfFailure depth rs s = Session.outcomes hostOfFailure bound rs s := by
  intro retries contains rs s bound
  refine ⟨by decide +kernel, ?_⟩
  refine (tame_programs_terminate hostOfFailure rs "main.rb" ["/"] [] ?_ ?_).1
  · intro source hmem
    have hall : [retries, contains].all isTameText = true := by decide +kernel
    obtain ⟨text, htext, heq⟩ := List.mem_map.mp hmem
    cases heq
    exact List.all_eq_true.mp hall source htext
  · intro source htext
    have hall : hostOfFailure.files.texts.all isTameText = true := by decide +kernel
    exact List.all_eq_true.mp hall source htext.mem_texts

end Garnet
