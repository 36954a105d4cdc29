import Garnet.Proofs.Sessions

/-!
# Stretches of a journal

Many statements about an evaluation speak of three things: the interpreter
before it, what took place in it, and the interpreter after it. Such a
statement is a relation along **stretches** of journals, and it is proved by
putting stretches together: one evaluation follows another, an episode ends, a
unit is left.

`Composes` lists what has to be checked of a relation for this, once and for
all evaluations: `Composes.session` draws the conclusion for whole sessions.
Where interpreters with some property only are considered, the relation may
assume the property of where a stretch starts and has to ensure it where the
stretch ends.
-/

namespace Garnet

open Interpreter

/-! ## Requiring a unit -/

/-- **What comes out of requiring a unit** with a canonical path, given what
came out of its evaluation. -/
def Outcome.ofUnit (p : String) :
    EStateM.Result Halt Interpreter Value → EStateM.Result Halt Interpreter Value
  | .ok _ s => .ok .true s
  | .error (.raised x) s => .error (.raised x) (unmarkLoaded p s)
  | .error h s => .error h s

/-- Looking at the interpreter is nothing that the journal notes. -/
theorem Watched.noting_get (a : Activity) (k : Interpreter → Watched Value) (s : Interpreter) :
    (Watched.noting a (Watched.quietly get >>= k)).eval s = (Watched.noting a (k s)).eval s ∧
    (Watched.noting a (Watched.quietly get >>= k)).journal s
      = (Watched.noting a (k s)).journal s :=
  ⟨rfl, rfl⟩

/-- **The evaluation of a unit that was not loaded**, once it is noted. -/
theorem Outcome.noted_unit {p : String} {s t : Interpreter} (m : Eval Value)
    (hmark : markLoaded p s = .ok () t) :
    (do
      markLoaded p
      let _ ← undoing (unmarkLoaded p) m
      return Value.true) s = ofUnit p (m t) := by
  refine (bind_of_ok hmark).trans ?_
  show EStateM.bind (undoing (unmarkLoaded p) m) _ t = _
  unfold EStateM.bind undoing
  cases m t with
  | ok w u => rfl
  | error h u => cases h <;> rfl

/-- The same, watched. -/
theorem Watched.noted_unit {p : String} {s t : Interpreter} (path : String)
    (unit : Watched Value) (hmark : markLoaded p s = .ok () t) :
    let v := Watched.inUnit path unit
    let m : Watched Value := do
      Watched.quietly (markLoaded p)
      let _ ← Watched.undoing (unmarkLoaded p) v
      return .true
    m.eval s = Outcome.ofUnit p (v.eval t) ∧ m.journal s = v.journal t := by
  intro v m
  refine ⟨Outcome.noted_unit v.eval hmark, (Watched.journal_bind_of_ok hmark).trans ?_⟩
  cases hv : (Watched.undoing (unmarkLoaded p) v).eval t with
  | ok w u => exact (Watched.journal_bind_of_ok hv).trans (List.append_nil _)
  | error h u => exact Watched.journal_bind_of_error hv

/-- **Noting that a unit is loaded** succeeds everywhere. -/
theorem Interpreter.markLoaded_eq (p : String) (s : Interpreter) :
    ∃ t, markLoaded p s = .ok () t ∧ Effects s t := by
  have heffects := (Ordinary.markLoaded p : Ordinary (FileSystem.empty []) _).effects s
  cases hmark : markLoaded p s with
  | ok u t =>
    rw [hmark] at heffects
    exact ⟨t, rfl, heffects⟩
  | error h t =>
    unfold Interpreter.markLoaded at hmark
    rw [Outcome.get_bind] at hmark
    cases hr : s.globalArray? "LOADED_FEATURES" with
    | none =>
      rw [hr] at hmark
      cases hmark
    | some r =>
      rw [hr] at hmark
      cases hmark

/-! ## Relations along stretches -/

/-- **How a method comes to be called**: it was found, in an interpreter with a
property, for the receiver that it is called on, and what comes out is what its
body does. -/
def Episode.IsCall (A : Interpreter → Prop) (e : Episode) : Prop :=
  ∀ m receiver args, e.activity = .method m receiver args →
    (∃ s func hasTarget t, A s ∧ callable receiver func hasTarget s = .ok m t) ∧
    ∃ host run, e.outcome = m.body.call host run receiver args e.before

/-- **A relation that holds along all stretches of journals** which start at an
interpreter with the property `A`: what has to be checked of it. -/
structure Composes (A : Interpreter → Prop) (R : Interpreter → List Episode → Interpreter → Prop) :
    Prop where
  /-- A stretch ends where another one can start. -/
  after : ∀ {s t : Interpreter} {es : List Episode}, A s → R s es t → A t
  /-- Nothing takes place in effects. -/
  effects : ∀ {s t : Interpreter}, A s → Effects s t → R s [] t
  /-- One stretch after another. -/
  append : ∀ {s t u : Interpreter} {es fs : List Episode}, A s → R s es t → R t fs u →
    R s (es ++ fs) u
  /-- A stretch may start whatever the active calls and the present unit
  are. -/
  start : ∀ {s : Interpreter} (stack : CallStack) (unitName : String), A s →
    A { s with stack := stack, unitName := unitName }
  /-- They are no matter of the relation. -/
  scopes : ∀ {s t : Interpreter} {es : List Episode} (stack stack' : CallStack)
    (unitName unitName' : String), A s → R { s with stack := stack, unitName := unitName } es t →
    R s es { t with stack := stack', unitName := unitName' }
  /-- The end of an episode that has no effect of its own. -/
  ended : ∀ {a : Activity} {s : Interpreter} {o : EStateM.Result Halt Interpreter Value}
    {es : List Episode}, A s → (⟨a, s, o, es⟩ : Episode).IsCall A → R s es (Outcome.state o) →
    R s (es ++ [⟨a, s, o, es⟩]) (Outcome.state o)
  /-- The definition of a method. -/
  define : ∀ {self : Value} {name : String} {params : List String} {body : List Node}
    {s : Interpreter}, A s →
    R s [⟨.node self (.funcDecl name params body), s, define name s, []⟩]
      (Outcome.state (define name s))
  /-- An assignment, once the value is there. -/
  assignment : ∀ {self v : Value} {lhs rhs : Node} {s t : Interpreter} {es : List Episode}, A s →
    R s es t → let o := (assign lhs v >>= fun _ => pure v) t
    R s (es ++ [⟨.node self (.assignment lhs rhs), s, o, es⟩]) (Outcome.state o)
  /-- The note for a unit is taken back that was not there at the start. -/
  unmarked : ∀ {p : String} {s t : Interpreter} {es : List Episode}, A s →
    s.isLoaded p = false → R s es t → R s es (unmarkLoaded p t)

/-- **An evaluation along which a relation holds.** -/
def Along {α : Type} (A : Interpreter → Prop) (R : Interpreter → List Episode → Interpreter → Prop)
    (m : Watched α) : Prop :=
  ∀ s, A s → R s (m.journal s) (Outcome.state (m.eval s))

namespace Composes

variable {A : Interpreter → Prop} {R : Interpreter → List Episode → Interpreter → Prop}
variable {α β : Type}

section Evaluations

variable (h : Composes A R)

include h

theorem refl {s : Interpreter} (hs : A s) : R s [] s :=
  h.effects hs Relation.ReflTransGen.refl

/-- Computations in which nothing takes place. -/
theorem ordinary {files : FileSystem} {m : Eval α} (hm : Ordinary files m) :
    Along A R (Watched.quietly m) :=
  fun s hs => h.effects hs (hm.effects s)

theorem throw (x : Halt) : Along A R (Watched.quietly (throw x : Eval α)) :=
  fun _ hs => h.refl hs

theorem bind {m : Watched α} {f : α → Watched β} (hm : Along A R m)
    (hf : ∀ a, (∃ s t, A s ∧ m.eval s = .ok a t) → Along A R (f a)) : Along A R (m >>= f) := by
  intro s hs
  have hms := hm s hs
  rw [Watched.eval_bind]
  cases hma : m.eval s with
  | ok a t =>
    rw [hma] at hms
    rw [Outcome.bind_of_ok hma, Watched.journal_bind_of_ok hma]
    exact h.append hs hms (hf a ⟨s, t, hs, hma⟩ t (h.after hs hms))
  | error x t =>
    rw [hma] at hms
    rw [Outcome.bind_of_error hma, Watched.journal_bind_of_error hma]
    exact hms

theorem rescuing {m : Watched α} {handler : Error → Watched α} (hm : Along A R m)
    (hh : ∀ e, Along A R (handler e)) : Along A R (Watched.rescuing m handler) := by
  intro s hs
  have hms := hm s hs
  rw [Watched.eval_rescuing]
  obtain ⟨x, t, hma⟩ | hma := Outcome.raised_or_not (m.eval s)
  · rw [hma] at hms
    rw [Outcome.rescuing_of_raised hma, Watched.journal_rescuing_of_raised hma]
    exact h.append hs hms (hh x t (h.after hs hms))
  · rw [Outcome.rescuing_of_not_raised hma, Watched.journal_rescuing_of_not_raised hma]
    exact hms

theorem inFrame {label : String} {m : Watched α} (hm : Along A R m) :
    Along A R (Watched.inFrame label m) := by
  intro s hs
  have hms := hm _ (h.start (s.stack.push label) s.unitName hs)
  rw [Watched.eval_inFrame, Outcome.inFrame_eq, Outcome.state_mapState]
  exact h.scopes _ _ _ _ hs hms

theorem inUnit {name : String} {m : Watched α} (hm : Along A R m) :
    Along A R (Watched.inUnit name m) := by
  intro s hs
  have hms := hm _ (h.start s.stack name hs)
  rw [Watched.eval_inUnit, Outcome.inUnit_eq, Outcome.state_mapState]
  exact h.scopes _ _ _ _ hs hms

/-- The end of an episode that is no call of a method. -/
theorem noting {a : Activity} {m : Watched Value}
    (ha : ∀ m receiver args, a ≠ .method m receiver args) (hm : Along A R m) :
    Along A R (Watched.noting a m) :=
  fun s hs => h.ended hs (fun m receiver args heq => absurd heq (ha m receiver args)) (hm s hs)

/-- **Requiring a unit.** What is taken back after a failure is a note that was
not there before. -/
theorem require {files : FileSystem} {run : String → Watched Value}
    (hrun : ∀ source, Along A R (run source)) (name : String) :
    Along A R (Watched.require files run name) := by
  intro s hs
  have hcall (o es) : (⟨.require name, s, o, es⟩ : Episode).IsCall A :=
    fun _ _ _ => Activity.noConfusion
  unfold Watched.require
  split
  · exact h.ended hs (hcall _ _) (h.refl hs)
  rw [(Watched.noting_get _ _ s).1, (Watched.noting_get _ _ s).2]
  cases search files (unitFile name) s.loadPath with
  | nothing => exact h.ended hs (hcall _ _) (h.refl hs)
  | unexplored place => exact h.ended hs (hcall _ _) (h.refl hs)
  | file path place bytes =>
    dsimp only
    cases hloaded : s.isLoaded place.path with
    | true => exact h.ended hs (hcall _ _) (h.refl hs)
    | false =>
      rw [if_neg Bool.false_ne_true]
      cases (Entry.file bytes).text with
      | error e => exact h.ended hs (hcall _ _) (h.refl hs)
      | ok source =>
        -- the text is run from `t`, where the unit is noted as loaded
        obtain ⟨t, hmark, heffects⟩ := markLoaded_eq place.path s
        have hst := h.effects hs heffects
        obtain ⟨heval, hjournal⟩ := Watched.noted_unit path (run source) hmark
        have hinside : Along A R (Watched.inUnit path (run source)) := h.inUnit (hrun source)
        have hunit := h.append hs hst (hinside t (h.after hs hst))
        rw [List.nil_append] at hunit
        rw [Watched.journal_noting, Watched.eval_noting, heval, hjournal]
        refine h.ended hs (hcall _ _) ?_
        generalize (Watched.inUnit path (run source)).eval t = r at hunit ⊢
        generalize (Watched.inUnit path (run source)).journal t = es at hunit ⊢
        cases r with
        | ok v u => exact hunit
        | error x u =>
          cases x with
          | raised x => exact h.unmarked hs hloaded hunit
          | fault f => exact hunit
          | unexplored place => exact hunit
          | exhausted => exact hunit

/-- **An assignment**: the value, and then the binding. -/
theorem assigned {self : Value} {lhs rhs : Node} {m : Watched Value} (hm : Along A R m) :
    Along A R (Watched.noting (.node self (.assignment lhs rhs)) do
      let v ← m
      Watched.quietly (assign lhs v)
      return v) := by
  intro s hs
  have hms := hm s hs
  rw [Watched.journal_noting, Watched.eval_noting, Watched.eval_bind]
  cases hma : m.eval s with
  | ok v t =>
    rw [hma] at hms
    have hjournal (f : Watched Value) (hf : f.journal t = []) :
        m.journal s = m.journal s ++ f.journal t := by
      rw [hf, List.append_nil]
    rw [Outcome.bind_of_ok hma, Watched.journal_bind_of_ok hma, ← hjournal]
    · exact h.assignment hs hms
    -- nothing takes place in the binding
    · cases lhs <;> rfl
  | error x t =>
    rw [hma] at hms
    rw [Outcome.bind_of_error hma, Watched.journal_bind_of_error hma]
    exact h.ended hs (fun _ _ _ => Activity.noConfusion) hms

/-- **The relation holds along every evaluation.** -/
theorem closed (host : Host) :
    Watched.Closed host ⟨fun _ => True, A, fun _ => True⟩ (Along A R) where
  texts _ _ := trivial
  methods _ _ _ := trivial
  ordinary := h.ordinary
  bind := h.bind
  rescuing := h.rescuing
  inFrame := h.inFrame
  inUnit := h.inUnit
  method {run m receiver args} hfound hbody := by
    intro s hs
    refine h.ended hs (fun m' receiver' args' heq => ?_) (hbody s hs)
    cases heq
    refine ⟨hfound, host, fun source => (run source).eval, ?_⟩
    exact congrFun (Watched.eval_callBody host run m.body receiver args) s
  file := h.noting fun _ _ _ => Activity.noConfusion
  program _ := h.noting fun _ _ _ => Activity.noConfusion
  require hrun := h.require fun source => hrun source trivial
  node _ := h.noting fun _ _ _ => Activity.noConfusion
  define _ := fun _ hs => h.define hs
  assignment _ := h.assigned
  notEvaluated _ _ := h.noting (fun _ _ _ => Activity.noConfusion) (h.throw _)
  exhausted := h.throw _

/-- **Along every request**: the running of a text or a file, the requiring and
the loading of a unit. -/
theorem request (host : Host) (depth : Nat) (r : Request) {s : Interpreter} (hs : A s) :
    R s ((r.watched host depth).journal s) (Outcome.state (r.eval host depth s)) := by
  have hrun := (h.closed host).run (fun _ => trivial) depth
  have hr := Request.of_closed (h.closed host) hrun (fun _ _ => trivial) (r := r) s hs
  rwa [Request.eval_watched] at hr

/-- **Along every session.** -/
theorem session (host : Host) (depth : Nat) (rs : List Request) {s : Interpreter} (hs : A s) :
    ∃ t, R s (Session.journal host depth rs s) t := by
  induction rs generalizing s with
  | nil => exact ⟨s, h.refl hs⟩
  | cons r rs ih =>
    have hr := h.request host depth r hs
    obtain ⟨t, ht⟩ := ih (h.after hs hr)
    exact ⟨t, h.append hs hr ht⟩

end Evaluations

end Composes

end Garnet
