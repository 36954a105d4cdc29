import Garnet.Proofs.Raising
import Garnet.Proofs.Scopes

/-!
# Where errors are raised

An error gets its backtrace where it is raised, and keeps it on its way
outwards. An episode that ends with an error either raises it itself, or lets
pass the error of the last episode inside it (`Episode.Accounts`). Following
the last episodes inwards one comes to the episode where the error was raised
(`Episode.Raised`), and collects on the way the labels of the calls that were
entered. These labels, in front of those that were active outside, are the
backtrace (`Episode.Traced.raised`).

This module has the vocabulary, and what it takes for the errors of composed
evaluations to be traced (`Tracks`). There must be no errors among the values
at the start, because raising one of them again would show where that one came
from, and no methods but the builtin ones and those that programs define
(`Interpreter.Clean`).
-/

namespace Garnet

open Interpreter

/-! ## Following errors -/

/-- **The backtrace that a new error gets** in some calls: none if no call is
active. -/
def CallStack.backtrace? (stack : CallStack) : Option Backtrace :=
  if stack.frames.isEmpty then none else some stack.capture

/-- A new error, where it is raised. -/
theorem Error.raisedAt_ofKind (κ : ErrorKind) (stack : CallStack) :
    (Error.ofKind κ).raisedAt stack = ⟨κ, stack.backtrace?⟩ := by
  show (if !stack.frames.isEmpty then _ else _ : Error) = _
  unfold CallStack.backtrace?
  cases stack.frames.isEmpty with
  | false => rfl
  | true => rfl

/-- **How activities are nested in each other**, and with which labels the inner
one is entered, the innermost first. -/
inductive Activity.Enters : Activity → Activity → List String → Prop where
  /-- Evaluating a node evaluates nodes. -/
  | node {self : Value} {n k : Node} : Enters (.node self n) (.node self k) []
  /-- A call enters the body of a method. -/
  | method {self : Value} {target : Option Node} {func : String} {args : List Node}
      {m : Method} {receiver : Value} {values : List Value} :
      Enters (.node self (.call target func args)) (.method m receiver values) [func]
  /-- The body of a method may require a unit. -/
  | require {m : Method} {receiver : Value} {values : List Value} {name : String} :
      Enters (.method m receiver values) (.require name) []
  /-- It may load a file. -/
  | load {m : Method} {receiver : Value} {values : List Value} {path : String} :
      Enters (.method m receiver values) (.file path) []
  /-- A unit is a program. -/
  | unit {name source : String} : Enters (.require name) (.program source) []
  /-- So is a file. -/
  | file {path source : String} : Enters (.file path) (.program source) []
  /-- A program enters a call of its own for its nodes. -/
  | program {source : String} {self : Value} {n : Node} :
      Enters (.program source) (.node self n) ["main"]

/-- Whether an episode ends with an error. -/
def Episode.Raises (e : Episode) (x : Error) : Prop :=
  ∃ t, e.outcome = .error (.raised x) t

/-- Whether the last of some episodes, if there is one, ends without an
error. -/
def Settled (es : List Episode) : Prop :=
  ∀ k, es.getLast? = some k → ∀ x, ¬k.Raises x

/-- **An error that came out of the last of some episodes**, which was entered
with labels in front of `frames`. -/
def CameOut (enters : Activity → List String → Prop) (frames : List String) (es : List Episode)
    (x : Error) : Prop :=
  ∃ k X, es.getLast? = some k ∧ k.Raises x ∧ enters k.activity X ∧
    k.before.stack.frames = X ++ frames

/-- **An error that is new** after some episodes: it did not come out of the
last of them, and has the backtrace of the present calls. -/
def IsNew (stack : CallStack) (es : List Episode) (x : Error) : Prop :=
  Settled es ∧ ∃ κ, x = (Error.ofKind κ).raisedAt stack

/-- **Where the error of an episode comes from**: the last episode inside, or
nowhere but the episode itself, where it is new. -/
def Episode.Accounts (e : Episode) : Prop :=
  ∀ x, e.Raises x → CameOut e.activity.Enters e.before.stack.frames e.parts x ∨
    IsNew e.before.stack e.parts x

/-- An episode whose errors can be followed, at every depth. -/
inductive Episode.Traced : Episode → Prop where
  | mk {e : Episode} : e.Accounts → (∀ k ∈ e.parts, Traced k) → Traced e

/-- **The way of an error out of an episode**: `e.Raised x X o` says that the
error `x` of the episode `e` was raised in the episode `o`, and passed unchanged
every episode in between; `X` lists the labels of the calls that were entered
between `e` and `o`, the innermost first. -/
inductive Episode.Raised (x : Error) : Episode → List String → Episode → Prop where
  /-- The error is raised in the episode itself. -/
  | here {e : Episode} : e.Raises x → Settled e.parts → Raised x e [] e
  /-- The error comes out of the last episode inside. -/
  | inside {e k o : Episode} {X Y : List String} : e.Raises x → e.parts.getLast? = some k →
      e.activity.Enters k.activity Y → Raised x k X o → Raised x e (X ++ Y) o

/-- **Every error can be followed to where it was raised**, and is new there. -/
theorem Episode.Traced.raised {e : Episode} (h : e.Traced) {x : Error} (hx : e.Raises x) :
    ∃ X o, e.Raised x X o ∧ o.before.stack.frames = X ++ e.before.stack.frames ∧
      x.backtrace = o.before.stack.backtrace? := by
  induction h with
  | mk haccounts _ ih =>
    obtain ⟨k, Y, hk, hkx, henters, hframes⟩ | ⟨hsettled, κ, rfl⟩ := haccounts x hx
    · obtain ⟨X, o, hraised, ho, hnew⟩ := ih k (List.mem_of_getLast? hk) hkx
      refine ⟨X ++ Y, o, .inside hx hk henters hraised, ?_, hnew⟩
      rw [ho, hframes, List.append_assoc]
    · exact ⟨[], _, .here hx hsettled, rfl, by rw [Error.raisedAt_ofKind]⟩

theorem Settled.nil : Settled [] :=
  fun _ hk => by cases hk

/-- What is settled stays so if what follows is settled, too. -/
theorem Settled.append {es fs : List Episode} (hes : Settled es) (hfs : Settled fs) :
    Settled (es ++ fs) := by
  intro k hk
  rw [List.getLast?_append] at hk
  cases hf : fs.getLast? with
  | some l =>
    rw [hf] at hk
    cases hk
    exact hfs k hf
  | none =>
    rw [hf] at hk
    exact hes k hk

/-- What stands further ahead is no matter to where an error came out. -/
theorem CameOut.append {enters : Activity → List String → Prop} {frames : List String}
    {fs : List Episode} {x : Error} (h : CameOut enters frames fs x) (es : List Episode) :
    CameOut enters frames (es ++ fs) x := by
  obtain ⟨k, X, hk, hrest⟩ := h
  refine ⟨k, X, ?_, hrest⟩
  rw [List.getLast?_append, hk]
  rfl

/-! ## Clean interpreters -/

/-- Not an error. -/
abbrev Value.NoError (v : Value) : Prop :=
  v.isError = Bool.false

/-- **An interpreter without errors among its values**, and with no methods but
builtin ones and those that do nothing. -/
abbrev Interpreter.Clean (s : Interpreter) : Prop :=
  s.Holds Value.NoError fun b => b.isOwn

/-! ## Outcomes -/

/-- **An outcome whose errors can be followed.** An error came out of the last
episode, unless it is one of the evaluation's own. -/
structure Outcome.Tracked {α : Type} (enters : Activity → List String → Prop)
    (own : List Episode → Error → Prop) (Q : α → Prop) (s : Interpreter) (es : List Episode)
    (o : EStateM.Result Halt Interpreter α) : Prop where
  /-- The active calls are the same afterwards. -/
  stack : (Outcome.state o).stack = s.stack
  /-- The interpreter is clean afterwards. -/
  clean : (Outcome.state o).Clean
  /-- The result has its property. -/
  yields : ∀ a t, o = .ok a t → Q a
  /-- The errors of everything inside can be followed. -/
  traced : ∀ e ∈ es, e.Traced
  /-- So can the error of the whole. -/
  raised : ∀ x t, o = .error (.raised x) t → CameOut enters s.stack.frames es x ∨ own es x

/-- An outcome may be expected to have more errors of its own. -/
theorem Outcome.Tracked.mono {α : Type} {enters : Activity → List String → Prop}
    {own own' : List Episode → Error → Prop} {Q : α → Prop} {s : Interpreter} {es : List Episode}
    {o : EStateM.Result Halt Interpreter α} (h : Tracked enters own Q s es o)
    (hown : ∀ x, own es x → own' es x) : Tracked enters own' Q s es o :=
  { h with raised := fun x t hx => (h.raised x t hx).imp_right (hown x) }

/-- An outcome whose interpreter is changed afterwards, seen from `t`. -/
theorem Outcome.Tracked.mapState {α : Type} {enters enters' : Activity → List String → Prop}
    {own own' : List Episode → Error → Prop} {Q : α → Prop} {s t : Interpreter}
    {es : List Episode} {o : EStateM.Result Halt Interpreter α} {f : Interpreter → Interpreter}
    (h : Tracked enters own Q s es o) (hstack : (f (Outcome.state o)).stack = t.stack)
    (hclean : (f (Outcome.state o)).Clean)
    (hraised : ∀ x, CameOut enters s.stack.frames es x ∨ own es x →
      CameOut enters' t.stack.frames es x ∨ own' es x) :
    Tracked enters' own' Q t es (mapState f o) where
  stack := by rwa [state_mapState]
  clean := by rwa [state_mapState]
  yields a u ha := by
    obtain ⟨v, hv⟩ := ok_of_mapState ha
    exact h.yields a v hv
  traced := h.traced
  raised x u hx := by
    obtain ⟨v, hv⟩ := error_of_mapState hx
    exact hraised x (h.raised x v hv)

/-- **An evaluation whose errors can be followed**, if it starts in a clean
interpreter. It may raise new errors itself if `fresh` is true; where it gives
a result, no error came out of its last episode. -/
structure Tracks {α : Type} (fresh : Prop) (enters : Activity → List String → Prop)
    (Q : α → Prop) (m : Watched α) : Prop where
  tracked : ∀ s : Interpreter, s.Clean →
    Outcome.Tracked enters (fun es x => fresh ∧ IsNew s.stack es x) Q s (m.journal s) (m.eval s)
  settled : ∀ s a t, s.Clean → m.eval s = .ok a t → Settled (m.journal s)

namespace Tracks

variable {α β : Type} {fresh : Prop} {enters : Activity → List String → Prop}

/-! ### Quiet steps -/

/-- **A step that raises new errors only.** -/
theorem quietly {Q : α → Prop} {m : Eval α}
    (h : Behaves Value.NoError (fun b => b.isOwn) (fun _ => True) Q m) :
    Tracks True enters Q (Watched.quietly m) where
  tracked s hs :=
    { stack := (h s hs).stack
      clean := (h s hs).holds
      yields := (h s hs).yields
      traced := fun _ he => absurd he List.not_mem_nil
      raised := fun x t hx => by
        obtain ⟨κ, _, hκ⟩ := (h s hs).raised x t hx
        exact .inr ⟨trivial, Settled.nil, κ, hκ⟩ }
  settled _ _ _ _ _ := Settled.nil

theorem pure {Q : α → Prop} {a : α} (ha : Q a) : Tracks fresh enters Q (Pure.pure a) where
  tracked s hs :=
    { stack := rfl
      clean := hs
      yields := fun b t hb => by
        cases hb
        exact ha
      traced := fun _ he => absurd he List.not_mem_nil
      raised := fun _ _ hx => by cases hx }
  settled _ _ _ _ _ := Settled.nil

/-- A reason to halt that is no error. -/
theorem throw {Q : α → Prop} {h : Halt} (hh : ∀ e, h ≠ .raised e) :
    Tracks fresh enters Q (Watched.quietly (throw h)) where
  tracked s hs :=
    { stack := rfl
      clean := hs
      yields := fun _ _ hb => by cases hb
      traced := fun _ he => absurd he List.not_mem_nil
      raised := fun x t hx => by
        cases hx
        exact absurd rfl (hh x) }
  settled _ _ _ _ hs := by cases hs

/-! ### Composed evaluations -/

/-- **One evaluation after another.** -/
theorem bind {Q : α → Prop} {R : β → Prop} {m : Watched α} {f : α → Watched β}
    (hm : Tracks fresh enters Q m) (hf : ∀ a, Q a → Tracks fresh enters R (f a)) :
    Tracks fresh enters R (m >>= f) where
  tracked s hs := by
    have hms := hm.tracked s hs
    rw [Watched.eval_bind]
    cases hma : m.eval s with
    | ok a t =>
      rw [hma] at hms
      rw [Outcome.bind_of_ok hma, Watched.journal_bind_of_ok hma]
      have hstack : t.stack = s.stack := hms.stack
      have hfa := (hf a (hms.yields a t rfl)).tracked t hms.clean
      refine ⟨hfa.stack.trans hstack, hfa.clean, hfa.yields, ?_, fun x u hx => ?_⟩
      · exact List.forall_mem_append.mpr ⟨hms.traced, hfa.traced⟩
      · have hraised := hfa.raised x u hx
        rw [hstack] at hraised
        obtain hcame | ⟨hfresh, hsettled, hnew⟩ := hraised
        · exact .inl (hcame.append _)
        · exact .inr ⟨hfresh, (hm.settled s a t hs hma).append hsettled, hnew⟩
    | error h t =>
      rw [hma] at hms
      rw [Outcome.bind_of_error hma, Watched.journal_bind_of_error hma]
      refine ⟨hms.stack, hms.clean, fun _ _ hb => ?_, hms.traced, fun x u hx => ?_⟩
      · cases hb
      · cases hx
        exact hms.raised x t rfl
  settled s b u hclean hs := by
    rw [Watched.eval_bind] at hs
    cases hma : m.eval s with
    | ok a t =>
      rw [Outcome.bind_of_ok hma] at hs
      rw [Watched.journal_bind_of_ok hma]
      have hms := hm.tracked s hclean
      rw [hma] at hms
      have hfa := (hf a (hms.yields a t rfl)).settled t b u hms.clean hs
      exact (hm.settled s a t hclean hma).append hfa
    | error h t =>
      rw [Outcome.bind_of_error hma] at hs
      cases hs

/-- An evaluation without new errors of its own, where it may have some. -/
theorem fresh_of_not {Q : α → Prop} {m : Watched α} (h : Tracks False enters Q m) :
    Tracks fresh enters Q m where
  tracked s hs := (h.tracked s hs).mono fun _ hown => hown.1.elim
  settled := h.settled

/-- **An episode.** Its errors are those that came out of the last episode
inside, and new ones; outside, all of them came out of it. -/
theorem noting {a : Activity} {Q : Value → Prop} {m : Watched Value} (ha : enters a [])
    (hm : ∀ s : Interpreter, s.Clean →
      Outcome.Tracked a.Enters (IsNew s.stack) Q s (m.journal s) (m.eval s)) :
    Tracks fresh enters Q (Watched.noting a m) where
  tracked s hs := by
    have hms := hm s hs
    rw [Watched.eval_noting, Watched.journal_noting]
    refine { hms with traced := ?_, raised := fun x t hx => .inl ?_ }
    · refine List.forall_mem_append.mpr ⟨hms.traced, List.forall_mem_singleton.mpr ?_⟩
      exact .mk (fun x ⟨t, hx⟩ => hms.raised x t hx) hms.traced
    · exact ⟨_, [], List.getLast?_concat, ⟨t, hx⟩, ha, rfl⟩
  settled s b t hs hb k hk x hx := by
    rw [Watched.journal_noting, List.getLast?_concat] at hk
    cases hk
    obtain ⟨u, hu⟩ := hx
    exact nomatch hu.symm.trans hb

/-- The episode of an evaluation whose errors can be followed. -/
theorem episode {a : Activity} {Q : Value → Prop} {m : Watched Value} (ha : enters a [])
    (hm : Tracks True a.Enters Q m) : Tracks fresh enters Q (Watched.noting a m) :=
  noting ha fun s hs => (hm.tracked s hs).mono fun _ hown => hown.2

/-- **A further call.** Its label stands behind those of the calls inside. -/
theorem inFrame {inner : Activity → List String → Prop} {Q : α → Prop} {label : String}
    {m : Watched α} (hinner : ∀ a X, inner a X → enters a (X ++ [label]))
    (hm : Tracks False inner Q m) : Tracks fresh enters Q (Watched.inFrame label m) where
  tracked s hs := by
    have hms := hm.tracked { s with stack := s.stack.push label } { hs with }
    rw [Watched.eval_inFrame, Outcome.inFrame_eq]
    refine hms.mapState ?_ { hms.clean with } fun x hx => .inl ?_
    · show (Outcome.state (m.eval _)).stack.pop = s.stack
      rw [hms.stack, CallStack.pop_push]
    · obtain ⟨k, X, hk, hkx, henters, hframes⟩ := hx.resolve_right fun hown => hown.1
      refine ⟨k, X ++ [label], hk, hkx, hinner _ _ henters, ?_⟩
      rw [hframes, List.append_assoc]
      rfl
  settled s b t hs hb := by
    rw [Watched.eval_inFrame, Outcome.inFrame_eq] at hb
    obtain ⟨u, hu⟩ := Outcome.ok_of_mapState hb
    exact hm.settled _ b u { hs with } hu

/-- Another present unit. -/
theorem inUnit {Q : α → Prop} {name : String} {m : Watched α} (hm : Tracks fresh enters Q m) :
    Tracks fresh enters Q (Watched.inUnit name m) where
  tracked s hs := by
    have hms := hm.tracked { s with unitName := name } { hs with }
    rw [Watched.eval_inUnit, Outcome.inUnit_eq]
    exact hms.mapState hms.stack { hms.clean with } fun _ => id
  settled s b t hs hb := by
    rw [Watched.eval_inUnit, Outcome.inUnit_eq] at hb
    obtain ⟨u, hu⟩ := Outcome.ok_of_mapState hb
    exact hm.settled _ b u { hs with } hu

/-- **A failure that takes back the note for a unit** lets its error pass. -/
theorem undoing {Q : α → Prop} {p : String} {m : Watched α} (hm : Tracks fresh enters Q m) :
    Tracks fresh enters Q (Watched.undoing (unmarkLoaded p) m) where
  tracked s hs := by
    have hms := hm.tracked s hs
    show Outcome.Tracked enters _ Q s (m.journal s) (Interpreter.undoing (unmarkLoaded p) m.eval s)
    unfold Interpreter.undoing
    split
    · next x t hx =>
      rw [hx] at hms
      have hstack := (KeepsScopes.of_unmarkLoaded p t).stack
      refine ⟨hstack.trans hms.stack, hms.clean.unmarkLoaded p, ?_, hms.traced, ?_⟩
      · exact fun _ _ hb => by cases hb
      · intro y u hy
        cases hy
        exact hms.raised x t rfl
    · exact hms
  settled s b t hs hb := by
    refine hm.settled s b t hs ?_
    show m.eval s = _
    change Interpreter.undoing (unmarkLoaded p) m.eval s = _ at hb
    unfold Interpreter.undoing at hb
    split at hb
    · cases hb
    · exact hb

/-- **Handling errors**: what remains after a failure is what the handler
leaves, which may be the error again if nothing else takes place. -/
theorem rescuing {own : List Episode → Error → Prop} {Q : α → Prop} {m : Watched α}
    {handler : Error → Watched α} (hm : Tracks False enters Q m)
    (hh : ∀ (e : Error) (s : Interpreter), s.Clean →
      Outcome.Tracked enters (fun es x => es = [] ∧ x = e) Q s ((handler e).journal s)
        ((handler e).eval s)) {s : Interpreter} (hs : s.Clean) :
    Outcome.Tracked enters own Q s ((Watched.rescuing m handler).journal s)
      ((Watched.rescuing m handler).eval s) := by
  have hms := hm.tracked s hs
  rw [Watched.eval_rescuing]
  obtain ⟨e, t, he⟩ | hnot := Outcome.raised_or_not (m.eval s)
  · rw [he] at hms
    rw [Outcome.rescuing_of_raised he, Watched.journal_rescuing_of_raised he]
    have hstack : t.stack = s.stack := hms.stack
    have hhe := hh e t hms.clean
    refine ⟨hhe.stack.trans hstack, hhe.clean, hhe.yields, ?_, fun x u hx => .inl ?_⟩
    · exact List.forall_mem_append.mpr ⟨hms.traced, hhe.traced⟩
    · have hraised := hhe.raised x u hx
      rw [hstack] at hraised
      obtain hcame | ⟨hnone, rfl⟩ := hraised
      · exact hcame.append _
      -- the error of the body, which nothing has handled
      · rw [hnone, List.append_nil]
        exact (hms.raised x t rfl).resolve_right fun hown => hown.1
  · rw [Outcome.rescuing_of_not_raised hnot, Watched.journal_rescuing_of_not_raised hnot]
    exact hms.mono fun _ hown => hown.1.elim

end Tracks

end Garnet
