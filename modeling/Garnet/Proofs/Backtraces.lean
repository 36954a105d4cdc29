import Garnet.Proofs.RaiseSites
import Garnet.Proofs.Sessions

/-!
# Backtraces are those of the raise site

Every step of an evaluation in a clean interpreter raises new errors only, with
the backtrace of the calls that are active there, and lets the errors of what
it evaluates pass. By induction, the error that a program ends with can be
followed to the episode where it was raised, and its backtrace is that of the
calls which were entered on the way: no call, no `rescue` clause and no unit
that it passed has changed it (`backtraces_of_run`).

Every new interpreter is clean (`Interpreter.clean_start`).
-/

namespace Garnet

open Interpreter

namespace Tracks

/-- **Whether the errors of all programs can be followed**, if they are run like this. -/
def Programs (run : String → Watched Value) : Prop :=
  ∀ {enters : Activity → List String → Prop} (source : String),
    enters (.program source) [] → Tracks False enters Value.NoError (run source)

/-! ## Units and calls -/

section Sources

variable {host : Host} {run : String → Watched Value} (hrun : Programs run)

include hrun

/-- **Requiring a unit.** -/
theorem require {fresh : Prop} {enters : Activity → List String → Prop} {name : String}
    (h : enters (.require name) []) :
    Tracks fresh enters Value.NoError (Watched.require host.files run name) := by
  unfold Watched.require
  refine episode h ?_
  split
  · exact pure rfl
  refine bind (quietly Behaves.get) fun s _ => ?_
  cases search host.files (unitFile name) s.loadPath with
  | nothing => exact quietly (Behaves.raise trivial)
  | unexplored place => exact throw fun _ => Halt.noConfusion
  | file path place bytes =>
    dsimp only
    split
    · exact pure rfl
    cases (Entry.file bytes).text with
    | error e => exact quietly (Behaves.raise trivial)
    | ok source =>
      have hunit : Tracks True (Activity.require name).Enters Value.NoError (run source) :=
        fresh_of_not (hrun source .unit)
      refine bind (quietly (Behaves.markLoaded (fun _ => id) _)) fun _ _ => ?_
      exact bind (undoing (inUnit hunit)) fun _ _ => pure rfl

/-- **Loading a file.** -/
theorem load {fresh : Prop} {enters : Activity → List String → Prop} {path : String}
    (h : enters (.file path) []) :
    Tracks fresh enters Value.NoError (Watched.load host.files run path) := by
  unfold Watched.load
  refine episode h ?_
  refine bind (quietly (Behaves.readText _ path)) fun r _ => ?_
  cases r with
  | error e => exact quietly (Behaves.raise trivial)
  | ok source =>
    have hunit : Tracks True (Activity.file path).Enters Value.NoError (run source) :=
      fresh_of_not (hrun source .file)
    exact bind (inUnit hunit) fun _ _ => pure rfl

/-- **The body of a method** that is builtin or does nothing. -/
theorem callBody {m : Method} (hm : m.body.isOwn) {receiver : Value} (hreceiver : receiver.NoError)
    {args : List Value} (hargs : ∀ v ∈ args, v.NoError) :
    Tracks True (Activity.method m receiver args).Enters Value.NoError
      (Watched.callBody host run m.body receiver args) := by
  have honly := Behaves.onlyText (P := Value.NoError) (M := fun b => b.isOwn) (p := fun _ => True)
    (fun _ => trivial) hargs
  cases hruns : m.body.runsText with
  | false =>
    rw [Watched.callBody_eq_quietly host run hruns]
    cases hbody : m.body with
    | doNothing => exact quietly (Behaves.pure rfl)
    | builtin b =>
      rw [hbody] at hruns
      have hb := Behaves.builtin (M := fun b => b.isOwn) (fun _ => id) hruns (fun _ => hargs)
        hreceiver hargs host fun source => (run source).eval
      exact quietly (hb.because fun _ _ => trivial)
    | _ =>
      rw [hbody] at hm
      cases hm
  | true =>
    obtain hbody | hbody | ⟨source, hbody⟩ := MethodBody.eq_of_runsText hruns
    · rw [hbody]
      exact bind (quietly honly) fun name _ => require hrun .require
    · rw [hbody]
      exact bind (quietly honly) fun path _ => load hrun .load
    · rw [hbody] at hm
      cases hm

/-- **A call.** -/
theorem invoke {enters : Activity → List String → Prop} {func : String} {m : Method}
    (hm : m.body.isOwn) {receiver : Value} (hreceiver : receiver.NoError) {args : List Value}
    (hargs : ∀ v ∈ args, v.NoError) (h : enters (.method m receiver args) [func]) :
    Tracks True enters Value.NoError (Watched.invoke host run func m receiver args) := by
  let inner (a : Activity) (X : List String) : Prop := a = .method m receiver args ∧ X = []
  have hbody : Tracks False inner Value.NoError
      (Watched.noting (.method m receiver args) (Watched.callBody host run m.body receiver args)) :=
    episode ⟨rfl, rfl⟩ (callBody hrun hm hreceiver hargs)
  refine inFrame (fun a X ha => ?_) hbody
  obtain ⟨rfl, rfl⟩ := ha
  exact h

end Sources

/-! ## Nodes -/

section Nodes

variable {host : Host} {run : String → Watched Value}

mutual

/-- **The errors of a node can be followed.** -/
theorem evalNode (hrun : Programs run) {self : Value} (hself : self.NoError) :
    (n : Node) → {enters : Activity → List String → Prop} → enters (.node self n) [] →
    Tracks False enters Value.NoError (Watched.evalNode host run self n)
  | .call none func args, _, h => by
    rw [Watched.evalNode]
    refine episode h ?_
    refine bind (quietly (Behaves.callable (fun _ => trivial) _ _ _)) fun m hm => ?_
    refine bind (fresh_of_not (evalEach hrun hself args fun _ => .node)) fun vs hvs => ?_
    exact invoke hrun hm hself hvs .method
  | .call (some target) func args, _, h => by
    rw [Watched.evalNode]
    refine episode h ?_
    refine bind (fresh_of_not (evalNode hrun hself target .node)) fun receiver hreceiver => ?_
    refine bind (quietly (Behaves.callable (fun _ => trivial) _ _ _)) fun m hm => ?_
    refine bind (fresh_of_not (evalEach hrun hself args fun _ => .node)) fun vs hvs => ?_
    exact invoke hrun hm hreceiver hvs .method
  | .assignment lhs rhs, _, h => by
    rw [Watched.evalNode]
    refine episode h ?_
    refine bind (fresh_of_not (evalNode hrun hself rhs .node)) fun v hv => ?_
    refine bind (quietly (Behaves.assign lhs hv)) fun _ _ => ?_
    exact pure hv
  | .ifBlock condition body orElse, _, h => by
    rw [Watched.evalNode]
    refine episode h (fresh_of_not ?_)
    split
    · exact evalAll hrun hself body (fun _ => .node) rfl
    · exact evalAll hrun hself orElse (fun _ => .node) rfl
  | .beginBlock body rescues, _, h => by
    rw [Watched.evalNode]
    refine noting h fun s hs => rescuing (evalAll hrun hself body (fun _ => .node) rfl) ?_ hs
    exact fun e => evalRescues hrun hself e.kind.toS rescues (fun _ => .node) e
  | .funcDecl name params body, _, h => by
    rw [Watched.evalNode]
    refine episode h (quietly ?_)
    exact Behaves.define (M := fun b => b.isOwn) (fun _ => id) (fun _ => trivial) rfl name
  | .classDecl _ _ _, _, h | .returnValue _, _, h => by
    rw [Watched.evalNode]
    exact episode h (throw fun _ => Halt.noConfusion)
  | .simpleString s, _, h | .interpolatedString s, _, h => by
    rw [Watched.evalNode]
    exact episode h (quietly (Behaves.newString (fun _ _ => rfl) s))
  | .int _, _, h | .float _, _, h => by
    rw [Watched.evalNode]
    exact episode h (pure rfl)
  | .boolean b, _, h => by
    rw [Watched.evalNode]
    exact episode h (pure (Value.isError_of_isPlain (Value.isPlain_ofBool b)))
  | .globalVariable name, _, h => by
    rw [Watched.evalNode]
    exact episode h (quietly (Behaves.globalValue (fun _ => id) name))
  | .symbol name, _, h => by
    rw [Watched.evalNode]
    exact episode h (quietly (Behaves.intern (fun _ => id) name))
  | .bareReference name, _, h => by
    rw [Watched.evalNode]
    refine episode h (quietly ?_)
    exact Behaves.reference (fun _ => id) (fun _ => trivial) hself name
  | .fileName, _, h => by
    rw [Watched.evalNode]
    refine episode h (quietly ?_)
    exact Behaves.bind Behaves.get fun s _ => Behaves.newString (fun _ _ => rfl) _

/-- The errors of a sequence. -/
theorem evalAll (hrun : Programs run) {self : Value} (hself : self.NoError) :
    (ns : List Node) → {enters : Activity → List String → Prop} →
    (∀ n, enters (.node self n) []) → {last : Value} → last.NoError →
    Tracks False enters Value.NoError (Watched.evalAll host run self last ns)
  | [], _, _, _, hlast => by
    rw [Watched.evalAll]
    exact pure hlast
  | n :: ns, _, h, _, _ => by
    rw [Watched.evalAll]
    exact bind (evalNode hrun hself n (h n)) fun v hv => evalAll hrun hself ns h hv

/-- The errors of arguments. -/
theorem evalEach (hrun : Programs run) {self : Value} (hself : self.NoError) :
    (ns : List Node) → {enters : Activity → List String → Prop} →
    (∀ n, enters (.node self n) []) →
    Tracks False enters (fun vs => ∀ v ∈ vs, v.NoError) (Watched.evalEach host run self ns)
  | [], _, _ => by
    rw [Watched.evalEach]
    exact pure fun _ hv => absurd hv List.not_mem_nil
  | n :: ns, _, h => by
    rw [Watched.evalEach]
    refine bind (evalNode hrun hself n (h n)) fun v hv => ?_
    refine bind (evalEach hrun hself ns h) fun vs hvs => ?_
    exact pure (List.forall_mem_cons.mpr ⟨hv, hvs⟩)

/-- **The errors of `rescue` clauses**: that of the last clause which failed, or
the error that was to be handled. -/
theorem evalRescues (hrun : Programs run) {self : Value} (hself : self.NoError)
    (raised : String) : (rs : List RescueClause) →
    {enters : Activity → List String → Prop} → (∀ n, enters (.node self n) []) →
    (e : Error) → (s : Interpreter) → s.Clean →
    Outcome.Tracked enters (fun es x => es = [] ∧ x = e) Value.NoError s
      ((Watched.evalRescues host run self raised rs e).journal s)
      ((Watched.evalRescues host run self raised rs e).eval s)
  | [], _, _, e, s, hs => by
    rw [Watched.evalRescues]
    refine ⟨rfl, hs, fun _ _ hb => ?_, fun _ he => absurd he List.not_mem_nil, fun x t hx => ?_⟩
    · cases hb
    · cases hx
      exact .inr ⟨rfl, rfl⟩
  | .mk className body :: rest, _, h, e, s, hs => by
    rw [Watched.evalRescues]
    split
    · exact rescuing (evalAll hrun hself body h rfl) (evalRescues hrun hself raised rest h) hs
    · exact evalRescues hrun hself raised rest h e s hs

end

end Nodes

/-! ## Programs -/

/-- Nodes, entered without a further call. -/
def EntersNode (a : Activity) (X : List String) : Prop :=
  (∃ self n, a = .node self n) ∧ X = []

/-- **The errors of a program can be followed.** -/
theorem run (host : Host) (depth : Nat) : Programs (Watched.run host depth) := by
  induction depth with
  | zero => exact fun _ _ => throw fun _ => Halt.noConfusion
  | succ depth ih =>
    intro enters source h
    rw [Watched.run]
    refine episode h (bind (quietly Behaves.get) fun s hs => ?_)
    split
    · exact quietly (Behaves.raise trivial)
    · next ns _ =>
      have hnodes : Tracks False EntersNode Value.NoError
          (Watched.evalAll host (Watched.run host depth) s.main .nil ns) :=
        evalAll ih hs.main ns (fun n => ⟨⟨_, n, rfl⟩, rfl⟩) rfl
      refine inFrame (fun a X ha => ?_) hnodes
      obtain ⟨⟨self, n, rfl⟩, rfl⟩ := ha
      exact .program

/-- The errors of a sequence of nodes of a program. -/
theorem nodes (host : Host) (depth : Nat) {self : Value} (hself : self.NoError)
    (ns : List Node) : Tracks False EntersNode Value.NoError
      (Watched.evalAll host (Watched.run host depth) self .nil ns) :=
  evalAll (run host depth) hself ns (fun n => ⟨⟨_, n, rfl⟩, rfl⟩) rfl

end Tracks

/-! ## New interpreters -/

namespace Interpreter

/-- **Every new interpreter is clean.** -/
theorem clean_start (programName : String) (loadPath argv : List String) :
    (start programName loadPath argv).Clean :=
  (isPlain_start programName loadPath argv).mono fun _ => Value.isError_of_isPlain

end Interpreter

/-! ## Backtraces -/

/-- **An error that came from a raise site**: `CameFrom frames es x X o` says that
the error `x` came out of the last of the episodes `es`, which is one of a node,
that it was raised in the episode `o`, and that its backtrace is that of the
calls which were active there: those of `frames`, and the calls `X` that were
entered inside. -/
def CameFrom (frames : List String) (es : List Episode) (x : Error) (X : List String)
    (o : Episode) : Prop :=
  (∃ k self n, es.getLast? = some k ∧ k.activity = .node self n ∧ k.Raised x X o) ∧
  o.before.stack.frames = X ++ frames ∧ x.backtrace = o.before.stack.backtrace?

/-- **The error of a sequence of nodes** came from a raise site. -/
theorem cameFrom_of_nodes (host : Host) (depth : Nat) {self : Value} (hself : self.NoError)
    (ns : List Node) {s t : Interpreter} (hs : s.Clean) {x : Error} :
    let m := Watched.evalAll host (Watched.run host depth) self .nil ns
    m.eval s = .error (.raised x) t → ∃ X o, CameFrom s.stack.frames (m.journal s) x X o := by
  intro m hx
  have hm := (Tracks.nodes host depth hself ns).tracked s hs
  obtain ⟨k, _, hk, hkx, ⟨⟨self', n, hkn⟩, rfl⟩, hframes⟩ :=
    (hm.raised x t hx).resolve_right fun hown => hown.1
  obtain ⟨X, o, hraised, ho, hnew⟩ := (hm.traced k (List.mem_of_getLast? hk)).raised hkx
  refine ⟨X, o, ⟨k, self', n, hk, hkn, hraised⟩, ?_, hnew⟩
  rw [ho, hframes]
  rfl

/-- **What `rescue` clauses leave of an error**: the error itself if there is no
clause for it, and otherwise the error of a clause that failed, too. -/
theorem error_of_rescues (host : Host) (depth : Nat) {self : Value} (hself : self.NoError)
    (raised : String) {x : Error} {t : Interpreter} (rs : List RescueClause) (e : Error)
    {s : Interpreter} (hs : s.Clean) :
    (Watched.evalRescues host (Watched.run host depth) self raised rs e).eval s
        = .error (.raised x) t →
    (∀ c ∈ rs, c.className ≠ raised) ∧ x = e ∧ t = s ∨
    ∃ c ∈ rs, c.className = raised ∧ ∃ u : Interpreter, u.Clean ∧ u.stack = s.stack ∧
      (Watched.evalAll host (Watched.run host depth) self .nil c.body).eval u
        = .error (.raised x) t := by
  induction rs generalizing e s with
  | nil =>
    intro hx
    rw [Watched.evalRescues] at hx
    cases hx
    exact .inl ⟨fun _ hc => absurd hc List.not_mem_nil, rfl, rfl⟩
  | cons c rest ih =>
    obtain ⟨className, body⟩ := c
    intro hx
    rw [Watched.evalRescues] at hx
    split at hx
    · next hname =>
      have hbody := (Tracks.nodes host depth hself body).tracked s hs
      rw [Watched.eval_rescuing] at hx
      refine .inr ?_
      obtain ⟨y, u, hy⟩ | hnot := Outcome.raised_or_not
        ((Watched.evalAll host (Watched.run host depth) self .nil body).eval s)
      · rw [Outcome.rescuing_of_raised hy] at hx
        rw [hy] at hbody
        obtain ⟨_, rfl, rfl⟩ | ⟨c, hc, hcname, v, hv, hstack, hvx⟩ := ih y hbody.clean hx
        · exact ⟨_, List.mem_cons_self, hname, s, hs, rfl, hy⟩
        · exact ⟨c, List.mem_cons_of_mem _ hc, hcname, v, hv, hstack.trans hbody.stack, hvx⟩
      · rw [Outcome.rescuing_of_not_raised hnot] at hx
        exact absurd hx (hnot x t)
    · next hname =>
      obtain ⟨hnone, hrest⟩ | ⟨c, hc, hrest⟩ := ih e hs hx
      · exact .inl ⟨List.forall_mem_cons.mpr ⟨hname, hnone⟩, hrest⟩
      · exact .inr ⟨c, List.mem_cons_of_mem _ hc, hrest⟩

/-- **The error of a `begin` block** is the error of its body if there is no
clause for that; otherwise it came from a raise site in a clause. -/
theorem error_of_beginBlock (host : Host) (depth : Nat) {self : Value} (hself : self.NoError)
    (body : List Node) (rescues : List RescueClause) {s t : Interpreter} (hs : s.Clean)
    {x : Error} (hx : Interpreter.evalNode host (Interpreter.run host depth) self
      (.beginBlock body rescues) s = .error (.raised x) t) :
    ∃ x₀ t₀, Interpreter.evalAll host (Interpreter.run host depth) self .nil body s
        = .error (.raised x₀) t₀ ∧
      ((∀ c ∈ rescues, c.className ≠ x₀.kind.toS) ∧ x = x₀ ∧ t = t₀ ∨
      ∃ c ∈ rescues, c.className = x₀.kind.toS ∧ ∃ u : Interpreter, u.stack = s.stack ∧
        let m := Watched.evalAll host (Watched.run host depth) self .nil c.body
        m.eval u = .error (.raised x) t ∧
        ∃ X o, CameFrom s.stack.frames (m.journal u) x X o) := by
  rw [← Watched.eval_run, ← Watched.eval_evalNode, Watched.evalNode, Watched.eval_noting,
    Watched.eval_rescuing] at hx
  rw [← Watched.eval_run, ← Watched.eval_evalAll]
  have hbody := (Tracks.nodes host depth hself body).tracked s hs
  obtain ⟨x₀, t₀, h₀⟩ | hnot := Outcome.raised_or_not
    ((Watched.evalAll host (Watched.run host depth) self .nil body).eval s)
  · rw [Outcome.rescuing_of_raised h₀] at hx
    rw [h₀] at hbody
    have hclauses := error_of_rescues host depth hself _ rescues x₀ hbody.clean hx
    refine ⟨x₀, t₀, h₀, hclauses.imp_right ?_⟩
    rintro ⟨c, hc, hname, u, hu, hstack, hux⟩
    have hstack : u.stack = s.stack := hstack.trans hbody.stack
    refine ⟨c, hc, hname, u, hstack, hux, ?_⟩
    rw [← hstack]
    exact cameFrom_of_nodes host depth hself c.body hu hux
  · rw [Outcome.rescuing_of_not_raised hnot] at hx
    exact absurd hx (hnot x t)

/-- **The error of a program** came from a raise site among its nodes, inside the
call of the program itself. -/
theorem error_of_program (host : Host) (depth : Nat) {source : String} {ns : List Node}
    (hns : parse source = .ok ns) {s t : Interpreter} (hs : s.Clean) {x : Error}
    (hx : (Watched.run host (depth + 1) source).eval s = .error (.raised x) t) :
    ∃ es X o, (Watched.run host (depth + 1) source).journal s
        = es ++ [⟨.program source, s, .error (.raised x) t, es⟩] ∧
      CameFrom ("main" :: s.stack.frames) es x X o := by
  let nodes := Watched.evalAll host (Watched.run host depth) s.main .nil ns
  let inside : Watched Value := Watched.inFrame "main" nodes
  have hrun : (Watched.run host (depth + 1) source).eval s = inside.eval s ∧
      (Watched.run host (depth + 1) source).journal s
        = inside.journal s ++ [⟨.program source, s, inside.eval s, inside.journal s⟩] := by
    unfold Watched.run
    rw [hns]
    exact ⟨rfl, rfl⟩
  rw [hrun.1] at hx
  rw [hrun.2, hx]
  rw [Watched.eval_inFrame, Outcome.inFrame_eq] at hx
  obtain ⟨u, hu⟩ := Outcome.error_of_mapState hx
  have hpushed : Clean { s with stack := s.stack.push "main" } := { hs with }
  obtain ⟨X, o, hcame⟩ := cameFrom_of_nodes host depth hs.main ns hpushed hu
  exact ⟨_, X, o, rfl, hcame⟩

/-- **Backtraces are those of the raise site.** In a clean interpreter,

* running a text that is no program fails with an error that says so, whose
  backtrace is that of the active calls, if there are any;
* the error of a program was raised in an episode `o` inside, and it passed
  every episode in between as it was; its backtrace are the calls that were
  active where it was raised: those that the program was run in, the call of
  the program itself, and those that were entered between it and `o`;
* the same is true of every episode inside that ends with an error, whether
  or not the error is handled later;
* the error that remains of a `begin` block is the one of its body as it was,
  or one that was raised in a clause and came from there. -/
theorem backtraces_of_run (host : Host) (depth : Nat) (source : String) {s : Interpreter}
    (hs : s.Clean) :
    (∀ e, parse source = .error e → Interpreter.run host (depth + 1) source s
      = .error (.raised ⟨.parse s.unitName e.message, s.stack.backtrace?⟩) s) ∧
    (∀ ns x t, parse source = .ok ns →
      Interpreter.run host depth source s = .error (.raised x) t →
      ∃ e X o, ((Watched.run host depth source).journal s).getLast? = some e ∧
        e.activity = .program source ∧ e.before = s ∧ e.outcome = .error (.raised x) t ∧
        e.Raised x (X ++ ["main"]) o ∧
        o.before.stack.frames = X ++ "main" :: s.stack.frames ∧
        x.backtrace = some ⟨X ++ "main" :: s.stack.frames⟩) ∧
    (∀ e ∈ (Watched.run host depth source).journal s, ∀ x, e.Raises x →
      ∃ X o, e.Raised x X o ∧ o.before.stack.frames = X ++ e.before.stack.frames ∧
        x.backtrace = o.before.stack.backtrace?) ∧
    ∀ self body rescues x t, self.NoError →
      Interpreter.evalNode host (Interpreter.run host depth) self (.beginBlock body rescues) s
        = .error (.raised x) t →
      ∃ x₀ t₀, Interpreter.evalAll host (Interpreter.run host depth) self .nil body s
          = .error (.raised x₀) t₀ ∧
        ((∀ c ∈ rescues, c.className ≠ x₀.kind.toS) ∧ x = x₀ ∧ t = t₀ ∨
        ∃ c ∈ rescues, c.className = x₀.kind.toS ∧ ∃ u : Interpreter, u.stack = s.stack ∧
          let m := Watched.evalAll host (Watched.run host depth) self .nil c.body
          m.eval u = .error (.raised x) t ∧
          ∃ X o, CameFrom s.stack.frames (m.journal u) x X o) := by
  refine ⟨fun e he => ?_, fun ns x t hns hx => ?_, fun e he x hx => ?_, ?_⟩
  · rw [Interpreter.run, Outcome.get_bind, he]
    show EStateM.Result.error (Halt.raised ((Error.ofKind _).raisedAt _)) s = _
    rw [Error.raisedAt_ofKind]
  · cases depth with
    | zero => cases hx
    | succ depth =>
      rw [← Watched.eval_run] at hx
      obtain ⟨es, X, o, hjournal, ⟨k, self, n, hk, hkn, hraised⟩, hframes, hnew⟩ :=
        error_of_program host depth hns hs hx
      refine ⟨_, X, o, by rw [hjournal, List.getLast?_concat], rfl, rfl, rfl, ?_, hframes, ?_⟩
      · exact .inside ⟨t, rfl⟩ hk (hkn ▸ .program) hraised
      · rw [hnew]
        unfold CallStack.backtrace? CallStack.capture
        rw [hframes]
        simp
  · let enters (a : Activity) (X : List String) : Prop := a = .program source ∧ X = []
    have hrun : Tracks False enters Value.NoError _ := Tracks.run host depth source ⟨rfl, rfl⟩
    exact ((hrun.tracked s hs).traced e he).raised hx
  · exact fun self body rescues x t hself hx =>
      error_of_beginBlock host depth hself body rescues hs hx

/-- The error of a clause that fails: its backtrace is not that of the error which
the clause is for, but of the call in the clause. -/
theorem clause_fails_where_it_calls :
    let host : Host := ⟨FileSystem.empty [], none, 1⟩
    let source := "begin\nfoo\nrescue NameError\n1.succ(2)\nend"
    let s := start "main.rb" [] []
    s.Clean ∧ ∃ x t e o, Interpreter.run host 1 source s = .error (.raised x) t ∧
      ((Watched.run host 1 source).journal s).getLast? = some e ∧
      e.Raised x ["succ", "main"] o ∧ x.backtrace = some ⟨["succ", "main"]⟩ := by
  intro host source s
  have hs : s.Clean := clean_start "main.rb" [] []
  refine ⟨hs, ?_⟩
  have hparse : (parse source).isOk = true := by decide +kernel
  have hframes : s.stack.frames = [] := by decide +kernel
  have hraised : (Outcome.raised? (Interpreter.run host 1 source s)).map Error.backtrace
      = some (some ⟨["succ", "main"]⟩) := by
    decide +kernel
  obtain ⟨ns, hns⟩ : ∃ ns, parse source = .ok ns := by
    cases hp : parse source with
    | ok ns => exact ⟨ns, rfl⟩
    | error e =>
      rw [hp] at hparse
      cases hparse
  obtain ⟨x, hx, hbacktrace⟩ := Option.map_eq_some_iff.mp hraised
  obtain ⟨t, hx⟩ := Outcome.error_of_raised? hx
  obtain ⟨e, X, o, he, _, _, _, hway, _, hnew⟩ :=
    (backtraces_of_run host 1 source hs).2.1 ns x t hns hx
  have hX : X ++ ["main"] = ["succ", "main"] := by
    have hsame := hnew.symm.trans hbacktrace
    rw [hframes] at hsame
    exact Backtrace.mk.inj (Option.some.inj hsame)
  rw [hX] at hway
  exact ⟨x, t, e, o, hx, he, hway, hbacktrace⟩

end Garnet
