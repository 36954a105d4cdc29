import Garnet.Proofs.Symbols

/-!
# A name has one symbol

An interpreter is used by its host, which asks it to run, to require and to load,
and which can ask for the symbol of a name itself (`Use`). The **history** of its
uses (`Session.history`) lists the outcomes of everything that takes place in
them: a literal and a call of a method are evaluations, too, and so what they
obtain is there, also if the program fails later.

All of it is canonical (`Session.exists_chronicle`). Two symbols that are at hand
after any two of these evaluations are therefore entries of one table, the last
one, in which no two names share a number: they are the same symbol exactly if
they have the same name (`symbols_stay_canonical`).
-/

namespace Garnet

open Interpreter

namespace Deals

/-- Any reason for an error. -/
abbrev AnyKind (_ : ErrorKind) : Prop :=
  True

/-- **Whether all programs deal in canonical symbols**, if they are run like this. -/
def Programs (run : String → Watched Value) : Prop :=
  ∀ {S : Bindings Nat} (source : String), Deals S Value.IsListed (run source)

/-! ## Units and calls -/

section Sources

variable {host : Host} {run : String → Watched Value} (hrun : Programs run) {S : Bindings Nat}

include hrun

/-- Requiring a unit. -/
theorem require (name : String) : Deals S Value.IsListed (Watched.require host.files run name) := by
  unfold Watched.require
  refine noting ?_
  split
  · exact pure trivial
  refine bind (rules.get (p := AnyKind)) fun T _ s _ => ?_
  cases search host.files (unitFile name) s.loadPath with
  | nothing => exact of_error fun _ => ⟨_, rfl⟩
  | unexplored place => exact of_error fun _ => ⟨_, rfl⟩
  | file path place bytes =>
    dsimp only
    split
    · exact pure trivial
    cases (Entry.file bytes).text with
    | error e => exact of_error fun _ => ⟨_, rfl⟩
    | ok source =>
      refine bind (rules.markLoaded (p := AnyKind) _) fun _ _ _ _ => ?_
      exact bind (undoing (inUnit (hrun source))) fun _ _ _ _ => pure trivial

/-- Loading a file. -/
theorem load (path : String) : Deals S Value.IsListed (Watched.load host.files run path) := by
  unfold Watched.load
  refine noting (bind (rules.readText (p := AnyKind) _ path) fun T _ r _ => ?_)
  cases r with
  | error e => exact of_error fun _ => ⟨_, rfl⟩
  | ok source => exact bind (inUnit (hrun source)) fun _ _ _ _ => pure trivial

/-- Running a file. -/
theorem runFile (path : String) : Deals S Value.IsListed (Watched.runFile host.files run path) := by
  unfold Watched.runFile
  refine noting (bind (rules.readText (p := AnyKind) _ path) fun T _ r _ => ?_)
  cases r with
  | error e => exact of_error fun _ => ⟨_, rfl⟩
  | ok source => exact inUnit (hrun source)

/-- **The body of a method** that is builtin or does nothing. -/
theorem callBody {body : MethodBody} (hbody : body.isOwn) {receiver : Value}
    (hreceiver : receiver.IsListed S) {args : List Value} (hargs : ∀ v ∈ args, v.IsListed S) :
    Deals S Value.IsListed (Watched.callBody host run body receiver args) := by
  have honly := rules.onlyText (p := AnyKind) (fun _ => trivial) hargs
  cases hruns : body.runsText with
  | false =>
    rw [Watched.callBody_eq_quietly host run hruns]
    cases body with
    | doNothing => exact pure trivial
    | builtin b =>
      refine rules.builtin hruns host _ (fun _ => ?_) hreceiver hargs
      -- raising an error, whether it is new or not, makes no values
      have hcount := rules.checkCountBetween (w := S) (p := AnyKind) (fun _ _ => trivial) args 0 1
      refine rules.after (p := AnyKind) hcount fun T _ _ => of_error fun s => ?_
      cases args with
      | nil => exact ⟨_, rfl⟩
      | cons v vs => exact ⟨_, rfl⟩
    | _ => cases hbody
  | true =>
    obtain rfl | rfl | ⟨source, rfl⟩ := MethodBody.eq_of_runsText hruns
    · exact bind honly fun _ _ name _ => require hrun name
    · exact bind honly fun _ _ path _ => load hrun path
    · cases hbody

/-- A call. -/
theorem invoke {func : String} {m : Method} (hm : m.body.isOwn) {receiver : Value}
    (hreceiver : receiver.IsListed S) {args : List Value} (hargs : ∀ v ∈ args, v.IsListed S) :
    Deals S Value.IsListed (Watched.invoke host run func m receiver args) :=
  inFrame (noting (callBody hrun hm hreceiver hargs))

end Sources

/-! ## Nodes -/

section Nodes

variable {host : Host} {run : String → Watched Value}

mutual

/-- **A node deals in canonical symbols.** -/
theorem evalNode (hrun : Programs run) {self : Value} :
    (n : Node) → {S : Bindings Nat} → self.IsListed S →
    Deals S Value.IsListed (Watched.evalNode host run self n)
  | .call none func args, _, hself => by
    rw [Watched.evalNode]
    refine noting (bind (rules.callable (p := AnyKind) (fun _ => trivial) _ _ _) ?_)
    intro T hT m hm
    refine bind (evalEach hrun args (hself.mono hT)) fun U hU vs hvs => ?_
    exact invoke hrun hm ((hself.mono hT).mono hU) hvs
  | .call (some target) func args, _, hself => by
    rw [Watched.evalNode]
    refine noting (bind (evalNode hrun target hself) fun T hT receiver hreceiver => ?_)
    refine bind (rules.callable (p := AnyKind) (fun _ => trivial) _ _ _) fun U hU m hm => ?_
    refine bind (evalEach hrun args ((hself.mono hT).mono hU)) fun V hV vs hvs => ?_
    exact invoke hrun hm ((hreceiver.mono hU).mono hV) hvs
  | .assignment lhs rhs, _, hself => by
    rw [Watched.evalNode]
    refine noting (bind (evalNode hrun rhs hself) fun T hT v hv => ?_)
    exact bind (assign lhs hv) fun U hU _ _ => pure (hv.mono hU)
  | .ifBlock condition body orElse, _, hself => by
    rw [Watched.evalNode]
    refine noting ?_
    split
    · exact evalAll hrun body hself trivial
    · exact evalAll hrun orElse hself trivial
  | .beginBlock body rescues, _, hself => by
    rw [Watched.evalNode]
    refine noting (rescuing (evalAll hrun body hself trivial) fun T hT e => ?_)
    exact evalRescues hrun e.kind.toS rescues (hself.mono hT) e
  | .funcDecl name params body, _, _ => by
    rw [Watched.evalNode]
    exact noting (define name)
  | .classDecl _ _ _, _, _ | .returnValue _, _, _ => by
    rw [Watched.evalNode]
    exact noting (of_error fun _ => ⟨_, rfl⟩)
  | .simpleString s, _, _ | .interpolatedString s, _, _ => by
    rw [Watched.evalNode]
    exact noting (rules.newString (p := AnyKind) s)
  | .int _, _, _ | .float _, _, _ => by
    rw [Watched.evalNode]
    exact noting (pure trivial)
  | .boolean b, _, _ => by
    rw [Watched.evalNode]
    exact noting (pure (rules.ofBool b))
  | .globalVariable name, _, _ => by
    rw [Watched.evalNode]
    exact noting (rules.globalValue (p := AnyKind) name)
  | .symbol name, _, _ => by
    rw [Watched.evalNode]
    exact noting (rules.intern (p := AnyKind) name)
  | .bareReference name, _, hself => by
    rw [Watched.evalNode]
    exact noting (rules.reference (p := AnyKind) (fun _ => trivial) hself name)
  | .fileName, _, _ => by
    rw [Watched.evalNode]
    refine noting (of_same fun s _ hs => ⟨.string _ s.unitName, _, rfl, trivial, rfl, ?_⟩)
    exact { hs with elements := hs.elements }

/-- A sequence of nodes. -/
theorem evalAll (hrun : Programs run) {self : Value} :
    (ns : List Node) → {S : Bindings Nat} → self.IsListed S → {last : Value} →
    last.IsListed S → Deals S Value.IsListed (Watched.evalAll host run self last ns)
  | [], _, _, _, hlast => by
    rw [Watched.evalAll]
    exact pure hlast
  | n :: ns, _, hself, _, _ => by
    rw [Watched.evalAll]
    exact bind (evalNode hrun n hself) fun T hT v hv => evalAll hrun ns (hself.mono hT) hv

/-- The arguments of a call. -/
theorem evalEach (hrun : Programs run) {self : Value} :
    (ns : List Node) → {S : Bindings Nat} → self.IsListed S →
    Deals S (fun T vs => ∀ v ∈ vs, v.IsListed T) (Watched.evalEach host run self ns)
  | [], _, _ => by
    rw [Watched.evalEach]
    exact pure fun _ hv => absurd hv List.not_mem_nil
  | n :: ns, _, hself => by
    rw [Watched.evalEach]
    refine bind (evalNode hrun n hself) fun T hT v hv => ?_
    refine bind (evalEach hrun ns (hself.mono hT)) fun U hU vs hvs => pure ?_
    exact List.forall_mem_cons.mpr ⟨hv.mono hU, hvs⟩

/-- The clauses for an error. -/
theorem evalRescues (hrun : Programs run) {self : Value} (raised : String) :
    (rs : List RescueClause) → {S : Bindings Nat} → self.IsListed S → (e : Error) →
    Deals S Value.IsListed (Watched.evalRescues host run self raised rs e)
  | [], _, _, e => by
    rw [Watched.evalRescues]
    exact of_error fun _ => ⟨_, rfl⟩
  | .mk className body :: rest, _, hself, e => by
    rw [Watched.evalRescues]
    split
    · refine rescuing (evalAll hrun body hself trivial) fun T hT e => ?_
      exact evalRescues hrun raised rest (hself.mono hT) e
    · exact evalRescues hrun raised rest hself e

end

end Nodes

/-! ## Programs and requests -/

/-- **A program deals in canonical symbols.** -/
theorem run (host : Host) (depth : Nat) : Programs (Watched.run host depth) := by
  induction depth with
  | zero => exact fun _ => of_error fun _ => ⟨_, rfl⟩
  | succ depth ih =>
    intro S source
    rw [Watched.run]
    refine noting (bind (rules.get (p := AnyKind)) fun T _ s hs => ?_)
    split
    · exact of_error fun _ => ⟨_, rfl⟩
    · exact inFrame (evalAll ih _ hs.main trivial)

theorem request (host : Host) (depth : Nat) (r : Request) {S : Bindings Nat} :
    Deals S Value.IsListed (r.watched host depth) := by
  cases r with
  | run source => exact run host depth source
  | runFile path => exact runFile (run host depth) path
  | require name => exact require (run host depth) name
  | load path => exact load (run host depth) path

end Deals

/-! ## Uses of an interpreter -/

/-- **What an interpreter can be used for** by its host. -/
inductive Use where
  /-- To answer a request. -/
  | request (r : Request)
  /-- To tell the symbol of a name. -/
  | symbol (name : String)

namespace Use

variable (host : Host) (depth : Nat)

/-- What a use evaluates; programs can be nested `depth` deep. -/
def eval : Use → Eval Value
  | .request r => r.eval host depth
  | .symbol name => intern name

/-- What a use evaluates, watched. -/
def watched : Use → Watched Value
  | .request r => r.watched host depth
  | .symbol name => Watched.quietly (intern name)

/-- Watching a use does not change its outcome. -/
theorem eval_watched (u : Use) : (u.watched host depth).eval = u.eval host depth := by
  cases u with
  | request r => exact r.eval_watched host depth
  | symbol name => rfl

/-- **Every use deals in canonical symbols.** -/
theorem deals (u : Use) {S : Bindings Nat} : Deals S Value.IsListed (u.watched host depth) := by
  cases u with
  | request r => exact Deals.request host depth r
  | symbol name => exact Deals.rules.intern (p := Deals.AnyKind) name

/-- No use gives two symbols the same number. -/
theorem numbered (u : Use) {s : Interpreter} (hs : s.Numbered) :
    (Outcome.state (u.eval host depth s)).Numbered := by
  cases u with
  | request r => exact (Numbered.invariant.composes.request host depth r hs).1
  | symbol name =>
    have heffects := (Ordinary.intern name : Ordinary (FileSystem.empty []) _).effects s
    exact Numbered.invariant.of_effects heffects hs

end Use

/-- **The history of the uses of an interpreter**: the outcomes of all evaluations
that take place, in the order in which they end. Each use starts where the one
before it ended, also if that one failed. -/
def Session.history (host : Host) (depth : Nat) :
    List Use → Interpreter → List (EStateM.Result Halt Interpreter Value)
  | [], _ => []
  | u :: us, s =>
    ((u.watched host depth).journal s).map Episode.outcome ++
      u.eval host depth s :: history host depth us (Outcome.state (u.eval host depth s))

/-- **All that takes place deals in canonical symbols**, if the first use starts
in a canonical interpreter. -/
theorem Session.exists_chronicle (host : Host) (depth : Nat) (us : List Use) {s : Interpreter}
    (hs : s.Canonical) (hnumbered : s.Numbered) :
    ∃ t : Interpreter, t.Numbered ∧ Chronicle s.symbols (history host depth us s) t.symbols := by
  induction us generalizing s with
  | nil => exact ⟨s, hnumbered, .nil (Bindings.Extends.refl _)⟩
  | cons u us ih =>
    obtain ⟨hout, hinside⟩ := u.deals host depth s rfl hs
    rw [Use.eval_watched] at hout hinside
    obtain ⟨t, ht, hrest⟩ := ih hout.canonical (u.numbered host depth hnumbered)
    refine ⟨t, ht, hinside.append (.cons ?_ hrest)⟩
    exact { hout with grown := Bindings.Extends.refl _ }

/-! ## Values at hand -/

/-- **A value that an interpreter has**, under a name, in a global, or in an
array. -/
inductive Interpreter.Has (s : Interpreter) (v : Value) : Prop where
  /-- It is the value of a name. -/
  | object (name : String) : s.objects.find? name = some v → s.Has v
  /-- It is the value of a global. -/
  | global (name : String) : s.globals.find? name = some v → s.Has v
  /-- It is an element of an array. -/
  | element (r : ArrayRef) : v ∈ s.heap.elements r → s.Has v

/-- **A value that is at hand after an evaluation**: its result, or what the
interpreter has then. -/
inductive Outcome.AtHand : EStateM.Result Halt Interpreter Value → Value → Prop where
  /-- It is the result. -/
  | result {v : Value} {t : Interpreter} : AtHand (.ok v t) v
  /-- The interpreter has it. -/
  | kept {o : EStateM.Result Halt Interpreter Value} {v : Value} : (Outcome.state o).Has v →
    AtHand o v

theorem Interpreter.Canonical.isListed {s : Interpreter} (hs : s.Canonical) {v : Value}
    (hv : s.Has v) : v.IsListed s.symbols := by
  cases hv with
  | object name hname => exact hs.objects name v hname
  | global name hname => exact hs.globals name v hname
  | element r hr => exact hs.elements r v hr

/-- What is at hand is listed. -/
theorem Outcome.Deals.isListed {S : Bindings Nat} {o : EStateM.Result Halt Interpreter Value}
    (ho : Deals Value.IsListed S o) {v : Value} (hv : AtHand o v) :
    v.IsListed (Outcome.state o).symbols := by
  cases hv with
  | result => exact ho.yields _ _ rfl
  | kept hhas => exact ho.canonical.isListed hhas

/-- A new interpreter has no symbols. -/
theorem Interpreter.numbered_start (programName : String) (loadPath argv : List String) :
    (start programName loadPath argv).Numbered := by
  have hnone : (start programName loadPath argv).symbols = .empty :=
    symbols_start programName loadPath argv
  refine ⟨fun name id hid => ?_, fun name other id hid _ => ?_⟩
  · rw [hnone] at hid
    cases hid
  · rw [hnone] at hid
    cases hid

/-- **A name has one symbol.** However a new interpreter is used, and however
its uses end, after every evaluation that takes place in them:

* a symbol that is at hand is the entry of the table of symbols for its name, and
  its name is among the names of symbols;
* it is the same as a symbol that is at hand after any other one, earlier or
  later, exactly if the two have the same name;
* what the table of symbols has for a name is what it has after every later one.

And whatever an interpreter looks like, to ask for the symbol of a name gives a
symbol with that name. -/
theorem symbols_stay_canonical (host : Host) (depth : Nat) (us : List Use)
    (programName : String) (loadPath argv : List String) :
    let os := Session.history host depth us (start programName loadPath argv)
    (∀ o ∈ os, ∀ id name, Outcome.AtHand o (.symbol id name) →
      (Outcome.state o).symbols.find? name = some id ∧
        name ∈ (Outcome.state o).symbols.names) ∧
    (∀ o ∈ os, ∀ o' ∈ os, ∀ id name id' name', Outcome.AtHand o (.symbol id name) →
      Outcome.AtHand o' (.symbol id' name') →
      ((Value.symbol id name).same (.symbol id' name') = true ↔ name = name')) ∧
    (os.Pairwise fun o o' => ∀ name id, (Outcome.state o).symbols.find? name = some id →
      (Outcome.state o').symbols.find? name = some id) ∧
    ∀ s name, ∃ id t, (Use.symbol name).eval host depth s = .ok (.symbol id name) t := by
  intro os
  obtain ⟨t, ht, hos⟩ := Session.exists_chronicle host depth us
    (canonical_start programName loadPath argv) (numbered_start programName loadPath argv)
  have hentry {o} (ho : o ∈ os) {id name} (hid : Outcome.AtHand o (.symbol id name)) :
      (Outcome.state o).symbols.find? name = some id :=
    (hos.mem ho).1.isListed hid
  have hlast {o} (ho : o ∈ os) {id name} (hid : Outcome.AtHand o (.symbol id name)) :
      t.symbols.find? name = some id :=
    (hos.mem ho).2 name id (hentry ho hid)
  refine ⟨fun o ho id name hid => ?_, fun o ho o' ho' id name id' name' hid hid' => ?_,
    hos.pairwise, fun s name => ?_⟩
  · exact ⟨hentry ho hid, Bindings.mem_names (hentry ho hid)⟩
  · -- both symbols are entries of the last table
    have hfirst := hlast ho hid
    have hsecond := hlast ho' hid'
    show (id == id') = true ↔ name = name'
    rw [beq_iff_eq]
    constructor
    · rintro rfl
      exact ht.unique name name' id hfirst hsecond
    · rintro rfl
      exact Option.some.inj (hfirst.symm.trans hsecond)
  · show ∃ id t, intern name s = _
    unfold intern
    split
    · exact ⟨_, _, rfl⟩
    · exact ⟨_, _, rfl⟩

/-- The number of a symbol with a certain name. -/
def Value.number? (name : String) : Value → Option Nat
  | .symbol id other => if other = name then some id else none
  | _ => none

theorem Value.eq_of_number? {name : String} {v : Value} {id : Nat} (h : v.number? name = some id) :
    v = .symbol id name := by
  cases v with
  | symbol id' other =>
    obtain ⟨rfl, rfl⟩ : other = name ∧ id' = id := by simpa [number?] using h
    rfl
  | _ => cases h

/-- A program that keeps a symbol in a global and fails afterwards: what it kept
is the symbol that its host was told before. -/
theorem kept_symbol_is_the_one_told :
    let host : Host := ⟨FileSystem.empty [], none, 1⟩
    let us : List Use := [.symbol "late", .request (.run "$kept = 'late'.to_sym\nraise 'x'")]
    let os := Session.history host 1 us (start "main.rb" [] [])
    ∃ o ∈ os, ∃ o' ∈ os, ∃ id id', (∃ t, o = .ok (.symbol id "late") t) ∧
      (∃ x t, o' = .error (.raised x) t) ∧
      (Outcome.state o').globals.find? "kept" = some (.symbol id' "late") ∧
      (Value.symbol id "late").same (.symbol id' "late") = true := by
  intro host us os
  have htold : ((os.head?.bind Outcome.result?).bind (Value.number? "late")).isSome = true := by
    decide +kernel
  have hraised : (os.getLast?.bind Outcome.raised?).isSome = true := by decide +kernel
  have hkept : (((os.getLast?.map Outcome.state).bind (·.globals.find? "kept")).bind
      (Value.number? "late")).isSome = true := by decide +kernel
  obtain ⟨id, hid⟩ := Option.isSome_iff_exists.mp htold
  obtain ⟨v, hv, hnumber⟩ := Option.bind_eq_some_iff.mp hid
  obtain ⟨o, ho, hresult⟩ := Option.bind_eq_some_iff.mp hv
  obtain ⟨t, rfl⟩ := Outcome.ok_of_result? hresult
  obtain rfl := Value.eq_of_number? hnumber
  obtain ⟨x, hx⟩ := Option.isSome_iff_exists.mp hraised
  obtain ⟨o', ho', hx⟩ := Option.bind_eq_some_iff.mp hx
  obtain ⟨id', hid'⟩ := Option.isSome_iff_exists.mp hkept
  rw [ho'] at hid'
  obtain ⟨w, hw, hnumber'⟩ := Option.bind_eq_some_iff.mp hid'
  obtain rfl := Value.eq_of_number? hnumber'
  have hfirst := List.mem_of_head? ho
  have hlast := List.mem_of_getLast? ho'
  refine ⟨_, hfirst, o', hlast, id, id', ⟨t, rfl⟩, ⟨x, Outcome.error_of_raised? hx⟩, hw, ?_⟩
  have hsame := (symbols_stay_canonical host 1 us "main.rb" [] []).2.1
  exact (hsame _ hfirst _ hlast id _ id' _ .result (.kept (.global _ hw))).mpr rfl

end Garnet
