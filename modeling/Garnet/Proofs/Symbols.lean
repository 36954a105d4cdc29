import Garnet.Proofs.Raising

/-!
# Canonical symbols

A symbol is made the first time that its name is asked for, and entered into the
table of symbols under a number of its own. From then on, whoever asks for the
symbol gets what the table says, and the table never says anything else: it is
only ever extended (`Bindings.Extends`), and no number stands in it twice
(`Interpreter.Numbered`).

So a symbol can be told from the table alone. A value is **listed**
(`Value.IsListed`) if it is no symbol or the one that the table has for its name,
and an interpreter is **canonical** (`Interpreter.Canonical`) if all values that
it holds are listed in its own table. No evaluation leaves the canonical
interpreters, however it ends, and what it returns is listed (`Deals`). As listed
values stay listed in extended tables, this is a judgement on computations whose
stages are the tables (`Deals.rules`), and what builtin methods do need not be
looked at again.

What an evaluation obtains on its way, and not only at its end, is a matter of
the outcomes of all that takes place in it. Along them, the table grows from each
to the next (`Chronicle`).
-/

namespace Garnet

open Interpreter

/-! ## Tables that are extended -/

namespace Bindings

variable {α : Type} {b c d : Bindings α}

/-- **A table that extends another one**: every entry of the other is an entry
of it. -/
def Extends (c b : Bindings α) : Prop :=
  ∀ name a, b.find? name = some a → c.find? name = some a

theorem Extends.refl (b : Bindings α) : b.Extends b :=
  fun _ _ => id

theorem Extends.trans (hcb : c.Extends b) (hdc : d.Extends c) : d.Extends b :=
  fun name a ha => hdc name a (hcb name a ha)

/-- A name that was not bound. -/
theorem extends_set {name : String} (hname : b.find? name = none) (a : α) :
    (b.set name a).Extends b := by
  intro other x hx
  rw [find?_set, if_neg]
  · exact hx
  · rintro rfl
    rw [hname] at hx
    cases hx

/-- What has an entry is one of the names. -/
theorem mem_names {name : String} {a : α} (ha : b.find? name = some a) : name ∈ b.names :=
  List.mem_map.mpr ⟨(name, a), mem_entries ha, rfl⟩

end Bindings

/-! ## Numbers of symbols -/

/-- **An interpreter whose symbols have numbers of their own**, which were taken. -/
structure Interpreter.Numbered (s : Interpreter) : Prop where
  /-- The number of a symbol was taken. -/
  taken : ∀ name id, s.symbols.find? name = some id → id < s.heap.nextId
  /-- No two symbols have the same number. -/
  unique : ∀ name other id, s.symbols.find? name = some id → s.symbols.find? other = some id →
    name = other

namespace Interpreter.Numbered

/-- Taking more numbers does no harm. -/
theorem of_eq {s t : Interpreter} (hs : s.Numbered) (hsymbols : t.symbols = s.symbols)
    (hnext : s.heap.nextId ≤ t.heap.nextId) : t.Numbered where
  taken name id hid := Nat.lt_of_lt_of_le (hs.taken name id (hsymbols ▸ hid)) hnext
  unique name other id hid hother := hs.unique name other id (hsymbols ▸ hid) (hsymbols ▸ hother)

/-- **A new symbol** gets a number that no other one has. -/
theorem interned {s : Interpreter} (hs : s.Numbered) (name : String) :
    ({ s with heap := s.heap.freshId.2,
              symbols := s.symbols.set name s.heap.freshId.1 } : Interpreter).Numbered where
  taken other id hid := by
    change (s.symbols.set name s.heap.nextId).find? other = some id at hid
    show id < s.heap.nextId + 1
    rw [Bindings.find?_set] at hid
    split at hid
    · cases hid
      exact Nat.lt_succ_self _
    · exact Nat.lt_succ_of_lt (hs.taken other id hid)
  unique first second id hfirst hsecond := by
    change (s.symbols.set name s.heap.nextId).find? first = some id at hfirst
    change (s.symbols.set name s.heap.nextId).find? second = some id at hsecond
    rw [Bindings.find?_set] at hfirst hsecond
    -- a number that was taken before is not the next one
    split at hfirst
    · split at hsecond
      · next hf hs' => exact hf.trans hs'.symm
      · cases hfirst
        exact absurd (hs.taken second _ hsecond) (Nat.lt_irrefl _)
    · split at hsecond
      · cases hsecond
        exact absurd (hs.taken first _ hfirst) (Nat.lt_irrefl _)
      · exact hs.unique first second id hfirst hsecond

/-- **No evaluation gives two symbols the same number.** -/
theorem invariant : Invariant Numbered where
  effect h hs := by
    cases h with
    | fresh => exact hs.of_eq rfl (Nat.le_succ _)
    | interned name _ => exact hs.interned name
    | newArray => exact hs.of_eq rfl (Nat.le_refl _)
    | newObject => exact hs.of_eq rfl (Nat.le_refl _)
    | extended => exact hs.of_eq rfl (Nat.le_refl _)
    | printed => exact hs.of_eq rfl (Nat.le_refl _)
  define {s} name hs := by
    obtain ⟨κ, hκ⟩ | ⟨r, h, hmade, ⟨c, hc⟩ | ⟨o, ho⟩⟩ := define_cases name s
    · rw [hκ]
      exact hs
    · rw [hc]
      cases hmade
      exact hs.of_eq rfl (Nat.le_refl _)
    · rw [ho]
      cases hmade
      exact hs.of_eq rfl (Nat.le_refl _)
  assign lhs v hs := by cases lhs <;> exact hs.of_eq rfl (Nat.le_refl _)
  unmarkLoaded feature hs := by
    unfold Interpreter.unmarkLoaded
    split
    · exact hs.of_eq rfl (Nat.le_refl _)
    · exact hs
  scopes _ _ hs := hs.of_eq rfl (Nat.le_refl _)

end Interpreter.Numbered

/-! ## Listed values -/

/-- **A value that is listed in a table of symbols**: it is no symbol, or the
one that the table has for its name. -/
def Value.IsListed (symbols : Bindings Nat) : Value → Prop
  | .symbol id name => symbols.find? name = some id
  | _ => True

theorem Value.isListed_of_isPlain (symbols : Bindings Nat) {v : Value} (hv : v.isPlain) :
    v.IsListed symbols := by
  cases v with
  | symbol id name => cases hv
  | _ => trivial

/-- Listed values stay listed. -/
theorem Value.IsListed.mono {S T : Bindings Nat} (hT : T.Extends S) {v : Value}
    (hv : v.IsListed S) : v.IsListed T := by
  cases v with
  | symbol id name => exact hT name id hv
  | _ => trivial

/-- **A canonical interpreter**: all values that it holds are listed in its table
of symbols, and its methods are builtin ones and those that do nothing. -/
abbrev Interpreter.Canonical (s : Interpreter) : Prop :=
  s.Holds (Value.IsListed s.symbols) fun b => b.isOwn

/-- Taking back the note for a unit leaves the symbols alone. -/
theorem Interpreter.symbols_unmarkLoaded (feature : String) (s : Interpreter) :
    (unmarkLoaded feature s).symbols = s.symbols := by
  unfold unmarkLoaded
  split
  · rfl
  · rfl

/-- A new interpreter is canonical: it holds no symbols. -/
theorem Interpreter.canonical_start (programName : String) (loadPath argv : List String) :
    (start programName loadPath argv).Canonical :=
  (isPlain_start programName loadPath argv).mono fun _ => Value.isListed_of_isPlain _

/-- **The symbol of a name** is listed, and the table has lost nothing. -/
theorem Interpreter.intern_eq {s : Interpreter} (hs : s.Canonical) (name : String) :
    ∃ id t, intern name s = .ok (.symbol id name) t ∧ t.symbols.find? name = some id ∧
      t.symbols.Extends s.symbols ∧ t.Canonical := by
  unfold Interpreter.intern
  cases hname : s.symbols.find? name with
  | some id => exact ⟨id, s, rfl, hname, Bindings.Extends.refl _, hs⟩
  | none =>
    have hextends := Bindings.extends_set hname s.heap.freshId.1
    have hheld := hs.mono fun _ => Value.IsListed.mono hextends
    refine ⟨_, _, rfl, ?_, hextends, { hheld with elements := hheld.elements }⟩
    show (s.symbols.set name _).find? name = _
    rw [Bindings.find?_set, if_pos rfl]

/-! ## Outcomes -/

/-- **An outcome that leaves a canonical interpreter** behind, whose table of
symbols extends `S`, and a result with a property that may depend on the table. -/
structure Outcome.Deals {α : Type} (Q : Bindings Nat → α → Prop) (S : Bindings Nat)
    (o : EStateM.Result Halt Interpreter α) : Prop where
  /-- No symbol has gone. -/
  grown : (Outcome.state o).symbols.Extends S
  /-- The interpreter is canonical. -/
  canonical : (Outcome.state o).Canonical
  /-- The result has its property. -/
  yields : ∀ a t, o = .ok a t → Q t.symbols a

/-- An outcome whose interpreter is changed afterwards, but not its symbols. -/
theorem Outcome.Deals.mapState {α : Type} {Q : Bindings Nat → α → Prop} {S : Bindings Nat}
    {o : EStateM.Result Halt Interpreter α} {f : Interpreter → Interpreter} (h : Deals Q S o)
    (hsymbols : (f (Outcome.state o)).symbols = (Outcome.state o).symbols)
    (hcanonical : (f (Outcome.state o)).Canonical) : Deals Q S (mapState f o) := by
  refine ⟨?_, ?_, fun a t ha => ?_⟩
  · rw [state_mapState, hsymbols]
    exact h.grown
  · rw [state_mapState]
    exact hcanonical
  · cases o with
    | ok b u =>
      cases ha
      exact hsymbols.symm ▸ h.yields a u rfl
    | error x u => cases ha

/-- **The outcomes of evaluations, one after another**, with the tables of
symbols before and after all of them. Each leaves a canonical interpreter
behind, and a result that is listed there. -/
inductive Chronicle : Bindings Nat → List (EStateM.Result Halt Interpreter Value) →
    Bindings Nat → Prop where
  | nil {S T : Bindings Nat} : T.Extends S → Chronicle S [] T
  | cons {S T : Bindings Nat} {o : EStateM.Result Halt Interpreter Value}
      {os : List (EStateM.Result Halt Interpreter Value)} : Outcome.Deals Value.IsListed S o →
      Chronicle (Outcome.state o).symbols os T → Chronicle S (o :: os) T

namespace Chronicle

variable {R S T U : Bindings Nat} {o : EStateM.Result Halt Interpreter Value}
  {os ps : List (EStateM.Result Halt Interpreter Value)}

/-- A chronicle may start with less. -/
theorem weaken (h : Chronicle S os T) (hS : S.Extends R) : Chronicle R os T := by
  cases h with
  | nil hT => exact .nil (hS.trans hT)
  | cons ho hos => exact .cons { ho with grown := hS.trans ho.grown } hos

/-- **One chronicle after another.** -/
theorem append (h : Chronicle S os T) (k : Chronicle T ps U) : Chronicle S (os ++ ps) U := by
  induction h with
  | nil hT => exact k.weaken hT
  | cons ho _ ih => exact .cons ho (ih k)

/-- A table never loses entries. -/
theorem grown (h : Chronicle S os T) : T.Extends S := by
  induction h with
  | nil hT => exact hT
  | cons ho _ ih => exact ho.grown.trans ih

/-- Every outcome leaves a canonical interpreter behind, with fewer symbols
than there are at the end. -/
theorem mem (h : Chronicle S os T) (ho : o ∈ os) :
    Outcome.Deals Value.IsListed S o ∧ T.Extends (Outcome.state o).symbols := by
  induction h with
  | nil => cases ho
  | cons hp hps ih =>
    obtain rfl | ho := List.mem_cons.mp ho
    · exact ⟨hp, hps.grown⟩
    · obtain ⟨hdeals, hT⟩ := ih ho
      exact ⟨{ hdeals with grown := hp.grown.trans hdeals.grown }, hT⟩

/-- **No entry is ever replaced**, from one outcome to a later one. -/
theorem pairwise (h : Chronicle S os T) :
    os.Pairwise fun o p => (Outcome.state p).symbols.Extends (Outcome.state o).symbols := by
  induction h with
  | nil => exact .nil
  | cons _ hps ih => exact .cons (fun p hp => (hps.mem hp).1.grown) ih

end Chronicle

/-! ## Evaluations -/

/-- **An evaluation that deals in canonical symbols**, if it starts in a
canonical interpreter with the table `S`. However it ends, so are the
interpreters that all evaluations inside it leave behind, and its own result has
the property `Q`. -/
def Deals {α : Type} (S : Bindings Nat) (Q : Bindings Nat → α → Prop) (m : Watched α) : Prop :=
  ∀ s : Interpreter, s.symbols = S → s.Canonical → Outcome.Deals Q S (m.eval s) ∧
    Chronicle S ((m.journal s).map Episode.outcome) (Outcome.state (m.eval s)).symbols

namespace Deals

variable {α β : Type} {S : Bindings Nat}

/-! ### Quiet steps -/

/-- A computation in which nothing takes place. -/
theorem of_outcome {Q : Bindings Nat → α → Prop} {m : Eval α}
    (h : ∀ s : Interpreter, s.symbols = S → s.Canonical → Outcome.Deals Q S (m s)) :
    Deals S Q (Watched.quietly m) :=
  fun s hS hs => ⟨h s hS hs, .nil (h s hS hs).grown⟩

/-- A computation that ends with a value. -/
theorem of_ok {Q : Bindings Nat → α → Prop} {m : Eval α}
    (h : ∀ s : Interpreter, s.symbols = S → s.Canonical → ∃ a t, m s = .ok a t ∧
      Q t.symbols a ∧ t.symbols.Extends S ∧ t.Canonical) : Deals S Q (Watched.quietly m) := by
  refine of_outcome fun s hS hs => ?_
  obtain ⟨a, t, ha, hQ, hT, ht⟩ := h s hS hs
  rw [ha]
  refine ⟨hT, ht, fun b u hb => ?_⟩
  cases hb
  exact hQ

/-- A computation that ends with a value and does not make symbols. -/
theorem of_same {Q : Bindings Nat → α → Prop} {m : Eval α}
    (h : ∀ s : Interpreter, s.symbols = S → s.Canonical → ∃ a t, m s = .ok a t ∧ Q S a ∧
      t.symbols = s.symbols ∧ t.Holds (Value.IsListed s.symbols) fun b => b.isOwn) :
    Deals S Q (Watched.quietly m) := by
  refine of_ok fun s hS hs => ?_
  subst hS
  obtain ⟨a, t, ha, hQ, hT, ht⟩ := h s rfl hs
  rw [← hT] at hQ ht
  exact ⟨a, t, ha, hQ, hT ▸ Bindings.Extends.refl _, ht⟩

/-- **A computation that has no results and changes nothing.** -/
theorem of_error {Q : Bindings Nat → α → Prop} {m : Eval α} (h : ∀ s, ∃ x, m s = .error x s) :
    Deals S Q (Watched.quietly m) := by
  refine of_outcome fun s hS hs => ?_
  obtain ⟨x, hx⟩ := h s
  subst hS
  rw [hx]
  exact ⟨Bindings.Extends.refl _, hs, fun _ _ ha => by cases ha⟩

/-! ### Composed evaluations -/

theorem pure {Q : Bindings Nat → α → Prop} {a : α} (ha : Q S a) : Deals S Q (Pure.pure a) :=
  of_same fun s _ hs => ⟨a, s, rfl, ha, rfl, hs⟩

/-- **One evaluation after another.** -/
theorem bind {Q : Bindings Nat → α → Prop} {R : Bindings Nat → β → Prop} {m : Watched α}
    {f : α → Watched β} (hm : Deals S Q m)
    (hf : ∀ T, T.Extends S → ∀ a, Q T a → Deals T R (f a)) : Deals S R (m >>= f) := by
  intro s hS hs
  obtain ⟨hout, hchronicle⟩ := hm s hS hs
  rw [Watched.eval_bind]
  cases hma : m.eval s with
  | ok a t =>
    rw [hma] at hout hchronicle
    rw [Outcome.bind_of_ok hma, Watched.journal_bind_of_ok hma, List.map_append]
    have hfa := hf t.symbols hout.grown a (hout.yields a t rfl) t rfl hout.canonical
    exact ⟨{ hfa.1 with grown := hout.grown.trans hfa.1.grown }, hchronicle.append hfa.2⟩
  | error x t =>
    rw [hma] at hout hchronicle
    rw [Outcome.bind_of_error hma, Watched.journal_bind_of_error hma]
    refine ⟨⟨hout.grown, hout.canonical, fun _ _ hb => ?_⟩, hchronicle⟩
    cases hb

/-- Handling errors. -/
theorem rescuing {Q : Bindings Nat → α → Prop} {m : Watched α} {handler : Error → Watched α}
    (hm : Deals S Q m) (hh : ∀ T, T.Extends S → ∀ e, Deals T Q (handler e)) :
    Deals S Q (Watched.rescuing m handler) := by
  intro s hS hs
  obtain ⟨hout, hchronicle⟩ := hm s hS hs
  rw [Watched.eval_rescuing]
  obtain ⟨e, t, he⟩ | hnot := Outcome.raised_or_not (m.eval s)
  · rw [he] at hout hchronicle
    rw [Outcome.rescuing_of_raised he, Watched.journal_rescuing_of_raised he, List.map_append]
    have hhe := hh t.symbols hout.grown e t rfl hout.canonical
    exact ⟨{ hhe.1 with grown := hout.grown.trans hhe.1.grown }, hchronicle.append hhe.2⟩
  · rw [Outcome.rescuing_of_not_raised hnot, Watched.journal_rescuing_of_not_raised hnot]
    exact ⟨hout, hchronicle⟩

/-- A further call. -/
theorem inFrame {Q : Bindings Nat → α → Prop} {label : String} {m : Watched α}
    (hm : Deals S Q m) : Deals S Q (Watched.inFrame label m) := by
  intro s hS hs
  obtain ⟨hout, hchronicle⟩ := hm { s with stack := s.stack.push label } hS { hs with }
  rw [Watched.eval_inFrame, Outcome.inFrame_eq, Outcome.state_mapState]
  exact ⟨hout.mapState rfl { hout.canonical with }, hchronicle⟩

/-- Another present unit. -/
theorem inUnit {Q : Bindings Nat → α → Prop} {name : String} {m : Watched α}
    (hm : Deals S Q m) : Deals S Q (Watched.inUnit name m) := by
  intro s hS hs
  obtain ⟨hout, hchronicle⟩ := hm { s with unitName := name } hS { hs with }
  rw [Watched.eval_inUnit, Outcome.inUnit_eq, Outcome.state_mapState]
  exact ⟨hout.mapState rfl { hout.canonical with }, hchronicle⟩

/-- **A failure that takes back the note for a unit**: a note is a string, and
no symbol. -/
theorem undoing {Q : Bindings Nat → α → Prop} {p : String} {m : Watched α} (hm : Deals S Q m) :
    Deals S Q (Watched.undoing (unmarkLoaded p) m) := by
  intro s hS hs
  obtain ⟨hout, hchronicle⟩ := hm s hS hs
  rw [Watched.eval_undoing]
  obtain ⟨e, t, he⟩ | hnot := Outcome.raised_or_not (m.eval s)
  · rw [he] at hout hchronicle
    rw [Outcome.undoing_of_raised he]
    have hsymbols : (unmarkLoaded p t).symbols = t.symbols := symbols_unmarkLoaded p t
    have hcanonical : (unmarkLoaded p t).Canonical := by
      rw [Interpreter.Canonical, hsymbols]
      exact hout.canonical.unmarkLoaded p
    refine ⟨⟨?_, hcanonical, fun _ _ hb => by cases hb⟩, ?_⟩
    · exact hsymbols.symm ▸ hout.grown
    · exact hsymbols.symm ▸ hchronicle
  · rw [Outcome.undoing_of_not_raised hnot]
    exact ⟨hout, hchronicle⟩

/-- **An episode**: its outcome stands after those of the episodes inside. -/
theorem noting {a : Activity} {m : Watched Value} (hm : Deals S Value.IsListed m) :
    Deals S Value.IsListed (Watched.noting a m) := by
  intro s hS hs
  obtain ⟨hout, hchronicle⟩ := hm s hS hs
  rw [Watched.eval_noting, Watched.journal_noting, List.map_append]
  refine ⟨hout, hchronicle.append (.cons ?_ (.nil (Bindings.Extends.refl _)))⟩
  exact { hout with grown := Bindings.Extends.refl _ }

/-! ### Rules -/

/-- **Dealing in canonical symbols is a judgement on computations**, whose stages
are the tables of symbols. -/
theorem rules : ValueRules (fun S T : Bindings Nat => T.Extends S) Value.IsListed
    (fun b => b.isOwn) fun {_} S _ Q m => Deals S Q (Watched.quietly m) where
  mono hT hv := hv.mono hT
  pure ha := of_same fun s _ hs => ⟨_, s, rfl, ha, rfl, hs⟩
  bind {_ _ _ _ _ _ m f} hm hf :=
    of_outcome fun s hS hs => (bind (f := fun a => Watched.quietly (f a)) hm hf s hS hs).1
  get := of_same fun s hS hs => ⟨s, s, rfl, hS ▸ hs, rfl, hs⟩
  raise _ := of_error fun _ => ⟨_, rfl⟩
  throw _ := of_error fun _ => ⟨_, rfl⟩
  plain S _ hv := Value.isListed_of_isPlain S hv
  newString _ := of_same fun _ _ hs =>
    ⟨_, _, rfl, trivial, rfl, { hs with elements := hs.elements }⟩
  newArray hvs := of_same fun _ hS hs => ⟨_, _, rfl, trivial, rfl, hs.newArray (hS ▸ hvs)⟩
  newObject _ _ := of_same fun _ _ hs =>
    ⟨_, _, rfl, trivial, rfl, { hs with elements := hs.elements }⟩
  intern name := of_ok fun s hS hs => by
    obtain ⟨id, t, ht, hid, hT, hcanonical⟩ := intern_eq hs name
    exact ⟨_, t, ht, hid, hS ▸ hT, hcanonical⟩
  updateElements r _ hchange := of_same fun s hS hs => by
    subst hS
    exact ⟨(), _, rfl, trivial, rfl, hs.setElements r (hchange _ (hs.elements r))⟩
  printLine _ := of_same fun _ _ hs =>
    ⟨(), _, rfl, trivial, rfl, { hs with elements := hs.elements }⟩

/-- The definition of a method. -/
theorem define (name : String) : Deals S Value.IsListed (Watched.quietly (define name)) := by
  refine of_outcome fun s hS hs => ?_
  subst hS
  have hheld := hs.define rfl name
  obtain ⟨e, he⟩ | ⟨r, h, _, _, he⟩ := define_eq name s
  · rw [he]
    exact ⟨Bindings.Extends.refl _, hs, fun _ _ hb => by cases hb⟩
  · rw [he] at hheld ⊢
    refine ⟨Bindings.Extends.refl _, hheld, fun v t hv => ?_⟩
    cases hv
    trivial

/-- Binding a value that is listed. -/
theorem assign (lhs : Node) {v : Value} (hv : v.IsListed S) :
    Deals S (fun _ _ => True) (Watched.quietly (assign lhs v)) := by
  refine of_outcome fun s hS hs => ?_
  subst hS
  have hsymbols : (Outcome.state (Interpreter.assign lhs v s)).symbols = s.symbols := by
    cases lhs <;> rfl
  refine ⟨?_, ?_, fun _ _ _ => trivial⟩
  · rw [hsymbols]
    exact Bindings.Extends.refl _
  · unfold Interpreter.Canonical
    rw [hsymbols]
    exact hs.assign lhs hv

end Deals

end Garnet
