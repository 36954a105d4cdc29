import Garnet.Proofs.Reading

/-!
# What the grammar keeps

To compare two runs of the parser – on a text and on a longer one, with other
positions, with other bounds – is to compare, construct by construct, what
their readers do. All constructs are made of a few steps, and what is true of
the steps is true of the constructs.

`Parser.Steps` lists what has to be checked of a relation between readers, and
`Parser.Parallel` what assignments need besides. The relation also says how
many tokens the readers take at least, and how many are left at most: an item
of a list takes a token, so that the bounds on lists and on nesting are never
met. And it can be **loose**: then the readers may have gone apart at the end of
the source, where one of them sees a line end that the other one does not see.
Nothing can be taken there, so what has to take a token brings such readers
together again.

`Parser.Parallel.expression` is the conclusion for expressions.
-/

namespace Garnet

open Token

/-- **Whether a token belongs to a construct.** No reader takes any of the
others, unless it skips line ends. -/
def Token.Kind.isContent : Kind → Bool
  | .newline | .error | .eof => false
  | _ => true

/-- What belongs to no construct is unlike what does. -/
theorem Token.Kind.alike_eq_false {t u : Kind} (ht : t.isContent = true)
    (hu : u.isContent = false) : u.alike t = false := by
  cases u with
  | newline | error | eof =>
    cases t with
    | newline | error | eof => cases ht
    | _ => rfl
  | _ => cases hu

/-- Whether tokens of a kind are all the same. -/
def Token.Kind.isFixed : Kind → Bool
  | .keyword _ | .mark _ | .newline | .error | .eof => true
  | _ => false

/-- What is like a token that carries nothing is the same. -/
theorem Token.Kind.eq_of_alike {t u : Kind} (hu : u.isFixed = true) (h : t.alike u = true) :
    t = u := by
  have hsame : t.alike u = (t == u) := by
    cases u with
    | keyword | mark | newline | error | eof => cases t <;> rfl
    | _ => cases hu
  rw [hsame] at h
  exact eq_of_beq h

/-- Whether an argument of a call without parentheses can start with a token. -/
def startsArgument (k : Kind) : Bool :=
  (Cursor.atKinds [k]).startsArgument

namespace Parser

variable {α β : Type}

/-- Takes the current token if `next` says how to go on after it. -/
def taking (next : Kind → Option (Parser α)) (otherwise : Parser α) : Parser α := do
  match next (← kind) with
  | some p => do advance; p
  | none => otherwise

/-! ## Readers as steps -/

/-- Looking at the current token leaves the place as it is. -/
theorem kind_bind (f : Kind → Parser β) (c : Cursor) : (kind >>= f) c = f c.kind c := rfl

/-- A choice by the current token. -/
theorem get_eq_kind {choice : Cursor → Bool} {b : Kind → Bool} (h : ∀ c, choice c = b c.kind)
    (p q : Parser α) : (get >>= fun c => if choice c = true then p else q)
      = (kind >>= fun t => if b t = true then p else q) := by
  funext c
  rw [kind_bind, ← h]
  rfl

/-- A token that is looked at. -/
theorem check_bind (m : Kind) (f : Bool → Parser β) :
    (check m >>= f) = (kind >>= fun t => f (t.alike m)) := rfl

/-- A token that may be there. -/
theorem eat_bind (m : Kind) (f : Bool → Parser β) :
    (eat m >>= f) = taking (fun t => if t.alike m then some (f true) else none) (f false) := by
  funext c
  unfold eat taking
  rw [check_bind, bind_assoc, kind_bind, kind_bind]
  dsimp only
  cases c.kind.alike m <;> rfl

/-- Reading goes on after the current token. -/
theorem taking_of_some {next : Kind → Option (Parser α)} {p q : Parser α} {c : Cursor}
    (h : next c.kind = some p) : taking next q c = p c.advance := by
  unfold taking
  rw [kind_bind, h]
  rfl

/-- Reading goes on in front of the current token. -/
theorem taking_of_none {next : Kind → Option (Parser α)} {q : Parser α} {c : Cursor}
    (h : next c.kind = none) : taking next q c = q c := by
  unfold taking
  rw [kind_bind, h]

/-- A token that is there. -/
theorem eat_of_alike {m : Kind} {f : Bool → Parser β} {c : Cursor} (h : c.kind.alike m = true) :
    (eat m >>= f) c = f true c.advance := by
  rw [eat_bind]
  exact taking_of_some (if_pos h)

/-- A token that is not there. -/
theorem eat_of_unlike {m : Kind} {f : Bool → Parser β} {c : Cursor} (h : c.kind.alike m = false) :
    (eat m >>= f) c = f false c := by
  rw [eat_bind]
  exact taking_of_none (if_neg (Bool.eq_false_iff.mp h))

/-- A token that has to be there. -/
theorem expect_eq (m : Kind) (expected : String) (context : SyntaxContext) :
    expect m expected context
      = taking (fun t => if t.alike m then some (pure ()) else none)
          (unexpected expected context) := by
  funext c
  unfold expect taking
  rw [check_bind, kind_bind, kind_bind]
  dsimp only
  cases c.kind.alike m <;> rfl

/-- How a name goes on. -/
def nameNext : Kind → Option (Parser String)
  | .ident s | .constant s => some (pure s)
  | _ => none

theorem name_eq (expected : String) (context : SyntaxContext) :
    name expected context = taking nameNext (unexpected expected context) := by
  funext c
  unfold name taking
  rw [kind_bind, kind_bind]
  cases c.kind <;> rfl

/-- How a constant goes on. -/
def constantNext : Kind → Option (Parser String)
  | .constant s => some (pure s)
  | _ => none

theorem constantName_eq (expected : String) (context : SyntaxContext) :
    constantName expected context = taking constantNext (unexpected expected context) := by
  funext c
  unfold constantName taking
  rw [kind_bind, kind_bind]
  cases c.kind <;> rfl

/-- How the name of a method after a dot goes on. -/
def methodNext : Kind → Option (Parser String)
  | .ident s | .constant s => some (pure s)
  | .keyword .classKw => some (pure "class")
  | .keyword .beginKw => some (pure "begin")
  | .keyword .endKw => some (pure "end")
  | .keyword .thenKw => some (pure "then")
  | _ => none

theorem methodName_eq :
    methodName = taking methodNext (unexpected "a method name" .expression) := by
  funext c
  unfold methodName taking
  rw [kind_bind, kind_bind]
  cases c.kind with
  | keyword w => cases w <;> rfl
  | _ => rfl

/-- How a primary expression goes on after its first token. -/
def primaryNext (expr : Parser Node) : Kind → Option (Parser Node)
  | .int n => some (pure (.int n))
  | .float x => some (pure (.float x))
  | .string s => some (pure (.simpleString s))
  | .interpolated s => some (pure (.interpolatedString s))
  | .symbol s => some (pure (.symbol s))
  | .global s => some (pure (.globalVariable s))
  | .keyword .trueKw => some (pure (.boolean true))
  | .keyword .falseKw => some (pure (.boolean false))
  | .keyword .fileKw => some (pure .fileName)
  | .ident s => some do
    match ← arguments? expr with
    | some args => return .call none s args
    | none => return .bareReference s
  | .constant s => some do
    if ← eat (.mark .leftParen) then
      return .call none s (← parenthesized expr .arguments)
    else
      return .bareReference s
  | .keyword .defKw => some (definition expr)
  | .keyword .ifKw => some (conditional expr)
  | .keyword .beginKw => some (beginBlock expr)
  | .keyword .classKw => some (classDefinition expr)
  | .keyword .returnKw => some (returnValue expr)
  | .mark .leftParen => some (grouped expr)
  | _ => none

theorem primary_eq (expr : Parser Node) :
    primary expr = taking (primaryNext expr) (unexpected "an expression" .expression) := by
  funext c
  unfold primary taking
  rw [kind_bind, kind_bind]
  cases c.kind with
  | keyword w => cases w <;> rfl
  | mark m => cases m <;> rfl
  | _ => rfl

/-- What follows an expression that can be the left side of an assignment, and
starts at a token with a span. -/
def assignmentTo (expr : Parser Node) (first : Span) (left : Node) : Parser Node := do
  if ← eat (.mark .equals) then
    skipNewlines
    if left.isAssignable then return .assignment left (← expr)
    else throw (.wrong (.invalidTarget left first))
  else
    return left

/-- An expression whose first token has a span. -/
def expressionFrom (expr : Parser Node) (first : Span) : Parser Node := do
  assignmentTo expr first (← shift expr)

theorem expressionWith_eq (expr : Parser Node) :
    expressionWith expr = (get >>= fun c => expressionFrom expr c.current.span) := rfl

/-- **Readers with a bound**, where no more is left than their bounds: it is
enough to look at what they do before they call themselves with a smaller
bound. -/
theorem within_bounds {Φ : Nat → Parser α → Parser α → Prop} {γ : Type}
    {r s : Nat → γ → Parser α} {k m n : Nat} (htooDeep : ∀ q, Φ 0 (throw .tooDeep) q)
    (hother : ∀ p q q', Φ 0 p q → Φ 0 p q') (hzero : ∀ x, r 0 x = throw .tooDeep)
    (hsucc : ∀ {j m n : Nat}, j ≤ k → j ≤ m + 1 → j ≤ n + 1 →
      (∀ (t : Nat) (x : γ), t ≤ k → t ≤ m → t ≤ n → Φ t (r m x) (s n x)) →
      ∀ x, Φ j (r (m + 1) x) (s (n + 1) x))
    (hm : k ≤ m) (hn : k ≤ n) (x : γ) : Φ k (r m x) (s n x) := by
  suffices hall : ∀ (j : Nat) (x : γ), j ≤ k → j ≤ m → j ≤ n → Φ j (r m x) (s n x) from
    hall k x (Nat.le_refl k) hm hn
  clear hm hn
  induction m generalizing n with
  | zero =>
    intro j x _ hm _
    obtain rfl := Nat.le_zero.mp hm
    rw [hzero]
    exact htooDeep _
  | succ m ih =>
    intro j x hk hm hn
    cases n with
    | zero =>
      -- any other bound would do as well
      obtain rfl := Nat.le_zero.mp hn
      exact hother _ _ _ (hsucc (n := m) hk hm (Nat.zero_le _) ih x)
    | succ n => exact hsucc hk hm hn ih x

/-- What is related to nothing is nothing. -/
theorem eq_none_of_rel {R : α → β → Prop} {o : Option β} (h : Option.Rel R none o) : o = none := by
  cases h
  rfl

/-- What is related to something is something. -/
theorem exists_of_rel {R : α → β → Prop} {a : α} {o : Option β} (h : Option.Rel R (some a) o) :
    ∃ b, o = some b ∧ R a b := by
  cases h with
  | some h => exact ⟨_, rfl, h⟩

/-! ## What has to be checked -/

/-- **A relation between readers that composing them keeps.** `Φ l i k p q` is
about readers `p` and `q` where at most `k` tokens are left; they take at least
`i` of them, and may go apart at the end of the source if `l` is true. -/
structure Steps (Φ : ∀ {α : Type}, Bool → Nat → Nat → Parser α → Parser α → Prop) : Prop where
  /-- A bound is met only where nothing is left. -/
  tooDeep : ∀ {α : Type} {l : Bool} {i : Nat} {q : Parser α}, Φ l i 0 (throw .tooDeep) q
  /-- Where nothing is left, nothing is read on the other side. -/
  other : ∀ {α : Type} {l : Bool} {i : Nat} {p q q' : Parser α}, Φ l i 0 p q → Φ l i 0 p q'
  /-- Less can be said. -/
  mono : ∀ {α : Type} {l l' : Bool} {i j k m : Nat} {p q : Parser α}, Φ l i k p q →
    (l = true → l' = true) → j ≤ i → m ≤ k → Φ l' j m p q
  /-- Nothing is read. -/
  pure : ∀ {α : Type} {k : Nat} (a : α), Φ false 0 k (pure a) (pure a)
  /-- One reader after another. -/
  bind : ∀ {α β : Type} {l : Bool} {i n k : Nat} {p q : Parser α} {f g : α → Parser β},
    Φ l i k p q → (∀ a, Φ l (n - i) (k - i) (f a) (g a)) → Φ l n k (p >>= f) (q >>= g)
  /-- A reader that takes a token, after one that may have gone apart. -/
  regain : ∀ {α β : Type} {l : Bool} {i n k : Nat} {p q : Parser α} {f g : α → Parser β},
    Φ true i k p q → (∀ a, Φ l (n - i - 1 + 1) (k - i) (f a) (g a)) → Φ l n k (p >>= f) (q >>= g)
  /-- A wrong token. -/
  unexpected : ∀ {α : Type} {l : Bool} {i k : Nat} (expected : String) (context : SyntaxContext),
    Φ l i k (unexpected (α := α) expected context) (Parser.unexpected expected context)
  /-- Reading goes on after a token of a construct, or in front of it. -/
  taking : ∀ {α : Type} {l : Bool} {i k : Nat} {next next' : Kind → Option (Parser α)}
    {p q : Parser α}, (∀ t, t.isContent = false → next t = none ∧ next' t = none) →
    (∀ t, Option.Rel (Φ l (i - 1) (k - 1)) (next t) (next' t)) → Φ l i k p q →
    Φ l i k (taking next p) (Parser.taking next' q)
  /-- Reading depends on the current token, where the end of the source counts as
  a line end. -/
  look : ∀ {α : Type} {l : Bool} {i k : Nat} (b : Kind → Bool) {f g : Bool → Parser α},
    b .eof = b .newline → (∀ x, Φ l i k (f x) (g x)) →
    Φ l i k (kind >>= fun t => f (b t)) (kind >>= fun t => g (b t))
  /-- Line ends. -/
  skipNewlines : ∀ {k : Nat}, Φ true 0 k skipNewlines Parser.skipNewlines
  /-- Both sides have a bound on the number of items, which is not too small. -/
  room : ∀ {α : Type} {l : Bool} {i k : Nat} {f g : Nat → Parser α},
    (∀ m n, Φ l i (min k (min m n)) (f m) (g n)) → Φ l i k (room >>= f) (Parser.room >>= g)
  /-- Statements, up to the token that closes them. -/
  statements : ∀ {k : Nat} {p q : Parser Node} (context : SyntaxContext), Φ false 1 k p q →
    Φ true 0 k (statements p context) (Parser.statements q context)

/-- **A relation that is kept where expressions are read side by side.**
`Starts` relates the spans of their first tokens. -/
structure Parallel (Starts : Span → Span → Prop)
    (Φ : ∀ {α : Type}, Bool → Nat → Nat → Parser α → Parser α → Prop) : Prop
    extends Steps Φ where
  /-- Where the reading starts. -/
  first : ∀ {α : Type} {l : Bool} {i k : Nat} {f g : Span → Parser α},
    (∀ s s', Starts s s' → Φ l i k (f s) (g s')) →
    Φ l i k (get >>= fun c => f c.current.span) (get >>= fun c => g c.current.span)
  /-- A target that nothing can be assigned to. -/
  invalidTarget : ∀ {α : Type} {l : Bool} {i k : Nat} {s s' : Span} (target : Node), Starts s s' →
    Φ l i k (throw (.wrong (.invalidTarget target s)) : Parser α)
      (throw (.wrong (.invalidTarget target s')))

namespace Steps

variable {Φ : ∀ {α : Type}, Bool → Nat → Nat → Parser α → Parser α → Prop}
  {l : Bool} {i k m n : Nat}

section Tokens

variable (h : Steps Φ)

include h

theorem narrow {p q : Parser α} (hp : Φ l i k p q) (hm : m ≤ k) : Φ l i m p q :=
  h.mono hp id (Nat.le_refl _) hm

theorem loosen {p q : Parser α} (hp : Φ false i k p q) : Φ l i k p q :=
  h.mono hp (fun hl => by cases hl) (Nat.le_refl _) (Nat.le_refl _)

theorem done (a : α) : Φ l 0 k (Pure.pure a) (Pure.pure a) :=
  h.loosen (h.pure a)

/-- A token that is looked at. -/
theorem check {t : Kind} (ht : t.isContent = true) {f g : Bool → Parser α}
    (hfg : ∀ b, Φ l i k (f b) (g b)) : Φ l i k (Parser.check t >>= f) (Parser.check t >>= g) := by
  refine h.look (·.alike t) ?_ hfg
  rw [Kind.alike_eq_false ht rfl, Kind.alike_eq_false ht rfl]

/-- A choice by the current token. -/
theorem choose (b : Kind → Bool) (hb : b .eof = b .newline) {choice : Cursor → Bool}
    (hchoice : ∀ c, choice c = b c.kind) {p p' q q' : Parser α} (hp : Φ l i k p p')
    (hq : Φ l i k q q') :
    Φ l i k (get >>= fun c => if choice c = true then p else q)
      (get >>= fun c => if choice c = true then p' else q') := by
  rw [get_eq_kind hchoice, get_eq_kind hchoice]
  refine h.look (f := fun x => if x = true then p else q)
    (g := fun x => if x = true then p' else q') b hb fun x => ?_
  cases x with
  | true => exact hp
  | false => exact hq

/-- A token that may be there. -/
theorem eat {t : Kind} (ht : t.isContent = true) {f g : Bool → Parser α}
    (hhit : Φ l (i - 1) (k - 1) (f true) (g true)) (hmiss : Φ l i k (f false) (g false)) :
    Φ l i k (Parser.eat t >>= f) (Parser.eat t >>= g) := by
  rw [eat_bind, eat_bind]
  refine h.taking (fun u hu => ?_) (fun u => ?_) hmiss
  · rw [Kind.alike_eq_false ht hu]
    exact ⟨rfl, rfl⟩
  · cases u.alike t with
    | false => exact .none
    | true => exact .some hhit

/-- A token that has to be there. -/
theorem expect {t : Kind} (ht : t.isContent = true) (expected : String)
    (context : SyntaxContext) :
    Φ l 1 k (Parser.expect t expected context) (Parser.expect t expected context) := by
  rw [expect_eq]
  refine h.taking (fun u hu => ?_) (fun u => ?_) (h.unexpected _ _)
  · rw [Kind.alike_eq_false ht hu]
    exact ⟨rfl, rfl⟩
  · cases u.alike t with
    | false => exact .none
    | true => exact .some (h.done ())

/-- A token that has to be there, and carries what is read. -/
theorem word {next : Kind → Option (Parser String)}
    (hnext : ∀ t, next t = none ∨ t.isContent = true ∧ ∃ s, next t = some (Pure.pure s))
    (expected : String) (context : SyntaxContext) :
    Φ l 1 k (Parser.taking next (Parser.unexpected expected context))
      (Parser.taking next (Parser.unexpected expected context)) := by
  refine h.taking (fun t ht => ?_) (fun t => ?_) (h.unexpected _ _)
  · obtain hnone | ⟨hcontent, _⟩ := hnext t
    · exact ⟨hnone, hnone⟩
    · rw [ht] at hcontent
      cases hcontent
  · obtain hnone | ⟨_, s, hs⟩ := hnext t
    · rw [hnone]
      exact .none
    · rw [hs]
      exact .some (h.done s)

theorem name (expected : String) (context : SyntaxContext) :
    Φ l 1 k (Parser.name expected context) (Parser.name expected context) := by
  rw [name_eq]
  refine h.word (fun t => ?_) _ _
  cases t with
  | ident s | constant s => exact .inr ⟨rfl, s, rfl⟩
  | _ => exact .inl rfl

theorem constantName (expected : String) (context : SyntaxContext) :
    Φ l 1 k (Parser.constantName expected context) (Parser.constantName expected context) := by
  rw [constantName_eq]
  refine h.word (fun t => ?_) _ _
  cases t with
  | constant s => exact .inr ⟨rfl, s, rfl⟩
  | _ => exact .inl rfl

theorem methodName : Φ l 1 k Parser.methodName Parser.methodName := by
  rw [methodName_eq]
  refine h.word (fun t => ?_) _ _
  cases t with
  | ident s | constant s => exact .inr ⟨rfl, s, rfl⟩
  | keyword w =>
    cases w with
    | classKw | beginKw | endKw | thenKw => exact .inr ⟨rfl, _, rfl⟩
    | _ => exact .inl rfl
  | _ => exact .inl rfl

theorem endKeyword (context : SyntaxContext) :
    Φ l 1 k (Parser.endKeyword context) (Parser.endKeyword context) :=
  h.expect rfl _ _

/-- Readers with a bound are compared without it. -/
theorem bounded {γ : Type} {r s : Nat → γ → Parser α} (hzero : ∀ x, r 0 x = throw .tooDeep)
    (hsucc : ∀ {j m n : Nat}, j ≤ k → j ≤ m + 1 → j ≤ n + 1 →
      (∀ (t : Nat) (x : γ), t ≤ k → t ≤ m → t ≤ n → Φ l i t (r m x) (s n x)) →
      ∀ x, Φ l i j (r (m + 1) x) (s (n + 1) x))
    (hm : k ≤ m) (hn : k ≤ n) (x : γ) : Φ l i k (r m x) (s n x) :=
  within_bounds (fun _ => h.tooDeep) (fun _ _ _ => h.other) hzero hsucc hm hn x

end Tokens

/-! ## Lists -/

section Lists

variable (h : Steps Φ) {item item' : Parser α}

include h

theorem itemsWithin (hitem : Φ false 1 k item item') (hm : k ≤ m) (hn : k ≤ n) :
    Φ true 0 k (Parser.itemsWithin item m) (Parser.itemsWithin item' n) := by
  refine h.bounded (r := fun m _ => Parser.itemsWithin item m)
    (s := fun n _ => Parser.itemsWithin item' n) (fun _ => rfl) (fun hk hm hn ih _ => ?_) hm hn ()
  unfold Parser.itemsWithin
  refine h.check rfl fun closed => ?_
  cases closed with
  | true => exact h.done []
  | false =>
    refine h.bind (h.loosen (h.narrow hitem hk)) fun a => h.bind h.skipNewlines fun _ => ?_
    refine h.eat rfl (h.bind h.skipNewlines fun _ => ?_) (h.done [a])
    -- an item and a comma were taken, so there is less left
    refine h.bind (ih _ () ?_ ?_ ?_) fun as => h.done (a :: as) <;> omega

theorem parenthesized (hitem : Φ false 1 k item item') (context : SyntaxContext) :
    Φ l 1 k (Parser.parenthesized item context) (Parser.parenthesized item' context) := by
  unfold Parser.parenthesized
  refine h.regain h.skipNewlines fun _ => h.room fun m n => ?_
  have hitems : Φ true 0 (min (k - 0) (min m n)) (Parser.itemsWithin item m)
      (Parser.itemsWithin item' n) :=
    h.itemsWithin (h.narrow hitem (by omega)) (by omega) (by omega)
  refine h.regain hitems fun as => ?_
  exact h.bind (h.expect rfl _ _) fun _ => h.done as

end Lists

/-! ## Constructs -/

section Expressions

variable (h : Steps Φ) {expr expr' : Parser Node}

include h

theorem commandArgumentsWithin (hexpr : Φ false 1 k expr expr') (hm : k ≤ m) (hn : k ≤ n) :
    Φ l 1 k (Parser.commandArgumentsWithin expr m) (Parser.commandArgumentsWithin expr' n) := by
  refine h.bounded (r := fun m _ => Parser.commandArgumentsWithin expr m)
    (s := fun n _ => Parser.commandArgumentsWithin expr' n) (fun _ => rfl)
    (fun hk hm hn ih _ => ?_) hm hn ()
  unfold Parser.commandArgumentsWithin
  refine h.bind (h.loosen (h.narrow hexpr hk)) fun a => ?_
  refine h.eat rfl (h.regain h.skipNewlines fun _ => ?_) (h.done [a])
  refine h.bind (ih _ () ?_ ?_ ?_) fun as => h.done (a :: as) <;> omega

/-- The arguments of a call, with or without parentheses. -/
theorem arguments? (hexpr : Φ false 1 k expr expr') :
    Φ l 0 k (Parser.arguments? expr) (Parser.arguments? expr') := by
  unfold Parser.arguments?
  refine h.eat rfl ?_ ?_
  · refine h.bind (h.parenthesized (h.narrow hexpr (by omega)) _) fun as => h.done (some as)
  · refine h.choose startsArgument rfl (fun _ => rfl) (h.room fun m n => ?_) (h.done none)
    have hargs := h.commandArgumentsWithin (l := l) (m := m) (n := n)
      (h.narrow hexpr (Nat.min_le_left k (min m n))) (by omega) (by omega)
    exact h.bind hargs fun as => h.done (some as)

/-! ### Constructs that start with a keyword -/

theorem parameters : Φ l 0 k Parser.parameters Parser.parameters := by
  refine h.eat rfl ?_ (h.done [])
  exact h.mono (h.parenthesized (h.name _ _) _) id (Nat.zero_le 1) (Nat.le_refl _)

theorem definition (hexpr : Φ false 1 k expr expr') :
    Φ l 1 k (Parser.definition expr) (Parser.definition expr') := by
  unfold Parser.definition
  refine h.bind (h.name _ _) fun func => h.bind (h.parameters) fun params => ?_
  refine h.regain (h.statements _ (h.narrow hexpr (by omega))) fun body => ?_
  exact h.bind (h.endKeyword _) fun _ => h.done _

theorem elseBranch (hexpr : Φ false 1 k expr expr') :
    Φ true 0 k (Parser.elseBranch expr) (Parser.elseBranch expr') :=
  h.eat rfl (h.statements _ (h.narrow hexpr (Nat.sub_le k 1))) (h.done [])

theorem branchesWithin (hexpr : Φ false 1 k expr expr') (hm : k ≤ m) (hn : k ≤ n) :
    Φ true 1 k (Parser.branchesWithin expr m) (Parser.branchesWithin expr' n) := by
  refine h.bounded (r := fun m _ => Parser.branchesWithin expr m)
    (s := fun n _ => Parser.branchesWithin expr' n) (fun _ => rfl)
    (fun {j _ _} hk hm hn ih _ => ?_) hm hn ()
  unfold Parser.branchesWithin
  refine h.bind (h.loosen (h.narrow hexpr hk)) fun condition => ?_
  have hthen : Φ true 0 (j - 1) (Parser.eat (.keyword .thenKw))
      (Parser.eat (.keyword .thenKw)) := by
    have heat := h.eat (f := Pure.pure) (g := Pure.pure) (l := true) (i := 0) (k := j - 1)
      (t := .keyword .thenKw) rfl (h.done true) (h.done false)
    rwa [bind_pure] at heat
  refine h.bind hthen fun _ => ?_
  refine h.bind (h.statements _ (h.narrow hexpr (by omega))) fun body => ?_
  refine h.eat rfl ?_ ?_
  · refine h.bind (h.mono (ih (j - 1) () ?_ ?_ ?_) id (Nat.zero_le 1) ?_)
      fun branch => h.done _ <;> omega
  · exact h.bind (h.elseBranch (h.narrow hexpr (by omega))) fun orElse => h.done _

theorem conditional (hexpr : Φ false 1 k expr expr') :
    Φ l 1 k (Parser.conditional expr) (Parser.conditional expr') := by
  unfold Parser.conditional
  refine h.room fun m n => ?_
  have hbranches := h.branchesWithin (m := m) (n := n)
    (h.narrow hexpr (Nat.min_le_left k (min m n))) (by omega) (by omega)
  exact h.regain hbranches fun node => h.bind (h.endKeyword _) fun _ => h.done node

/-- Where a statement or a clause ends. -/
theorem ends {p p' q q' : Parser α} (hp : Φ l i k p p') (hq : Φ l i k q q') :
    Φ l i k (get >>= fun c => if (c.kind.isTerminator || c.closesStatements) = true then p else q)
      (get >>= fun c => if (c.kind.isTerminator || c.closesStatements) = true then p' else q') :=
  h.choose (fun t => t.isTerminator || closesStatements t) rfl (fun _ => rfl) hp hq

theorem rescueClass : Φ l 0 k Parser.rescueClass Parser.rescueClass :=
  h.ends (h.done _) (h.mono (h.constantName _ _) id (Nat.zero_le 1) (Nat.le_refl _))

theorem rescuesWithin (hexpr : Φ false 1 k expr expr') (hm : k ≤ m) (hn : k ≤ n) :
    Φ true 0 k (Parser.rescuesWithin expr m) (Parser.rescuesWithin expr' n) := by
  refine h.bounded (r := fun m _ => Parser.rescuesWithin expr m)
    (s := fun n _ => Parser.rescuesWithin expr' n) (fun _ => rfl) (fun hk hm hn ih _ => ?_) hm hn
    ()
  unfold Parser.rescuesWithin
  refine h.eat rfl (h.bind h.rescueClass fun className => ?_) (h.done [])
  refine h.bind (h.statements _ (h.narrow hexpr (by omega))) fun body => ?_
  refine h.bind (ih _ () ?_ ?_ ?_) fun rest => h.done _ <;> omega

theorem beginBlock (hexpr : Φ false 1 k expr expr') :
    Φ l 1 k (Parser.beginBlock expr) (Parser.beginBlock expr') := by
  unfold Parser.beginBlock
  refine h.regain (h.statements _ hexpr) fun body => h.room fun m n => ?_
  have hrescues : Φ true 0 (min (k - 0) (min m n)) (Parser.rescuesWithin expr m)
      (Parser.rescuesWithin expr' n) :=
    h.rescuesWithin (h.narrow hexpr (by omega)) (by omega) (by omega)
  exact h.regain hrescues fun rescues => h.bind (h.endKeyword _) fun _ => h.done _

theorem superclass? : Φ l 0 k Parser.superclass? Parser.superclass? := by
  refine h.eat rfl ?_ (h.done none)
  exact h.bind (h.constantName _ _) fun name => h.done (some name)

theorem classDefinition (hexpr : Φ false 1 k expr expr') :
    Φ l 1 k (Parser.classDefinition expr) (Parser.classDefinition expr') := by
  unfold Parser.classDefinition
  refine h.bind (h.constantName _ _) fun className => h.bind h.superclass? fun superclass => ?_
  refine h.regain (h.statements _ (h.narrow hexpr (by omega))) fun body => ?_
  exact h.bind (h.endKeyword _) fun _ => h.done _

theorem returnValue (hexpr : Φ false 1 k expr expr') :
    Φ l 0 k (Parser.returnValue expr) (Parser.returnValue expr') :=
  h.ends (h.done _) (h.bind (h.loosen hexpr) fun _ => h.done _)

/-! ### Expressions -/

theorem grouped (hexpr : Φ false 1 k expr expr') :
    Φ l 1 k (Parser.grouped expr) (Parser.grouped expr') := by
  unfold Parser.grouped
  refine h.regain h.skipNewlines fun _ => h.bind (h.loosen hexpr) fun inner => ?_
  refine h.regain h.skipNewlines fun _ => ?_
  exact h.bind (h.expect rfl _ _) fun _ => h.done inner

/-- **A primary expression**, whatever starts it. -/
theorem primary (hexpr : Φ false 1 (k - 1) expr expr') :
    Φ l 1 k (Parser.primary expr) (Parser.primary expr') := by
  rw [primary_eq, primary_eq]
  have hfewer {p q : Parser Node} (hp : Φ l 1 (k - 1) p q) : Φ l 0 (k - 1) p q :=
    h.mono hp id (Nat.zero_le 1) (Nat.le_refl _)
  refine h.taking (fun t ht => ?_) (fun t => ?_) (h.unexpected _ _)
  · cases t with
    | newline | error | eof => exact ⟨rfl, rfl⟩
    | _ => cases ht
  · cases t with
    | int | float | string | interpolated | symbol | global => exact .some (h.done _)
    | ident s =>
      refine .some (h.bind (h.arguments? hexpr) fun args => ?_)
      cases args with
      | none => exact h.done _
      | some args => exact h.done _
    | constant s =>
      refine .some (h.eat rfl ?_ (h.done _))
      exact h.bind (h.parenthesized (h.narrow hexpr (by omega)) _) fun args => h.done _
    | keyword w =>
      cases w with
      | trueKw | falseKw | fileKw => exact .some (h.done _)
      | defKw => exact .some (hfewer (h.definition hexpr))
      | ifKw => exact .some (hfewer (h.conditional hexpr))
      | beginKw => exact .some (hfewer (h.beginBlock hexpr))
      | classKw => exact .some (hfewer (h.classDefinition hexpr))
      | returnKw => exact .some (h.returnValue hexpr)
      | _ => exact .none
    | mark m =>
      cases m with
      | leftParen => exact .some (hfewer (h.grouped hexpr))
      | _ => exact .none
    | newline | error | eof => exact .none

theorem callsWithin (hexpr : Φ false 1 (k - 1) expr expr') (hm : k ≤ m) (hn : k ≤ n)
    (target : Node) :
    Φ l 0 k (Parser.callsWithin expr m target) (Parser.callsWithin expr' n target) := by
  refine h.bounded (fun _ => rfl) (fun hk hm hn ih target => ?_) hm hn target
  unfold Parser.callsWithin
  refine h.eat rfl (h.regain h.skipNewlines fun _ => ?_) (h.done target)
  refine h.bind h.methodName fun func => ?_
  refine h.bind (h.arguments? (h.narrow hexpr (by omega))) fun args => ?_
  refine ih _ _ ?_ ?_ ?_ <;> omega

theorem operand (hexpr : Φ false 1 (k - 1) expr expr') :
    Φ l 1 k (Parser.operand expr) (Parser.operand expr') := by
  unfold Parser.operand
  refine h.bind (h.primary hexpr) fun node => h.room fun m n => ?_
  exact h.callsWithin (h.narrow hexpr (by omega)) (by omega) (by omega) node

theorem shiftsWithin (hexpr : Φ false 1 (k - 1) expr expr') (hm : k ≤ m) (hn : k ≤ n)
    (left : Node) :
    Φ l 0 k (Parser.shiftsWithin expr m left) (Parser.shiftsWithin expr' n left) := by
  refine h.bounded (fun _ => rfl) (fun hk hm hn ih left => ?_) hm hn left
  unfold Parser.shiftsWithin
  refine h.eat rfl (h.regain h.skipNewlines fun _ => ?_) (h.done left)
  refine h.bind (h.operand (h.narrow hexpr (by omega))) fun right => ?_
  refine ih _ _ ?_ ?_ ?_ <;> omega

theorem shift (hexpr : Φ false 1 (k - 1) expr expr') :
    Φ l 1 k (Parser.shift expr) (Parser.shift expr') := by
  unfold Parser.shift
  refine h.bind (h.operand hexpr) fun node => h.room fun m n => ?_
  exact h.shiftsWithin (h.narrow hexpr (by omega)) (by omega) (by omega) node

end Expressions

end Steps

namespace Parallel

variable {Starts : Span → Span → Prop}
  {Φ : ∀ {α : Type}, Bool → Nat → Nat → Parser α → Parser α → Prop}
  {k m n : Nat} (h : Parallel Starts Φ)

include h

/-- An assignment, or what can stand on its left. -/
theorem expressionWith {expr expr' : Parser Node} (hexpr : Φ false 1 (k - 1) expr expr') :
    Φ false 1 k (Parser.expressionWith expr) (Parser.expressionWith expr') := by
  rw [expressionWith_eq, expressionWith_eq]
  refine h.first fun s s' hs => ?_
  unfold expressionFrom
  refine h.bind (h.shift hexpr) fun left => ?_
  unfold assignmentTo
  refine h.eat rfl (h.regain h.skipNewlines fun _ => ?_) (h.done left)
  cases left.isAssignable with
  | true => exact h.bind (h.narrow hexpr (by omega)) fun _ => h.done _
  | false => exact h.invalidTarget left hs

/-- **Expressions**, where there is no more left than the bounds on nesting. -/
theorem expression (hm : k ≤ m) (hn : k ≤ n) :
    Φ false 1 k (Parser.expression m) (Parser.expression n) :=
  h.bounded (r := fun m _ => Parser.expression m) (s := fun n _ => Parser.expression n)
    (fun _ => rfl) (fun _ hm hn ih _ => h.expressionWith (ih _ () (by omega) (by omega) (by omega)))
    hm hn ()

end Parallel

/-! ## Relations that are not loose -/

/-- What separates a statement from the next one depends on the current token. -/
theorem separator_eq (context : SyntaxContext) :
    separator context = (kind >>= fun t => if t.isTerminator then skipTerminators else
      if closesStatements t then pure () else unexpected "end of line or `;`" context) := rfl

/-- **A relation between readers that are never apart**: all that is looked at is
the same on both sides, and is skipped on both. -/
structure Close (Φ : ∀ {α : Type}, Nat → Nat → Parser α → Parser α → Prop) : Prop where
  /-- A bound is met only where nothing is left. -/
  tooDeep : ∀ {α : Type} {i : Nat} {q : Parser α}, Φ i 0 (throw .tooDeep) q
  /-- Where nothing is left, nothing is read on the other side. -/
  other : ∀ {α : Type} {i : Nat} {p q q' : Parser α}, Φ i 0 p q → Φ i 0 p q'
  /-- Less can be said. -/
  mono : ∀ {α : Type} {i j k m : Nat} {p q : Parser α}, Φ i k p q → j ≤ i → m ≤ k → Φ j m p q
  /-- Nothing is read. -/
  pure : ∀ {α : Type} {k : Nat} (a : α), Φ 0 k (pure a) (pure a)
  /-- One reader after another. -/
  bind : ∀ {α β : Type} {i n k : Nat} {p q : Parser α} {f g : α → Parser β},
    Φ i k p q → (∀ a, Φ (n - i) (k - i) (f a) (g a)) → Φ n k (p >>= f) (q >>= g)
  /-- A wrong token. -/
  unexpected : ∀ {α : Type} {i k : Nat} (expected : String) (context : SyntaxContext),
    Φ i k (unexpected (α := α) expected context) (Parser.unexpected expected context)
  /-- Reading goes on after a token of a construct, or in front of it. -/
  taking : ∀ {α : Type} {i k : Nat} {next next' : Kind → Option (Parser α)} {p q : Parser α},
    (∀ t, t.isContent = false → next t = none ∧ next' t = none) →
    (∀ t, Option.Rel (Φ (i - 1) (k - 1)) (next t) (next' t)) → Φ i k p q →
    Φ i k (taking next p) (Parser.taking next' q)
  /-- Reading depends on the current token. -/
  look : ∀ {α : Type} {i k : Nat} {f g : Kind → Parser α}, (∀ t, Φ i k (f t) (g t)) →
    Φ i k (kind >>= f) (kind >>= g)
  /-- Tokens are skipped, but for errors and the end of the source. -/
  skipWhile : ∀ {k : Nat} {b : Kind → Bool}, b .error = false → b .eof = false →
    Φ 0 k (modify (Cursor.skipWhile b)) (modify (Cursor.skipWhile b))
  /-- Both sides have a bound on the number of items, which is not too small. -/
  room : ∀ {α : Type} {i k : Nat} {f g : Nat → Parser α},
    (∀ m n, Φ i (min k (min m n)) (f m) (g n)) → Φ i k (room >>= f) (Parser.room >>= g)

namespace Close

variable {Φ : ∀ {α : Type}, Nat → Nat → Parser α → Parser α → Prop} (h : Close Φ)
  {k m n : Nat} {expr expr' : Parser Node}

include h

theorem separator (context : SyntaxContext) :
    Φ 0 k (Parser.separator context) (Parser.separator context) := by
  rw [separator_eq]
  refine h.look fun t => ?_
  cases t.isTerminator with
  | true => exact h.skipWhile rfl rfl
  | false =>
    cases Garnet.closesStatements t with
    | true => exact h.pure ()
    | false => exact h.unexpected _ _

theorem statementsWithin (hexpr : Φ 1 k expr expr') (context : SyntaxContext) (hm : k ≤ m)
    (hn : k ≤ n) :
    Φ 0 k (Parser.statementsWithin expr context m) (Parser.statementsWithin expr' context n) := by
  refine within_bounds (Φ := fun k => Φ 0 k)
    (r := fun m _ => Parser.statementsWithin expr context m)
    (s := fun n _ => Parser.statementsWithin expr' context n) (fun _ => h.tooDeep)
    (fun _ _ _ => h.other) (fun _ => rfl) (fun {j _ _} hk hm hn ih _ => ?_) hm hn ()
  refine h.look (f := fun t => if closesStatements t = true then _ else _)
    (g := fun t => if closesStatements t = true then _ else _) fun t => ?_
  cases closesStatements t with
  | true => exact h.pure []
  | false =>
    refine h.bind (h.mono hexpr (Nat.le_refl 1) hk) fun a => ?_
    refine h.bind (h.separator context) fun _ => ?_
    -- a statement took a token, so there is less left
    refine h.bind (ih (j - 1 - 0) () ?_ ?_ ?_) fun as => h.pure (a :: as) <;> omega

/-- **What is never apart keeps all steps.** -/
theorem steps : Steps (fun {_} _ i k p q => Φ i k p q) where
  tooDeep := h.tooDeep
  other := h.other
  mono hp _ hj hm := h.mono hp hj hm
  pure := h.pure
  bind := h.bind
  regain hp hf := h.bind hp fun a => h.mono (hf a) (by omega) (Nat.le_refl _)
  unexpected := h.unexpected
  taking := h.taking
  look b _ _ _ hfg := h.look fun t => hfg (b t)
  skipNewlines := h.skipWhile rfl rfl
  room := h.room
  statements context hexpr := by
    refine h.bind (h.skipWhile rfl rfl) fun _ => h.room fun m n => ?_
    refine h.statementsWithin (h.mono hexpr (Nat.le_refl 1) ?_) context ?_ ?_ <;> omega

end Close

end Parser

end Garnet
