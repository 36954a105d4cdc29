import Garnet.Proofs.DisplayedTrees
import Garnet.Proofs.WholeSources

/-!
# Displayed trees are read back

The text of a writable node is a program of that one node
(`displayed_tree_is_read_back`), however deep it is. The lexer cuts the text
into the tokens of the node; what is left is that these are read as the node.

A displayed expression stands in front of a comma, a parenthesis or the end of
the source (`endsDisplay`). An operand can also stand in front of a dot or of an
equals sign. A call on a call is displayed from left to right, but its tree has
the last call at its root: so it is said of a displayed operand what it *leads*
to, whatever calls follow (`leads_display`).
-/

namespace Garnet

open Garnet.Parser Lexeme Token

namespace Reads

variable {expr : Parser Node} {s : String} {ks : List Kind}

/-! ## Names -/

/-- A name by itself. -/
theorem reference_name (h : IsName s) :
    Reads (primary expr) endsName [nameKind s] (.bareReference s) := by
  obtain h | h := h
  · rw [nameKind_of_ident h]
    exact reference s
  · rw [nameKind_of_constant h]
    refine kind_cons ((advance _).step ?_)
    refine (eat_miss (.mark .leftParen)).last (pure (Node.bareReference s)) fun k hk => ?_
    exact (Bool.and_eq_true_iff.mp hk).1

/-- A name with arguments between parentheses. -/
theorem call_name {args : List Node} (h : IsName s)
    (hargs : Reads (Parser.parenthesized expr .arguments) anyKind ks args) :
    Reads (primary expr) anyKind (nameKind s :: .mark .leftParen :: ks) (.call none s args) := by
  obtain h | h := h
  · rw [nameKind_of_ident h]
    exact call_ident s (arguments_of_parenthesized hargs)
  · rw [nameKind_of_constant h]
    refine kind_cons ((advance _).step ((eat_hit rfl).step ?_))
    exact hargs.map (Node.call none s)

/-- The name of a method after a dot. -/
theorem methodName_name (h : IsMethodName s) : Reads methodName anyKind [nameKind s] s := by
  obtain ⟨heq, _⟩ | ⟨heq, _⟩ | ⟨k, hk, heq, rfl⟩ := h.nameKind_eq
  · rw [heq]
    exact methodName_ident s
  · rw [heq]
    exact kind_cons (found_name (.constant s) s)
  · rw [heq]
    simp only [methodKeywords, List.mem_cons, List.not_mem_nil, or_false] at hk
    obtain rfl | rfl | rfl | rfl := hk <;> exact kind_cons (found_name _ _)

end Reads

/-! ## What starts and what ends a displayed expression -/

/-- Whether a displayed expression ends before a token. -/
def endsDisplay (k : Kind) : Bool :=
  k == .mark .comma || k == .mark .rightParen || k == .eof

theorem eq_of_endsDisplay {k : Kind} (h : endsDisplay k = true) :
    k = .mark .comma ∨ k = .mark .rightParen ∨ k = .eof := by
  simpa [endsDisplay, or_assoc] using h

/-- Whether a displayed expression starts with a token. -/
def startsDisplay (k : Kind) : Bool :=
  startsStatement k && startsItem k

theorem startsDisplay_nameKind {s : String} (h : IsName s) : startsDisplay (nameKind s) = true := by
  obtain h | h := h
  · rw [nameKind_of_ident h]
    rfl
  · rw [nameKind_of_constant h]
    rfl

theorem nameKind_ne_newline (s : String) : (nameKind s != .newline) = true := by
  unfold nameKind
  split
  · rfl
  · split <;> rfl

namespace Node

theorem exists_display_cons : (n : Node) → n.IsWritable →
    ∃ k ks, n.display = k :: ks ∧ startsDisplay k = true
  | .simpleString _, _ | .interpolatedString _, _ | .int _, _ | .globalVariable _, _
  | .symbol _, _ | .fileName, _ => ⟨_, _, rfl, rfl⟩
  | .boolean b, _ => by cases b <;> exact ⟨_, _, rfl, rfl⟩
  | .bareReference _, h => ⟨_, _, rfl, startsDisplay_nameKind h⟩
  | .call none _ _, h => ⟨_, _, rfl, startsDisplay_nameKind h.1⟩
  | .call (some target) _ _, h => by
    obtain ⟨k, ks, hks, hk⟩ := exists_display_cons target h.1.1
    exact ⟨k, _, by rw [display, hks, List.cons_append], hk⟩
  | .assignment lhs _, h => by
    obtain ⟨k, ks, hks, hk⟩ := exists_display_cons lhs h.1.2
    exact ⟨k, _, by rw [display, hks, List.cons_append], hk⟩
  | .float _, h | .funcDecl .., h | .ifBlock .., h | .beginBlock .., h | .classDecl .., h
  | .returnValue _, h => h.elim

theorem allWritable_iff {ns : List Node} : AllWritable ns ↔ ∀ n ∈ ns, n.IsWritable := by
  induction ns with
  | nil => simp [AllWritable]
  | cons n ns ih => rw [AllWritable, ih, List.forall_mem_cons]

theorem argumentsDisplay_cons (n : Node) (ns : List Node) : argumentsDisplay (n :: ns)
    = n.display ++ if ns.isEmpty then [] else .mark .comma :: argumentsDisplay ns := by
  cases ns with
  | nil => exact (List.append_nil _).symm
  | cons m ns => rfl

/-- Each argument has no more tokens than all of them together. -/
theorem length_display_le {n : Node} {ns : List Node} (h : n ∈ ns) :
    n.display.length ≤ (argumentsDisplay ns).length := by
  induction ns with
  | nil => cases h
  | cons m ns ih =>
    rw [argumentsDisplay_cons, List.length_append]
    obtain rfl | h := List.mem_cons.mp h
    · exact Nat.le_add_right _ _
    · have := ih h
      rw [if_neg (by simpa using List.ne_nil_of_mem h), List.length_cons]
      omega

/-- There are at least as many tokens as arguments. -/
theorem length_le_length_argumentsDisplay {ns : List Node} (h : AllWritable ns) :
    ns.length ≤ (argumentsDisplay ns).length := by
  induction ns with
  | nil => exact Nat.le_refl _
  | cons n ns ih =>
    have := ih h.2
    obtain ⟨k, ks, hks, _⟩ := exists_display_cons n h.1
    rw [argumentsDisplay_cons, hks]
    split
    · next hempty =>
      rw [List.isEmpty_iff.mp hempty]
      simp
    · simp only [List.length_append, List.length_cons]
      omega

end Node

/-! ## Arguments -/

namespace Reads

variable {expr : Parser Node}

section Arguments

variable {ns : List Node} (hns : Node.AllWritable ns)
  (h : ∀ n ∈ ns, Reads expr endsDisplay n.display n)

include hns

/-- No newline comes first. -/
theorem admits_argumentsDisplay :
    Admits (· != .newline) (· == .mark .rightParen) (Node.argumentsDisplay ns) := by
  cases ns with
  | nil => exact fun k hk => by rw [eq_of_beq hk]; rfl
  | cons n ns =>
    obtain ⟨k, ks, hks, hk⟩ := n.exists_display_cons hns.1
    rw [Node.argumentsDisplay_cons, hks]
    exact (Bool.and_eq_true_iff.mp (Bool.and_eq_true_iff.mp hk).2).1

include h

/-- **Arguments with commas between them**, up to the closing parenthesis. -/
theorem itemsBetween {m : Nat} (hm : ns.length < m) :
    Reads (Parser.itemsWithin expr m) (· == .mark .rightParen) (Node.argumentsDisplay ns) ns := by
  induction ns generalizing m with
  | nil =>
    cases m with
    | zero => cases hm
    | succ m =>
      refine (check_hit (.mark .rightParen)).last (pure []) fun k hk => ?_
      rw [eq_of_beq hk]
      rfl
  | cons n ns ih =>
    cases m with
    | zero => cases hm
    | succ m =>
      obtain ⟨hn, hrest⟩ := List.forall_mem_cons.mp h
      have hitems := ih hns.2 hrest (Nat.lt_of_succ_lt_succ hm)
      obtain ⟨k, ks, hks, hk⟩ := n.exists_display_cons hns.1
      have hstart : Admits (unlike (.mark .rightParen)) (· == .mark .rightParen)
          (Node.argumentsDisplay (n :: ns)) := by
        rw [Node.argumentsDisplay_cons, hks]
        exact (Bool.and_eq_true_iff.mp (Bool.and_eq_true_iff.mp hk).2).2
      refine (check_miss (.mark .rightParen)).stay ?_ hstart
      cases ns with
      | nil =>
        -- the last argument: no comma follows
        have hend : Reads (Parser.eat (.mark .comma) >>= fun more =>
            if more then Parser.skipNewlines >>= fun _ => Parser.itemsWithin expr m >>= fun as =>
              Pure.pure (n :: as)
            else Pure.pure [n]) (· == .mark .rightParen) [] [n] := by
          refine (eat_miss (.mark .comma)).stay (pure [n]) fun k hk => ?_
          rw [eq_of_beq hk]
          rfl
        refine hn.last (skipNewlines_none.stay hend fun k hk => ?_) fun k hk => ?_ <;>
          rw [eq_of_beq hk] <;> rfl
      | cons n' ns =>
        refine hn.bind (skipNewlines_none.stay ((eat_hit rfl).step ?_) rfl) rfl
        exact skipNewlines_none.stay (hitems.map (n :: ·)) (admits_argumentsDisplay hns.2)

/-- Arguments with the parenthesis that closes them. -/
theorem parenthesized_display :
    Reads (Parser.parenthesized expr .arguments) anyKind
      (Node.argumentsDisplay ns ++ [.mark .rightParen]) ns := by
  refine skipNewlines_none.stay (room fun m hm => ?_) ((admits_argumentsDisplay hns).append rfl)
  have hlength := Node.length_le_length_argumentsDisplay hns
  rw [List.length_append] at hm
  refine (itemsBetween hns h (by omega)).bind ?_ rfl
  exact (expect rfl _ _).last (pure ns) fun _ _ => rfl

end Arguments

/-! ## Trees -/

section Trees

variable {d : Nat}
  (h : ∀ m : Node, m.IsWritable → m.display.length < d → Reads expr endsDisplay m.display m)

include h

/-- The arguments of a call that is short enough. -/
theorem arguments_display {args : List Node} (hargs : Node.AllWritable args)
    (hd : (Node.argumentsDisplay args).length < d) :
    Reads (Parser.parenthesized expr .arguments) anyKind
      (Node.argumentsDisplay args ++ [.mark .rightParen]) args := by
  refine parenthesized_display hargs fun m hm => h m (Node.allWritable_iff.mp hargs m hm) ?_
  exact Nat.lt_of_le_of_lt (Node.length_display_le hm) hd

/-- **A displayed operand** leads to its node. -/
theorem leads_display : (n : Node) → n.IsWritable → n.isAssignment = false →
    n.display.length ≤ d → Leads expr endsName n.display n
  | .simpleString _, _, _, _ | .interpolatedString _, _, _, _ | .int _, _, _, _
  | .globalVariable _, _, _, _ | .symbol _, _, _, _ | .fileName, _, _, _ =>
    leads_of_primary ((kind_cons (literal _ _)).restrict fun _ _ => rfl)
  | .boolean b, _, _, _ => by
    cases b <;> exact leads_of_primary ((kind_cons (literal _ _)).restrict fun _ _ => rfl)
  | .bareReference s, hs, _, _ => leads_of_primary (reference_name hs)
  | .call none func args, hn, _, hd => by
    simp only [Node.display, invocation, List.length_cons, List.length_append] at hd
    have hargs := arguments_display h hn.2 (by omega)
    exact leads_of_primary ((call_name hn.1 hargs).restrict fun _ _ => rfl)
  | .call (some target) func args, hn, _, hd => by
    simp only [Node.display, invocation, List.length_cons, List.length_append] at hd
    have htarget := leads_display target hn.1.1 hn.1.2 (by omega)
    have hargs := arguments_of_parenthesized (arguments_display h hn.2.2 (by omega))
    exact (htarget.call rfl (nameKind_ne_newline func) (methodName_name hn.2.1) hargs).restrict
      fun _ _ => rfl
  | .assignment .., _, hn, _ => by cases hn
  | .float _, hn, _, _ | .funcDecl .., hn, _, _ | .ifBlock .., hn, _, _ | .beginBlock .., hn, _, _
  | .classDecl .., hn, _, _ | .returnValue _, hn, _, _ => hn.elim

/-- **A displayed expression is read** by a reader that is given a reader of the
expressions nested in it. -/
theorem expressionWith_display {n : Node} (hn : n.IsWritable) (hd : n.display.length ≤ d) :
    Reads (expressionWith expr) endsDisplay n.display n := by
  cases hassignment : n.isAssignment with
  | false =>
    have hleads := leads_display h n hn hassignment hd
    refine expressionWith_of_operand (hleads.operand (fun k hk => ?_) fun k hk => ?_)
      fun k hk => ?_ <;> obtain rfl | rfl | rfl := eq_of_endsDisplay hk <;> rfl
  | true =>
    cases n with
    | assignment lhs rhs =>
      obtain ⟨⟨hassignable, hlhs⟩, hrhs⟩ := hn
      simp only [Node.display, List.length_cons, List.length_append] at hd
      have hnot : lhs.isAssignment = false := by
        cases lhs <;> first | rfl | cases hassignable
      have hoperand : Reads (operand expr) (· == .mark .equals) lhs.display lhs :=
        (leads_display h lhs hlhs hnot (by omega)).operand
          (fun k hk => by rw [eq_of_beq hk]; rfl) fun k hk => by rw [eq_of_beq hk]; rfl
      obtain ⟨k, ks, hks, hk⟩ := rhs.exists_display_cons hrhs
      refine assignment hassignable hoperand (h rhs hrhs (by omega)) ?_
      rw [hks]
      exact (Bool.and_eq_true_iff.mp (Bool.and_eq_true_iff.mp hk).2).1
    | _ => cases hassignment

end Trees

end Reads

/-- **The tokens of a node are read as that node**, if nesting is bounded by their
number. -/
theorem Node.reads_display {n : Node} {d : Nat} (hn : n.IsWritable) (hd : n.display.length < d) :
    Reads (expression d) endsDisplay n.display n := by
  induction d using Nat.strongRecOn generalizing n with
  | ind d ih =>
    cases d with
    | zero => cases hd
    | succ d =>
      refine Reads.expressionWith_display (fun m hm hmd => ?_) hn (Nat.le_of_lt_succ hd)
      exact ih d (Nat.lt_succ_self d) hm hmd

/-- **Displayed trees are read back.** The text of a node that is made of literals,
names, calls and assignments is a program of that one node, if its names can be
written, and its strings without escapes. -/
theorem displayed_tree_is_read_back (n : Node) (h : n.IsWritable) : parse n.text = .ok [n] := by
  have hkinds := n.kinds_text h .nil
  rw [List.append_nil, kinds_nil] at hkinds
  obtain ⟨k, ks, hks, hk⟩ := n.exists_display_cons h
  refine parse_of_expression hkinds ⟨k, ks, hks, (Bool.and_eq_true_iff.mp hk).1⟩ fun d hd => ?_
  refine (Node.reads_display h hd).restrict fun k hk => ?_
  rw [eq_of_beq hk]
  rfl

/-- A tree whose text has few spaces: a dot after a number, a keyword for a method, marks
after names, and an assignment among arguments. -/
def crowdedTree : Node :=
  .assignment (.globalVariable ":") (.call (some (.call (some (.int (-1))) "foo" [])) "class"
    [.call none "puts!" [.symbol "ok?", .assignment (.bareReference "x") (.simpleString "a\x22b")]])

/-- The text of that tree is a program. -/
theorem crowded_tree_is_read_back :
    crowdedTree.IsWritable ∧
      parse "$: = -1.foo().class(puts!(:ok?, x = 'a\x22b'))" = .ok [crowdedTree] := by
  have hrest {v : List Char} (hv : v.all isNamePart = true) : v ∈ Rule.nameRest :=
    mem_oneOf_star.mpr (List.all_eq_true.mp hv)
  have hfoo : Kind.IsWritable (.ident "foo") :=
    ⟨mem_oneOf_mul.mpr ⟨'f', ['o', 'o'], by decide, Language.mem_mul.mpr
      ⟨['o', 'o'], hrest (by decide), [], Or.inl rfl, rfl⟩, rfl⟩, fun k => by cases k <;> decide⟩
  have hputs : Kind.IsWritable (.ident "puts!") :=
    ⟨mem_oneOf_mul.mpr ⟨'p', ['u', 't', 's', '!'], by decide, Language.mem_mul.mpr
      ⟨['u', 't', 's'], hrest (by decide), ['!'], Or.inr ⟨'!', by decide, rfl⟩, rfl⟩, rfl⟩,
      fun k => by cases k <;> decide⟩
  have hx : Kind.IsWritable (.ident "x") :=
    ⟨mem_oneOf_mul.mpr ⟨'x', [], by decide, Language.mem_mul.mpr
      ⟨[], hrest rfl, [], Or.inl rfl, rfl⟩, rfl⟩, fun k => by cases k <;> decide⟩
  have hok : Kind.IsWritable (.symbol "ok?") :=
    mem_oneOf_mul.mpr ⟨'o', ['k', '?'], by decide, Language.mem_mul.mpr
      ⟨['k'], hrest (by decide), ['?'], Or.inr ⟨'?', by decide, rfl⟩, rfl⟩, rfl⟩
  have hglobal : Kind.IsWritable (.global ":") := Or.inr ⟨':', by decide, rfl⟩
  have hstring : IsPlain '\x27' "a\x22b" := by simp [IsPlain]
  have hwritable : crowdedTree.IsWritable :=
    ⟨⟨rfl, hglobal⟩, ⟨⟨⟨trivial, rfl⟩, .inl (.inl hfoo), trivial⟩, rfl⟩,
      .inr ⟨.classKw, by decide, rfl⟩,
      ⟨.inl hputs, hok, ⟨⟨rfl, .inl hx⟩, hstring⟩, trivial⟩, trivial⟩
  have htext : crowdedTree.text = "$: = -1.foo().class(puts!(:ok?, x = 'a\x22b'))" := by
    decide +kernel
  exact ⟨hwritable, htext ▸ displayed_tree_is_read_back crowdedTree hwritable⟩

end Garnet
