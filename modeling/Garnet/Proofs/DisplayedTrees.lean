import Garnet.Proofs.Abutting
import Garnet.Syntax

/-!
# The tokens of displayed trees

The text of a node is its source form where the node is an expression made of
literals, names, calls and assignments to names, and where its names and strings
can be written as they are (`Node.IsWritable`). As text it is put together from
the texts of its parts, as a sequence of tokens from theirs (`Node.display`). The
lexer takes one to the other, with whatever delimits the text after it
(`Node.kinds_text`).
-/

namespace Garnet

open Computability Lexeme Token

/-! ## Names -/

/-- **Whether a text is a name**: an identifier that is no keyword, or a constant. -/
def IsName (s : String) : Prop :=
  Kind.IsWritable (.ident s) ∨ Kind.IsWritable (.constant s)

/-- The keywords that are names of methods after a dot. -/
def methodKeywords : List Keyword :=
  [.classKw, .beginKw, .endKw, .thenKw]

/-- **Whether a text is the name of a method** after a dot. -/
def IsMethodName (s : String) : Prop :=
  IsName s ∨ ∃ k ∈ methodKeywords, s = k.spelling

/-- The kind of token that a name is. -/
def nameKind (s : String) : Kind :=
  match Keyword.ofSpelling? s with
  | some k => .keyword k
  | none => if s.toList.head?.any Char.isUpper then .constant s else .ident s

theorem nameKind_spelling (k : Keyword) : nameKind k.spelling = .keyword k := by
  rw [nameKind, Rule.ofSpelling?_spelling]

theorem nameKind_of_ident {s : String} (h : Kind.IsWritable (.ident s)) :
    nameKind s = .ident s := by
  have hkeyword : Keyword.ofSpelling? s = none :=
    Option.eq_none_iff_forall_ne_some.mpr fun k hk => h.2 k (spelling_of_ofSpelling? hk)
  obtain ⟨c, u, hc, _, hs⟩ := mem_oneOf_mul.mp h.1
  have hlower := Rule.group?_of_lower hc
  have hupper : c.isUpper = false := Bool.eq_false_iff.mpr fun hupper => by
    rw [Rule.group?_of_upper hupper] at hlower
    cases hlower
  rw [nameKind, hkeyword, hs]
  simp [hupper]

theorem nameKind_of_constant {s : String} (h : Kind.IsWritable (.constant s)) :
    nameKind s = .constant s := by
  obtain ⟨c, u, hc, _, hs⟩ := mem_oneOf_mul.mp h
  have hkeyword : Keyword.ofSpelling? s = none := by
    refine Option.eq_none_iff_forall_ne_some.mpr fun k hk => ?_
    rw [← spelling_of_ofSpelling? hk] at hs
    cases k <;> cases hs <;> cases hc
  rw [nameKind, hkeyword, hs]
  simp [hc]

namespace IsMethodName

variable {s : String} (h : IsMethodName s)

include h

/-- **A name is an identifier, a constant, or one of four keywords.** -/
theorem nameKind_eq : (nameKind s = .ident s ∧ Kind.IsWritable (.ident s)) ∨
    (nameKind s = .constant s ∧ Kind.IsWritable (.constant s)) ∨
    ∃ k ∈ methodKeywords, nameKind s = .keyword k ∧ s = k.spelling := by
  obtain (hident | hconstant) | ⟨k, hk, rfl⟩ := h
  · exact .inl ⟨nameKind_of_ident hident, hident⟩
  · exact .inr (.inl ⟨nameKind_of_constant hconstant, hconstant⟩)
  · exact .inr (.inr ⟨k, hk, nameKind_spelling k, rfl⟩)

/-- No name starts with a digit. -/
theorem exists_cons : ∃ c u, s.toList = c :: u ∧ c.isDigit = false := by
  have hdigit {c : Char} {g : Rule.Group} (hc : Rule.group? c = some g) (hg : g ≠ .number) :
      c.isDigit = false := by
    refine Bool.eq_false_iff.mpr fun hdigit => hg ?_
    rw [Rule.group?_of_digit hdigit] at hc
    exact (Option.some.inj hc).symm
  obtain (hident | hconstant) | ⟨k, _, rfl⟩ := h
  · obtain ⟨c, u, hc, _, hs⟩ := mem_oneOf_mul.mp hident.1
    exact ⟨c, u, hs, hdigit (Rule.group?_of_lower hc) (by simp)⟩
  · obtain ⟨c, u, hc, _, hs⟩ := mem_oneOf_mul.mp hconstant
    exact ⟨c, u, hs, hdigit (Rule.group?_of_upper hc) (by simp)⟩
  · cases k <;> exact ⟨_, _, rfl, rfl⟩

theorem kinds_append {rest : List Char} (hrest : Delimited rest) :
    kinds (s.toList ++ rest) = nameKind s :: kinds rest := by
  obtain ⟨heq, hwritable⟩ | ⟨heq, hwritable⟩ | ⟨k, _, heq, rfl⟩ := h.nameKind_eq
  · rw [heq]
    exact kinds_written hrest (k := .ident s) hwritable rfl
  · rw [heq]
    exact kinds_written hrest (k := .constant s) hwritable rfl
  · rw [heq]
    exact kinds_written hrest (k := .keyword k) trivial rfl

end IsMethodName

/-! ## Trees -/

/-- Whether a text can stand between two quotes as it is. -/
def IsPlain (quote : Char) (s : String) : Prop :=
  ∀ c ∈ s.toList, c ≠ quote ∧ c ≠ '\\'

/-- The tokens of a call, without its target. -/
def invocation (func : String) (arguments : List Kind) : List Kind :=
  nameKind func :: .mark .leftParen :: (arguments ++ [.mark .rightParen])

namespace Node

/-- Whether a node is an assignment. -/
def isAssignment : Node → Bool
  | .assignment .. => true
  | _ => false

mutual

/-- **Whether the text of a node is its source form**: it is made of literals other
than floating-point ones, names, calls and assignments, strings hold neither
their quotes nor backslashes, and all names can be written. No call has an
assignment for its target. -/
def IsWritable : Node → Prop
  | .simpleString s => IsPlain '\x27' s
  | .interpolatedString s => IsPlain '\x22' s
  | .int _ | .boolean _ | .fileName => True
  | .globalVariable name => Kind.IsWritable (.global name)
  | .symbol name => Kind.IsWritable (.symbol name)
  | .bareReference name => IsName name
  | .call none func args => IsName func ∧ AllWritable args
  | .call (some target) func args =>
    (target.IsWritable ∧ target.isAssignment = false) ∧ IsMethodName func ∧ AllWritable args
  | .assignment lhs rhs => (lhs.isAssignable = true ∧ lhs.IsWritable) ∧ rhs.IsWritable
  | _ => False

/-- Whether this is so of all nodes of a list. -/
def AllWritable : List Node → Prop
  | [] => True
  | n :: ns => n.IsWritable ∧ AllWritable ns

end

mutual

/-- **The tokens of the text of a node.** -/
def display : Node → List Kind
  | .simpleString s => [.string s]
  | .interpolatedString s => [.interpolated s]
  | .int n => [.int n]
  | .boolean b => [.keyword (if b then .trueKw else .falseKw)]
  | .globalVariable name => [.global name]
  | .symbol name => [.symbol name]
  | .bareReference name => [nameKind name]
  | .fileName => [.keyword .fileKw]
  | .call none func args => invocation func (argumentsDisplay args)
  | .call (some target) func args =>
    target.display ++ (.mark .dot :: invocation func (argumentsDisplay args))
  | .assignment lhs rhs => lhs.display ++ (.mark .equals :: rhs.display)
  | _ => []

/-- Those of the arguments of a call, with a comma between them. -/
def argumentsDisplay : List Node → List Kind
  | [] => []
  | [n] => n.display
  | n :: ns => n.display ++ (.mark .comma :: argumentsDisplay ns)

end

/-! ## From texts to tokens -/

/-- The mark that a character makes, of those between the parts of a tree. -/
def markOf? : Char → Option Mark
  | '(' => some .leftParen
  | ')' => some .rightParen
  | ',' => some .comma
  | '.' => some .dot
  | '=' => some .equals
  | _ => none

/-- These marks are made whatever follows. -/
theorem kinds_mark {c : Char} {m : Mark} (h : markOf? c = some m) (rest : List Char) :
    kinds (c :: rest) = .mark m :: kinds rest := by
  unfold markOf? at h
  split at h <;> cases h <;> exact kinds_cons _ _

/-- A string that is plain is written without backslashes. -/
theorem betweenQuotes_of_isPlain {quote : Char} {s : String} (h : IsPlain quote s) :
    (betweenQuotes quote s).toList = quote :: (s.toList ++ [quote]) := by
  have hprotect : ∀ u : List Char, (∀ c ∈ u, c ≠ quote ∧ c ≠ '\\') → protect quote u = u := by
    intro u hu
    induction u with
    | nil => rfl
    | cons c u ih =>
      obtain ⟨hc, hu⟩ := List.forall_mem_cons.mp hu
      rw [protect_cons, if_neg (by simp [hc]), ih hu]
  rw [betweenQuotes, String.toList_ofList, hprotect _ h]

/-- The text of a call, without its target. -/
theorem kinds_invocation {func arguments : String} {ks : List Kind} (hfunc : IsMethodName func)
    (harguments : ∀ rest, kinds (arguments.toList ++ ')' :: rest) = ks ++ kinds (')' :: rest))
    (rest : List Char) :
    kinds ((func ++ "(" ++ arguments ++ ")").toList ++ rest)
      = invocation func ks ++ kinds rest := by
  have htext : (func ++ "(" ++ arguments ++ ")").toList ++ rest
      = func.toList ++ ('(' :: (arguments.toList ++ ')' :: rest)) := by
    simp
  rw [htext, hfunc.kinds_append (.cons rfl (by decide) _), kinds_mark (c := '(') rfl, harguments,
    kinds_mark (c := ')') rfl]
  simp [invocation]

mutual

/-- **A text is cut into the tokens of its node**, with what delimits it. -/
theorem kinds_text : (n : Node) → n.IsWritable → ∀ {rest : List Char}, Delimited rest →
    kinds (n.text.toList ++ rest) = n.display ++ kinds rest
  | .simpleString s, h, rest, hrest => by
    have hwritten := kinds_written hrest (k := .string s) trivial rfl
    rw [Kind.written, betweenQuotes_of_isPlain h] at hwritten
    simpa [text, display] using hwritten
  | .interpolatedString s, h, rest, hrest => by
    have hwritten := kinds_written hrest (k := .interpolated s) trivial rfl
    rw [Kind.written, betweenQuotes_of_isPlain h] at hwritten
    simpa [text, display] using hwritten
  | .int n, _, rest, hrest => kinds_written hrest (k := .int n) trivial rfl
  | .boolean b, _, rest, hrest => by
    cases b with
    | true => exact kinds_written hrest (k := .keyword .trueKw) trivial rfl
    | false => exact kinds_written hrest (k := .keyword .falseKw) trivial rfl
  | .fileName, _, rest, hrest => kinds_written hrest (k := .keyword .fileKw) trivial rfl
  | .globalVariable name, h, rest, hrest => kinds_written hrest (k := .global name) h rfl
  | .symbol name, h, rest, hrest => kinds_written hrest (k := .symbol name) h rfl
  | .bareReference name, h, rest, hrest => IsMethodName.kinds_append (.inl h) hrest
  | .call none func args, h, rest, _ =>
    kinds_invocation (.inl h.1) (kinds_argumentsText args h.2) rest
  | .call (some target) func args, h, rest, _ => by
    have hcall := kinds_invocation h.2.1 (kinds_argumentsText args h.2.2) rest
    obtain ⟨c, u, hfunc, hc⟩ := h.2.1.exists_cons
    have hdot : Delimited ('.' :: ((func ++ "(" ++ argumentsText args ++ ")").toList ++ rest)) := by
      simp only [String.toList_append, hfunc, List.cons_append]
      exact .dot hc _
    have htarget := kinds_text target h.1.1 hdot
    rw [kinds_mark (c := '.') rfl, hcall] at htarget
    simpa [text, display] using htarget
  | .assignment lhs rhs, h, rest, hrest => by
    have hrhs := kinds_text rhs h.2 hrest
    have hlhs := kinds_text lhs h.1.2
      (.cons (c := ' ') rfl (by decide) ('=' :: ' ' :: (rhs.text.toList ++ rest)))
    rw [kinds_blank rfl, kinds_mark (c := '=') rfl, kinds_blank rfl, hrhs] at hlhs
    simpa [text, display] using hlhs
  | .float _, h, _, _ | .funcDecl .., h, _, _ | .ifBlock .., h, _, _ | .beginBlock .., h, _, _
  | .classDecl .., h, _, _ | .returnValue _, h, _, _ => h.elim

/-- So are the arguments of a call, up to the closing parenthesis. -/
theorem kinds_argumentsText : (ns : List Node) → AllWritable ns → ∀ rest : List Char,
    kinds ((argumentsText ns).toList ++ ')' :: rest) = argumentsDisplay ns ++ kinds (')' :: rest)
  | [], _, _ => rfl
  | [n], h, rest => kinds_text n h.1 (.cons rfl (by decide) rest)
  | n :: m :: ns, h, rest => by
    have hrest := kinds_argumentsText (m :: ns) h.2 rest
    have hn := kinds_text n h.1
      (.cons (c := ',') rfl (by decide) (' ' :: ((argumentsText (m :: ns)).toList ++ ')' :: rest)))
    rw [kinds_mark (c := ',') rfl, kinds_blank rfl, hrest] at hn
    simpa [argumentsText, argumentsDisplay] using hn

end

end Node

end Garnet
