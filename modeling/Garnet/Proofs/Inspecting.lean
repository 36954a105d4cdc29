import Garnet.Proofs.Bisimilarity
import Garnet.Proofs.Joining
import Garnet.Proofs.WholeSources

/-!
# Developer forms that can be evaluated

The developer form of a value is made for reading, but for `nil`, the booleans,
integers, symbols and strings it is a literal, too: evaluated, it comes to that
value again, or to a string with the same text (`inspect_evaluates_back`).

For a string this takes an argument. Its developer form was not made for the
lexer, which knows fewer escapes: what stands for a code point there is no
escape here. Every other character is shown as one item of a string literal,
which stands for that character (`quotedChar_of_isShown`). So the form as a
whole is a string literal, and its text is that of the string
(`quoted_mem_items`, `cookDouble_quoted`).
-/

namespace Garnet

open Computability Lexeme Token

/-! ## Quoted strings -/

namespace Text

/-- **Whether a character is shown without its code point**, as itself or by a
letter. -/
def IsShown (c : Char) : Prop :=
  (escapeLetter? c).isSome = true ∨ isPrintable c = true

/-- All visible characters of ASCII are shown, and so is the space. -/
theorem isShown_of_ascii {c : Char} (h : 0x20 ≤ c.toNat ∧ c.toNat < 0x7F) : IsShown c := by
  right
  simp [isPrintable, h]

/-- The letter for a character means that character to the lexer. -/
theorem escaped_of_escapeLetter? {c l : Char} (h : escapeLetter? c = some l) :
    l ≠ '\n' ∧ Literal.escaped l = c := by
  unfold escapeLetter? at h
  split at h <;> cases h <;> exact ⟨by decide, rfl⟩

/-- **A character that is shown** is an escape that means it, or itself. -/
theorem quotedChar_of_isShown {c : Char} (h : IsShown c) :
    (∃ l, quotedChar c = ['\\', l] ∧ l ≠ '\n' ∧ Literal.escaped l = c) ∨
      (quotedChar c = [c] ∧ c ≠ '\x22' ∧ c ≠ '\\') := by
  unfold quotedChar
  cases hletter : escapeLetter? c with
  | some l => exact .inl ⟨l, rfl, escaped_of_escapeLetter? hletter⟩
  | none =>
    have hprintable : isPrintable c = true := h.resolve_left (by rw [hletter]; decide)
    refine .inr ⟨if_pos hprintable, ?_, ?_⟩ <;> rintro rfl <;> cases hletter

variable {s : List Char}

/-- What is shown of a string can stand between the quotes of a literal. -/
theorem quoted_mem_items (h : ∀ c ∈ s, IsShown c) : s.flatMap quotedChar ∈ (Rule.item '\x22')∗ := by
  induction s with
  | nil => exact Language.nil_mem_kstar _
  | cons c s ih =>
    obtain ⟨hc, hs⟩ := List.forall_mem_cons.mp h
    rw [List.flatMap_cons]
    obtain ⟨l, heq, hl, _⟩ | ⟨heq, hquote, hbackslash⟩ := quotedChar_of_isShown hc
    · rw [heq]
      exact Rule.escape_mem_items hl (ih hs)
    · rw [heq]
      exact Rule.char_mem_items hquote hbackslash (ih hs)

/-- **What is shown of a string** means that string. -/
theorem cookDouble_quoted (h : ∀ c ∈ s, IsShown c) :
    Literal.cookDouble (s.flatMap quotedChar) = s := by
  induction s with
  | nil => rfl
  | cons c s ih =>
    obtain ⟨hc, hs⟩ := List.forall_mem_cons.mp h
    rw [List.flatMap_cons]
    obtain ⟨l, heq, _, hmeans⟩ | ⟨heq, _, hbackslash⟩ := quotedChar_of_isShown hc
    · rw [heq, List.cons_append, List.singleton_append, Literal.cookDouble, hmeans, ih hs]
    · rw [heq, List.singleton_append, cookDouble_cons hbackslash, ih hs]

/-- **A quoted string is a string literal** that stands for the string. -/
theorem munch_quoted {text : String} (h : ∀ c ∈ text.toList, IsShown c) :
    Munch (quoted text).toList [] (some (.interpolated text)) := by
  have htext : (quoted text).toList = '\x22' :: (text.toList.flatMap quotedChar ++ ['\x22']) :=
    String.toList_ofList
  obtain ⟨hmem, hbody⟩ := quoted_of_items (quoted_mem_items h)
  rw [← htext] at hmem hbody
  have hmakes := Rule.Makes.doubleQuoted (w := (quoted text).toList)
  rw [hbody, cookDouble_quoted h, String.ofList_toList] at hmakes
  have hlongest : Longest Rule.matched (quoted text).toList [] :=
    longest_of_space (r := .doubleQuoted) hmem (by simp) (Or.inl rfl)
  exact .matched hlongest (r := .doubleQuoted) ⟨hmem, by simp⟩ hmakes

end Text

/-! ## Values that have literals -/

namespace Value

/-- **Whether a value has a literal** in an interpreter: it is `nil`, a boolean,
an integer, one of the symbols of the interpreter with a name that a symbol can
be written with, or a string of characters that are shown. -/
def HasLiteral (s : Interpreter) : Value → Prop
  | nil | true | false | int _ => True
  | string _ text => ∀ c ∈ text.toList, Text.IsShown c
  | symbol id name =>
    s.symbols.find? name = some id ∧ name.toList ∈ oneOf isNameStart * Rule.markedRest
  | _ => False

/-- The literal of a value. -/
def literal : Value → Node
  | true => .boolean Bool.true
  | false => .boolean Bool.false
  | int n => .int n
  | string _ text => .interpolatedString text
  | symbol _ name => .symbol name
  | _ => .bareReference "nil"

/-- **A copy of a value**: the value itself, or another string with its text. -/
inductive IsCopy : Value → Value → Prop
  /-- The value itself. -/
  | same (v : Value) : IsCopy v v
  /-- A string with the same text. -/
  | string (i j : Nat) (text : String) : IsCopy (.string i text) (.string j text)

end Value

open Interpreter

variable {s : Interpreter} {v : Value}

namespace Value.HasLiteral

/-- An array has no literal. -/
theorem ne_array (h : v.HasLiteral s) (r : ArrayRef) : v ≠ .array r := by
  rintro rfl
  exact h

theorem inspect_eq (h : v.HasLiteral s) : s.inspect v = v.scalarInspect s.heap := by
  rw [Interpreter.inspect, Heap.inspect, Heap.inspectIn]
  exact h.ne_array

/-- **The developer form of a value is read as its literal.** -/
theorem parse_inspect (h : v.HasLiteral s) : parse (s.inspect v) = .ok [v.literal] := by
  rw [h.inspect_eq]
  cases v with
  | nil =>
    show parse "nil" = .ok [.bareReference "nil"]
    with_unfolding_all rfl
  | true =>
    show parse "true" = .ok [.boolean Bool.true]
    with_unfolding_all rfl
  | false =>
    show parse "false" = .ok [.boolean Bool.false]
    with_unfolding_all rfl
  | int n =>
    have hmunch : Munch (toString n).toList [] (some (.int n)) :=
      Kind.munch_written (k := .int n) trivial [] (Or.inl rfl)
    exact parse_of_literal hmunch rfl fun expr => Reads.kind_cons (Reads.literal (.int n) _)
  | string id text =>
    exact parse_of_literal (Text.munch_quoted h) rfl fun expr =>
      Reads.kind_cons (Reads.literal (.interpolated text) _)
  | symbol id name =>
    have hmunch : Munch (":" ++ name).toList [] (some (.symbol name)) :=
      Kind.munch_written (k := .symbol name) h.2 [] (Or.inl rfl)
    exact parse_of_literal hmunch rfl fun expr => Reads.kind_cons (Reads.literal (.symbol name) _)
  | _ => exact h.elim

/-- **The literal of a value** has that value, or makes a new string with its text. -/
theorem evalNode_literal (h : v.HasLiteral s) (host : Host) (run : String → Eval Value)
    (self : Value) : ∃ w n, evalNode host run self v.literal s
        = .ok w { s with heap := { s.heap with nextId := n } } ∧ w.IsCopy v := by
  cases v with
  | nil | true | false | int => exact ⟨_, s.heap.nextId, rfl, .same _⟩
  | string id text => exact ⟨_, _, rfl, .string _ _ _⟩
  | symbol id name =>
    refine ⟨_, s.heap.nextId, ?_, .same _⟩
    show intern name s = _
    rw [intern, h.1]
  | _ => exact h.elim

/-- A copy of a value is equal to it. -/
theorem equals_copy {w : Value} (h : v.HasLiteral s) (hw : w.IsCopy v) (heap : Heap) :
    heap.equals w v = Bool.true := by
  rw [Heap.equals, Heap.equalsGiven_scalar [] fun _ r _ hr => h.ne_array r hr]
  cases hw with
  | string => exact beq_self_eq_true _
  | same =>
    cases v with
    | string => exact beq_self_eq_true _
    | int | symbol => exact beq_self_eq_true _
    | nil | true | false => rfl
    | _ => exact h.elim

end Value.HasLiteral

/-- **The developer form of a value evaluates back to it**, where it is `nil`, a
boolean, an integer, a symbol that can be written, or a string all of whose
characters are shown: it comes to that value, or to a new string with the same
text, either of them equal to it. Nothing else happens: of the interpreter,
only the number for new strings changes. -/
theorem inspect_evaluates_back (host : Host) (depth : Nat) (s : Interpreter) (v : Value)
    (h : v.HasLiteral s) :
    ∃ w t, run host (depth + 1) (s.inspect v) s = .ok w t ∧
      w.IsCopy v ∧ t.heap.equals w v = true ∧
      ∃ n, t = { s with heap := { s.heap with nextId := n } } := by
  -- inside the call of the program, the same values have literals
  have hinside : v.HasLiteral { s with stack := s.stack.push "main" } := by
    cases v <;> exact h
  obtain ⟨w, n, heval, hcopy⟩ := hinside.evalNode_literal host (run host depth) s.main
  have hrun := run_of_parse host depth h.parse_inspect s
  rw [evalAll, Outcome.bind_of_ok heval] at hrun
  exact ⟨w, _, hrun, hcopy, h.equals_copy hcopy _, n, rfl⟩

/-- A text of a quote, backslashes and controls, with a digit after a NUL. -/
def escapedText : String :=
  String.ofList ['\x22', '\\', '\\', 'n', '\n', '\t', '\r', '\x00', '0', '\x27']

/-- The developer form of that text is a program. -/
theorem escapes_evaluate_back :
    Value.HasLiteral (start "-" [] []) (.string 0 escapedText) ∧
      ∃ w t, run ⟨FileSystem.empty [], none, 1⟩ 1
          "\x22\\\x22\\\\\\\\n\\n\\t\\r\\00'\x22" (start "-" [] []) = .ok w t ∧
        w.IsCopy (.string 0 escapedText) ∧ t.heap.equals w (.string 0 escapedText) = true ∧
        ∃ n, t = { start "-" [] [] with heap := { (start "-" [] []).heap with nextId := n } } := by
  have h : Value.HasLiteral (start "-" [] []) (.string 0 escapedText) := by
    have hchars : ∀ c ∈ escapedText.toList,
        (Text.escapeLetter? c).isSome = true ∨ (0x20 ≤ c.toNat ∧ c.toNat < 0x7F) := by
      simp [escapedText, Text.escapeLetter?]
    exact fun c hc => (hchars c hc).elim .inl Text.isShown_of_ascii
  have hinspect : (start "-" [] []).inspect (.string 0 escapedText)
      = "\x22\\\x22\\\\\\\\n\\n\\t\\r\\00'\x22" := by
    rw [h.inspect_eq]
    decide +kernel
  have hback := inspect_evaluates_back ⟨FileSystem.empty [], none, 1⟩ 0 (start "-" [] []) _ h
  rw [hinspect] at hback
  exact ⟨h, hback⟩

end Garnet
