import Garnet.Proofs.Concatenation
import Garnet.Proofs.Invariants
import Garnet.Proofs.Scopes
import Garnet.Proofs.Writing

/-!
# Joining sources

A line end joins two sources to a longer one. If the first one is a program, what
the longer one is depends on what the second one is by itself: its nodes, or its
error, come after what the first one is (`parse_newline_of_ok`,
`parse_newline_of_error`).

To run the longer source is then to run the two of them one after the other
(`run_newline`). Both run in a call of their own, whereas the longer source is run
in one; but a call is left as it was entered, and the receiver at the top level
stays the same, so the second program cannot tell the difference.
-/

namespace Garnet

open Garnet.Parser Token

/-! ## Parsing -/

section Sources

variable {s₁ s₂ : String} {nodes₁ nodes₂ : List Node}

/-- **The tokens of a source after a program.** -/
theorem stream_newline (h₁ : parse s₁ = .ok nodes₁) (s₂ : String) :
    stream (s₁ ++ "\n" ++ s₂) = (stream s₁).dropLast
      ++ ⟨.newline, Span.ofSource s₁.utf8ByteSize (s₁.utf8ByteSize + 1)⟩
        :: streamFrom (s₁.utf8ByteSize + 1) s₂.toList := by
  have htext : (s₁ ++ "\n" ++ s₂).toList = s₁.toList ++ '\n' :: s₂.toList := by simp
  have hne := not_error_of_parseTokens (isStream_stream s₁) h₁
  rw [stream, htext, streamFrom_newline 0 _ _ hne, Nat.zero_add, byteLength_toList]
  rfl

/-- **A program after a program**: the nodes of both. -/
theorem parse_newline_of_ok (h₁ : parse s₁ = .ok nodes₁) (h₂ : parse s₂ = .ok nodes₂) :
    parse (s₁ ++ "\n" ++ s₂) = .ok (nodes₁ ++ nodes₂) := by
  -- nodes depend on the kinds of tokens, whatever their spans are
  let bare : Span → Span := fun _ => ⟨0, 0⟩
  have hbare (offset : Nat) (text : List Char) : (streamFrom offset text).map (Token.relocate bare)
      = (kinds text).map fun k => ⟨k, ⟨0, 0⟩⟩ := by
    rw [← map_kind_streamFrom offset, List.map_map]
    rfl
  have hfirst : parseTokens ((stream s₁).map (Token.relocate bare)) = .ok nodes₁ :=
    (parseTokens_relocate (isStream_stream s₁) bare).trans (congrArg _ h₁)
  have hboth : (stream (s₁ ++ "\n" ++ s₂)).map (Token.relocate bare)
      = ((stream s₁).map (Token.relocate bare)).dropLast
        ++ ⟨.newline, ⟨0, 0⟩⟩ :: (stream s₂).map (Token.relocate bare) := by
    rw [stream_newline h₁, List.map_append, List.map_cons, List.map_dropLast, hbare,
      stream, stream, hbare 0 s₂.toList]
    rfl
  have hread := parseTokens_relocate (isStream_stream (s₁ ++ "\n" ++ s₂)) bare
  rw [hboth, parseTokens_append ((isStream_stream s₁).relocate bare) (isStream_stream s₂) rfl
    hfirst] at hread
  change parseTokens (stream s₂) = .ok nodes₂ at h₂
  rw [h₂] at hread
  change Except.ok (nodes₁ ++ nodes₂) = (parse (s₁ ++ "\n" ++ s₂)).mapError _ at hread
  cases hparse : parse (s₁ ++ "\n" ++ s₂) with
  | ok nodes =>
    rw [hparse] at hread
    exact hread.symm
  | error e =>
    rw [hparse] at hread
    cases hread

/-- **What is no program after a program**: its error, as many bytes further on as
stand before it. -/
theorem parse_newline_of_error (h₁ : parse s₁ = .ok nodes₁) {e : SyntaxError}
    (h₂ : parse s₂ = .error e) (hsize : (s₁ ++ "\n" ++ s₂).utf8ByteSize ≤ Span.limit) :
    parse (s₁ ++ "\n" ++ s₂) = .error (e.relocate (Span.shift (s₁.utf8ByteSize + 1))) := by
  have hbytes : s₁.utf8ByteSize + 1 + byteLength s₂.toList ≤ Span.limit := by
    rw [String.utf8ByteSize_append, String.utf8ByteSize_append] at hsize
    rw [byteLength_toList]
    exact hsize
  have hmoved := streamFrom_add (s₁.utf8ByteSize + 1) 0 s₂.toList (by rwa [Nat.zero_add])
  rw [Nat.zero_add] at hmoved
  change _ = (stream s₂).map _ at hmoved
  rw [parse, stream_newline h₁, hmoved, parseTokens_append (isStream_stream s₁)
    (isStream_stream s₂) rfl h₁]
  change parseTokens (stream s₂) = .error e at h₂
  rw [h₂]
  rfl

end Sources

/-! ## Running -/

namespace Interpreter

section Nodes

variable (host : Host) (run : String → Eval Value) (self : Value)

/-- **Nodes after nodes**: their value is that of the latter, if there are any. -/
theorem evalAll_append (last : Value) (ns ms : List Node) :
    evalAll host run self last (ns ++ ms)
      = (evalAll host run self last ns >>= fun v => evalAll host run self v ms) := by
  induction ns generalizing last with
  | nil =>
    rw [List.nil_append, evalAll, pure_bind]
  | cons n ns ih =>
    rw [List.cons_append, evalAll, evalAll, bind_assoc]
    exact congrArg _ (funext fun v => ih v)

/-- The value before some nodes is theirs only if there are none. -/
theorem evalAll_last (last : Value) (ns : List Node) :
    evalAll host run self last ns
      = (evalAll host run self .nil ns >>= fun v => pure (if ns.isEmpty then last else v)) := by
  cases ns with
  | nil => rfl
  | cons n ns => exact (bind_pure _).symm

end Nodes

/-- **What a program does** is what its nodes do in a call of their own. -/
theorem run_of_parse (host : Host) (depth : Nat) {source : String} {nodes : List Node}
    (h : parse source = .ok nodes) (s : Interpreter) :
    run host (depth + 1) source s = Outcome.mapState (fun t => { t with stack := t.stack.pop })
      (evalAll host (run host depth) s.main .nil nodes
        { s with stack := s.stack.push "main" }) := by
  rw [run, Outcome.get_bind, h]
  exact Outcome.inFrame_eq _ _ s

/-- **A program that is run where a call of a program was left** does what its nodes
would do in that call. -/
theorem run_of_left (host : Host) (depth : Nat) {source : String} {nodes : List Node}
    (h : parse source = .ok nodes) {s t : Interpreter} (hstack : t.stack = s.stack.push "main")
    (hmain : t.main = s.main) :
    run host (depth + 1) source { t with stack := t.stack.pop }
      = Outcome.mapState (fun t => { t with stack := t.stack.pop })
        (evalAll host (run host depth) s.main .nil nodes t) := by
  have hback : { t with stack := t.stack.pop.push "main" } = t := by
    rw [hstack, CallStack.pop_push, ← hstack]
  rw [run_of_parse host depth h, ← hmain]
  dsimp only
  rw [hback]

/-- **A program after a program** does what both do one after the other, and comes
to the value of the second one, unless that one is empty. -/
theorem run_newline (host : Host) (depth : Nat) {s₁ s₂ : String} {nodes₁ nodes₂ : List Node}
    (h₁ : parse s₁ = .ok nodes₁) (h₂ : parse s₂ = .ok nodes₂) (s : Interpreter) :
    run host depth (s₁ ++ "\n" ++ s₂) s = (do
      let v ← run host depth s₁
      let w ← run host depth s₂
      return if nodes₂.isEmpty then v else w : Eval Value) s := by
  cases depth with
  | zero => rfl
  | succ depth =>
    rw [run_of_parse host depth (parse_newline_of_ok h₁ h₂), evalAll_append]
    have hrun := run_of_parse host depth h₁ s
    have hscopes := keepsScopes_evalAll host depth s.main .nil nodes₁
      { s with stack := s.stack.push "main" }
    have hmain := ((Invariant.of_fixed fun _ m => m = s.main).composes.request host (depth + 1)
      (.run s₁) (s := s) rfl).1
    change (Outcome.state (run host (depth + 1) s₁ s)).main = s.main at hmain
    cases hnodes : evalAll host (run host depth) s.main .nil nodes₁
        { s with stack := s.stack.push "main" } with
    | error e t =>
      rw [hnodes] at hrun
      rw [Outcome.bind_of_error hnodes, Outcome.bind_of_error hrun]
      rfl
    | ok v t =>
      rw [hnodes] at hrun hscopes
      rw [hrun] at hmain
      rw [Outcome.bind_of_ok hnodes, Outcome.bind_of_ok hrun]
      have hsecond := run_of_left host depth h₂ (s := s) (t := t) hscopes.stack hmain
      rw [evalAll_last]
      cases hlast : evalAll host (run host depth) s.main .nil nodes₂ t with
      | ok w u =>
        rw [hlast] at hsecond
        rw [Outcome.bind_of_ok hlast, Outcome.bind_of_ok hsecond]
        rfl
      | error e u =>
        rw [hlast] at hsecond
        rw [Outcome.bind_of_error hlast, Outcome.bind_of_error hsecond]
        rfl

end Interpreter

open Interpreter

/-- **A line end between two sources** joins them and nothing else. What follows a
program after a line end

* is read as it is by itself: if it is a program, its nodes follow those of the
  first one, and if it is none, its error is the error of the whole, as many bytes
  further on as stand before it;
* is run as it is by itself: the two programs joined do to every interpreter what
  the first one does, and then, if that comes to a value, the second one. They
  come to the value of the second one, unless there is nothing in it to have a
  value: then it is that of the first one. -/
theorem newline_joins_sources {s₁ : String} {nodes₁ : List Node} (h₁ : parse s₁ = .ok nodes₁)
    (s₂ : String) :
    (∀ nodes₂, parse s₂ = .ok nodes₂ →
      parse (s₁ ++ "\n" ++ s₂) = .ok (nodes₁ ++ nodes₂) ∧
      ∀ (host : Host) (depth : Nat) (s : Interpreter),
        run host depth (s₁ ++ "\n" ++ s₂) s = (do
          let v ← run host depth s₁
          let w ← run host depth s₂
          return if nodes₂.isEmpty then v else w : Eval Value) s) ∧
    ∀ e, parse s₂ = .error e → (s₁ ++ "\n" ++ s₂).utf8ByteSize ≤ Span.limit →
      parse (s₁ ++ "\n" ++ s₂) = .error (e.relocate (Span.shift (s₁.utf8ByteSize + 1))) :=
  ⟨fun _ h₂ => ⟨parse_newline_of_ok h₁ h₂, fun host depth s => run_newline host depth h₁ h₂ s⟩,
    fun _ h₂ hsize => parse_newline_of_error h₁ h₂ hsize⟩

/-- A comment ends with its line: what follows is a program of its own, or is
none. -/
theorem line_after_comment_is_joined :
    parse ("x = 'é' # one" ++ "\n" ++ "puts x")
        = .ok [.assignment (.bareReference "x") (.simpleString "é"),
          .call none "puts" [.bareReference "x"]] ∧
      (∀ (host : Host) (depth : Nat) (s : Interpreter),
        run host depth ("x = 'é' # one" ++ "\n" ++ "puts x") s = (do
          let _ ← run host depth "x = 'é' # one"
          run host depth "puts x" : Eval Value) s) ∧
      parse ("x = 'é' # one" ++ "\n" ++ "\nif")
        = .error (.unexpectedToken .eof "an expression" .expression ⟨18, 18⟩) := by
  have h₁ : parse "x = 'é' # one" = .ok [.assignment (.bareReference "x") (.simpleString "é")] := by
    with_unfolding_all rfl
  have h₂ : parse "puts x" = .ok [.call none "puts" [.bareReference "x"]] := by
    with_unfolding_all rfl
  have he : parse "\nif" = .error (.unexpectedToken .eof "an expression" .expression ⟨3, 3⟩) := by
    with_unfolding_all rfl
  obtain ⟨hparse, hrun⟩ := (newline_joins_sources h₁ "puts x").1 _ h₂
  have herror := (newline_joins_sources h₁ "\nif").2 _ he (by decide +kernel)
  refine ⟨hparse, fun host depth s => (hrun host depth s).trans ?_, herror.trans ?_⟩
  · exact congrFun (congrArg _ (funext fun v => bind_pure _)) s
  · with_unfolding_all rfl

/-- **A source without statements does have a value of its own**, which joining it
to a program loses. -/
theorem empty_source_is_not_joined :
    ¬ ∀ (s₁ s₂ : String) (nodes₁ nodes₂ : List Node), parse s₁ = .ok nodes₁ →
      parse s₂ = .ok nodes₂ → ∀ (host : Host) (depth : Nat) (s : Interpreter),
        run host depth (s₁ ++ "\n" ++ s₂) s = (do
          let _ ← run host depth s₁
          run host depth s₂ : Eval Value) s := by
  intro h
  have h₁ : parse "1" = .ok [.int 1] := by with_unfolding_all rfl
  have h₂ : parse "" = .ok [] := by with_unfolding_all rfl
  let host : Host := ⟨FileSystem.empty [], none, 1⟩
  have heq := h "1" "" _ _ h₁ h₂ host 1 (start "-" [] [])
  have hfirst := run_of_parse host 0 h₁ (start "-" [] [])
  rw [run_of_parse host 0 (parse_newline_of_ok h₁ h₂), Outcome.bind_of_ok hfirst,
    run_of_parse host 0 h₂] at heq
  have hvalue : Value.int 1 = .nil := (EStateM.Result.ok.inj heq).1
  cases hvalue

end Garnet
