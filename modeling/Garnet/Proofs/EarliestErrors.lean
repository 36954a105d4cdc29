import Garnet.Proofs.Blame
import Garnet.Proofs.Completions

/-!
# Errors are found at the earliest token

The parser finds a wrong token as soon as it comes to it. The tokens in front of
that token are the beginning of a program (`exists_continuation`), and with that
token they are the beginning of none, whatever follows (`not_ok_of_wrong`).

The first is what `Completable.program` says of the tokens that were read. The
second holds because readers look at the current token only, so that nothing
after it can make a difference.
-/

namespace Garnet

open Garnet.Parser Token

section Wrong

variable {tokens before : List Token} {e : SyntaxError} {d : Cursor}

/-- **What is in front of a wrong token can be continued**: some tokens follow it in
a program. -/
theorem exists_continuation (h : IsStream tokens) (habout : e.IsAboutToken)
    (herror : programOf tokens = .error (.wrong e) d) (hd : tokens = before ++ d.tokens) :
    ∃ (more : List Token) (nodes : List Node), IsStream (before ++ more) ∧
      parseTokens (before ++ more) = .ok nodes := by
  have hreach : Reaches (program (tokens.length + 1)) (before.map Token.kind) := by
    refine ⟨Cursor.start tokens, d, before, (Cursor.tokens_start h.ne_nil).trans hd, rfl, ?_⟩
    change StopsAt d (programOf tokens)
    rw [herror]
    exact .wrong e habout
  have hlength : (before.map Token.kind).length < tokens.length + 1 := by
    rw [List.length_map, hd, List.length_append]
    omega
  obtain ⟨ks, nodes, _, hread⟩ := (Completable.program (tokens.length + 1)).complete hlength hreach
  -- the program that was found has the same kinds of token, but other spans
  let init := before ++ ks.map ofKind
  have hkinds : init.map Token.kind = before.map Token.kind ++ ks := by
    rw [List.map_append, map_kind_ofKind]
  have hall : (before.map Token.kind ++ ks).length = init.length := by
    rw [← hkinds, List.length_map]
  have hok := hread (init.length + 2) (by omega) .eof [.eof] rfl
  have hstart : (Cursor.start (init ++ [ofKind .eof])).tokens = init ++ ofKind .eof :: [] :=
    Cursor.tokens_start_append init _ _
  obtain ⟨_, heof, f, hf, _⟩ := (Alike.program (Nat.le_succ _) (Nat.le_succ _)).ok_upTo hok
    (Cursor.tokens_atKinds .eof [.eof]) (Cursor.tokens_atKinds_append _ .eof [.eof])
    (List.cons_ne_nil (ofKind .eof) []) hstart
    (hkinds.trans (map_kind_ofKind _).symm) rfl (by rw [List.length_map]; omega)
  refine ⟨ks.map ofKind ++ [ofKind .eof], nodes, ?_⟩
  rw [← List.append_assoc]
  refine ⟨⟨init, ofKind .eof, rfl, rfl, fun t ht => ?_⟩, ?_⟩
  · have hkind : t.kind ∈ before.map Token.kind ++ ks := hkinds ▸ List.mem_map_of_mem ht
    exact heof (ofKind t.kind) (List.mem_map_of_mem hkind)
  · rw [parseTokens_eq, List.length_append, List.length_singleton]
    exact congrArg answer hf

/-- **What ends with a wrong token cannot be continued**: no program starts with it. -/
theorem not_ok_of_wrong (h : IsStream tokens) (herror : programOf tokens = .error (.wrong e) d)
    (hd : tokens = before ++ d.tokens) (rest : List Token) (nodes : List Node) :
    parseTokens (before ++ d.current :: rest) ≠ .ok nodes := by
  intro hok
  -- nothing is gained if more follows, but then the wrong token is not the last one
  obtain ⟨_, _, _, _, hd', _⟩ | ⟨e', _, c, d', hc, hd', _, hplace⟩ :=
    programOf_append h (List.cons_ne_nil (ofKind .eof) [])
  · rw [herror] at hd'
    cases hd'
  · rw [herror] at hd'
    cases hd'
    have hstart : (Cursor.start (tokens ++ [ofKind .eof])).tokens
        = before ++ d.current :: (d.ahead ++ [ofKind .eof]) := by
      rw [Cursor.tokens_start (List.append_ne_nil_of_left_ne_nil h.ne_nil _), hd, List.append_assoc]
      rfl
    have hlength : before.length < (tokens ++ [ofKind .eof]).length + 1 := by
      rw [hd, List.append_assoc, List.length_append]
      omega
    have hlength' : before.length < (before ++ d.current :: rest).length + 1 := by
      rw [List.length_append]
      omega
    obtain ⟨y, f, hf, _⟩ := (Alike.program hlength hlength').wrong_upTo hc hplace hstart
      (List.append_ne_nil_of_right_ne_nil d.ahead (List.cons_ne_nil _ _))
      (Cursor.tokens_start_append before d.current rest) rfl rfl (Nat.lt_succ_self before.length)
    rw [parseTokens_eq, hf] at hok
    cases hok

end Wrong

/-- **An error is found at the earliest token.** Where the parser fails because of a
token, it stops at that token. The tokens before it are the beginning of a
program, and with it they are the beginning of none. -/
theorem error_is_at_the_earliest_token {tokens : List Token} (h : IsStream tokens)
    {e : SyntaxError} (herror : parseTokens tokens = .error e) (habout : e.IsAboutToken) :
    ∃ (before after : List Token) (t : Token), tokens = before ++ t :: after ∧
      (Outcome.state (programOf tokens)).tokens = t :: after ∧ t.span = e.span ∧
      (∃ (more : List Token) (nodes : List Node), IsStream (before ++ more) ∧
        parseTokens (before ++ more) = .ok nodes) ∧
      ∀ (rest : List Token) (nodes : List Node), parseTokens (before ++ t :: rest) ≠ .ok nodes := by
  obtain ⟨d, hd⟩ := programOf_of_error h herror
  obtain ⟨before, hbefore⟩ := suffix_of_programOf h
  rw [hd] at hbefore ⊢
  change before ++ d.tokens = tokens at hbefore
  refine ⟨before, d.ahead, d.current, hbefore.symm, rfl, ?_,
    exists_continuation h habout hd hbefore.symm, not_ok_of_wrong h hd hbefore.symm⟩
  have hblames := (blames_of_programOf h hd).1
  cases e with
  | unexpectedToken => exact congrArg Token.span hblames.1
  | invalidToken => exact congrArg Token.span hblames
  | invalidTarget => cases habout

/-- The tokens of `f(;`. -/
def unclosedCall : List Token :=
  [⟨.ident "f", Span.point 0⟩, ⟨.mark .leftParen, Span.point 1⟩, ⟨.mark .semicolon, Span.point 2⟩,
    ⟨.eof, Span.point 3⟩]

/-- Arguments can follow the parenthesis, but nothing can follow the semicolon. -/
theorem unclosedCall_fails_at_semicolon :
    ∃ e, IsStream unclosedCall ∧ parseTokens unclosedCall = .error e ∧ e.IsAboutToken ∧
      ∀ rest nodes, parseTokens (unclosedCall.take 3 ++ rest) ≠ .ok nodes := by
  have hstream : IsStream unclosedCall := ⟨[_, _, _], _, rfl, rfl, by decide⟩
  have herror : parseTokens unclosedCall = .error (.unexpectedToken (.mark .semicolon)
    "an expression" .expression (Span.point 2)) := rfl
  obtain ⟨before, after, t, htokens, hstop, _, _, hnone⟩ :=
    error_is_at_the_earliest_token hstream herror trivial
  refine ⟨_, hstream, herror, trivial, fun rest nodes => ?_⟩
  obtain ⟨rfl, rfl⟩ := List.cons.inj hstop
  have hbefore : before = unclosedCall.take 2 := List.append_cancel_right htokens.symm
  rw [hbefore] at hnone
  exact hnone rest nodes

end Garnet
