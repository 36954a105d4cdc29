import Garnet.Proofs.Canonical
import Garnet.Proofs.Completing
import Garnet.Proofs.Layout

/-!
# Sources that are one expression

How a source is read depends on the kinds of its tokens alone, not on where
they stand in it (`parse_of_kinds`). So what is known of readers in front of
other tokens can be said of sources: a source whose tokens are read as an
expression in front of its end is a program of that one expression
(`parse_of_expression`), and a source that is taken as one token is the literal
that the token stands for (`parse_of_literal`).
-/

namespace Garnet

open Garnet.Parser Token

namespace Reads

variable {expr : Parser Node} {n : Node} {ks : List Kind}

/-- **A statement that nothing follows.** -/
theorem statements_single (h : Reads expr (· == .eof) ks n)
    (hstart : ∃ k ls, ks = k :: ls ∧ startsStatement k = true) (context : SyntaxContext) :
    Reads (statements expr context) (· == .eof) ks [n] := by
  obtain ⟨k, ls, rfl, hk⟩ := hstart
  obtain ⟨hcloses, hterminator⟩ := Bool.and_eq_true_iff.mp hk
  refine skipTerminators_none.stay (room fun m hm => ?_) hterminator
  -- there is room for the statement, and for seeing that no other one follows
  match m, hm with
  | m + 2, _ =>
    refine get_cons fun c hc => ?_
    have hopen : c.closesStatements = false := by
      simpa [closesStatements, Cursor.closesStatements, hc] using hcloses
    rw [hopen]
    refine h.last (b := [n]) ?_ fun _ hk => hk
    have hend : ∀ c : Cursor, (c.kind == .eof) = true → c.closesStatements = true := fun c hc => by
      rw [Cursor.closesStatements, eq_of_beq hc]
    have hseparator : Reads (Parser.separator context) (· == .eof) [] () := by
      refine get_nil fun c hc => ?_
      rw [hend c hc, eq_of_beq hc]
      exact pure ()
    refine hseparator.last ?_ fun _ hk => hk
    refine Reads.map (a := ([] : List Node)) (get_nil fun c hc => ?_) (n :: ·)
    rw [hend c hc]
    exact pure []

/-- **A program of one expression.** -/
theorem program_single {d : Nat} (h : Reads (expression d) (· == .eof) ks n)
    (hstart : ∃ k ls, ks = k :: ls ∧ startsStatement k = true) :
    Reads (Parser.program d) (· == .eof) ks [n] := by
  refine (statements_single h hstart .program).last (get_nil fun c hc => ?_) fun _ hk => hk
  have hend : c.atEnd = true := by
    show c.kind.alike .eof = true
    rw [eq_of_beq hc]
    rfl
  rw [hend]
  exact pure [n]

end Reads

variable {source : String} {ks : List Kind}

/-- **A source is read by the kinds of its tokens.** -/
theorem parse_of_kinds {nodes : List Node} (hkinds : kinds source.toList = ks ++ [.eof])
    (h : ∀ d, ks.length < d → Reads (Parser.program d) (· == .eof) ks nodes) :
    parse source = .ok nodes := by
  have hstart : (Cursor.start (stream source)).kinds = ks ++ [.eof] :=
    (congrArg (List.map Token.kind) (Cursor.tokens_start (isStream_stream source).ne_nil)).trans
      hkinds
  have hat : (Cursor.atKinds (ks ++ [.eof])).kinds = ks ++ [.eof] := by
    rw [Cursor.kinds, Cursor.tokens_atKinds_append, List.map_append, map_kind_ofKind]
    rfl
  have hlength : (stream source).length = ks.length + 1 := by
    have := congrArg List.length hkinds
    simpa [kinds, stream] using this
  have hsides : SidesOf false (Cursor.atKinds (ks ++ [.eof])) (Cursor.start (stream source)) :=
    ⟨by rw [hat, hstart]; exact .refl ks, fun hs => by cases hs⟩
  have hroom : (Cursor.atKinds (ks ++ [.eof])).room ≤ (stream source).length + 1 := by
    rw [Cursor.room_eq_length_kinds, hat, hlength, List.length_append]
    exact Nat.le_succ _
  have hout := SameLayout.program (Nat.le_refl _) (Nat.le_refl _) _ _ hsides hroom
  rw [h _ (by omega) .eof [] rfl] at hout
  unfold parse
  rw [parseTokens_eq]
  generalize program _ (Cursor.start (stream source)) = x at hout ⊢
  cases hout
  rfl

/-- **A source whose tokens are those of an expression** is a program of that expression. -/
theorem parse_of_expression {n : Node} (hkinds : kinds source.toList = ks ++ [.eof])
    (hstart : ∃ k ls, ks = k :: ls ∧ startsStatement k = true)
    (h : ∀ d, ks.length < d → Reads (expression d) (· == .eof) ks n) :
    parse source = .ok [n] :=
  parse_of_kinds hkinds fun d hd => (h d hd).program_single hstart

/-- **A source that is taken as one token** is the literal that the token stands for. -/
theorem parse_of_literal {k : Kind} {n : Node} (hmunch : Munch source.toList [] (some k))
    (hstart : startsStatement k = true)
    (h : ∀ expr, Reads (primary expr) anyKind [k] n) : parse source = .ok [n] := by
  have hkinds := kinds_append hmunch
  rw [List.append_nil, kinds_nil] at hkinds
  refine parse_of_expression hkinds ⟨k, [], rfl, hstart⟩ fun d hd => ?_
  cases d with
  | zero => cases hd
  | succ d =>
    refine Reads.expressionWith_of_primary (h (expression d)) (fun _ _ => rfl) fun k hk => ?_
    rw [eq_of_beq hk]
    rfl

end Garnet
