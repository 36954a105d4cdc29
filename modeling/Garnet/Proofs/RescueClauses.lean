import Garnet.Interpreter.Start
import Garnet.Proofs.Scopes

/-!
# The clauses that are evaluated

If the body of a `begin` block fails, the `rescue` clauses for its error are
evaluated in turn, until one of them does not fail. What a clause is compared
with is the error of the body, also after a clause that was for it has failed
with another one.

An **attempt** is a clause that was evaluated, with the interpreter where that
began. Which clauses are evaluated is a matter of one **start** for each clause:
the interpreter in which its body was evaluated, or none (`attempts`). The rule
is said of each clause by its place (`Chooses`), what becomes of the interpreter
by the order of the attempts (`Follow`), and how the block ends by the last of
them (`outcomeAfter`).
-/

namespace Garnet

open Interpreter

/-- **A clause that was evaluated.** -/
structure Attempt where
  /-- The clause. -/
  clause : RescueClause
  /-- The interpreter in which its body was evaluated. -/
  before : Interpreter

/-- **The clauses that were evaluated**, in their order, given for each clause
where its body was evaluated, if it was. -/
def attempts : List RescueClause → List (Option Interpreter) → List Attempt
  | c :: clauses, some s :: starts => ⟨c, s⟩ :: attempts clauses starts
  | _ :: clauses, none :: starts => attempts clauses starts
  | _, _ => []

/-- Where no clause has a start, there is no attempt. -/
theorem attempts_replicate_none (clauses : List RescueClause) (n : Nat) :
    attempts clauses (List.replicate n none) = [] := by
  induction clauses generalizing n with
  | nil =>
    cases n with
    | zero => rfl
    | succ n => rfl
  | cons c clauses ih =>
    cases n with
    | zero => rfl
    | succ n => exact ih n

section Clauses

variable (host : Host) (depth : Nat) (receiver : Value)

namespace Attempt

/-- How the body of the clause ended. -/
def outcome (a : Attempt) : EStateM.Result Halt Interpreter Value :=
  evalAll host (run host depth) receiver .nil a.clause.body a.before

/-- What took place in the body of the clause. -/
def journal (a : Attempt) : List Episode :=
  (Watched.evalAll host (Watched.run host depth) receiver .nil a.clause.body).journal a.before

/-- Whether the body of the clause failed with an error. -/
def Fails (a : Attempt) : Prop :=
  ∃ e t, a.outcome host depth receiver = .error (.raised e) t

end Attempt

/-- **The rule by which clauses are evaluated**: a clause has a start exactly if it
is for the error that was raised, and every clause before it that is for this error
has a start and fails there. -/
def Chooses (raised : String) (clauses : List RescueClause) (starts : List (Option Interpreter)) :
    Prop :=
  ∀ (i : Nat) (c : RescueClause), clauses[i]? = some c →
    ((∃ s, starts[i]? = some (some s)) ↔ c.className = raised ∧
      ∀ j < i, ∀ d : RescueClause, clauses[j]? = some d → d.className = raised →
        ∃ s, starts[j]? = some (some s) ∧ (Attempt.mk d s).Fails host depth receiver)

/-- **Attempts one after the other**, from an interpreter on: each one begins where
the one before it ended. -/
def Follow (s : Interpreter) : List Attempt → Prop
  | [] => True
  | a :: as => a.before = s ∧ Follow (Outcome.state (a.outcome host depth receiver)) as

/-- **The outcome after some attempts**: that of the last one, and the error that
there was before if there is none. -/
def outcomeAfter (e : Error) (s : Interpreter) (as : List Attempt) :
    EStateM.Result Halt Interpreter Value :=
  (as.getLast?.map (Attempt.outcome host depth receiver)).getD (.error (.raised e) s)

variable {host depth receiver} {raised : String} {c : RescueClause} {clauses : List RescueClause}
  {starts : List (Option Interpreter)}

/-! ## One clause more -/

/-- **A clause that is evaluated next or passed by**: if it is for another error, or
if it fails, the clauses after it are chosen as they are without it. -/
theorem Chooses.cons {start : Option Interpreter}
    (hstart : (∃ s, start = some s) ↔ c.className = raised)
    (hpassed : ∀ s, start = some s → (Attempt.mk c s).Fails host depth receiver)
    (h : Chooses host depth receiver raised clauses starts) :
    Chooses host depth receiver raised (c :: clauses) (start :: starts) := by
  intro i d hd
  cases i with
  | zero =>
    cases hd
    refine Iff.trans ?_ (hstart.trans (and_iff_left fun j hj => absurd hj (Nat.not_lt_zero j)).symm)
    exact exists_congr fun s => Option.some_inj
  | succ i =>
    refine (h i d hd).trans (and_congr_right fun _ => ⟨fun hbefore j hj b hb hclass => ?_,
      fun hbefore j hj => hbefore (j + 1) (Nat.succ_lt_succ hj)⟩)
    cases j with
    | zero =>
      cases hb
      obtain ⟨s, rfl⟩ := hstart.mpr hclass
      exact ⟨s, rfl, hpassed s rfl⟩
    | succ j => exact hbefore j (Nat.lt_of_succ_lt_succ hj) b hb hclass

/-- **A clause that does not fail** is the last one that is evaluated. -/
theorem Chooses.last {s : Interpreter} (hclass : c.className = raised)
    (hfails : ¬(Attempt.mk c s).Fails host depth receiver) (clauses : List RescueClause) :
    Chooses host depth receiver raised (c :: clauses)
      (some s :: List.replicate clauses.length none) := by
  intro i d hd
  cases i with
  | zero =>
    cases hd
    exact iff_of_true ⟨s, rfl⟩ ⟨hclass, fun j hj => absurd hj (Nat.not_lt_zero j)⟩
  | succ i =>
    refine iff_of_false ?_ fun ⟨_, hbefore⟩ => ?_
    · rintro ⟨t, ht⟩
      rw [List.getElem?_cons_succ, List.getElem?_replicate] at ht
      split at ht
      · cases ht
      · cases ht
    · obtain ⟨t, ht, hfailed⟩ := hbefore 0 (Nat.succ_pos i) c rfl hclass
      cases ht
      exact hfails hfailed

/-- The outcome is that of later attempts, if there are any. -/
theorem outcomeAfter_cons {a : Attempt} {e e' : Error} {s t : Interpreter}
    (ha : a.outcome host depth receiver = .error (.raised e') t) (as : List Attempt) :
    outcomeAfter host depth receiver e s (a :: as) = outcomeAfter host depth receiver e' t as := by
  unfold outcomeAfter
  rw [List.getLast?_cons, Option.map_some, Option.getD_some]
  cases as.getLast? with
  | none => exact ha
  | some b => rfl

/-! ## All clauses -/

/-- **What becomes of the clauses** for an error, evaluated from some interpreter
on. -/
structure Tried (host : Host) (depth : Nat) (receiver : Value) (raised : String)
    (clauses : List RescueClause) (e : Error) (s : Interpreter)
    (starts : List (Option Interpreter)) : Prop where
  /-- There is one start for each clause. -/
  length : starts.length = clauses.length
  /-- The clauses are evaluated by the rule. -/
  chooses : Chooses host depth receiver raised clauses starts
  /-- Each one begins where the one before it ended. -/
  follow : Follow host depth receiver s (attempts clauses starts)
  /-- One that does not fail is the last one. -/
  settles : ∀ a ∈ attempts clauses starts, ¬a.Fails host depth receiver →
    a.outcome host depth receiver = outcomeAfter host depth receiver e s (attempts clauses starts)

/-- A clause that is passed by, because it is for another error. -/
theorem Tried.skip {e : Error} {s : Interpreter} (hclass : c.className ≠ raised)
    (h : Tried host depth receiver raised clauses e s starts) :
    Tried host depth receiver raised (c :: clauses) e s (none :: starts) where
  length := congrArg (· + 1) h.length
  chooses := h.chooses.cons (iff_of_false (fun ⟨s, hs⟩ => Option.some_ne_none s hs.symm) hclass)
    fun s hs => absurd hs.symm (Option.some_ne_none s)
  follow := h.follow
  settles := h.settles

/-- A clause that fails, and what comes after it. -/
theorem Tried.fail {e e' : Error} {s t : Interpreter} (hclass : c.className = raised)
    (hc : (Attempt.mk c s).outcome host depth receiver = .error (.raised e') t)
    (h : Tried host depth receiver raised clauses e' t starts) :
    Tried host depth receiver raised (c :: clauses) e s (some s :: starts) where
  length := congrArg (· + 1) h.length
  chooses := by
    refine h.chooses.cons (iff_of_true ⟨s, rfl⟩ hclass) fun u hu => ?_
    cases hu
    exact ⟨e', t, hc⟩
  follow := ⟨rfl, by rw [hc]; exact h.follow⟩
  settles a ha hfails := by
    rw [attempts, outcomeAfter_cons hc]
    obtain rfl | ha := List.mem_cons.mp ha
    · exact absurd ⟨e', t, hc⟩ hfails
    · exact h.settles a ha hfails

/-- A clause that does not fail. -/
theorem Tried.settle {e : Error} {s : Interpreter} (hclass : c.className = raised)
    (hfails : ¬(Attempt.mk c s).Fails host depth receiver) (clauses : List RescueClause) :
    Tried host depth receiver raised (c :: clauses) e s
      (some s :: List.replicate clauses.length none) where
  length := congrArg (· + 1) List.length_replicate
  chooses := .last hclass hfails clauses
  follow := by
    rw [attempts, attempts_replicate_none]
    exact ⟨rfl, trivial⟩
  settles a ha _ := by
    rw [attempts, attempts_replicate_none] at ha ⊢
    rw [List.mem_singleton.mp ha]
    rfl

variable (host depth receiver)

/-- **The evaluation of the clauses**: it tries some of them, and ends as the last of
these does. -/
theorem evalRescues_tries (raised : String) (clauses : List RescueClause) (e : Error)
    (s : Interpreter) :
    ∃ starts, Tried host depth receiver raised clauses e s starts ∧
      evalRescues host (run host depth) receiver raised clauses e s
        = outcomeAfter host depth receiver e s (attempts clauses starts) ∧
      (Watched.evalRescues host (Watched.run host depth) receiver raised clauses e).journal s
        = (attempts clauses starts).flatMap (Attempt.journal host depth receiver) := by
  induction clauses generalizing e s with
  | nil =>
    rw [evalRescues, Watched.evalRescues]
    refine ⟨[], ⟨rfl, ?_, trivial, ?_⟩, rfl, rfl⟩
    · exact fun i c hc => absurd hc (Option.some_ne_none c).symm
    · exact fun a ha => absurd ha List.not_mem_nil
  | cons c clauses ih =>
    obtain ⟨className, body⟩ := c
    rw [evalRescues, Watched.evalRescues]
    split
    · next hclass =>
      let c := RescueClause.mk className body
      let a : Attempt := ⟨c, s⟩
      have heval : (Watched.evalAll host (Watched.run host depth) receiver .nil body).eval s
          = a.outcome host depth receiver := by
        rw [Watched.eval_evalAll, Watched.eval_run]
        rfl
      obtain ⟨e', t, ha⟩ | ha := Outcome.raised_or_not (a.outcome host depth receiver)
      · obtain ⟨starts, htried, houtcome, hjournal⟩ := ih e' t
        refine ⟨some s :: starts, htried.fail hclass ha, ?_, ?_⟩
        · exact (Outcome.rescuing_of_raised ha).trans
            (houtcome.trans (outcomeAfter_cons ha _).symm)
        · rw [Watched.journal_rescuing_of_raised (heval.trans ha), hjournal]
          rfl
      · refine ⟨some s :: List.replicate clauses.length none,
          .settle (c := c) hclass (fun ⟨e', t, hfails⟩ => ha e' t hfails) clauses, ?_, ?_⟩
        · rw [attempts, attempts_replicate_none]
          exact Outcome.rescuing_of_not_raised ha
        · rw [Watched.journal_rescuing_of_not_raised fun e' t => heval ▸ ha e' t, attempts,
            attempts_replicate_none, List.flatMap_singleton]
          rfl
    · next hclass =>
      obtain ⟨starts, htried, houtcome, hjournal⟩ := ih e s
      exact ⟨none :: starts, htried.skip hclass, houtcome, hjournal⟩

/-- Each attempt begins in the scopes that there were before all of them. -/
theorem Follow.sameScopes {s : Interpreter} {as : List Attempt}
    (h : Follow host depth receiver s as) : ∀ a ∈ as, s.SameScopes a.before := by
  induction as generalizing s with
  | nil => exact fun a ha => absurd ha List.not_mem_nil
  | cons a as ih =>
    obtain ⟨rfl, hrest⟩ := h
    intro b hb
    obtain rfl | hb := List.mem_cons.mp hb
    · exact .refl _
    · have hbody := keepsScopes_evalAll host depth receiver .nil a.clause.body a.before
      exact hbody.trans (ih hrest b hb)

/-- **Which clauses rescue a body.** A `begin` block whose body does not fail with an
error – because it has a value, or halts for a reason that nothing in a program can
catch – ends as its body does, and nothing else takes place in it.

If the body fails, some of the clauses are evaluated, each one exactly if it is for
the error of the body and all clauses before it that are for this error were
evaluated and failed. The first of them begins where the body ended, and each other
one where the one before it ended, in the calls and the unit in which the block was
entered. The block ends as the last of them does, which is the one that does not
fail, if there is one; if there are none, it ends with the error of the body. Nothing
else takes place in the block. -/
theorem clauses_are_tried_in_turn (body : List Node) (clauses : List RescueClause)
    (s : Interpreter) :
    let block := Node.beginBlock body clauses
    let outcome := evalNode host (run host depth) receiver block s
    let journal := (Watched.evalNode host (Watched.run host depth) receiver block).journal s
    let first := evalAll host (run host depth) receiver .nil body s
    let parts := (Watched.evalAll host (Watched.run host depth) receiver .nil body).journal s
    ((∀ e t, first ≠ .error (.raised e) t) →
      outcome = first ∧ journal = parts ++ [⟨.node receiver block, s, outcome, parts⟩]) ∧
    ∀ e t, first = .error (.raised e) t → ∃ starts,
      let as := attempts clauses starts
      let parts := parts ++ as.flatMap (Attempt.journal host depth receiver)
      starts.length = clauses.length ∧ Chooses host depth receiver e.kind.toS clauses starts ∧
      Follow host depth receiver t as ∧ (∀ a ∈ as, s.SameScopes a.before) ∧
      (∀ a ∈ as, ¬a.Fails host depth receiver → outcome = a.outcome host depth receiver) ∧
      outcome = outcomeAfter host depth receiver e t as ∧
      journal = parts ++ [⟨.node receiver block, s, outcome, parts⟩] := by
  intro block outcome journal first parts
  let watchedBody := Watched.evalAll host (Watched.run host depth) receiver .nil body
  let rescued := Watched.rescuing watchedBody fun e =>
    Watched.evalRescues host (Watched.run host depth) receiver e.kind.toS clauses e
  have heval : watchedBody.eval s = first := by
    rw [Watched.eval_evalAll, Watched.eval_run]
  have hblock : (Watched.evalNode host (Watched.run host depth) receiver block).eval s
      = outcome := by
    rw [Watched.eval_evalNode, Watched.eval_run]
  have houtcome : outcome = rescuing (evalAll host (run host depth) receiver .nil body)
      (fun e => evalRescues host (run host depth) receiver e.kind.toS clauses e) s := by
    show evalNode host (run host depth) receiver block s = _
    rw [evalNode]
  have hjournal : journal
      = rescued.journal s ++ [⟨.node receiver block, s, outcome, rescued.journal s⟩] := by
    show (Watched.evalNode host (Watched.run host depth) receiver block).journal s = _
    rw [← hblock, Watched.evalNode, Watched.journal_noting, Watched.eval_noting]
  refine ⟨fun hfirst => ?_, fun e t hfirst => ?_⟩
  · rw [Watched.journal_rescuing_of_not_raised fun e t => heval ▸ hfirst e t] at hjournal
    exact ⟨houtcome.trans (Outcome.rescuing_of_not_raised hfirst), hjournal⟩
  · rw [Watched.journal_rescuing_of_raised (heval.trans hfirst)] at hjournal
    rw [Outcome.rescuing_of_raised hfirst] at houtcome
    obtain ⟨starts, htried, hend, htook⟩ :=
      evalRescues_tries host depth receiver e.kind.toS clauses e t
    rw [htook] at hjournal
    have hscopes := keepsScopes_evalAll host depth receiver .nil body s
    rw [show evalAll host (run host depth) receiver .nil body s = first from rfl, hfirst] at hscopes
    refine ⟨starts, htried.length, htried.chooses, htried.follow, fun a ha => ?_,
      fun a ha hfails => ?_, houtcome.trans hend, hjournal⟩
    · exact hscopes.trans (htried.follow.sameScopes host depth receiver a ha)
    · exact (houtcome.trans hend).trans (htried.settles a ha hfails).symm

end Clauses

/-- A clause that fails with another text: no clause for that one is evaluated, and
the next clause for the first text is. -/
theorem failing_clause_keeps_the_text :
    let host : Host := ⟨FileSystem.empty [], none, 1⟩
    let s := start "main.rb" [] []
    let raising (text : String) := [Node.call none "raise" [.simpleString text]]
    let clauses := [RescueClause.mk "B" [.int 1], .mk "A" (raising "B"), .mk "B" [.int 2],
      .mk "A" [.int 3]]
    ∃ starts, Chooses host 1 s.main "A" clauses starts ∧
      starts.map Option.isSome = [false, true, false, true] ∧
      ∃ t, evalNode host (run host 1) s.main (.beginBlock (raising "A") clauses) s
        = .ok (.int 3) t := by
  intro host s raising clauses
  let first := evalAll host (run host 1) s.main .nil (raising "A") s
  have hfirst : (Outcome.raised? first).map (·.kind.toS) = some "A" := by decide +kernel
  have hsecond : (Outcome.raised? (evalAll host (run host 1) s.main .nil (raising "B")
      (Outcome.state first))).isSome = true := by
    decide +kernel
  obtain ⟨e, he, htext⟩ := Option.map_eq_some_iff.mp hfirst
  obtain ⟨t, ht⟩ := Outcome.error_of_raised? he
  obtain ⟨e', he'⟩ := Option.isSome_iff_exists.mp hsecond
  obtain ⟨t', ht'⟩ := Outcome.error_of_raised? he'
  rw [ht] at ht'
  obtain ⟨starts, hlength, hchooses, hfollow, -, hsettles, -⟩ :=
    (clauses_are_tried_in_turn host 1 s.main (raising "A") clauses s).2 e t ht
  rw [htext] at hchooses
  obtain ⟨a, b, c, d, rfl⟩ : ∃ a b c d, starts = [a, b, c, d] := by
    match starts, hlength with
    | [a, b, c, d], _ => exact ⟨a, b, c, d, rfl⟩
  have hother : "B" ≠ "A" := by decide
  obtain rfl : a = none := Option.eq_none_iff_forall_ne_some.mpr fun u hu =>
    hother ((hchooses 0 _ rfl).mp ⟨u, congrArg some hu⟩).1
  obtain rfl : c = none := Option.eq_none_iff_forall_ne_some.mpr fun u hu =>
    hother ((hchooses 2 _ rfl).mp ⟨u, congrArg some hu⟩).1
  -- the clauses for the first text are the second and the fourth
  obtain ⟨u, hu⟩ := (hchooses 1 _ rfl).mpr ⟨rfl, fun j hj d hd hclass => by
    obtain rfl : j = 0 := Nat.lt_one_iff.mp hj
    cases hd
    exact absurd hclass hother⟩
  cases hu
  obtain ⟨rfl, -⟩ := hfollow
  obtain ⟨v, hv⟩ := (hchooses 3 _ rfl).mpr ⟨rfl, fun j hj d hd hclass => by
    match j, hj with
    | 0, _ =>
      cases hd
      exact absurd hclass hother
    | 1, _ =>
      cases hd
      exact ⟨_, rfl, e', t', ht'⟩
    | 2, _ =>
      cases hd
      exact absurd hclass hother⟩
  cases hv
  refine ⟨_, hchooses, rfl, v, hsettles ⟨_, v⟩ (List.mem_cons_of_mem _ List.mem_cons_self) ?_⟩
  rintro ⟨x, w, hx⟩
  cases hx

end Garnet
