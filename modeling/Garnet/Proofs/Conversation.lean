import Garnet.Proofs.Assignments
import Garnet.Proofs.InputLines
import Garnet.Proofs.Joining

/-!
# The interactive loop, line by line

The interactive loop is a program that runs each line of its input after the ones
before it. What that means can be said without the loop: an interpreter after some
lines (`afterLines`), and what is replied to each of them (`replies`). The loop does
that, up to a line that ends it or to the end of its input (`loop_is_line_by_line`).
-/

namespace Garnet.Repl

open Interpreter

section Lines

variable (host : Host) (depth : Nat)

/-! ## Lines as programs -/

/-- **The interpreter after a line**, whatever comes of it. Nothing happens on an empty
line. -/
def afterLine (s : Interpreter) (line : String) : Interpreter :=
  if line.isEmpty then s else Outcome.state (run host depth line s)

/-- The interpreter after some lines, one after the other. -/
def afterLines (s : Interpreter) (lines : List String) : Interpreter :=
  lines.foldl (afterLine host depth) s

/-- What is written of the outcome of a line: its value or the message of its error, in
the interpreter that it leaves behind. -/
def outcomeText : EStateM.Result Halt Interpreter Value → String
  | .ok v t => resultText t (.ok v) ++ "\n"
  | .error (.raised e) t => resultText t (.error e) ++ "\n"
  | .error _ _ => ""

/-- The reply to a line. -/
def reply (s : Interpreter) (line : String) : String :=
  if line.isEmpty then "" else outcomeText (run host depth line s)

/-- **The replies to some lines**, each in the interpreter that the lines before it have
left. -/
def replies : Interpreter → List String → List String
  | _, [] => []
  | s, line :: lines => reply host depth s line :: replies (afterLine host depth s line) lines

/-- The conversation about some lines: a prompt for each of them, and the reply to it. -/
def conversation (s : Interpreter) (lines : List String) : String :=
  String.join ((replies host depth s lines).map (prompt ++ ·))

/-- **Whether some lines run through**: each of them comes to a value or to an error, and
does not halt for another reason. -/
def RunThrough : Interpreter → List String → Prop
  | _, [] => True
  | s, line :: lines =>
    (line.isEmpty = false → ∀ h t, run host depth line s = .error h t → ∃ e, h = .raised e) ∧
      RunThrough (afterLine host depth s line) lines

variable {host depth} {s : Interpreter} {line : String}

/-! ## Answers -/

/-- The line that ends the loop. -/
theorem answer_quit (h : trimmed line.toList = quitLine) (s : Interpreter) :
    answer host depth line s = .ok .quit s := by
  have hanswer : answer host depth line = pure .quit := if_pos h
  rw [hanswer]
  rfl

/-- **A line that runs through is answered** with its reply. -/
theorem answer_eq (hquit : trimmed line.toList ≠ quitLine)
    (hrun : (trimmed line.toList).isEmpty = false →
      ∀ h t, run host depth (trimmed line.toList) s = .error h t → ∃ e, h = .raised e) :
    answer host depth line s = .ok (.text (reply host depth s (trimmed line.toList)))
      (afterLine host depth s (trimmed line.toList)) := by
  have hanswer : answer host depth line = if (trimmed line.toList).isEmpty then pure (.text "")
      else do
        let result ← outcome (run host depth (trimmed line.toList))
        return .text (resultText (← get) result ++ "\n") := if_neg hquit
  rw [hanswer]
  unfold reply afterLine
  cases hempty : (trimmed line.toList).isEmpty with
  | true => rfl
  | false =>
    -- errors are answered like values
    cases hout : run host depth (trimmed line.toList) s with
    | ok v t =>
      have houtcome : outcome (run host depth (trimmed line.toList)) s = .ok (.ok v) t :=
        (Outcome.rescuing_of_not_raised fun e u he => by
          rw [Outcome.bind_of_ok hout] at he
          cases he).trans (Outcome.bind_of_ok hout)
      exact Outcome.bind_of_ok houtcome
    | error h t =>
      obtain ⟨e, rfl⟩ := hrun hempty h t hout
      have houtcome : outcome (run host depth (trimmed line.toList)) s = .ok (.error e) t :=
        Outcome.rescuing_of_raised (Outcome.bind_of_error hout)
      exact Outcome.bind_of_ok houtcome

/-- A line that is a name which is bound to nothing has an error, and changes nothing. -/
theorem run_unbound (host : Host) (depth : Nat) {name : String}
    (hparse : parse line = .ok [.bareReference name]) (hnil : name ≠ "nil")
    (hself : name ≠ "self") (hunbound : s.objects.find? name = none) :
    ∃ b, run host (depth + 1) line s
      = .error (.raised ⟨.name name (s.toS s.main) (s.className s.main), b⟩) s := by
  have hname : evalNode host (run host depth) s.main (.bareReference name)
      { s with stack := s.stack.push "main" } = .error (.raised ((Error.ofKind
        (.name name (s.toS s.main) (s.className s.main))).raisedAt (s.stack.push "main")))
        { s with stack := s.stack.push "main" } := by
    rw [evalNode, reference_eq hnil hself]
    simp only [hunbound]
    rfl
  rw [run_of_parse host depth hparse, evalAll, Outcome.bind_of_error hname]
  exact ⟨_, rfl⟩

/-! ## The loop -/

/-- The line that ends the loop, and what is not looked at after it. -/
theorem loop_quit (h : trimmed line.toList = quitLine) (rest : List (Option String))
    (s : Interpreter) : loop host depth (some line :: rest) s = .ok ⟨[], .quit⟩ s := by
  rw [loop, Outcome.get_bind, Outcome.bind_of_ok (answer_quit h s)]
  rfl

/-- A line that is answered, and the loop over the lines after it. -/
theorem loop_line {rest : List (Option String)} {text : String} {t u : Interpreter}
    {exchanges : List Exchange} {ending : Ending}
    (hanswer : answer host depth line s = .ok (.text text) t)
    (hrest : loop host depth rest t = .ok ⟨exchanges, ending⟩ u) :
    loop host depth (some line :: rest) s
      = .ok ⟨⟨printedSince s t, text⟩ :: exchanges, ending⟩ u := by
  rw [loop, Outcome.get_bind, Outcome.bind_of_ok hanswer]
  exact (Outcome.get_bind _ _).trans (Outcome.bind_of_ok hrest)

/-- **Lines that run through**, in front of what ends the loop. -/
theorem loop_lines {lines : List String} {rest : List (Option String)} {ending : Ending}
    (hquit : quitLine ∉ lines.map fun line => trimmed line.toList)
    (hrun : RunThrough host depth s (lines.map fun line => trimmed line.toList))
    (hrest : ∀ s, loop host depth rest s = .ok ⟨[], ending⟩ s) :
    ∃ exchanges, loop host depth (lines.map some ++ rest) s = .ok ⟨exchanges, ending⟩
        (afterLines host depth s (lines.map fun line => trimmed line.toList)) ∧
      exchanges.map Exchange.reply
        = replies host depth s (lines.map fun line => trimmed line.toList) := by
  induction lines generalizing s with
  | nil => exact ⟨[], hrest s, rfl⟩
  | cons line lines ih =>
    obtain ⟨hline, hlines⟩ := List.ne_and_not_mem_of_not_mem_cons hquit
    obtain ⟨exchanges, hloop, hreplies⟩ := ih hlines hrun.2
    refine ⟨_, loop_line (answer_eq hline.symm hrun.1) hloop, ?_⟩
    rw [List.map_cons, List.map_cons, replies, hreplies]

/-- What follows the line that ends the loop does not matter. -/
theorem loop_append_of_quit {lines : List String}
    (hquit : ∃ line ∈ lines, trimmed line.toList = quitLine) (rest : List (Option String)) :
    loop host depth (lines.map some ++ rest) = loop host depth (lines.map some) := by
  induction lines with
  | nil =>
    obtain ⟨_, hmem, _⟩ := hquit
    cases hmem
  | cons line lines ih =>
    by_cases hline : trimmed line.toList = quitLine
    · funext s
      exact (loop_quit hline _ s).trans (loop_quit hline _ s).symm
    · have hlater : ∃ line ∈ lines, trimmed line.toList = quitLine := by
        obtain ⟨other, hmem, hother⟩ := hquit
        obtain rfl | hmem := List.mem_cons.mp hmem
        · exact absurd hother hline
        · exact ⟨other, hmem, hother⟩
      rw [List.map_cons, List.cons_append, loop, loop, ih hlater]

/-- What the loop has written. -/
theorem written_eq {lines : List String} {exchanges : List Exchange} {ending : Ending}
    (h : exchanges.map Exchange.reply = replies host depth s lines) :
    (⟨exchanges, ending⟩ : Transcript).written
      = conversation host depth s lines ++ prompt ++ Transcript.closing ⟨exchanges, ending⟩ := by
  rw [Transcript.written, conversation, ← h, List.map_map]
  rfl

end Lines

/-! ## Inputs -/

/-- **The lines that the loop evaluates**: those before the first one that ends it. -/
def evaluatedLines (text : String) : List String :=
  (takenLines text).takeWhile (· != quitLine)

theorem evaluatedLines_of_not_quit {text : String} (h : quitLine ∉ takenLines text) :
    evaluatedLines text = takenLines text :=
  List.takeWhile_eq_self_iff.mpr fun _ hline => bne_iff_ne.mpr fun heq => h (heq ▸ hline)

theorem evaluatedLines_of_quit {text : String} {before after : List String}
    (h : takenLines text = before ++ quitLine :: after) (hbefore : quitLine ∉ before) :
    evaluatedLines text = before := by
  have hpass : ∀ line ∈ before, (line != quitLine) = true :=
    fun _ hline => bne_iff_ne.mpr fun heq => hbefore (heq ▸ hline)
  rw [evaluatedLines, h, List.takeWhile_append_of_pos hpass,
    List.takeWhile_cons_of_neg (by simp), List.append_nil]

/-- **The interactive loop is a program that runs line by line.** Where the lines that
come to be evaluated run through,

* an input that is a text is taken up to its first line `quit`, if there is one: the
  interpreter is left as these lines leave it when each is run after the ones before
  it, whether or not they have failed, and a prompt and a reply have been written for
  each of them; after one more prompt there is a line end only if no line was `quit`;
* what follows the line `quit` does not matter, be it text or not;
* an input that goes on after some lines with one that is no text, none of the lines
  before it being `quit`, ends in an error there: these lines have been run and
  replied to all the same. -/
theorem loop_is_line_by_line (host : Host) (depth : Nat) (s : Interpreter) :
    (∀ text : String, RunThrough host depth s (evaluatedLines text) →
      ∃ t, loop host depth (Repl.lines text.toUTF8) s
          = .ok t (afterLines host depth s (evaluatedLines text)) ∧
        t.written = conversation host depth s (evaluatedLines text) ++ prompt
          ++ (if quitLine ∈ takenLines text then "" else "\n") ∧
        t.ending = if quitLine ∈ takenLines text then .quit else .endOfInput) ∧
    (∀ (text : String) (bytes : ByteArray), IsWhole text → quitLine ∈ takenLines text →
      loop host depth (Repl.lines (text.toUTF8 ++ bytes)) s
        = loop host depth (Repl.lines text.toUTF8) s) ∧
    (∀ (text : String) (bytes rest : ByteArray), IsWhole text → quitLine ∉ takenLines text →
      String.fromUTF8? bytes = none → (10 : UInt8) ∉ bytes.toList →
      (∀ b, rest.toList.head? = some b → b = 10) → RunThrough host depth s (takenLines text) →
        ∃ t, loop host depth (Repl.lines (text.toUTF8 ++ (bytes ++ rest))) s
            = .ok t (afterLines host depth s (takenLines text)) ∧
          t.written = conversation host depth s (takenLines text) ++ prompt ∧
          t.ending = .notText) := by
  refine ⟨fun text hrun => ?_, fun text bytes hwhole hquit => ?_,
    fun text bytes rest hwhole hquit htext hnewline hrest hrun => ?_⟩
  · obtain ⟨lines, hlines, htaken⟩ := lines_toUTF8 text
    rw [hlines]
    by_cases hquit : quitLine ∈ takenLines text
    · obtain ⟨before, after, hsplit, hbefore⟩ := List.eq_append_cons_of_mem hquit
      rw [evaluatedLines_of_quit hsplit hbefore] at hrun ⊢
      obtain ⟨first, last, rfl, rfl, hlast⟩ := List.map_eq_append_iff.mp (htaken.trans hsplit)
      obtain ⟨line, later, rfl, hline, -⟩ := List.map_eq_cons_iff.mp hlast
      rw [if_pos hquit, if_pos hquit, List.map_append, List.map_cons]
      obtain ⟨exchanges, hloop, hreplies⟩ := loop_lines hbefore hrun
        fun s => loop_quit hline (later.map some) s
      exact ⟨_, hloop, written_eq hreplies, rfl⟩
    · rw [evaluatedLines_of_not_quit hquit, ← htaken] at hrun
      rw [evaluatedLines_of_not_quit hquit, if_neg hquit, if_neg hquit, ← htaken]
      rw [← htaken] at hquit
      obtain ⟨exchanges, hloop, hreplies⟩ := loop_lines hquit hrun
        fun s => show loop host depth [] s = .ok ⟨[], .endOfInput⟩ s from rfl
      rw [List.append_nil] at hloop
      exact ⟨_, hloop, written_eq hreplies, rfl⟩
  · obtain ⟨lines, hlines, htaken⟩ := lines_toUTF8 text
    rw [lines_append hwhole, hlines]
    refine congrFun (loop_append_of_quit ?_ _) s
    rw [← htaken] at hquit
    obtain ⟨line, hmem, hline⟩ := List.mem_map.mp hquit
    exact ⟨line, hmem, hline⟩
  · obtain ⟨lines, hlines, htaken⟩ := lines_toUTF8 text
    obtain ⟨more, hmore⟩ := lines_of_notText htext hnewline hrest
    rw [lines_append hwhole, hlines, hmore]
    rw [← htaken] at hquit hrun ⊢
    obtain ⟨exchanges, hloop, hreplies⟩ := loop_lines hquit hrun
      fun s => show loop host depth (none :: more) s = .ok ⟨[], .notText⟩ s from rfl
    exact ⟨_, hloop, (written_eq hreplies).trans (String.append_empty), rfl⟩

/-- A line with a value, one with an error, a blank one, and one after `quit`; and a line
with a value in front of one that is no text. -/
theorem errors_and_blank_lines_are_replied_to :
    (∃ t, loop ⟨FileSystem.empty [], none, 1⟩ 1
          (Repl.lines "1\nnope\n\nquit\n:never".toUTF8) (start unitName [] [])
        = .ok t (start unitName [] []) ∧
      t.written = "> => 1\n>  => NameError: undefined local variable or method \x60nope' "
        ++ "for main:Object\n> > " ∧ t.ending = .quit) ∧
    ∃ t, loop ⟨FileSystem.empty [], none, 1⟩ 1
          (Repl.lines ("1\n".toUTF8 ++ (⟨#[0xff]⟩ ++ ⟨#[10, 49]⟩))) (start unitName [] [])
        = .ok t (start unitName [] []) ∧
      t.written = "> => 1\n> " ∧ t.ending = .notText := by
  have hnope : (start unitName [] []).objects.find? "nope" = none := by decide +kernel
  have htoS : (start unitName [] []).toS (start unitName [] []).main = "main" := by
    decide +kernel
  have hclass : (start unitName [] []).className (start unitName [] []).main = "Object" := by
    decide +kernel
  generalize start unitName [] [] = s at hnope htoS hclass ⊢
  -- the two lines that are evaluated leave the interpreter as it was
  have hone : run ⟨FileSystem.empty [], none, 1⟩ 1 "1" s = .ok (.int 1) s := by
    have hparse : parse "1" = .ok [.int 1] := by with_unfolding_all rfl
    exact (run_of_parse _ 0 hparse s).trans rfl
  obtain ⟨b, herror⟩ := run_unbound ⟨FileSystem.empty [], none, 1⟩ 0
    (show parse "nope" = .ok [.bareReference "nope"] by with_unfolding_all rfl)
    (by decide) (by decide) hnope
  rw [htoS, hclass] at herror
  have hshown : resultText s (.ok (.int 1)) = "=> 1" := by with_unfolding_all rfl
  have hmessage : resultText s (.error ⟨.name "nope" "main" "Object", b⟩)
      = " => NameError: undefined local variable or method \x60nope' for main:Object" := rfl
  have htaken : takenLines "1\nnope\n\nquit\n:never" = ["1", "nope", "", "quit", ":never"] := by
    decide +kernel
  have hquit : quitLine ∈ takenLines "1\nnope\n\nquit\n:never" := by
    rw [htaken]
    decide
  have hevaluated : evaluatedLines "1\nnope\n\nquit\n:never" = ["1", "nope", ""] := by
    rw [evaluatedLines, htaken]
    decide
  have hfirst : takenLines "1\n" = ["1"] := by decide +kernel
  refine ⟨?_, ?_⟩
  · obtain ⟨t, hloop, hwritten, hending⟩ :=
      (loop_is_line_by_line ⟨FileSystem.empty [], none, 1⟩ 1 s).1 "1\nnope\n\nquit\n:never" (by
        rw [hevaluated]
        simp [RunThrough, afterLine, hone, herror, Outcome.state])
    refine ⟨t, ?_, ?_, ?_⟩
    · rw [hloop, hevaluated]
      simp [afterLines, afterLine, hone, herror, Outcome.state]
    · rw [hwritten, hevaluated, if_pos hquit]
      simp [conversation, replies, reply, afterLine, hone, herror, Outcome.state, outcomeText,
        hshown, hmessage]
      rfl
    · rw [hending, if_pos hquit]
  · obtain ⟨t, hloop, hwritten, hending⟩ :=
      (loop_is_line_by_line ⟨FileSystem.empty [], none, 1⟩ 1 s).2.2 "1\n" ⟨#[0xff]⟩ ⟨#[10, 49]⟩
        (by rintro c ⟨⟩; rfl) (by rw [hfirst]; decide) (by decide +kernel)
        (by rw [toList_eq]; decide) (by rw [toList_eq]; rintro b ⟨⟩; rfl)
        (by rw [hfirst]; simp [RunThrough, hone])
    rw [hfirst] at hloop hwritten
    refine ⟨t, ?_, ?_, hending⟩
    · rw [hloop]
      simp [afterLines, afterLine, hone, Outcome.state]
    · rw [hwritten]
      simp [conversation, replies, reply, hone, outcomeText, hshown]
      rfl

end Garnet.Repl
