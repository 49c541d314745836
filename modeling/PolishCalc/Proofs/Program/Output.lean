import PolishCalc.Program
import PolishCalc.Proofs.Session.Transcript
import PolishCalc.Proofs.Text

/-!
# The output of a run

After its greeting the program prints what its session prints for the lines of
its input. Lines are ended by line feeds, so more input after a line feed adds
what a quiet run prints for it alone, unless an earlier line ended the session
(`output_answers_lines`).
-/

namespace PolishCalc

open Text (isBlank trim lines dropReturn unended withEnds)
open Token (tokenize)

namespace Session

variable (session : Session)

/-! ## The end of the last line -/

/-- The carriage return that a line feed takes with it is blank. -/
theorem reply_dropReturn (cs : List Char) :
    session.reply (String.ofList (dropReturn cs)) = session.reply (String.ofList cs) := by
  refine session.reply_eq_of_tokenize_eq ?_
  unfold dropReturn
  split
  · next h =>
    have blank : ∀ c ∈ ['\r'], isBlank c = true := List.forall_mem_singleton.mpr (by decide)
    have split : cs.dropLast ++ ['\r'] = cs := List.dropLast_append_getLast? '\r' h
    rw [tokenize, tokenize, String.toList_ofList, String.toList_ofList, ← split,
      Token.pieces_append_of_blank_right _ blank, List.dropLast_concat]
  · rfl

/-- A line feed at the end of a text may only add a blank line and take a carriage return away. -/
theorem exists_exit_append_newline_iff {a : String} :
    (∃ line ∈ lines (a ++ "\n"), session.reply line = .exit) ↔
      ∃ line ∈ lines a, session.reply line = .exit := by
  obtain ⟨ended, last, noneEnded, noneLast, eq⟩ := Text.exists_ended a.toList
  have withFeed : (a ++ "\n").toList = withEnds ended ++ last ++ ['\n'] := by simp [eq]
  have empty : session.reply "" ≠ .exit := by simp [reply, trim]
  rw [lines, lines, withFeed, eq, Text.splitLines_ended_append_newline noneEnded noneLast,
    Text.splitLines_ended noneEnded noneLast]
  by_cases none : last = []
  · subst none
    simp [Text.splitLines, unended, dropReturn, empty]
  · simp [Text.splitLines, unended, none, session.reply_dropReturn]

end Session

namespace Program

variable (options : Options)

theorem output_quiet (input : String) :
    output { options with quiet := true } input = (session options).transcript (lines input) := by
  simp [output, greeting, session]

theorem output_append_newline_append {a : String} (b : String)
    (h : ∀ line ∈ lines a, trim line ≠ "exit" ∧ trim line ≠ "quit") :
    output options (a ++ "\n" ++ b) =
      output options (a ++ "\n") ++ output { options with quiet := true } b := by
  have goesOn : ∀ line ∈ lines (a ++ "\n"), (session options).reply line ≠ .exit := by
    intro line mem exit
    obtain ⟨line, mem, exit⟩ :=
      (session options).exists_exit_append_newline_iff.mp ⟨line, mem, exit⟩
    obtain ⟨notExit, notQuit⟩ := h line mem
    exact (Session.reply_eq_exit_iff_trim.mp exit).elim notExit notQuit
  rw [output_quiet, output, output, Text.lines_append, Session.transcript_append _ goesOn,
    String.append_assoc]

theorem output_append_newline_append_of_exit {a : String} (b : String)
    (h : ∃ line ∈ lines a, trim line = "exit" ∨ trim line = "quit") :
    output options (a ++ "\n" ++ b) = output options (a ++ "\n") := by
  have ends : ∃ line ∈ lines (a ++ "\n"), (session options).reply line = .exit := by
    obtain ⟨line, mem, word⟩ := h
    exact (session options).exists_exit_append_newline_iff.mpr
      ⟨line, mem, Session.reply_eq_exit_iff_trim.mpr word⟩
  rw [output, output, Text.lines_append, Session.transcript_append_of_exit _ ends]

/-- Each line of the input is answered by itself, in order, until one ends the session. So input
after a line feed adds what a quiet run prints for it, and nothing if the session has ended. -/
theorem output_answers_lines :
    (∀ arguments, Options.ofArguments arguments = .ok options →
      ∀ input, run arguments input = { output := output options input, exitCode := 0 }) ∧
    (∀ input text, output options input = text ↔
      ∃ printed,
        Session.Prints { maxDepth := options.maxDepth, strict := options.strict } (lines input)
          printed ∧
        text = (if options.quiet then "" else banner) ++ printed) ∧
    ∀ a b,
      ((∀ line ∈ lines a, trim line ≠ "exit" ∧ trim line ≠ "quit") →
        output options (a ++ "\n" ++ b) =
          output options (a ++ "\n") ++ output { options with quiet := true } b) ∧
      ((∃ line ∈ lines a, trim line = "exit" ∨ trim line = "quit") →
        output options (a ++ "\n" ++ b) = output options (a ++ "\n")) := by
  refine ⟨fun arguments given input => ?_, fun input text => ?_, fun a b => ⟨?_, ?_⟩⟩
  · rw [run, given]
  · simp only [Session.prints_iff, exists_eq_left]
    exact eq_comm
  · exact output_append_newline_append options b
  · exact output_append_newline_append_of_exit options b

/-- Carriage returns and blanks around the word that ends the session. -/
theorem output_answers_lines_strict :
    let options : Options := { strict := true }
    let first := ")\r"
    let last := "\n quit\r"
    (Options.ofArguments ["-s"] = .ok options ∧
      run ["-s"] ")\n\n exit\r\n1" = {
        output := banner ++ ("SyntaxError: unexpected closing parenthesis" ++ "\n" ++ "")
        exitCode := 0 }) ∧
    ((∀ line ∈ lines first, trim line ≠ "exit" ∧ trim line ≠ "quit") ∧
      output options (first ++ "\n" ++ last) =
        output options (first ++ "\n") ++ output { options with quiet := true } last) ∧
    (∃ line ∈ lines last, trim line = "exit" ∨ trim line = "quit") ∧
      output options (last ++ "\n" ++ first) = output options (last ++ "\n") := by
  intro options first last
  obtain ⟨runs, prints_iff, append⟩ := output_answers_lines options
  have given : Options.ofArguments ["-s"] = .ok options := by decide
  have goesOn : ∀ line ∈ lines first, trim line ≠ "exit" ∧ trim line ≠ "quit" := by decide
  have ends : ∃ line ∈ lines last, trim line = "exit" ∨ trim line = "quit" := by decide
  have split : lines ")\n\n exit\r\n1" = [")", "", " exit", "1"] := by decide
  have prints : Session.Prints { maxDepth := 32, strict := true } (lines ")\n\n exit\r\n1")
      ("SyntaxError: unexpected closing parenthesis" ++ "\n" ++ "") := by
    rw [split]
    exact .answer (by decide) (.blank (by decide) (.exit (by decide)))
  refine ⟨⟨given, ?_⟩, ⟨goesOn, (append first last).1 goesOn⟩, ends, (append last first).2 ends⟩
  rw [runs _ given, (prints_iff _ _).mpr ⟨_, prints, rfl⟩]
  rfl

end Program

end PolishCalc
