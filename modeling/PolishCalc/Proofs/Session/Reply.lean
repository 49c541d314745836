import PolishCalc.Proofs.Token.Trim
import PolishCalc.Session

/-!
# What a session sees of a line

A session trims a line and looks for two words before it calculates, and each
of these could have depended on blanks. All that counts are the tokens of the
line (`reply_eq`): it is blank if there are none, it ends the session if the
only one is `exit` or `quit`, and lines with the same tokens have the same
answer (`reply_determined_by_tokens`).
-/

namespace PolishCalc.Session

open Text (isBlank trim)
open Token (Clean tokenize)

theorem clean_exit : Clean "exit" :=
  Token.clean_of_atom_mem_tokenize (s := "exit") (by decide)

theorem clean_quit : Clean "quit" :=
  Token.clean_of_atom_mem_tokenize (s := "quit") (by decide)

variable (session : Session)

theorem calculate_eq_of_tokenize_eq {text text' : String} (h : tokenize text = tokenize text') :
    session.calculate text = session.calculate text' := by
  simp only [calculate, calculateFor, Expr.readOrPlaceholder, Expr.read, h]

theorem calculate_trim (text : String) :
    session.calculate (trim text) = session.calculate text :=
  session.calculate_eq_of_tokenize_eq (Token.tokenize_trim text)

/-- The answer in terms of the tokens. -/
theorem reply_eq (line : String) :
    session.reply line =
      if tokenize line = [] then .blank
      else if tokenize line = [.atom "exit"] ∨ tokenize line = [.atom "quit"] then .exit
      else .print (report (session.calculate line)) := by
  simp only [reply, Token.tokenize_eq_nil_iff, Token.tokenize_eq_atom_iff clean_exit,
    Token.tokenize_eq_atom_iff clean_quit, calculate_trim]

theorem reply_eq_blank_iff {line : String} : session.reply line = .blank ↔ tokenize line = [] := by
  rw [reply_eq]
  split
  · next none => simp [none]
  · next some => split <;> simp [some]

theorem reply_eq_exit_iff {line : String} :
    session.reply line = .exit ↔
      tokenize line = [.atom "exit"] ∨ tokenize line = [.atom "quit"] := by
  rw [reply_eq]
  split
  · next none => simp [none]
  · split
    · next word => simp [word]
    · next other => simp [other]

theorem reply_eq_of_tokenize_eq {line line' : String} (h : tokenize line = tokenize line') :
    session.reply line = session.reply line' := by
  rw [reply_eq, reply_eq, session.calculate_eq_of_tokenize_eq h, h]

/-- A line is blank if it has no tokens and ends the session if its only token is one of two words,
and lines with the same tokens have the same answer. So blanks may be added, removed and replaced
wherever no two tokens become one. -/
theorem reply_determined_by_tokens :
    (∀ line, session.reply line = .blank ↔ tokenize line = []) ∧
    (∀ line, session.reply line = .exit ↔
      tokenize line = [.atom "exit"] ∨ tokenize line = [.atom "quit"]) ∧
    (∀ line line', tokenize line = tokenize line' → session.reply line = session.reply line') ∧
    ∀ before gap gap' after : String,
      (∀ c ∈ gap.toList, isBlank c = true) → (∀ c ∈ gap'.toList, isBlank c = true) →
      (before = "" ∨ after = "" ∨ before.toList.getLast? = some '(' ∨
        after.toList.head? = some ')' ∨ gap ≠ "" ∧ gap' ≠ "") →
      session.reply (before ++ gap ++ after) = session.reply (before ++ gap' ++ after) := by
  refine ⟨fun line => ?_, fun line => ?_, fun line line' h => ?_,
    fun _ _ _ _ blank blank' cut => ?_⟩
  · exact session.reply_eq_blank_iff
  · exact session.reply_eq_exit_iff
  · exact session.reply_eq_of_tokenize_eq h
  · exact session.reply_eq_of_tokenize_eq (Token.tokenize_respace blank blank' cut)

/-- A line feed and an ideographic space are blank as well. -/
theorem reply_determined_by_tokens_spaced :
    let session : Session := { maxDepth := 1, strict := true }
    session.reply "\u3000 \t" = .blank ∧ session.reply " quit\n" = .exit ∧
      (tokenize "( + 1\n2 )" = tokenize "(+ 1 2)" ∧
        session.reply "( + 1\n2 )" = session.reply "(+ 1 2)") ∧
      session.reply ("(+ (* 2 3) 1" ++ "\u3000" ++ ")") =
        session.reply ("(+ (* 2 3) 1" ++ "" ++ ")") := by
  intro session
  obtain ⟨blank, exit, same, respaced⟩ := reply_determined_by_tokens session
  have tokens : tokenize "( + 1\n2 )" = tokenize "(+ 1 2)" := by decide
  have wide : isBlank '\u3000' = true := by decide
  have closed : ")".toList.head? = some ')' := by decide
  exact ⟨(blank _).mpr (by decide), (exit _).mpr (by decide), ⟨tokens, same _ _ tokens⟩,
    respaced _ _ _ _ (by simpa using wide) (by simp) (.inr (.inr (.inr (.inl closed))))⟩

end PolishCalc.Session
