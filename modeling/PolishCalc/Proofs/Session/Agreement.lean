import PolishCalc.Proofs.Calculation.Depth
import PolishCalc.Proofs.Session.Reply

/-!
# Strict sessions, lenient sessions and calculation

A session prints a report of what it calculates for every line that is neither
blank nor one of the two words (`reply_of_expression`). Strict and lenient
sessions print the same report of what they can read and differ only where
nothing can be read, and a lenient session with the default limit prints what
`calculate` comes to for the line as it is (`calculate_default`). All three are
put together in `sessions_agree`.
-/

namespace PolishCalc.Session

open Text (trim)
open Token (tokenize)

theorem reply_of_expression (session : Session) {line : String}
    (h : trim line ∉ ["", "exit", "quit"]) :
    session.reply line = .print (report (session.calculate line)) := by
  simp only [List.mem_cons, List.not_mem_nil, or_false, not_or] at h
  obtain ⟨notBlank, notExit, notQuit⟩ := h
  simp only [reply, notBlank, notExit, notQuit, or_self, ↓reduceIte, calculate_trim]

/-- The limit on levels for the default `maxDepth` is the default one. -/
theorem calculate_default (text : String) :
    calculate { maxDepth := 32, strict := false } text =
      (PolishCalc.calculate text).mapError .evaluating :=
  rfl

section Reports

variable {maxDepth : UInt64} {line : String} {e : Expr} (h : trim line ∉ ["", "exit", "quit"])

include h

theorem reply_of_read (strict : Bool) (accepted : Expr.read maxDepth line = .ok e) :
    reply { maxDepth, strict } line =
      .print (report ((e.evaluateFor maxDepth).mapError .evaluating)) := by
  rw [reply_of_expression _ h, calculate_of_read accepted]

theorem reply_of_read_error (strict : Bool) {error : SyntaxError}
    (refused : Expr.read maxDepth line = .error error) :
    reply { maxDepth, strict } line = .print (if strict then "SyntaxError: " ++ error.message
      else "EvaluationError: unknown operator ERROR") := by
  rw [reply_of_expression _ h, calculate_of_read_error refused]
  cases strict <;> rfl

end Reports

/-- Strict and lenient sessions print the same line for what they can read, which no limit above its
depth changes. What they cannot read is a syntax error for the one and an unknown operator for the
other. With the default limit, lenient sessions print what `calculate` comes to. -/
theorem sessions_agree {line : String} (h : trim line ∉ ["", "exit", "quit"]) :
    (∀ {maxDepth : UInt64} {e : Expr}, Expr.read maxDepth line = .ok e →
      (∀ v, e.evaluateFor maxDepth = .ok v →
        ∀ strict, reply { maxDepth, strict } line = .print ("Result: " ++ v.text)) ∧
      (∀ error, e.evaluateFor maxDepth = .error error →
        ∀ strict, reply { maxDepth, strict } line = .print ("EvaluationError: " ++ error.message)) ∧
      ((tokenize line).length < 2 ^ 63 →
        ∀ limit, e.depth < limit → e.evaluateWithin limit = e.evaluateFor maxDepth)) ∧
    (∀ {maxDepth : UInt64} {error : SyntaxError}, Expr.read maxDepth line = .error error →
      reply { maxDepth, strict := true } line = .print ("SyntaxError: " ++ error.message) ∧
      reply { maxDepth, strict := false } line =
        .print "EvaluationError: unknown operator ERROR") ∧
    (∀ v, PolishCalc.calculate line = .ok v →
      reply { maxDepth := 32, strict := false } line = .print ("Result: " ++ v.text)) ∧
    ∀ error, PolishCalc.calculate line = .error error →
      reply { maxDepth := 32, strict := false } line =
        .print ("EvaluationError: " ++ error.message) := by
  refine ⟨fun accepted => ⟨fun v found strict => ?_, fun error failed strict => ?_,
    fun few limit fits => ?_⟩, fun refused => ⟨?_, ?_⟩, fun v found => ?_, fun error failed => ?_⟩
  · rw [reply_of_read h strict accepted, found]
    rfl
  · rw [reply_of_read h strict accepted, failed]
    rfl
  · exact Expr.evaluateWithin_eq_of_depth_lt (Expr.depth_lt_limitFor_of_read few accepted) fits
  · exact reply_of_read_error h true refused
  · exact reply_of_read_error h false refused
  · rw [reply_of_expression _ h, calculate_default, found]
    rfl
  · rw [reply_of_expression _ h, calculate_default, failed]
    rfl

/-- One level of nesting too many for the first limit, but not for the second. -/
theorem sessions_agree_nested :
    let line := "(+ 1 (* 2 3)) "
    let e : Expr := .form (.leaf "+")
      (.two (.leaf "1") (.form (.leaf "*") (.two (.leaf "2") (.leaf "3"))))
    let seven := Binary32.ofBits 0x40E00000
    trim line ∉ ["", "exit", "quit"] ∧
      (Expr.read 1 line = .error (.tooDeeplyNested 1 3) ∧
        reply { maxDepth := 1, strict := true } line =
          .print ("SyntaxError: " ++ (SyntaxError.tooDeeplyNested 1 3).message) ∧
        reply { maxDepth := 1, strict := false } line =
          .print "EvaluationError: unknown operator ERROR") ∧
      (Expr.read 2 line = .ok e ∧ e.evaluateFor 2 = .ok seven ∧
        (∀ strict, reply { maxDepth := 2, strict } line = .print ("Result: " ++ seven.text)) ∧
        e.evaluateWithin 3 = .ok seven) ∧
      reply { maxDepth := 32, strict := false } line = .print ("Result: " ++ seven.text) := by
  intro line e seven
  have expression : trim line ∉ ["", "exit", "quit"] := by decide
  obtain ⟨ofRead, ofRefusal, ofValue, -⟩ := sessions_agree expression
  have refused : Expr.read 1 line = .error (.tooDeeplyNested 1 3) := by decide
  have accepted : Expr.read 2 line = .ok e := by decide
  have found : e.evaluateFor 2 = .ok seven := by decide +kernel
  have value : PolishCalc.calculate line = .ok seven := by decide +kernel
  obtain ⟨printed, -, anyLimit⟩ := ofRead accepted
  have within : e.evaluateWithin 3 = .ok seven := by rw [anyLimit (by decide) 3 (by decide), found]
  exact ⟨expression, ⟨refused, ofRefusal refused⟩, ⟨accepted, found, printed seven found, within⟩,
    ofValue seven value⟩

end PolishCalc.Session
