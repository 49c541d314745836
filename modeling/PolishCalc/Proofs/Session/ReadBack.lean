import PolishCalc.Expr.Tokens
import PolishCalc.Proofs.Binary32.Text
import PolishCalc.Proofs.Calculation.Outcome
import PolishCalc.Proofs.Session.Reply

/-!
# Printed results as lines and leaves

A session prints a result as a single atom, which every session reads as a leaf
(`reply_clean`). So what was printed can be typed again: for a finite number the
same line is printed, and for any other one the error that its name is not a
number (`result_typed_back`).
-/

namespace PolishCalc

open Token (Clean)

/-! ## Single atoms -/

namespace Expr

variable {text : String}

theorem read_clean (maxDepth : UInt64) (clean : Clean text) :
    read maxDepth text = .ok (.leaf text) := by
  rw [read, clean.tokenize_eq]
  exact ofTokens_tokens_append (.leaf text) [] (Nat.zero_le _)

theorem evaluateWithin_leaf {limit : Nat} (positive : 0 < limit) (ne : text ≠ "ERROR") :
    (leaf text).evaluateWithin limit = leafValue text := by
  have other : (leaf text).isPlaceholder = false := by simpa [isPlaceholder, placeholder] using ne
  rw [evaluateWithin, other, evaluateAt, if_pos positive]
  rfl

end Expr

namespace Session

variable (session : Session)

theorem calculate_clean {text : String} (clean : Clean text) (ne : text ≠ "ERROR") :
    session.calculate text = (Expr.leafValue text).mapError .evaluating := by
  have positive : 0 < Expr.limitFor session.maxDepth :=
    Nat.lt_of_lt_of_le (by decide) (Nat.le_max_left _ _)
  rw [calculate_of_read (Expr.read_clean _ clean), Expr.evaluateFor,
    Expr.evaluateWithin_leaf positive ne]

theorem reply_clean {text : String} (clean : Clean text)
    (other : text ∉ ["", "exit", "quit", "ERROR"]) :
    session.reply text = .print (report ((Expr.leafValue text).mapError .evaluating)) := by
  simp only [List.mem_cons, List.not_mem_nil, or_false, not_or] at other
  obtain ⟨-, notExit, notQuit, ne⟩ := other
  rw [reply_eq, clean.tokenize_eq, session.calculate_clean clean ne]
  simp [notExit, notQuit]

/-! ## Printed results -/

theorem calculate_text {x : Binary32} (h : x.isFinite = true) :
    session.calculate x.text = .ok x := by
  have ne : x.text ≠ "ERROR" := fun same => x.text_not_mem (by rw [same]; decide)
  rw [session.calculate_clean x.clean_text ne, Binary32.leafValue_text_of_isFinite h]
  rfl

theorem reply_text {x : Binary32} (h : x.isFinite = true) :
    session.reply x.text = .print ("Result: " ++ x.text) := by
  rw [session.reply_clean x.clean_text x.text_not_mem, Binary32.leafValue_text_of_isFinite h]
  rfl

theorem reply_text_of_not_isFinite {x : Binary32} (h : x.isFinite = false) :
    session.reply x.text = .print ("EvaluationError: invalid number " ++ x.text) := by
  rw [session.reply_clean x.clean_text x.text_not_mem, Binary32.leafValue_text_of_not_isFinite h]
  show Reply.print ("EvaluationError: " ++ ("invalid number " ++ x.text)) = _
  rw [← String.append_assoc]
  rfl

/-- The headline of a failure starts with another letter than a result. -/
theorem headline_ne_result (failure : Failure) (t : String) :
    failure.headline ≠ "Result: " ++ t := by
  intro same
  have first := congrArg (fun s => s.toList.head?) same
  cases failure <;> simp at first

theorem exists_of_reply_eq_result {line t : String}
    (h : session.reply line = .print ("Result: " ++ t)) :
    ∃ v, session.calculate line = .ok v ∧ v.text = t := by
  rw [reply_eq] at h
  split at h
  · cases h
  · split at h
    · cases h
    · cases result : session.calculate line with
      | ok v =>
        rw [result] at h
        exact ⟨v, rfl, (String.append_right_inj _).mp (Reply.print.inj h)⟩
      | error failure =>
        rw [result] at h
        exact absurd (Reply.print.inj h) (headline_ne_result failure t)

/-- A printed result is that of the line's value. For a finite value it is a leaf with that value,
wherever leaves are evaluated, and in every session it is printed again when it is typed. For any
other value it is one of three names, which every session refuses. -/
theorem result_typed_back {line t : String} (h : session.reply line = .print ("Result: " ++ t)) :
    ∃ v, session.calculate line = .ok v ∧
      (v.isFinite = true →
        (∀ limit level, level < limit → (Expr.leaf t).evaluateAt limit level = .ok v) ∧
        ∀ other : Session, other.calculate t = .ok v ∧
          other.reply t = .print ("Result: " ++ t)) ∧
      (v.isFinite = false →
        t ∈ ["inf", "-inf", "NaN"] ∧
        ∀ other : Session, other.reply t = .print ("EvaluationError: invalid number " ++ t)) := by
  obtain ⟨v, value, rfl⟩ := session.exists_of_reply_eq_result h
  refine ⟨v, value, fun isFinite => ⟨fun limit level below => ?_, fun other => ⟨?_, ?_⟩⟩,
    fun notFinite => ⟨?_, fun other => ?_⟩⟩
  · rw [Expr.evaluateAt, if_pos below, Binary32.leafValue_text_of_isFinite isFinite]
  · exact other.calculate_text isFinite
  · exact other.reply_text isFinite
  · exact Binary32.text_mem_of_not_isFinite notFinite
  · exact other.reply_text_of_not_isFinite notFinite

/-- The least number with its sign, in a scientific notation, and an infinity. -/
theorem result_typed_back_least :
    let strict : Session := { maxDepth := 0, strict := true }
    let nested : Session := { maxDepth := 1 }
    let least := Binary32.ofBits 0x80000001
    (nested.reply "(* -1e-45 1 1)" = .print ("Result: " ++ "-1e-45") ∧
      nested.calculate "(* -1e-45 1 1)" = .ok least ∧
      (Expr.leaf "-1e-45").evaluateAt 1 0 = .ok least ∧
      strict.reply "-1e-45" = .print ("Result: " ++ "-1e-45")) ∧
    nested.reply "(/ -1 0 1)" = .print ("Result: " ++ "-inf") ∧
      strict.reply "-inf" = .print ("EvaluationError: invalid number " ++ "-inf") := by
  intro strict nested least
  have printed : nested.reply "(* -1e-45 1 1)" = .print ("Result: " ++ "-1e-45") := by
    decide +kernel
  have value : nested.calculate "(* -1e-45 1 1)" = .ok least := by decide +kernel
  have printedName : nested.reply "(/ -1 0 1)" = .print ("Result: " ++ "-inf") := by
    decide +kernel
  have infinite : nested.calculate "(/ -1 0 1)" = .ok (.infinite true) := by decide +kernel
  obtain ⟨v, same, again, -⟩ := result_typed_back nested printed
  obtain ⟨w, sameName, -, refused⟩ := result_typed_back nested printedName
  obtain rfl := Except.ok.inj (value.symm.trans same)
  obtain rfl := Except.ok.inj (infinite.symm.trans sameName)
  have isFinite : least.isFinite = true := by decide
  obtain ⟨asLeaf, typed⟩ := again isFinite
  exact ⟨⟨printed, value, asLeaf 1 0 (by decide), (typed strict).2⟩, printedName,
    (refused rfl).2 strict⟩

end Session

end PolishCalc
