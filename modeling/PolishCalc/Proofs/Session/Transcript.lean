import PolishCalc.Proofs.Session.Reply

/-!
# What a session prints

`Prints` says line by line what a session prints: nothing for a blank line, one
answer for any other, and nothing more from the first `exit` or `quit` on. The
transcript is all that it says (`prints_iff`). The transcript of more lines goes
on from that of the first ones unless one of them ends the session
(`transcript_append`, `transcript_append_of_exit`).
-/

namespace PolishCalc.Session

open Text (trim)

/-- The session takes the lines one after the other and prints `output`. -/
inductive Prints (session : Session) : (lines : List String) → (output : String) → Prop where
  | ended : Prints session [] ""
  | exit {line : String} {rest : List String} : trim line = "exit" ∨ trim line = "quit" →
      Prints session (line :: rest) ""
  | blank {line output : String} {rest : List String} : trim line = "" →
      Prints session rest output → Prints session (line :: rest) output
  | answer {line text output : String} {rest : List String} : session.reply line = .print text →
      Prints session rest output → Prints session (line :: rest) (text ++ "\n" ++ output)

variable {session : Session} {line : String} {rest : List String}

theorem reply_eq_exit_iff_trim :
    session.reply line = .exit ↔ trim line = "exit" ∨ trim line = "quit" := by
  rw [reply_eq_exit_iff, Token.tokenize_eq_atom_iff clean_exit,
    Token.tokenize_eq_atom_iff clean_quit]

theorem reply_eq_blank_iff_trim : session.reply line = .blank ↔ trim line = "" := by
  rw [reply_eq_blank_iff, Token.tokenize_eq_nil_iff]

/-! ## One line -/

variable (session) in
@[simp] theorem transcript_nil : session.transcript [] = "" :=
  rfl

theorem transcript_cons_of_exit (h : session.reply line = .exit) :
    session.transcript (line :: rest) = "" := by
  simp [transcript, replies, h]

theorem transcript_cons (h : session.reply line ≠ .exit) :
    session.transcript (line :: rest) = (session.reply line).output ++ session.transcript rest := by
  simp [transcript, replies, h]

/-! ## All lines -/

theorem Prints.eq_transcript {lines : List String} {output : String}
    (h : session.Prints lines output) : output = session.transcript lines := by
  induction h with
  | ended => rfl
  | exit word => rw [transcript_cons_of_exit (reply_eq_exit_iff_trim.mpr word)]
  | @blank line _ _ empty _ ih =>
    have reply : session.reply line = .blank := reply_eq_blank_iff_trim.mpr empty
    rw [transcript_cons (by simp [reply]), reply, ← ih, Reply.output, String.empty_append]
  | answer reply _ ih =>
    rw [transcript_cons (by simp [reply]), reply, ← ih, Reply.output]

variable (session) in
theorem prints_transcript (lines : List String) :
    session.Prints lines (session.transcript lines) := by
  induction lines with
  | nil => exact .ended
  | cons line rest ih =>
    cases reply : session.reply line with
    | exit =>
      rw [transcript_cons_of_exit reply]
      exact .exit (reply_eq_exit_iff_trim.mp reply)
    | blank =>
      rw [transcript_cons (by simp [reply]), reply, Reply.output, String.empty_append]
      exact .blank (reply_eq_blank_iff_trim.mp reply) ih
    | print text =>
      rw [transcript_cons (by simp [reply]), reply, Reply.output]
      exact .answer reply ih

theorem prints_iff {lines : List String} {output : String} :
    session.Prints lines output ↔ output = session.transcript lines :=
  ⟨Prints.eq_transcript, fun h => h ▸ session.prints_transcript lines⟩

/-! ## More lines -/

theorem transcript_append {lines : List String} (more : List String)
    (h : ∀ line ∈ lines, session.reply line ≠ .exit) :
    session.transcript (lines ++ more) = session.transcript lines ++ session.transcript more := by
  induction lines with
  | nil => simp
  | cons line rest ih =>
    obtain ⟨here, later⟩ := List.forall_mem_cons.mp h
    rw [List.cons_append, transcript_cons here, transcript_cons here, ih later,
      String.append_assoc]

theorem transcript_append_of_exit {lines : List String} (more : List String)
    (h : ∃ line ∈ lines, session.reply line = .exit) :
    session.transcript (lines ++ more) = session.transcript lines := by
  induction lines with
  | nil => simp at h
  | cons line rest ih =>
    rw [List.cons_append]
    by_cases here : session.reply line = .exit
    · rw [transcript_cons_of_exit here, transcript_cons_of_exit here]
    · have later : ∃ line ∈ rest, session.reply line = .exit := by
        simpa [here] using h
      rw [transcript_cons here, transcript_cons here, ih later]

end PolishCalc.Session
