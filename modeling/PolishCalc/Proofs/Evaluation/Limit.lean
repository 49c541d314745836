import PolishCalc.Proofs.Evaluation.Value
import PolishCalc.Proofs.Expr.Reach

/-!
# The limit on levels

A result that does not complain about the depth stays the same wherever at least
as many levels are left (`Expr.evaluateAt_eq_of_room`), in particular under a
larger limit (`Expr.evaluateWithin_eq_of_le`). The limit for a `maxDepth` lies
above everything that can be read with it (`Expr.depth_lt_limitFor`).

Each error has one of three causes (`Expr.cause_of_evaluateAt_error`), so its
message tells whether it is about the depth (`EvalError.IsCause.kind_of_message`).
-/

namespace PolishCalc

/-- The result is no error about the depth. -/
def WithinLimit {α : Type} (result : Except EvalError α) : Prop :=
  ∀ error, result = .error error → error.kind ≠ .depthExceeded

namespace WithinLimit

variable {α β : Type} {x x' : Except EvalError α}

/-- If both parts of a computation keep such a result of their own, so does the whole. -/
theorem bind_eq {f f' : α → Except EvalError β} (h : WithinLimit (x >>= f))
    (first : WithinLimit x → x' = x) (next : ∀ a, WithinLimit (f a) → f' a = f a) :
    x' >>= f' = x >>= f := by
  cases x with
  | error error =>
    have failed : WithinLimit (.error error : Except EvalError α) := by
      intro _ same
      obtain rfl := Except.error.inj same
      exact h error rfl
    rw [first failed]
    rfl
  | ok a =>
    rw [first nofun]
    exact next a h

theorem of_mapError_inContext {form : Expr} (h : WithinLimit (x.mapError (·.inContext form))) :
    WithinLimit x := by
  rintro error rfl
  have kept := h (error.inContext form) rfl
  rwa [EvalError.kind_inContext] at kept

end WithinLimit

/-! ## Room for more levels -/

theorem Expr.evaluateAt_of_le {limit level : Nat} (e : Expr) (h : limit ≤ level) :
    e.evaluateAt limit level = .error (.depthExceeded limit) := by
  cases e <;> rw [Expr.evaluateAt, if_neg (Nat.not_lt.mpr h)]

theorem Expr.lt_of_withinLimit {limit level : Nat} {e : Expr}
    (h : WithinLimit (e.evaluateAt limit level)) : level < limit := by
  rcases Nat.lt_or_ge level limit with below | above
  · exact below
  · exact absurd rfl (h _ (e.evaluateAt_of_le above))

mutual

/-- Limit and level may both change: only the distance between them counts. -/
theorem Expr.evaluateAt_eq_of_room {limit limit' level level' : Nat} (e : Expr)
    (room : limit + level' ≤ limit' + level) (h : WithinLimit (e.evaluateAt limit level)) :
    e.evaluateAt limit' level' = e.evaluateAt limit level := by
  have below : level < limit := Expr.lt_of_withinLimit h
  have below' : level' < limit' := by omega
  cases e with
  | leaf text => rw [Expr.evaluateAt, Expr.evaluateAt, if_pos below, if_pos below']
  | form head operands =>
    rw [Expr.evaluateAt, if_pos below] at h
    rw [Expr.evaluateAt, Expr.evaluateAt, if_pos below, if_pos below']
    refine h.bind_eq (fun _ => rfl) fun operator h => h.bind_eq (fun h => ?_) fun _ _ => rfl
    rw [operands.evaluateAt_eq_of_room (by omega) h.of_mapError_inContext]

theorem Operands.evaluateAt_eq_of_room {limit limit' level level' : Nat} (operands : Operands)
    (room : limit + level' ≤ limit' + level) (h : WithinLimit (operands.evaluateAt limit level)) :
    operands.evaluateAt limit' level' = operands.evaluateAt limit level := by
  cases operands with
  | two first second =>
    rw [Operands.evaluateAt] at h
    rw [Operands.evaluateAt, Operands.evaluateAt]
    exact h.bind_eq (first.evaluateAt_eq_of_room room) fun _ h =>
      h.bind_eq (second.evaluateAt_eq_of_room room) fun _ _ => rfl
  | more first rest =>
    rw [Operands.evaluateAt] at h
    rw [Operands.evaluateAt, Operands.evaluateAt]
    exact h.bind_eq (first.evaluateAt_eq_of_room room) fun _ h =>
      h.bind_eq (rest.evaluateAt_eq_of_room room) fun _ _ => rfl

end

namespace Expr

theorem evaluateWithin_eq_of_le {limit limit' : Nat} {e : Expr} (le : limit ≤ limit')
    (h : WithinLimit (e.evaluateWithin limit)) :
    e.evaluateWithin limit' = e.evaluateWithin limit := by
  unfold evaluateWithin at h ⊢
  by_cases none : e.isPlaceholder = true
  · rw [if_pos none, if_pos none]
  · rw [if_neg none] at h
    rw [if_neg none, if_neg none]
    exact e.evaluateAt_eq_of_room (by omega) h

theorem withinLimit_evaluateWithin {limit : Nat} {e : Expr} (fits : e.depth < limit) :
    WithinLimit (e.evaluateWithin limit) := by
  intro error h
  rcases kind_of_evaluateWithin_error fits h with kind | kind <;> rw [kind] <;> decide

/-- Limits above the depth do not differ. -/
theorem evaluateWithin_eq_of_depth_lt {limit limit' : Nat} {e : Expr} (fits : e.depth < limit)
    (fits' : e.depth < limit') : e.evaluateWithin limit' = e.evaluateWithin limit := by
  rcases Nat.le_total limit limit' with le | le
  · exact evaluateWithin_eq_of_le le (withinLimit_evaluateWithin fits)
  · exact (evaluateWithin_eq_of_le le (withinLimit_evaluateWithin fits')).symm

/-! ## The limit for a `maxDepth` -/

theorem defaultLimit_le_limitFor (maxDepth : UInt64) : defaultLimit ≤ limitFor maxDepth :=
  Nat.le_max_left _ _

theorem limitFor_mono {maxDepth maxDepth' : UInt64} (h : maxDepth ≤ maxDepth') :
    limitFor maxDepth ≤ limitFor maxDepth' := by
  have := UInt64.le_iff_toNat_le.mp h
  unfold limitFor
  omega

/-- At the largest `maxDepth` of all, the limit is no larger than `maxDepth` itself. -/
theorem depth_lt_limitFor {maxDepth : UInt64} {e : Expr} (fits : e.depth ≤ maxDepth.toNat)
    (counted : e.depth < UInt64.size - 1) : e.depth < limitFor maxDepth := by
  unfold limitFor
  omega

end Expr

/-! ## Causes -/

/-- The error apart from where it lies. -/
def EvalError.cause (error : EvalError) : EvalError :=
  { error with context := none }

@[simp] theorem EvalError.cause_inContext (error : EvalError) (form : Expr) :
    (error.inContext form).cause = error.cause := by
  unfold inContext
  split <;> rfl

/-- The errors there are, without their contexts. -/
inductive EvalError.IsCause (limit : Nat) : EvalError → Prop where
  | unknownOperator (head : String) : IsCause limit (.unknownOperator head)
  | invalidNumber (text : String) : IsCause limit (.invalidNumber text)
  | depthExceeded : IsCause limit (.depthExceeded limit)

section Causes

variable {limit : Nat} {error : EvalError}

open EvalError (IsCause)

/-- What holds of the faults of all that is reached holds of the cause of every error. -/
theorem Expr.cause_of_evaluateAt_error {p : EvalError → Prop} (e : Expr) {level : Nat}
    (number : ∀ text, e.Reaches (.leaf text) → p (.invalidNumber text))
    (operator : ∀ head operands, e.Reaches (.form head operands) →
      p (.unknownOperator head.render))
    (depth : p (.depthExceeded limit)) (h : e.evaluateAt limit level = .error error) :
    p error.cause := by
  induction e using Expr.induction generalizing level error with
  | leaf text =>
    rw [evaluateAt] at h
    split at h
    · exact eq_of_leafValue_error h ▸ number text (.refl _)
    · exact Except.error.inj h ▸ depth
  | form head operands _ ih =>
    by_cases below : level < limit
    · rcases (evaluateAt_form_eq_error_iff below).mp h with unknown | ⟨_, inner, -, failed, rfl⟩
      · exact eq_of_headOperator_error unknown ▸ operator head operands (.refl _)
      · obtain ⟨x, mem, failed⟩ := Operands.exists_mem_of_evaluateAt_error failed
        rw [EvalError.cause_inContext]
        exact ih x mem (fun text reached => number text (.operand mem reached))
          (fun head operands reached => operator head operands (.operand mem reached)) failed
    · rw [evaluateAt, if_neg below] at h
      exact Except.error.inj h ▸ depth

theorem Expr.cause_of_evaluateWithin_error {e : Expr} (h : e.evaluateWithin limit = .error error) :
    IsCause limit error.cause := by
  unfold evaluateWithin at h
  split at h
  · obtain rfl := Except.error.inj h
    exact .unknownOperator _
  · exact e.cause_of_evaluateAt_error (fun text _ => .invalidNumber text)
      (fun head _ _ => .unknownOperator head.render) .depthExceeded h

end Causes

/-- No other error has the message of an error about the depth. -/
theorem EvalError.IsCause.kind_of_message {limit n : Nat} {error : EvalError}
    (h : IsCause limit error.cause) (said : error.message = (EvalError.depthExceeded n).message) :
    error.kind = .depthExceeded := by
  obtain ⟨kind, message, context⟩ := error
  simp only [cause] at h said ⊢
  cases h with
  | depthExceeded => rfl
  | unknownOperator head =>
    have := congrArg (fun s => s.toList.head?) said
    simp [EvalError.depthExceeded, withMessage] at this
  | invalidNumber text =>
    have := congrArg (fun s => s.toList.head?) said
    simp [EvalError.depthExceeded, withMessage] at this

end PolishCalc
