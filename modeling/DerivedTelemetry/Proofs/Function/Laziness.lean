import DerivedTelemetry.Function.Logic
import DerivedTelemetry.Proofs.Decimal.Exact
import DerivedTelemetry.Proofs.Evaluation.Reading

/-!
# What lazy functions mean

As strategies `if`, `and` and `or` say step by step what becomes of each argument.  As
meanings they are what one expects of them: a choice between two branches, and a search
for the first argument that decides, zero being false and every other value true.
Arguments that are passed over do not occur in these meanings at all.
-/

namespace DerivedTelemetry

/-- The arguments from the left, as long as it is `wanted` whether they are different from
zero.  If all are as wanted, the result is `agreed`.  The first one that is not decides that it
is `contrary`, and none after it is evaluated. -/
def firstDeciding (wanted : Bool) (agreed contrary : Decimal) :
    List (Outcome Decimal) → Outcome Decimal
  | [] => pure agreed
  | first :: rest => do
    let value ← first
    if decide (value.value ≠ 0) = wanted then firstDeciding wanted agreed contrary rest
    else pure contrary

namespace Logic

/-- Only the branch that the condition chooses has a part in the meaning. -/
theorem meaning_ifThenElse (condition yes no : Outcome Decimal) :
    ifThenElse.meaning 3 [condition, yes, no] =
      condition >>= fun value => if value.value = 0 then no else yes := by
  change (condition >>= fun value => Strategy.meaning 3 (if value.isTrue = true then _ else _)
    [yes, no]) = _
  apply congrArg
  funext value
  by_cases hzero : value.value = 0
  · rw [Decimal.isTrue_eq, if_pos hzero, if_neg (by simpa using hzero)]
    exact Outcome.bind_pure no
  · rw [Decimal.isTrue_eq, if_neg hzero, if_pos (by simpa using hzero)]
    exact Outcome.bind_pure yes

theorem meaning_skipMany (total : Nat) (value : Decimal) (left : List (Outcome Decimal)) :
    (Strategy.skipMany (.finish value) left.length).meaning total left = pure value := by
  induction left with
  | nil => rfl
  | cons first rest ih =>
    rw [List.length_cons, Strategy.skipMany, Strategy.skipNext, Strategy.meaning]
    exact ih

theorem meaning_whileTruth (wanted : Bool) (total : Nat) (left : List (Outcome Decimal)) :
    (whileTruth wanted left.length).meaning total left =
      firstDeciding wanted (Decimal.ofBool wanted) (Decimal.ofBool !wanted) left := by
  induction left with
  | nil => rfl
  | cons first rest ih =>
    rw [List.length_cons, whileTruth, Strategy.takeNext, Strategy.meaning, firstDeciding]
    apply congrArg
    funext value
    rw [Decimal.isTrue_eq]
    split
    · exact ih
    · exact meaning_skipMany total _ rest

theorem meaning_variadic (name : String) (wanted : Bool) {arguments : List (Outcome Decimal)}
    (h : arguments ≠ []) :
    (variadic name wanted).meaning arguments.length arguments =
      firstDeciding wanted (Decimal.ofBool wanted) (Decimal.ofBool !wanted) arguments := by
  have hlength : ¬ arguments.length = 0 := fun hzero => h (List.eq_nil_of_length_eq_zero hzero)
  rw [variadic, Strategy.meaning, if_neg hlength]
  exact meaning_whileTruth wanted arguments.length arguments

end Logic

end DerivedTelemetry
