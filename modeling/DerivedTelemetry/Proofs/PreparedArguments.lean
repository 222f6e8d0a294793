import DerivedTelemetry.Function.Logic
import DerivedTelemetry.Proofs.Decimal.Exact

/-!
# Logical functions over prepared arguments

Where the arguments are known beforehand, each a value or a fault, it can be said which of
them a logical function evaluates, which it passes over and which it does not reach.  A search
for an argument that decides evaluates all before that argument and itself, and passes over
the rest.  A fault ends it on the spot, so that the arguments after it are left as they are.

What is passed over may hold any fault.  It never becomes that of the call.
-/

namespace DerivedTelemetry.Logic

open Strategy

/-- An argument ends a search by its truth, if that is not the one that is gone through, or by
its fault.  True is what is different from zero. -/
def decides (wanted : Bool) : Except Fault Decimal → Bool
  | .ok value => decide (value.value ≠ 0) != wanted
  | .error _ => true

theorem decides_ok (wanted : Bool) (value : Decimal) :
    decides wanted (.ok value) = (value.isTrue != wanted) := by
  rw [decides, Decimal.isTrue_eq]

variable {wanted : Bool} {total : Nat} {left before after : List (Except Fault Decimal)}
  {argument : Except Fault Decimal} {value : Decimal} {evaluated skipped : List Nat}

/-! ### One argument -/

/-- The arguments after the next one start one further on. -/
theorem index_tail (h : left.length + 1 ≤ total) :
    total - left.length = total - (left.length + 1) + 1 := by
  omega

/-- An argument that does not decide is evaluated, and the search goes on after it. -/
theorem run_whileTruth_undecided (h : ¬decides wanted argument = true) :
    (whileTruth wanted (left.length + 1)).run ⟨total, argument :: left, evaluated, skipped⟩ =
      (whileTruth wanted left.length).run
        ⟨total, left, evaluated ++ [total - (left.length + 1)], skipped⟩ := by
  cases argument with
  | error fault => exact absurd rfl h
  | ok value =>
    have htruth : value.isTrue = wanted := by simpa [decides_ok] using h
    change (if value.isTrue = wanted then _ else _ : Strategy).run _ = _
    rw [if_pos htruth]
    rfl

/-- All arguments that are left are passed over, and none is evaluated. -/
theorem run_skipMany (value : Decimal) (h : left.length ≤ total) :
    (skipMany (.finish value) left.length).run ⟨total, left, evaluated, skipped⟩ =
      (.ok value, ⟨total, [], evaluated,
        skipped ++ List.range' (total - left.length) left.length⟩) := by
  induction left generalizing skipped with
  | nil => rw [List.length_nil, List.range'_zero, List.append_nil]; rfl
  | cons first rest ih =>
    rw [List.length_cons] at h ⊢
    change (skipMany (.finish value) rest.length).run
      ⟨total, rest, evaluated, skipped ++ [total - (rest.length + 1)]⟩ = _
    rw [ih (Nat.le_of_succ_le h), index_tail h, List.range'_succ, List.append_assoc,
      List.singleton_append]

/-- A value that decides is the last to be evaluated. -/
theorem run_whileTruth_decided (hvalue : decides wanted (.ok value) = true)
    (h : left.length + 1 ≤ total) :
    (whileTruth wanted (left.length + 1)).run ⟨total, .ok value :: left, evaluated, skipped⟩ =
      (.ok (Decimal.ofBool !wanted), ⟨total, [], evaluated ++ [total - (left.length + 1)],
        skipped ++ List.range' (total - left.length) left.length⟩) := by
  have htruth : ¬value.isTrue = wanted := by simpa [decides_ok] using hvalue
  change (if value.isTrue = wanted then _ else _ : Strategy).run _ = _
  rw [if_neg htruth]
  exact run_skipMany _ (Nat.le_of_succ_le h)

/-- A fault ends the search, and what comes after it is not reached. -/
theorem run_whileTruth_failed (fault : Fault) :
    (whileTruth wanted (left.length + 1)).run ⟨total, .error fault :: left, evaluated, skipped⟩ =
      (.error fault, ⟨total, left, evaluated ++ [total - (left.length + 1)], skipped⟩) := rfl

/-! ### All arguments -/

/-- The search goes through all arguments that do not decide. -/
theorem run_whileTruth_append (hbefore : ∀ argument ∈ before, ¬decides wanted argument = true)
    (h : (before ++ left).length ≤ total) :
    (whileTruth wanted (before ++ left).length).run
        ⟨total, before ++ left, evaluated, skipped⟩ =
      (whileTruth wanted left.length).run ⟨total, left,
        evaluated ++ List.range' (total - (before ++ left).length) before.length, skipped⟩ := by
  -- The total stays while the list gets shorter: that is what moves the index on.
  induction before generalizing evaluated with
  | nil => rw [List.length_nil, List.range'_zero, List.append_nil, List.nil_append]
  | cons first rest ih =>
    rw [List.cons_append, List.length_cons] at h ⊢
    rw [run_whileTruth_undecided (hbefore first List.mem_cons_self),
      ih (fun argument hargument => hbefore argument (List.mem_cons_of_mem first hargument))
        (Nat.le_of_succ_le h),
      index_tail h, List.length_cons, List.range'_succ, List.append_assoc, List.singleton_append]

/-- A search comes to the first argument that decides with all before it evaluated. -/
theorem run_of_append (hbefore : ∀ argument ∈ before, ¬decides wanted argument = true) :
    (whileTruth wanted (before ++ left).length).run (.of (before ++ left)) =
      (whileTruth wanted left.length).run
        ⟨(before ++ left).length, left, List.range before.length, []⟩ := by
  have hrun : (whileTruth wanted (before ++ left).length).run (.of (before ++ left)) = _ :=
    run_whileTruth_append hbefore (Nat.le_refl _)
  rw [Nat.sub_self, List.nil_append, ← List.range_eq_range'] at hrun
  exact hrun

/-- How far a search has come when it has evaluated one argument more. -/
theorem index_append_cons (before after : List (Except Fault Decimal))
    (argument : Except Fault Decimal) :
    (before ++ argument :: after).length - (after.length + 1) = before.length ∧
      (before ++ argument :: after).length - after.length = before.length + 1 := by
  rw [List.length_append, List.length_cons]
  omega

theorem run_of_decided (hbefore : ∀ argument ∈ before, ¬decides wanted argument = true)
    (hvalue : decides wanted (.ok value) = true) :
    (whileTruth wanted (before ++ .ok value :: after).length).run
        (.of (before ++ .ok value :: after)) =
      (.ok (Decimal.ofBool !wanted), ⟨(before ++ .ok value :: after).length, [],
        List.range (before.length + 1), List.range' (before.length + 1) after.length⟩) := by
  obtain ⟨hindex, hnext⟩ := index_append_cons before after (.ok value)
  have hlength : after.length + 1 ≤ (before ++ .ok value :: after).length := by
    rw [List.length_append, List.length_cons]
    exact Nat.le_add_left _ _
  rw [run_of_append hbefore, List.length_cons, run_whileTruth_decided hvalue hlength, hindex,
    hnext, ← List.range_succ, List.nil_append]

theorem run_of_failed (hbefore : ∀ argument ∈ before, ¬decides wanted argument = true)
    (fault : Fault) :
    (whileTruth wanted (before ++ .error fault :: after).length).run
        (.of (before ++ .error fault :: after)) =
      (.error fault, ⟨(before ++ .error fault :: after).length, after,
        List.range (before.length + 1), []⟩) := by
  rw [run_of_append hbefore, List.length_cons, run_whileTruth_failed,
    (index_append_cons before after (.error fault)).1, ← List.range_succ]

/-- The index of the first argument that decides. -/
theorem findIdx_append_cons (hbefore : ∀ argument ∈ before, ¬decides wanted argument = true)
    (hargument : decides wanted argument = true) :
    (before ++ argument :: after).findIdx (decides wanted) = before.length := by
  have hnone : before.findIdx (decides wanted) = before.length :=
    List.findIdx_eq_length.mpr fun argument hargument => by simpa using hbefore argument hargument
  rw [List.findIdx_append, hnone, if_neg (Nat.lt_irrefl _), List.findIdx_cons, hargument,
    cond_true, Nat.zero_add]

/-- The result of a search, by the first argument that decides: `agreed` if there is none. -/
def verdict (agreed contrary : Decimal) : Option (Except Fault Decimal) → Except Fault Decimal
  | none => .ok agreed
  | some (.ok _) => .ok contrary
  | some (.error fault) => .error fault

/-- What has become of the arguments of a search, and what its result is. -/
structure Searched (wanted : Bool) (agreed contrary : Decimal)
    (values : List (Except Fault Decimal)) (outcome : Except Fault Decimal × Prepared) :
    Prop where
  result : outcome.1 = verdict agreed contrary (values.find? (decides wanted))
  /-- The first argument that decides is the last to be evaluated. -/
  evaluated : outcome.2.evaluated =
    List.range (min (values.findIdx (decides wanted) + 1) values.length)
  /-- If the search has a value, all the rest have been passed over. -/
  passed : ∀ value, outcome.1 = .ok value →
    outcome.2.left = [] ∧ outcome.2.skipped = List.range' (values.findIdx (decides wanted) + 1)
      (values.length - (values.findIdx (decides wanted) + 1))
  /-- If it has a fault, the rest are as they were. -/
  kept : ∀ fault, outcome.1 = .error fault →
    outcome.2.left = values.drop (values.findIdx (decides wanted) + 1) ∧ outcome.2.skipped = []

/-- A search that no argument decides evaluates all of them. -/
theorem searched_of_undecided {values : List (Except Fault Decimal)}
    (h : ∀ argument ∈ values, ¬decides wanted argument = true) :
    Searched wanted (Decimal.ofBool wanted) (Decimal.ofBool !wanted) values
      ((whileTruth wanted values.length).run (.of values)) := by
  have hindex : values.findIdx (decides wanted) = values.length :=
    List.findIdx_eq_length.mpr fun argument hargument => by simpa using h argument hargument
  have hrun : (whileTruth wanted values.length).run (.of values) =
      (.ok (Decimal.ofBool wanted), ⟨values.length, [], List.range values.length, []⟩) := by
    have hall : (whileTruth wanted (values ++ []).length).run (.of (values ++ [])) = _ :=
      run_of_append h
    rw [List.append_nil] at hall
    exact hall
  rw [hrun]
  constructor
  case result => rw [List.find?_eq_none.mpr h, verdict]
  case evaluated => rw [hindex, Nat.min_eq_right (Nat.le_succ _)]
  case passed =>
    intro value _
    rw [hindex, Nat.sub_eq_zero_of_le (Nat.le_succ _), List.range'_zero]
    exact ⟨rfl, rfl⟩
  case kept =>
    intro fault hfault
    cases hfault

/-- A search ends at the first argument that decides. -/
theorem searched_of_decided (hbefore : ∀ argument ∈ before, ¬decides wanted argument = true)
    (hargument : decides wanted argument = true) :
    Searched wanted (Decimal.ofBool wanted) (Decimal.ofBool !wanted)
      (before ++ argument :: after)
      ((whileTruth wanted (before ++ argument :: after).length).run
        (.of (before ++ argument :: after))) := by
  have hindex : (before ++ argument :: after).findIdx (decides wanted) = before.length :=
    findIdx_append_cons hbefore hargument
  have hfind : (before ++ argument :: after).find? (decides wanted) = some argument :=
    List.find?_eq_some_iff_append.mpr
      ⟨hargument, before, after, rfl, fun argument hargument => by
        simpa using hbefore argument hargument⟩
  have hlength : (before ++ argument :: after).length = before.length + 1 + after.length := by
    rw [List.length_append, List.length_cons, Nat.add_assoc, Nat.add_comm 1]
  have hevaluated : min (before.length + 1) (before ++ argument :: after).length =
      before.length + 1 := by
    rw [hlength, Nat.min_eq_left (Nat.le_add_right _ _)]
  cases argument with
  | ok value =>
    rw [run_of_decided hbefore hargument]
    constructor
    case result => rw [hfind, verdict]
    case evaluated => rw [hindex, hevaluated]
    case passed =>
      intro value _
      rw [hindex, hlength, Nat.add_sub_cancel_left]
      exact ⟨rfl, rfl⟩
    case kept =>
      intro fault hfault
      cases hfault
  | error fault =>
    rw [run_of_failed hbefore]
    constructor
    case result => rw [hfind, verdict]
    case evaluated => rw [hindex, hevaluated]
    case passed =>
      intro value hvalue
      cases hvalue
    case kept =>
      intro fault _
      rw [hindex, ← List.drop_drop, List.drop_left, List.drop_one, List.tail_cons]
      exact ⟨rfl, rfl⟩

/-- What a search does with its arguments, wherever they are decided. -/
theorem searched (values : List (Except Fault Decimal)) :
    Searched wanted (Decimal.ofBool wanted) (Decimal.ofBool !wanted) values
      ((whileTruth wanted values.length).run (.of values)) := by
  cases hfind : values.find? (decides wanted) with
  | none => exact searched_of_undecided (List.find?_eq_none.mp hfind)
  | some argument =>
    obtain ⟨hargument, before, after, rfl, hbefore⟩ := List.find?_eq_some_iff_append.mp hfind
    exact searched_of_decided (by simpa using hbefore) hargument

/-! ### A condition and two branches -/

/-- What has become of a condition and two branches, and what the result is. -/
structure Chosen (condition yes no : Except Fault Decimal)
    (outcome : Except Fault Decimal × Prepared) : Prop where
  /-- Without a condition, no branch is looked at. -/
  undecided : ∀ fault, condition = .error fault →
    outcome = (.error fault, ⟨3, [yes, no], [0], []⟩)
  first : ∀ truth value, condition = .ok truth → truth.value ≠ 0 → yes = .ok value →
    outcome = (.ok value, ⟨3, [], [0, 1], [2]⟩)
  /-- A fault of the first branch comes before the second is passed over. -/
  firstFailed : ∀ truth fault, condition = .ok truth → truth.value ≠ 0 → yes = .error fault →
    outcome = (.error fault, ⟨3, [no], [0, 1], []⟩)
  /-- The first branch is passed over before the second has its value or its fault. -/
  second : ∀ truth, condition = .ok truth → truth.value = 0 →
    outcome = (no, ⟨3, [], [0, 2], [1]⟩)

theorem chosen (condition yes no : Except Fault Decimal) :
    Chosen condition yes no (ifThenElse.run (.of [condition, yes, no])) := by
  constructor
  case undecided =>
    rintro fault rfl
    rfl
  case first =>
    rintro truth value rfl htruth rfl
    change (if truth.isTrue = true then _ else _ : Strategy).run _ = _
    rw [Decimal.isTrue_eq, if_pos (decide_eq_true htruth)]
    rfl
  case firstFailed =>
    rintro truth fault rfl htruth rfl
    change (if truth.isTrue = true then _ else _ : Strategy).run _ = _
    rw [Decimal.isTrue_eq, if_pos (decide_eq_true htruth)]
    rfl
  case second =>
    rintro truth rfl hzero
    have hfalse : ¬truth.isTrue = true := by simpa [Decimal.isTrue_eq] using hzero
    change (if truth.isTrue = true then _ else _ : Strategy).run _ = _
    rw [if_neg hfalse]
    cases no with
    | ok value => rfl
    | error fault => rfl

/-! ### The logical functions -/

/-- Where there are arguments, a logical function is a search. -/
theorem run_variadic (name : String) {values : List (Except Fault Decimal)} (h : values ≠ []) :
    (variadic name wanted).run (.of values) =
      (whileTruth wanted values.length).run (.of values) := by
  change (if values.length = 0 then _ else _ : Strategy).run _ = _
  rw [if_neg (mt List.length_eq_zero_iff.mp h)]
  rfl

/-- Over prepared arguments, a conjunction is a search through what is true, which it answers
with one, and a disjunction a search through what is not, which it answers with zero.  A
condition looks at the branch that it chooses.  With a wrong number of arguments none of them
looks at any. -/
theorem run_prepared (values : List (Except Fault Decimal)) :
    (values ≠ [] → Searched true .one .zero values (and.run (.of values)) ∧
      Searched false .zero .one values (or.run (.of values))) ∧
    (∀ condition yes no, values = [condition, yes, no] →
      Chosen condition yes no (ifThenElse.run (.of values))) ∧
    (values = [] →
      and.run (.of values) = (.error (.argumentCount "and" (.atLeast 1) 0), .of values) ∧
      or.run (.of values) = (.error (.argumentCount "or" (.atLeast 1) 0), .of values)) ∧
    (values.length ≠ 3 → ifThenElse.run (.of values) =
      (.error (.argumentCount "if" (.exact 3) values.length), .of values)) := by
  refine ⟨fun hsome => ⟨?_, ?_⟩, ?_, ?_, fun hcount => ?_⟩
  · rw [and, run_variadic "and" hsome]
    exact searched values
  · rw [or, run_variadic "or" hsome]
    exact searched values
  · rintro condition yes no rfl
    exact chosen condition yes no
  · rintro rfl
    exact ⟨rfl, rfl⟩
  · change (if values.length = 3 then _ else _ : Strategy).run _ = _
    rw [if_neg hcount]
    rfl

/-- The fault of an argument that is passed over is not that of the call.  Where no argument
decides, a conjunction is one and a disjunction zero; where one does, it is the other way
around. -/
theorem run_prepared_of_unreached_fault :
    let failed : Except Fault Decimal := .error (.arithmetic .divisionByZero)
    let two : Except Fault Decimal := .ok ⟨false, 20, 1⟩
    let nought : Except Fault Decimal := .ok ⟨true, 0, 1⟩
    (and.run (.of [two, nought, failed])).1 = .ok ⟨false, 0, 0⟩ ∧
    (and.run (.of [two, nought, failed])).2.skipped = [2] ∧
    (and.run (.of [two, two])).1 = .ok ⟨false, 1, 0⟩ ∧
    (and.run (.of [two, two])).2.evaluated = [0, 1] ∧
    (or.run (.of [nought, two, failed])).1 = .ok ⟨false, 1, 0⟩ ∧
    (or.run (.of [nought, two, failed])).2.evaluated = [0, 1] ∧
    (or.run (.of [nought, nought])).1 = .ok ⟨false, 0, 0⟩ ∧
    ifThenElse.run (.of [two, nought, failed]) = (nought, ⟨3, [], [0, 1], [2]⟩) ∧
    (or.run (.of [])).1 = .error (.argumentCount "or" (.atLeast 1) 0) ∧
    (ifThenElse.run (.of [])).1 = .error (.argumentCount "if" (.exact 3) 0) := by
  intro failed two nought
  have htrue : Decimal.value ⟨false, 20, 1⟩ ≠ 0 := by decide +kernel
  obtain ⟨hdecided, hchosen, -, -⟩ := run_prepared [two, nought, failed]
  obtain ⟨hmixed, -, -, -⟩ := run_prepared [nought, two, failed]
  obtain ⟨htwos, -, -, -⟩ := run_prepared [two, two]
  obtain ⟨hnoughts, -, -, -⟩ := run_prepared [nought, nought]
  obtain ⟨-, -, hnone, hcount⟩ := run_prepared []
  have hand := (hdecided (List.cons_ne_nil _ _)).1
  have hor := (hmixed (List.cons_ne_nil _ _)).2
  have hagreed := (htwos (List.cons_ne_nil _ _)).1
  have hzero : (and.run (.of [two, nought, failed])).1 = .ok ⟨false, 0, 0⟩ :=
    hand.result.trans (by decide +kernel)
  exact ⟨hzero, (hand.passed _ hzero).2.trans (by decide +kernel),
    hagreed.result.trans (by decide +kernel), hagreed.evaluated.trans (by decide +kernel),
    hor.result.trans (by decide +kernel), hor.evaluated.trans (by decide +kernel),
    (hnoughts (List.cons_ne_nil _ _)).2.result.trans (by decide +kernel),
    (hchosen _ _ _ rfl).first _ _ rfl htrue rfl,
    congrArg Prod.fst (hnone rfl).2, congrArg Prod.fst (hcount (by decide))⟩

end DerivedTelemetry.Logic
