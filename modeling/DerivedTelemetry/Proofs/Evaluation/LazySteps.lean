import DerivedTelemetry.Evaluation.Call
import Mathlib.Logic.Relation

/-!
# A lazy call step by step

A strategy and the reader of the arguments take turns.  A point of their conversation is
what the strategy goes on with, what has become of the arguments so far, and the state of
the machine.  From point to point at most one argument is read, always the next one, so
that the arguments read so far and the state stay in step whatever the strategy does.

Following a strategy is a run of such steps, and every argument that the run has left is
passed over afterwards.
-/

namespace DerivedTelemetry.Call

/-- What has become of an argument. -/
inductive Use where
  | evaluated (value : Decimal)
  | skipped
  deriving DecidableEq

/-- One argument is read, with the comma before it. -/
inductive ReadsOne (expression : Eval Decimal) (index : Nat) : Use → State → State → Prop
  | evaluated {s t after : State} {value : Decimal}
      (hseparator : separator index s = (.ok (), t))
      (hvalue : expression t = (.ok value, after)) :
      ReadsOne expression index (.evaluated value) s after
  | skipped {s t after : State} {value : Decimal}
      (hseparator : separator index s = (.ok (), t))
      (hvalue : Eval.quietly expression t = (.ok value, after)) :
      ReadsOne expression index .skipped s after

/-- Arguments are read one after another, each of them once. -/
inductive ReadsEach (expression : Eval Decimal) : Nat → List Use → State → State → Prop
  | nil (index : Nat) (s : State) : ReadsEach expression index [] s s
  | cons {index : Nat} {use : Use} {uses : List Use} {s t after : State}
      (hfirst : ReadsOne expression index use s t)
      (hothers : ReadsEach expression (index + 1) uses t after) :
      ReadsEach expression index (use :: uses) s after

/-- A point of a lazy call. -/
structure Point where
  strategy : Strategy
  uses : List Use
  state : State

/-- One step of a strategy in a call with `total` arguments.  A step past the last of them
is refused, and nothing is read. -/
inductive Step (expression : Eval Decimal) (total : Nat) : Point → Point → Prop
  | asked {next : Nat → Strategy} {uses : List Use} {s : State} :
      Step expression total ⟨.ask next, uses, s⟩ ⟨next (total - uses.length), uses, s⟩
  | evaluated {next : Decimal → Strategy} {refused : Fault → Strategy} {uses : List Use}
      {s t : State} {value : Decimal} (hleft : uses.length < total)
      (hread : ReadsOne expression uses.length (.evaluated value) s t) :
      Step expression total ⟨.take next refused, uses, s⟩
        ⟨next value, uses ++ [.evaluated value], t⟩
  | notEvaluated {next : Decimal → Strategy} {refused : Fault → Strategy} {uses : List Use}
      {s : State} (hnone : total ≤ uses.length) :
      Step expression total ⟨.take next refused, uses, s⟩
        ⟨refused (Strategy.pastEnd total), uses, s⟩
  | skipped {next : Strategy} {refused : Fault → Strategy} {uses : List Use} {s t : State}
      (hleft : uses.length < total) (hread : ReadsOne expression uses.length .skipped s t) :
      Step expression total ⟨.skip next refused, uses, s⟩ ⟨next, uses ++ [.skipped], t⟩
  | notSkipped {next : Strategy} {refused : Fault → Strategy} {uses : List Use} {s : State}
      (hnone : total ≤ uses.length) :
      Step expression total ⟨.skip next refused, uses, s⟩
        ⟨refused (Strategy.pastEnd total), uses, s⟩

/-- Any number of steps. -/
abbrev Steps (expression : Eval Decimal) (total : Nat) : Point → Point → Prop :=
  Relation.ReflTransGen (Step expression total)

variable {expression : Eval Decimal} {total index : Nat} {s t after : State}
  {uses more : List Use} {point next : Point}

/-! ### Arguments in a row -/

theorem ReadsEach.append (h : ReadsEach expression index uses s t)
    (hmore : ReadsEach expression (index + uses.length) more t after) :
    ReadsEach expression index (uses ++ more) s after := by
  induction h with
  | nil index s => exact hmore
  | cons hfirst hothers ih =>
    rename_i index use uses s t between
    refine .cons hfirst (ih ?_)
    rwa [List.length_cons, Nat.add_comm uses.length 1, ← Nat.add_assoc] at hmore

/-- Evaluating arguments reads each of them. -/
theorem readsEach_of_values {count : Nat} {given : List Decimal}
    (h : values expression index count s = (.ok given, after)) :
    ReadsEach expression index (given.map .evaluated) s after ∧ given.length = count := by
  induction count generalizing index s given with
  | zero =>
    cases h
    exact ⟨.nil index _, rfl⟩
  | succ count ih =>
    rw [values] at h
    obtain ⟨_, t, hseparator, h⟩ := Eval.bind_eq_ok.mp h
    obtain ⟨value, u, hvalue, h⟩ := Eval.bind_eq_ok.mp h
    obtain ⟨others, v, hothers, h⟩ := Eval.bind_eq_ok.mp h
    cases h
    obtain ⟨hread, hlength⟩ := ih hothers
    exact ⟨.cons (.evaluated hseparator hvalue) hread, congrArg (· + 1) hlength⟩

/-- Passing over arguments reads each of them. -/
theorem readsEach_of_passOver {count : Nat}
    (h : passOver expression index count s = (.ok (), after)) :
    ReadsEach expression index (.replicate count .skipped) s after := by
  induction count generalizing index s with
  | zero =>
    cases h
    exact .nil index _
  | succ count ih =>
    rw [passOver] at h
    obtain ⟨_, t, hseparator, h⟩ := Eval.bind_eq_ok.mp h
    obtain ⟨value, u, hvalue, h⟩ := Eval.bind_eq_ok.mp h
    exact .cons (.skipped hseparator hvalue) (ih h)

/-! ### Steps -/

/-- What a step keeps: the arguments that it reads are the next ones, and no more are read
than there are. -/
theorem Step.kept (h : Step expression total point next) :
    ∃ more, next.uses = point.uses ++ more ∧
      ReadsEach expression point.uses.length more point.state next.state ∧
      (point.uses.length ≤ total → next.uses.length ≤ total) := by
  cases h with
  | asked => exact ⟨[], (List.append_nil _).symm, .nil _ _, id⟩
  | evaluated hleft hread =>
    refine ⟨_, rfl, .cons hread (.nil _ _), fun _ => ?_⟩
    rw [List.length_append, List.length_singleton]
    exact hleft
  | notEvaluated hnone => exact ⟨[], (List.append_nil _).symm, .nil _ _, id⟩
  | skipped hleft hread =>
    refine ⟨_, rfl, .cons hread (.nil _ _), fun _ => ?_⟩
    rw [List.length_append, List.length_singleton]
    exact hleft
  | notSkipped hnone => exact ⟨[], (List.append_nil _).symm, .nil _ _, id⟩

/-- Wherever a strategy has come to, it has read the first arguments of its call, each of
them once. -/
theorem Steps.kept {strategy : Strategy} (h : Steps expression total ⟨strategy, [], s⟩ point) :
    point.uses.length ≤ total ∧ ReadsEach expression 0 point.uses s point.state := by
  induction h with
  | refl => exact ⟨Nat.zero_le total, .nil 0 s⟩
  | tail _ hstep ih =>
    obtain ⟨hcount, hread⟩ := ih
    obtain ⟨more, huses, hmore, hnext⟩ := hstep.kept
    refine ⟨hnext hcount, ?_⟩
    rw [huses]
    refine hread.append ?_
    rwa [Nat.zero_add]

/-! ### Following a strategy -/

theorem ReadsOne.bind_evaluated {α : Type} {value : Decimal} {following : Decimal → Eval α}
    (h : ReadsOne expression index (.evaluated value) s after) :
    (do
      separator index
      let given ← expression
      following given : Eval α) s = following value after := by
  cases h with
  | evaluated hseparator hvalue => rw [Eval.bind_of_ok hseparator, Eval.bind_of_ok hvalue]

theorem ReadsOne.bind_skipped {α : Type} {following : Eval α}
    (h : ReadsOne expression index .skipped s after) :
    (do
      separator index
      let _ ← Eval.quietly expression
      following : Eval α) s = following after := by
  cases h with
  | skipped hseparator hvalue => rw [Eval.bind_of_ok hseparator, Eval.bind_of_ok hvalue]

/-- A strategy that is followed from a point is followed from the next one on. -/
theorem Step.follow_eq (h : Step expression total point next) :
    follow expression total point.strategy point.uses.length point.state =
      follow expression total next.strategy next.uses.length next.state := by
  cases h with
  | asked => rfl
  | evaluated hleft hread =>
    rw [follow, if_pos hleft, hread.bind_evaluated, List.length_append, List.length_singleton]
  | notEvaluated hnone => rw [follow, if_neg (Nat.not_lt.mpr hnone)]
  | skipped hleft hread =>
    rw [follow, if_pos hleft, hread.bind_skipped, List.length_append, List.length_singleton]
  | notSkipped hnone => rw [follow, if_neg (Nat.not_lt.mpr hnone)]

theorem Steps.follow_eq (h : Steps expression total point next) :
    follow expression total point.strategy point.uses.length point.state =
      follow expression total next.strategy next.uses.length next.state := by
  induction h with
  | refl => rfl
  | tail _ hstep ih => rw [ih, hstep.follow_eq]

theorem bind_separator_eq_ok {α : Type} {argument : Eval Decimal} {next : Decimal → Eval α}
    {result : α} (h : (do
      separator index
      let value ← argument
      next value : Eval α) s = (.ok result, after)) :
    ∃ t value u, separator index s = (.ok (), t) ∧ argument t = (.ok value, u) ∧
      next value u = (.ok result, after) := by
  obtain ⟨_, t, hseparator, h⟩ := Eval.bind_eq_ok.mp h
  obtain ⟨value, u, hvalue, h⟩ := Eval.bind_eq_ok.mp h
  exact ⟨t, value, u, hseparator, hvalue, h⟩

/-- A strategy that is followed to its end takes steps, and has consumed as many arguments as
were read. -/
theorem steps_of_follow {strategy : Strategy} (uses : List Use) {value : Decimal}
    {consumed : Nat}
    (h : follow expression total strategy uses.length s = (.ok (value, consumed), after)) :
    ∃ taken, taken.length = consumed ∧
      Steps expression total ⟨strategy, uses, s⟩ ⟨.finish value, taken, after⟩ := by
  induction strategy generalizing uses s with
  | finish value =>
    cases h
    exact ⟨uses, rfl, .refl⟩
  | fail fault => cases h
  | ask next ih =>
    obtain ⟨taken, hlength, hsteps⟩ := ih _ uses h
    exact ⟨taken, hlength, .head .asked hsteps⟩
  | take next refused ih ihRefused =>
    rw [follow] at h
    split at h
    · rename_i hleft
      obtain ⟨t, given, u, hseparator, hgiven, h⟩ := bind_separator_eq_ok h
      obtain ⟨taken, hlength, hsteps⟩ :=
        ih given (uses ++ [.evaluated given]) (by rwa [List.length_append])
      exact ⟨taken, hlength, .head (.evaluated hleft (.evaluated hseparator hgiven)) hsteps⟩
    · rename_i hnone
      obtain ⟨taken, hlength, hsteps⟩ := ihRefused _ uses h
      exact ⟨taken, hlength, .head (.notEvaluated (Nat.le_of_not_lt hnone)) hsteps⟩
  | skip next refused ih ihRefused =>
    rw [follow] at h
    split at h
    · rename_i hleft
      obtain ⟨t, given, u, hseparator, hgiven, h⟩ := bind_separator_eq_ok h
      obtain ⟨taken, hlength, hsteps⟩ :=
        ih (uses ++ [.skipped]) (by rwa [List.length_append])
      exact ⟨taken, hlength, .head (.skipped hleft (.skipped hseparator hgiven)) hsteps⟩
    · rename_i hnone
      obtain ⟨taken, hlength, hsteps⟩ := ihRefused _ uses h
      exact ⟨taken, hlength, .head (.notSkipped (Nat.le_of_not_lt hnone)) hsteps⟩

/-- A lazy call has a value when its strategy has come to it, and when what the strategy has
left is passed over. -/
theorem steps_of_lazyValue {strategy : Strategy} {value : Decimal}
    (h : lazyValue expression strategy total s = (.ok value, after)) :
    ∃ taken t, Steps expression total ⟨strategy, [], s⟩ ⟨.finish value, taken, t⟩ ∧
      taken.length ≤ total ∧
      ReadsEach expression 0 (taken ++ .replicate (total - taken.length) .skipped) s after := by
  rw [lazyValue] at h
  obtain ⟨⟨reached, consumed⟩, t, hfollow, h⟩ := Eval.bind_eq_ok.mp h
  obtain ⟨_, u, hpassed, h⟩ := Eval.bind_eq_ok.mp h
  cases h
  obtain ⟨taken, rfl, hsteps⟩ := steps_of_follow [] hfollow
  obtain ⟨hcount, hread⟩ := Steps.kept hsteps
  refine ⟨taken, t, hsteps, hcount, hread.append ?_⟩
  rw [Nat.zero_add]
  exact readsEach_of_passOver hpassed

end DerivedTelemetry.Call
