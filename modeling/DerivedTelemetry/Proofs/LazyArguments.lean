import DerivedTelemetry.Proofs.Evaluation.Foresight
import DerivedTelemetry.Proofs.Evaluation.Grading
import Mathlib.Control.Monad.Basic

/-!
# The arguments of a lazy call

Whatever a lazy function does with the arguments of its call, the machine stays in step with
it.  At every point it stands behind the arguments that the function has evaluated or
skipped, and in the end every argument has been read once and the parenthesis is passed that
closes the call.  That is where a run that only checks the text comes to as well.
-/

namespace DerivedTelemetry

open ArgumentCount Grammar
open DerivedTelemetry.Derivation (separated)

/-! ### The text of the arguments -/

/-- The grading that says nothing of values. -/
def Grading.plain : Grading := ⟨fun _ => 0, fun _ _ => True, fun _ => True⟩

theorem Strategy.closed_plain (strategy : Strategy) : strategy.Closed fun _ => True := by
  induction strategy with
  | finish value => trivial
  | fail fault => trivial
  | ask next ih => exact ih
  | take next refused ih ihRefused => exact ⟨fun value _ => ih value, ihRefused⟩
  | skip next refused ih ihRefused => exact ⟨ih, ihRefused⟩

theorem Grading.sound_plain (env : Environment) : Grading.plain.Sound env where
  mono _ _ := trivial
  ofBool _ := trivial
  literal _ _ := trivial
  bound _ _ _ := trivial
  neg _ := trivial
  product _ _ _ _ := trivial
  sum _ _ _ _ := trivial
  function name entry _ := by
    cases entry.implementation with
    | numeric arity function => exact fun _ _ _ _ _ => trivial
    | lazy arity strategy => exact fun _ => strategy.closed_plain
    | statistical kinds reduction => exact fun _ _ _ _ _ _ _ _ _ => trivial

/-- An argument of a call, as the grammar reads it. -/
def argument (env : Environment) (levels : Nat) : Eval Decimal :=
  comparison env (factor env levels)

theorem argument_consumes (env : Environment) (levels : Nat) (s : State)
    (hs : Terminated s.symbols) : Consumes (argument env levels) s Grading.plain.Read :=
  comparison_read (Grading.sound_plain env)
    (fun _ ht => factor_read (Grading.sound_plain env) levels ht) hs

/-- The tokens are those of arguments in a row, with commas between them. -/
def IsRow (tokens : List Token) (arguments : List (List Symbol)) : Prop :=
  tokens.map (·.symbol) = separated arguments ∧ ∀ argument ∈ arguments, Phrase argument

/-- Arguments that were each read once stand in a row, and nothing else has been passed. -/
theorem readsEach_row {env : Environment} {levels : Nat} {uses : List Call.Use}
    {s after : State} (h : Call.ReadsEach (argument env levels) 0 uses s after)
    (hs : Terminated s.symbols) :
    ∃ front arguments, Passed s front after ∧ arguments.length = uses.length ∧
      IsRow front arguments := by
  obtain ⟨front, hpassed, -, arguments, hlength, hphrases, hsymbols⟩ :=
    readsEach_read (Grading.sound_plain env) (argument_consumes env levels) h hs
  exact ⟨front, arguments, hpassed, hlength, hsymbols.trans (joined_zero arguments), hphrases⟩

namespace Call

/-! ### Points of a call -/

/-- At a point of a call with `total` arguments, in which a strategy has begun at `opened`,
everything is in step. -/
structure InStep (expression : Eval Decimal) (total : Nat) (strategy : Strategy)
    (opened : State) (point : Point) : Prop where
  /-- The call goes on from here, to whatever end. -/
  follows : follow expression total strategy 0 opened =
    follow expression total point.strategy point.uses.length point.state
  count : point.uses.length ≤ total
  /-- The arguments so far have been read once, in their order. -/
  reads : ReadsEach expression 0 point.uses opened point.state
  /-- The machine stands behind them. -/
  stands : ∃ front arguments, Passed opened front point.state ∧
    arguments.length = point.uses.length ∧ IsRow front arguments
  /-- The number of arguments that a strategy is told is that of those not yet read. -/
  remaining : ∀ next, point.strategy = .ask next → ∃ left, left + point.uses.length = total ∧
    ∀ after, Step expression total point after → after = ⟨next left, point.uses, point.state⟩
  /-- A step past the last argument is refused with a fault, and no token is taken. -/
  refusal : point.uses.length = total → ∀ after, Step expression total point after →
    after.uses = point.uses ∧ after.state = point.state ∧
    ∀ refused, (∃ next, point.strategy = .take next refused) ∨
        (∃ next, point.strategy = .skip next refused) →
      after.strategy = refused (.argumentCount "argument list" (.exact total) (total + 1))

section Points

variable {expression : Eval Decimal} {total : Nat} {point after : Point}

/-- A strategy that asks is told how many arguments are left. -/
theorem Step.asked_eq {next : Nat → Strategy} (h : Step expression total point after)
    (hask : point.strategy = .ask next) :
    after = ⟨next (total - point.uses.length), point.uses, point.state⟩ := by
  cases h with
  | asked =>
    obtain rfl := Strategy.ask.inj hask
    rfl
  | evaluated _ _ => cases hask
  | notEvaluated _ => cases hask
  | skipped _ _ => cases hask
  | notSkipped _ => cases hask

/-- Past the last argument nothing is read. -/
theorem Step.refused (h : Step expression total point after) (hnone : point.uses.length = total) :
    after.uses = point.uses ∧ after.state = point.state ∧
      ∀ refused, (∃ next, point.strategy = .take next refused) ∨
          (∃ next, point.strategy = .skip next refused) →
        after.strategy = refused (Strategy.pastEnd total) := by
  cases h with
  | asked =>
    refine ⟨rfl, rfl, ?_⟩
    rintro refused (⟨next, hother⟩ | ⟨next, hother⟩) <;> cases hother
  | evaluated hleft _ => exact absurd hnone (Nat.ne_of_lt hleft)
  | notEvaluated _ =>
    refine ⟨rfl, rfl, ?_⟩
    rintro refused (⟨next, hother⟩ | ⟨next, hother⟩) <;> cases hother
    rfl
  | skipped hleft _ => exact absurd hnone (Nat.ne_of_lt hleft)
  | notSkipped _ =>
    refine ⟨rfl, rfl, ?_⟩
    rintro refused (⟨next, hother⟩ | ⟨next, hother⟩) <;> cases hother
    rfl

theorem inStep_of_steps {env : Environment} {levels : Nat} {strategy : Strategy}
    {opened : State} (h : Steps (argument env levels) total ⟨strategy, [], opened⟩ point)
    (hopened : Terminated opened.symbols) :
    InStep (argument env levels) total strategy opened point := by
  obtain ⟨hcount, hreads⟩ := Steps.kept h
  exact {
    follows := Steps.follow_eq h
    count := hcount
    reads := hreads
    stands := readsEach_row hreads hopened
    remaining := fun next hask =>
      ⟨total - point.uses.length, Nat.sub_add_cancel hcount, fun _ hstep => hstep.asked_eq hask⟩
    refusal := fun hnone _ hstep => hstep.refused hnone }

end Points

/-! ### Whole calls -/

/-- The account of a lazy call from the parenthesis that opens it to the one that closes
it. -/
structure Account (env : Environment) (levels : Nat) (entry : Entry) (strategy : Strategy)
    (position : Nat) (s : State) (value : Decimal) (after : State) where
  opening : Token
  inner : List Token
  closing : Token
  arguments : List (List Symbol)
  /-- The state after the opening parenthesis. -/
  opened : State
  /-- What has become of the arguments when the strategy has come to its value. -/
  taken : List Use
  finished : State
  /-- The state before the closing parenthesis. -/
  passed : State
  text : s.ahead = opening :: opened.ahead
  opened_ahead : opened.ahead = inner ++ passed.ahead
  passed_ahead : passed.ahead = closing :: after.ahead
  opening_symbol : opening.symbol = .openParen
  closing_symbol : closing.symbol = .closeParen
  row : IsRow inner arguments
  /-- The closing parenthesis is the one that belongs to the opening one. -/
  matching : ofTokens entry.name position opened.ahead = .ok (arguments.length, passed.ahead)
  steps : Steps (argument env levels) arguments.length ⟨strategy, [], opened⟩
    ⟨.finish value, taken, finished⟩
  /-- What the strategy has left is skipped, so that each argument has been read once. -/
  each : ReadsEach (argument env levels) 0
    (taken ++ .replicate (arguments.length - taken.length) .skipped) opened passed

section Calls

variable {env : Environment} {levels position : Nat} {entry : Entry} {arity : Arity}
  {strategy : Strategy} {s after : State} {value : Decimal}

theorem lazy_eq_ok {expression : Eval Decimal} {count : Nat} (hlive : s.live = true)
    (h : lazy expression strategy count s = (.ok value, after)) :
    ∃ passed, lazyValue expression strategy count s = (.ok value, passed) ∧
      Eval.expect .closeParen passed = (.ok (), after) := by
  rw [lazy] at h
  change (if s.live = true then lazyValue expression strategy count >>= fun value =>
    Eval.expect .closeParen >>= fun _ => pure value else _) s = _ at h
  rw [if_pos hlive] at h
  obtain ⟨given, passed, hvalue, h⟩ := Eval.bind_eq_ok.mp h
  obtain ⟨_, t, hclose, h⟩ := Eval.bind_eq_ok.mp h
  cases h
  exact ⟨passed, hvalue, hclose⟩

theorem expect_eq_ok {wanted : Symbol} (h : Eval.expect wanted s = (.ok (), after))
    (hs : Terminated s.symbols) (hwanted : wanted ≠ .finish) :
    ∃ token, token.symbol = wanted ∧ Passed s [token] after := by
  obtain ⟨front, hpassed, hfront⟩ := Consumes.expect hs wanted hwanted () after h
  obtain ⟨token, tail, rfl, htoken, htail⟩ := List.map_eq_cons_iff.mp hfront
  obtain rfl := List.map_eq_nil_iff.mp htail
  exact ⟨token, htoken, hpassed⟩

/-- A lazy function is called with as many arguments as were counted ahead. -/
theorem invoke_eq_ok {expression : Eval Decimal}
    (hlazy : entry.implementation = .lazy arity strategy)
    (h : invoke env expression entry position s = (.ok value, after)) :
    ∃ opened count closing, Eval.expect .openParen s = (.ok (), opened) ∧
      ofTokens entry.name position opened.ahead = .ok (count, closing) ∧
      arity.accepts count = true ∧
      lazy expression strategy count opened = (.ok value, after) := by
  rw [invoke] at h
  obtain ⟨_, opened, hopening, h⟩ := Eval.bind_eq_ok.mp h
  obtain ⟨_, _, hstate, h⟩ := Eval.bind_eq_ok.mp h
  cases hstate
  cases hcount : ofTokens entry.name position opened.ahead with
  | error cause =>
    rw [hcount] at h
    cases h
  | ok scanned =>
    rw [hcount] at h
    obtain ⟨count, closing⟩ := scanned
    dsimp only at h
    rw [Entry.arity, hlazy] at h
    split at h
    · rename_i haccepts
      exact ⟨opened, count, closing, hopening, hcount, haccepts, h⟩
    · cases h

theorem call_eq_ok {expression : Eval Decimal} {name : String}
    (hentry : env.registry.lookup? name = some entry)
    (h : call env expression name position s = (.ok value, after)) :
    invoke env expression entry position { s with info := s.info.addFunction entry.name } =
      (.ok value, after) := by
  rw [call, hentry] at h
  exact h

/-- Every lazy call that succeeds has an account. -/
theorem exists_account {name : String} (hentry : env.registry.lookup? name = some entry)
    (hlazy : entry.implementation = .lazy arity strategy) (hlive : s.live = true)
    (hs : Terminated s.symbols)
    (h : call env (argument env levels) name position s = (.ok value, after)) :
    after.live = s.live ∧ after.depth = s.depth ∧
      ∃ account : Account env levels entry strategy position s value after,
        arity.accepts account.arguments.length = true := by
  obtain ⟨opened, count, scanned, hopening, hcount, haccepts, hcall⟩ :=
    invoke_eq_ok hlazy (call_eq_ok hentry h)
  obtain ⟨opening, hopeningSymbol, hopened⟩ := expect_eq_ok hopening hs (by simp)
  obtain ⟨passed, hvalue, hclosing⟩ := lazy_eq_ok (hopened.live.trans hlive) hcall
  obtain ⟨taken, finished, hsteps, htaken, heach⟩ := steps_of_lazyValue hvalue
  obtain ⟨inner, arguments, hpassed, hlength, hrow⟩ := readsEach_row heach hopened.ended
  obtain ⟨closing, hclosingSymbol, hafter⟩ := expect_eq_ok hclosing hpassed.ended (by simp)
  have hclosed : passed.ahead = closing :: after.ahead := hafter.ahead
  have htotal : arguments.length = count := by
    rw [hlength, List.length_append, List.length_replicate]
    omega
  subst htotal
  have hmatching : ofTokens entry.name position opened.ahead =
      .ok (arguments.length, passed.ahead) := by
    rw [hpassed.ahead, hclosed]
    exact ofTokens_eq_ok hrow.2 entry.name position hrow.1 hclosingSymbol
  let account : Account env levels entry strategy position s value after := {
    opening := opening
    inner := inner
    closing := closing
    arguments := arguments
    opened := opened
    taken := taken
    finished := finished
    passed := passed
    text := hopened.ahead
    opened_ahead := hpassed.ahead
    passed_ahead := hclosed
    opening_symbol := hopeningSymbol
    closing_symbol := hclosingSymbol
    row := hrow
    matching := hmatching
    steps := hsteps
    each := heach }
  exact ⟨(hafter.live.trans hpassed.live).trans hopened.live,
    (hafter.depth.trans hpassed.depth).trans hopened.depth, account, haccepts⟩

end Calls

/-! ### Beside a run that checks -/

section Checked

variable {levels position : Nat} {name : String} {s t after : State} {value : Decimal}

/-- A call that succeeds is also accepted where the text is only checked, if no name of a
function counts as unbound there that is bound here; and both end at the same place. -/
theorem checked_of_call (env other : Environment) (hregistry : env.registry = other.registry)
    (hmaxDepth : env.maxDepth = other.maxDepth)
    (hbound : ∀ name, env.registry.contains name = true → (env.bindings name).isSome = true →
      (other.bindings name).isSome = true)
    (hahead : s.ahead = t.ahead) (hdepth : s.depth = t.depth) (hquiet : t.live = false)
    (h : call env (argument env levels) name position s = (.ok value, after)) :
    ∃ answer checked, call other (argument other levels) name position t = (.ok answer, checked) ∧
      after.ahead = checked.ahead := by
  have hcarries : (foresight fun _ => True).Carries env other :=
    foresight_carries hregistry hmaxDepth (fun ⟨_, hnever⟩ => absurd trivial hnever)
      (fun _ _ => trivial) (fun _ _ _ => trivial) ⟨hbound, fun _ _ _ _ => trivial⟩
  have hargument :=
    comparison_coupled hcarries.toCarriesPhrases (factor_coupled hcarries levels)
  have hcall : Coupled (foresight fun _ => True) (foresight fun _ => True).Same
      (call env (argument env levels) name position)
      (call other (argument other levels) name position) :=
    call_coupled hcarries.toCarriesPhrases hargument rfl (fun _ => rfl) fun _ => rfl
  have hends := hcall s t ⟨hahead, hdepth, hquiet⟩
  change (foresight _).Ends _ (call env (argument env levels) name position s)
    (call other (argument other levels) name position t) at hends
  rw [h] at hends
  rcases hchecked : call other (argument other levels) name position t with
    ⟨failure | answer, checked⟩
  · rw [hchecked] at hends
    exact absurd hends not_false
  · rw [hchecked] at hends
    exact ⟨answer, checked, rfl, hends.2.1⟩

/-- Wherever a check comes to the end of a call, it is the end that the call has. -/
theorem ahead_eq_of_checked (env other : Environment) (hregistry : env.registry = other.registry)
    (hmaxDepth : env.maxDepth = other.maxDepth) (hahead : s.ahead = t.ahead)
    (hdepth : s.depth = t.depth) (hquiet : t.live = false)
    (h : call env (argument env levels) name position s = (.ok value, after))
    {answer : Decimal} {checked : State}
    (hchecked : call other (argument other levels) name position t = (.ok answer, checked)) :
    after.ahead = checked.ahead := by
  -- The check that knows the names of both ends where each of them does.
  let both : Environment := { other with bindings := united env.bindings other.bindings }
  obtain ⟨_, u, hu, hafter⟩ := checked_of_call env both hregistry hmaxDepth
    (fun name _ hname => isSome_united_left other.bindings hname) hahead hdepth hquiet h
  obtain ⟨_, v, hv, hother⟩ := checked_of_call other both rfl rfl
    (fun name _ hname => isSome_united_right env.bindings hname) rfl rfl hquiet hchecked
  rw [hu] at hv
  obtain ⟨-, rfl⟩ := Prod.mk.inj hv
  rw [hafter, hother]

end Checked

/-- A lazy function may follow any strategy.  Wherever it has come to in a call, the machine
is in step with it.  A call that succeeds has read each of its arguments once, and stands
behind the parenthesis that closes it.  Values are computed and factors are open as before
the call.  A check of the same text ends at the same place, and it does not fail there
unless it knows less of the names of functions that are bound. -/
theorem lazy_reads_each_once (env : Environment) (levels : Nat) (name : String)
    (position : Nat) (entry : Entry) (arity : Arity) (strategy : Strategy) (s : State)
    (hentry : env.registry.lookup? name = some entry)
    (hlazy : entry.implementation = .lazy arity strategy) (hlive : s.live = true)
    (hs : Terminated s.symbols) :
    (∀ (total : Nat) (opened : State) (point : Point), Terminated opened.symbols →
      Steps (argument env levels) total ⟨strategy, [], opened⟩ point →
      InStep (argument env levels) total strategy opened point) ∧
    ∀ (value : Decimal) (after : State),
      call env (argument env levels) name position s = (.ok value, after) →
      after.live = s.live ∧ after.depth = s.depth ∧
      (∃ account : Account env levels entry strategy position s value after,
        arity.accepts account.arguments.length = true) ∧
      ∀ (other : Environment) (t : State), env.registry = other.registry →
        env.maxDepth = other.maxDepth → s.ahead = t.ahead → s.depth = t.depth →
        t.live = false →
        (∀ answer checked,
          call other (argument other levels) name position t = (.ok answer, checked) →
          after.ahead = checked.ahead) ∧
        ((∀ name, env.registry.contains name = true → (env.bindings name).isSome = true →
            (other.bindings name).isSome = true) →
          ∃ answer checked,
            call other (argument other levels) name position t = (.ok answer, checked)) := by
  refine ⟨fun total opened point hopened hsteps => inStep_of_steps hsteps hopened, ?_⟩
  intro value after hcall
  obtain ⟨hliveAfter, hdepthAfter, haccount⟩ := exists_account hentry hlazy hlive hs hcall
  refine ⟨hliveAfter, hdepthAfter, haccount, ?_⟩
  intro other t hregistry hmaxDepth hahead hdepth hquiet
  constructor
  · intro answer checked hchecked
    exact ahead_eq_of_checked env other hregistry hmaxDepth hahead hdepth hquiet hcall hchecked
  · intro hbound
    obtain ⟨answer, checked, hchecked, -⟩ :=
      checked_of_call env other hregistry hmaxDepth hbound hahead hdepth hquiet hcall
    exact ⟨answer, checked, hchecked⟩

/-- A strategy that evaluates one argument, skips another and asks for a third one that is not
there: the refusal is ignored, the division by zero in what was skipped is not met, and the
call ends behind its own parenthesis. -/
theorem lazy_reads_each_once_past_end :
    let strategy : Strategy :=
      .take (fun value => .skip (.take .finish fun _ => .finish value) .fail) .fail
    let entry : Entry := ⟨"pick", .logic, "", .lazy (.atLeast 1) strategy⟩
    let env : Environment :=
      ⟨Registry.empty.register entry, fun _ => none, none, emptyStore, 10, 64⟩
    let one : Symbol := .number Decimal.one
    let symbols : List Symbol := [.openParen, one, .comma, .name "pick", .openParen, one, .slash,
      .number Decimal.zero, .closeParen, .closeParen, .plus, one, .finish]
    let s : State := ⟨symbols.map fun symbol => ⟨symbol, 0⟩, true, 0, .empty, .empty⟩
    let ended := call env (argument env 9) "pick" 0 s
    ended.1 = .ok Decimal.one ∧ ended.2.symbols = [.plus, one, .finish] ∧
      ended.2.live = true ∧ ended.2.depth = 0 ∧
      ∃ account : Account env 9 entry strategy 0 s Decimal.one ended.2,
        Arity.accepts (.atLeast 1) account.arguments.length = true := by
  intro strategy entry env one symbols s ended
  have hentry : env.registry.lookup? "pick" = some entry :=
    (Registry.lookup?_register Registry.empty entry "pick").trans (if_pos rfl)
  have hvalue : ended.1 = .ok Decimal.one := by decide +kernel
  have hsymbols : ended.2.symbols = [.plus, one, .finish] := by decide +kernel
  have hs : Terminated s.symbols := ⟨symbols.dropLast, by decide +kernel, by decide +kernel⟩
  obtain ⟨hlive, hdepth, haccount, -⟩ :=
    (lazy_reads_each_once env 9 "pick" 0 entry (.atLeast 1) strategy s hentry rfl rfl
      hs).2
      Decimal.one ended.2 (Prod.ext hvalue rfl)
  exact ⟨hvalue, hsymbols, hlive, hdepth, haccount⟩

end Call

end DerivedTelemetry
