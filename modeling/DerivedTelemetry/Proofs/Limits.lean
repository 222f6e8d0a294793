import DerivedTelemetry.Function.Builtin
import DerivedTelemetry.Proofs.Evaluation.Lockstep
import DerivedTelemetry.Proofs.Validation
import Mathlib.Control.Monad.Basic

/-!
# What the limits do

An engine limits the length of an expression and how many factors may be open at once.  Both
limits only cut off: a run that neither of them stops is the same run under wider limits.

Every factor closes what it has opened, whether it succeeds or fails.  So the number of open
factors in the state is how deep the recursion has come, and no more factors than the limit
are ever past their check.  That is said here without looking into a run.  Let factors nest
as deep as they like, and let anything at all stand in the place of the innermost of them: if
there are more around it than the limit, the whole run does not depend on it.
-/

namespace DerivedTelemetry

open Grammar

/-- Two runs that have done the same, with a number of factors open.  The first run may break
off where that is excused. -/
def abreast (depth : Nat) (excused : Failure → Prop) : Coupling where
  states s t := s = t ∧ s.depth = depth
  agree e s f t := e = f ∧ s = t ∧ s.depth = depth
  alone := excused
  exact := True
  strict := False
  verbatim := True
  ahead h := h.1 ▸ .refl _
  literally _ _ _ h := congrArg State.ahead h.1
  moved h _ _ _ hsame := ⟨by rw [h.1, hsame trivial], h.2⟩
  noted h _ := ⟨by rw [h.1], h.2⟩
  refused h _ _ hsame := ⟨congrArg Failure.fault (hsame trivial), h⟩

theorem lockstep_abreast (depth : Nat) (excused : Failure → Prop) (store : Store) :
    (abreast depth excused).Lockstep store where
  exact := trivial
  lenient := id
  live h := congrArg State.live h.1
  switched h _ := ⟨by rw [h.1], h.2⟩
  agreeSwitched h _ := ⟨h.1, by rw [h.2.1], h.2.2⟩
  requested h _ := ⟨by rw [h.1], h.2⟩
  fetched h _ _ _ _ _ := ⟨by rw [h.1], h.2⟩
  failed h _ := ⟨rfl, h⟩
  unanswered h _ _ _ := ⟨rfl, h⟩

section Abreast

variable {excused : Failure → Prop} {depth limit larger : Nat} {p q : Eval Decimal}

/-- Runs that stay abreast are the same run, and close what they open. -/
theorem Coupled.eq_of_abreast {s : State}
    (h : Coupled (abreast s.depth excused) (abreast s.depth excused).Same p q) :
    (∃ failure, excused failure ∧ (p s).1 = .error failure) ∨
      p s = q s ∧ (p s).2.depth = s.depth := by
  have hends := h s s ⟨rfl, rfl⟩
  rcases hp : p s with ⟨e | v, s'⟩ <;> rcases hq : q s with ⟨f | w, t'⟩ <;> rw [hp, hq] at hends
  · rcases hends with hexcused | ⟨rfl, rfl, hdepth⟩
    · exact .inl ⟨e, hexcused, rfl⟩
    · exact .inr ⟨rfl, hdepth⟩
  · exact .inl ⟨e, hends, rfl⟩
  · exact hends.elim
  · obtain ⟨hvalue, rfl, hdepth⟩ := hends
    rw [hvalue trivial]
    exact .inr ⟨rfl, hdepth⟩

/-- A factor opens one more factor for its body, and closes it again. -/
theorem nested_abreast (hle : limit ≤ larger)
    (hexcused : limit < larger → excused (.fault (.parse (.tooDeep limit))))
    (hp : depth < limit →
      Coupled (abreast (depth + 1) excused) (abreast (depth + 1) excused).Same p q) :
    Coupled (abreast depth excused) (abreast depth excused).Same (Eval.nested limit p)
      (Eval.nested larger q) := by
  rintro s t ⟨rfl, rfl⟩
  by_cases hfull : limit ≤ s.depth
  · rw [Eval.nested_of_full p hfull]
    rcases Nat.eq_or_lt_of_le hle with rfl | hlt
    · rw [Eval.nested_of_full q hfull]
      exact .inr ⟨rfl, rfl, rfl⟩
    · exact Coupled.alone (hexcused hlt) (Eval.nested larger q) s s ⟨rfl, rfl⟩
  · have hopen : s.depth < limit := Nat.lt_of_not_le hfull
    have hends := hp hopen { s with depth := s.depth + 1 } _ ⟨rfl, rfl⟩
    rw [Eval.nested_of_open p hopen, Eval.nested_of_open q (Nat.lt_of_lt_of_le hopen hle)]
    rcases hfirst : p { s with depth := s.depth + 1 } with ⟨e | v, s'⟩ <;>
      rcases hsecond : q { s with depth := s.depth + 1 } with ⟨f | w, t'⟩ <;>
      rw [hfirst, hsecond] at hends
    · rcases hends with halone | ⟨rfl, rfl, hdepth⟩
      · exact .inl halone
      · exact .inr ⟨rfl, rfl, by rw [hdepth, Nat.add_sub_cancel]⟩
    · exact hends
    · exact hends
    · obtain ⟨hvalue, rfl, hdepth⟩ := hends
      exact ⟨hvalue, rfl, by rw [hdepth, Nat.add_sub_cancel]⟩

end Abreast

namespace Grammar

variable {env : Environment} {excused : Failure → Prop}

/-- Fewer factors within a smaller limit are the same factors, up to where they are cut
off. -/
theorem factor_cut_off {larger levels others : Nat} (hle : env.maxDepth ≤ larger)
    (hexcused : excused (.fault (.parse (.tooDeep env.maxDepth)))) (hlevels : levels ≤ others)
    (depth : Nat) :
    Coupled (abreast depth excused) (abreast depth excused).Same (factor env levels)
      (factor { env with maxDepth := larger } others) := by
  induction levels generalizing others depth with
  | zero => exact .alone hexcused _
  | succ levels ih =>
    obtain ⟨others, rfl⟩ := Nat.exists_eq_add_of_le' (Nat.le_trans (Nat.le_add_left 1 _) hlevels)
    rw [factor, factor]
    apply nested_abreast hle fun _ => hexcused
    intro _
    exact primary_coupled ((lockstep_abreast _ _ env.store).carriesPhrases larger)
      (ih (Nat.le_of_succ_le_succ hlevels) (depth + 1))

/-- A factor leaves as many factors open as there were. -/
theorem depth_factor (env : Environment) (levels : Nat) (s : State) :
    (factor env levels s).2.depth = s.depth := by
  have hkept : ∀ depth, Coupled (abreast depth fun _ => False)
      (abreast depth fun _ => False).Same (factor env levels) (factor env levels) := by
    induction levels with
    | zero => exact fun _ => .failParse _
    | succ levels ih =>
      intro depth
      apply nested_abreast (Nat.le_refl _) fun hlt => absurd hlt (Nat.lt_irrefl _)
      intro _
      exact primary_coupled ((lockstep_abreast _ _ env.store).carriesPhrases env.maxDepth)
        (ih (depth + 1))
  rcases (hkept s.depth).eq_of_abreast with ⟨failure, halone, -⟩ | ⟨-, hdepth⟩
  · exact halone.elim
  · exact hdepth

/-- A number of factors, one inside the other, with something else in the place of the
innermost. -/
def frames (env : Environment) (inner : Eval Decimal) : (count : Nat) → Eval Decimal
  | 0 => inner
  | count + 1 => Eval.nested env.maxDepth (primary env (frames env inner count))

/-- With more factors around it than the limit, whatever is innermost is never reached. -/
theorem factor_frames (inner : Eval Decimal) {levels count depth : Nat}
    (hdepth : depth ≤ env.maxDepth) (hlevels : env.maxDepth ≤ depth + levels)
    (hcount : env.maxDepth < depth + count) :
    Coupled (abreast depth excused) (abreast depth excused).Same (factor env levels)
      (frames env inner count) := by
  induction levels generalizing count depth with
  | zero =>
    obtain ⟨count, rfl⟩ : ∃ n, count = n + 1 := Nat.exists_eq_add_of_le' (by omega)
    rintro s t ⟨rfl, rfl⟩
    rw [frames, Eval.nested_of_full _ hlevels]
    exact .inr ⟨rfl, rfl, rfl⟩
  | succ levels ih =>
    obtain ⟨count, rfl⟩ : ∃ n, count = n + 1 := Nat.exists_eq_add_of_le' (by omega)
    rw [factor, frames]
    apply nested_abreast (Nat.le_refl _) fun hlt => absurd hlt (Nat.lt_irrefl _)
    intro hopen
    exact primary_coupled ((lockstep_abreast _ _ env.store).carriesPhrases env.maxDepth)
      (ih (by omega) (by omega) (by omega))

theorem comparison_frames (inner : Eval Decimal) {count : Nat} (hcount : env.maxDepth < count)
    {s : State} (hs : s.depth = 0) :
    comparison env (frames env inner count) s = comparison env (factor env env.maxDepth) s := by
  have hcoupled : Coupled (abreast s.depth fun _ => False) (abreast s.depth fun _ => False).Same
      (comparison env (factor env env.maxDepth)) (comparison env (frames env inner count)) := by
    rw [hs]
    exact comparison_coupled ((lockstep_abreast _ _ env.store).carriesPhrases env.maxDepth)
      (factor_frames inner (Nat.zero_le _) (by omega) (by omega))
  rcases hcoupled.eq_of_abreast with ⟨failure, halone, -⟩ | ⟨hsame, -⟩
  · exact halone.elim
  · exact hsame.symm

end Grammar

/-! ### Engines with narrower and wider limits -/

/-- The same precision, and limits that are no wider. -/
structure Settings.Narrows (small large : Settings) : Prop where
  precision : small.precision = large.precision
  maxDepth : small.maxDepth ≤ large.maxDepth
  maxLength : small.maxLength ≤ large.maxLength

namespace Engine

/-- The two failures of an expression that goes beyond the limits of an engine. -/
def CutsOff (engine : Engine) (expression : String) (failure : Failure) : Prop :=
  failure = .fault (.parse (.tooLong expression.utf8ByteSize engine.settings.maxLength)) ∨
    failure = .fault (.parse (.tooDeep engine.settings.maxDepth))

section Limits

variable {small large : Settings}

theorem tokens_cut_off (h : small.Narrows large) (registry : Registry) (expression : String) :
    Engine.tokens ⟨small, registry⟩ expression =
        .error (.tooLong expression.utf8ByteSize small.maxLength) ∨
      Engine.tokens ⟨small, registry⟩ expression = Engine.tokens ⟨large, registry⟩ expression := by
  rw [tokens, tokens]
  dsimp only
  by_cases hlong : small.maxLength < expression.utf8ByteSize
  · rw [if_pos hlong]
    exact .inl rfl
  · have hshort : ¬ large.maxLength < expression.utf8ByteSize :=
      fun hlarge => hlong (Nat.lt_of_le_of_lt h.maxLength hlarge)
    rw [if_neg hlong, if_neg hshort]
    exact .inr rfl

/-- A run is cut off, or it is the run under the wider limits. -/
theorem run_cut_off (h : small.Narrows large) (registry : Registry) (store : Store)
    (bindings : String → Option Decimal) (context : Option Context) (live : Bool)
    (expression : String) :
    let first : Engine := ⟨small, registry⟩
    let second : Engine := ⟨large, registry⟩
    let result := first.run (first.environment store bindings context) live expression
    (∃ failure, first.CutsOff expression failure ∧ result.1 = .error failure) ∨
      result = second.run (second.environment store bindings context) live expression := by
  intro first second result
  let env := first.environment store bindings context
  have hwider : second.environment store bindings context =
      { env with maxDepth := large.maxDepth } := by
    simp only [env, first, second, environment, h.precision]
  rw [hwider]
  rcases tokens_cut_off h registry expression with hlong | htokens
  · refine .inl ⟨_, .inl rfl, ?_⟩
    simp only [result, run, first, hlong]
  · simp only [result, run, first, second, htokens]
    cases Engine.tokens ⟨large, registry⟩ expression with
    | error cause => exact .inr rfl
    | ok tokens =>
      have hcoupled : Coupled (abreast 0 (first.CutsOff expression))
          (abreast 0 (first.CutsOff expression)).Same (Grammar.expression env)
          (Grammar.expression { env with maxDepth := large.maxDepth }) :=
        expression_coupled_of_factor
          ((lockstep_abreast _ _ env.store).carriesPhrases large.maxDepth)
          (Grammar.factor_cut_off h.maxDepth (.inr rfl) h.maxDepth 0)
      rcases Coupled.eq_of_abreast (s := start live tokens) hcoupled with
        ⟨failure, hcutsOff, hfails⟩ | ⟨hsame, -⟩
      · refine .inl ⟨failure, hcutsOff, ?_⟩
        rcases hrun : Grammar.expression env (start live tokens) with ⟨e | v, after⟩ <;>
          rw [hrun] at hfails
        · cases hfails
          simp only [env, first] at hrun
          simp only [hrun]
        · cases hfails
      · refine .inr ?_
        simp only [env, first] at hsame
        simp only [env, first, hsame]

/-- The limits on nesting and length only cut off.  A run under narrower limits that does not
fail because of them has the same result, names, requests and events under wider ones, also
where the text is only checked.  Every factor leaves as many factors open as there were, and
what stands inside more factors than the limit allows is never reached.  So an expression
that is accepted under the wider limits and is not too long for the narrower ones is accepted
under those exactly if its factors do not nest deeper. -/
theorem limits_only_cut_off (registry : Registry) (h : small.Narrows large)
    (expression : String) :
    let first : Engine := ⟨small, registry⟩
    let second : Engine := ⟨large, registry⟩
    (∀ store bindings context live,
      let result := first.run (first.environment store bindings context) live expression
      (∀ failure, first.CutsOff expression failure → result.1 ≠ .error failure) →
        result = second.run (second.environment store bindings context) live expression) ∧
    (∀ store bindings context,
      let result := first.evaluate store bindings context expression
      (∀ failure, first.CutsOff expression failure → result.1 ≠ .error failure) →
        result = second.evaluate store bindings context expression) ∧
    ((∀ failure, first.CutsOff expression failure →
        first.validate expression ≠ .error failure) →
      first.validate expression = second.validate expression) ∧
    (∀ env levels s, (Grammar.factor env levels s).2.depth = s.depth) ∧
    (∀ env inner count live tokens, env.maxDepth < count →
      Grammar.comparison env (Grammar.frames env inner count) (start live tokens) =
        Grammar.comparison env (Grammar.factor env env.maxDepth) (start live tokens)) ∧
    ∀ info, second.validate expression = .ok info →
      expression.utf8ByteSize ≤ small.maxLength →
      ∃ tokens tree, Derives expression tokens tree ∧
        (∀ others other, Derives expression others other → other = tree) ∧
        ((∃ given, first.validate expression = .ok given) ↔ tree.nesting ≤ small.maxDepth) := by
  intro first second
  refine ⟨?_, ?_, ?_, Grammar.depth_factor, ?_, ?_⟩
  · intro store bindings context live result hresult
    rcases run_cut_off h registry store bindings context live expression with
      ⟨failure, hcutsOff, hfails⟩ | hsame
    · exact absurd hfails (hresult failure hcutsOff)
    · exact hsame
  · intro store bindings context result hresult
    rcases run_cut_off h registry store bindings context true expression with
      ⟨failure, hcutsOff, hfails⟩ | hsame
    · refine absurd ?_ (hresult failure hcutsOff)
      change Except.map _ (first.run _ true expression).1 = _
      rw [hfails]
      rfl
    · simp only [result, evaluate, hsame, first, second]
  · intro hresult
    rcases run_cut_off h registry emptyStore (fun _ => none) none false expression with
      ⟨failure, hcutsOff, hfails⟩ | hsame
    · refine absurd ?_ (hresult failure hcutsOff)
      rw [validate, hfails]
      rfl
    · simp only [validate, hsame, first, second]
  · intro env inner count live tokens hcount
    exact Grammar.comparison_frames inner hcount rfl
  · intro info haccepted hlength
    obtain ⟨tokens, tree, htokens, hderives, hadmissible, -, -⟩ := validate_eq_ok.mp haccepted
    obtain ⟨hblank, -, htokenized⟩ := tokens_eq_ok.mp htokens
    refine ⟨tokens, tree, hderives, fun _ _ hother => (hderives.unique hother).2, ?_⟩
    constructor
    · rintro ⟨given, hgiven⟩
      obtain ⟨others, other, -, hother, -, hnesting, -⟩ := validate_eq_ok.mp hgiven
      rwa [(hderives.unique hother).2] at hnesting
    · intro hnesting
      exact ⟨_, validate_eq_ok.mpr ⟨tokens, tree, tokens_eq_ok.mpr ⟨hblank, hlength, htokenized⟩,
        hderives, hadmissible, hnesting, rfl⟩⟩

/-- A sign, a group, a call and its operand nest four deep: as deep as one limit allows, and
too deep for another. -/
theorem limits_only_cut_off_at_limit :
    Settings.Narrows ⟨10, 4, 13⟩ Settings.standard ∧
      Engine.validate ⟨⟨10, 4, 13⟩, Builtin.registry⟩ "-(abs(x) + 1)" = .ok ⟨["x"], ["abs"]⟩ ∧
      Engine.validate ⟨Settings.standard, Builtin.registry⟩ "-(abs(x) + 1)" =
        .ok ⟨["x"], ["abs"]⟩ ∧
      Engine.validate ⟨⟨10, 3, 13⟩, Builtin.registry⟩ "-(abs(x) + 1)" =
        .error (.fault (.parse (.tooDeep 3))) ∧
      ∃ tokens tree, Derives "-(abs(x) + 1)" tokens tree ∧ tree.nesting ≤ 4 ∧
        ¬ tree.nesting ≤ 3 := by
  have hfour : Settings.Narrows ⟨10, 4, 13⟩ Settings.standard := ⟨rfl, by decide, by decide⟩
  have hthree : Settings.Narrows ⟨10, 3, 13⟩ Settings.standard := ⟨rfl, by decide, by decide⟩
  have hlength : "-(abs(x) + 1)".utf8ByteSize ≤ 13 := by decide
  have haccepted : Engine.validate ⟨⟨10, 4, 13⟩, Builtin.registry⟩ "-(abs(x) + 1)" =
      .ok ⟨["x"], ["abs"]⟩ := by decide +kernel
  have hrefused : Engine.validate ⟨⟨10, 3, 13⟩, Builtin.registry⟩ "-(abs(x) + 1)" =
      .error (.fault (.parse (.tooDeep 3))) := by decide +kernel
  obtain ⟨-, -, hsame, -, -, hdeepest⟩ :=
    limits_only_cut_off Builtin.registry hfour "-(abs(x) + 1)"
  have hnotCut : ∀ failure, Engine.CutsOff ⟨⟨10, 4, 13⟩, Builtin.registry⟩ "-(abs(x) + 1)"
      failure → Engine.validate ⟨⟨10, 4, 13⟩, Builtin.registry⟩ "-(abs(x) + 1)" ≠
        .error failure := by
    intro failure _ hfails
    rw [haccepted] at hfails
    cases hfails
  have hwider := (hsame hnotCut).symm.trans haccepted
  obtain ⟨tokens, tree, hderives, -, hwithin⟩ := hdeepest _ hwider hlength
  obtain ⟨-, -, -, -, -, hnarrower⟩ :=
    limits_only_cut_off Builtin.registry hthree "-(abs(x) + 1)"
  obtain ⟨others, other, hother, -, hbeyond⟩ := hnarrower _ hwider hlength
  refine ⟨hfour, haccepted, hwider, hrefused, tokens, tree, hderives,
    hwithin.mp ⟨_, haccepted⟩, ?_⟩
  intro hthin
  rw [← (hderives.unique hother).2] at hthin
  obtain ⟨given, hgiven⟩ := hbeyond.mpr hthin
  rw [hrefused] at hgiven
  cases hgiven

end Limits

end Engine

end DerivedTelemetry
