import DerivedTelemetry.Proofs.Evaluation.Coupling
import DerivedTelemetry.Proofs.Evaluation.Recognition
import DerivedTelemetry.Proofs.Evaluation.TreeReading
import Mathlib.Tactic.ByContra

/-!
# Checking foresees evaluation

A run that computes is put beside one that only checks the same text.  Values differ, and
the first run may fail at any point because of them; in everything that is wrong with the
text itself the two agree.  The one production in which they take different steps is a lazy
call: there the strategy of the function is followed on one side, and all arguments are
read alike on the other.

Which failures the first run may have alone is a parameter.  They have to include those
that belong to the values of one moment.  If they are only those, the two runs agree on
everything else; if they are all failures, what is left is that the second run succeeds
where the first one does.

A run that only checks is also put beside another such run, in an environment of its own.
Neither makes a request, and both come to the same end.
-/

namespace DerivedTelemetry

open Grammar

/-- A run beside one that only checks.  The first run may fail alone if it is excused. -/
def foresight (excused : Failure → Prop) : Coupling where
  states s t := s.ahead = t.ahead ∧ s.depth = t.depth ∧ t.live = false
  agree e _ f _ := e = f
  alone := excused
  exact := False
  strict := ∃ failure, ¬ excused failure
  verbatim := True
  ahead h := h.1 ▸ .refl _
  literally _ _ _ h := h.1
  moved h _ _ _ hsame := ⟨hsame trivial, h.2⟩
  noted h _ := h
  refused _ _ _ hsame := congrArg Failure.fault (hsame trivial)

/-- Two runs that only check, and have made no request. -/
def checking : Coupling where
  states s t := s = t ∧ s.live = false ∧ s.trace.requests = []
  agree e s f _ := e = f ∧ e.isConfiguration = true ∧ s.trace.requests = []
  alone _ := False
  exact := True
  strict := False
  verbatim := True
  ahead h := h.1 ▸ .refl _
  literally _ _ _ h := congrArg State.ahead h.1
  moved h _ _ _ hsame := ⟨by rw [h.1, hsame trivial], h.2⟩
  noted h _ := ⟨by rw [h.1], h.2⟩
  refused h hfault _ hsame := ⟨congrArg Failure.fault (hsame trivial), hfault, h.2.2⟩

/-! ### Variables -/

section Variables

variable {env : Environment} {name : String}

/-- The name of a function is refused as a variable wherever it is not bound. -/
theorem variableValue_of_known (hbound : env.bindings name = none)
    (h : env.registry.contains name = true) :
    variableValue env name = Eval.failParse (.functionAsVariable name) := by
  rw [variableValue, hbound, h]
  rfl

/-- A bound name has a value, even if it is that of a function. -/
theorem variableValue_of_bound (h : (env.bindings name).isSome = true) (s : State) :
    ∃ value, variableValue env name s =
        (.ok value, { s with info := s.info.addVariable name }) ∧
      (s.live = false → value = Decimal.zero) := by
  obtain ⟨bound, hbound⟩ := Option.isSome_iff_exists.mp h
  let t : State := { s with info := s.info.addVariable name }
  have hrun : variableValue env name s = Eval.whenLive (pure bound) t := by
    rw [variableValue, hbound]
    rfl
  rcases Bool.eq_false_or_eq_true t.live with hlive | hlive
  · refine ⟨bound, hrun.trans (Eval.whenLive_of_live _ hlive), ?_⟩
    intro hquiet
    rw [show t.live = s.live from rfl, hquiet] at hlive
    cases hlive
  · exact ⟨Decimal.zero, hrun.trans (Eval.whenLive_of_not_live _ hlive), fun _ => rfl⟩

/-- Any other variable has a value, or it is unbound and its value is wanted. -/
theorem variableValue_of_unknown (h : env.registry.contains name = false) (s : State) :
    (∃ value, variableValue env name s =
        (.ok value, { s with info := s.info.addVariable name }) ∧
      (s.live = false → value = Decimal.zero)) ∨
    variableValue env name s = (.error (.fault (.unknownVariable name)), s) ∧ s.live = true := by
  cases hbound : env.bindings name with
  | some bound => exact .inl (variableValue_of_bound (by rw [hbound]; rfl) s)
  | none =>
    rw [variableValue_of_unbound hbound h]
    cases hlive : s.live with
    | true => exact .inr ⟨rfl, rfl⟩
    | false => exact .inl ⟨Decimal.zero, rfl, fun _ => rfl⟩

end Variables

/-! ### Two runs that check -/

section Checking

theorem checking_whenLive (p q : Eval Decimal) :
    Coupled checking checking.Same (Eval.whenLive p) (Eval.whenLive q) := by
  rintro s t ⟨rfl, hlive, hrequests⟩
  rw [Eval.whenLive_of_not_live p hlive, Eval.whenLive_of_not_live q hlive]
  exact ⟨fun _ => rfl, rfl, hlive, hrequests⟩

theorem checking_variables {first second : Environment}
    (hregistry : first.registry = second.registry) (hfirst : BindsNoFunction first)
    (hsecond : BindsNoFunction second) (name : String) :
    Coupled checking checking.Same (variableValue first name) (variableValue second name) := by
  cases hname : first.registry.contains name with
  | true =>
    rw [variableValue_of_known (hfirst name hname) hname,
      variableValue_of_known (hsecond name (hregistry ▸ hname)) (hregistry ▸ hname)]
    exact .failParse _
  | false =>
    rintro s t ⟨rfl, hlive, hrequests⟩
    rcases variableValue_of_unknown hname s with ⟨v, hv, hzero⟩ | ⟨-, hwanted⟩
    · rcases variableValue_of_unknown (hregistry ▸ hname) s with ⟨w, hw, hothers⟩ | ⟨-, hwanted⟩
      · rw [hv, hw]
        exact ⟨fun _ => (hzero hlive).trans (hothers hlive).symm, rfl, hlive, hrequests⟩
      · rw [hlive] at hwanted
        cases hwanted
    · rw [hlive] at hwanted
      cases hwanted

/-- Two runs that check read the arguments of a lazy call alike. -/
theorem checking_lazy {p q : Eval Decimal} (hp : Coupled checking checking.Same p q)
    (strategy : Strategy) (count : Nat) :
    Coupled checking checking.Same (Call.lazy p strategy count)
      (Call.lazy q strategy count) := by
  rw [Call.lazy, Call.lazy]
  apply Coupled.next_get
  rintro s t ⟨rfl, hlive, -⟩
  rw [hlive]
  apply (values_coupled hp 0 count).bind
  intro _ _ _
  apply Coupled.expectClose.bind
  intro _ _ _
  exact .pure fun _ => rfl

theorem checking_carries {first second : Environment}
    (hregistry : first.registry = second.registry) (hmaxDepth : first.maxDepth = second.maxDepth)
    (hprecision : first.precision = second.precision) (hfirst : BindsNoFunction first)
    (hsecond : BindsNoFunction second) : checking.Carries first second where
  registry := hregistry
  maxDepth := hmaxDepth
  precision _ := hprecision
  benign := False.elim
  computed _ _ := checking_whenLive _ _
  nested hp := by
    rw [hmaxDepth]
    apply Coupled.nested _ _ _ _ hp
    · rintro s t ⟨rfl, -⟩
      rfl
    · rintro s t ⟨rfl, h⟩ depth
      exact ⟨rfl, h⟩
    · exact fun h _ _ => h
  named := checking_variables hregistry hfirst hsecond
  lazy hp strategy count _ := checking_lazy hp strategy count
  reduced _ _ _ _ _ _ _ _ := checking_whenLive _ _

end Checking

/-! ### A run beside one that checks -/

section Foresight

variable {p q : Eval Decimal}

/-- What either run still makes of its value does not matter to the other. -/
theorem Coupled.bind_pure_right {K : Coupling} {α β γ : Type} {related : α → β → Prop}
    {p : Eval α} {q : Eval β} (h : Coupled K related p q) (f : β → γ) :
    Coupled K (fun _ _ => True) p (q >>= fun w => Pure.pure (f w)) := by
  rw [← Eval.bind_pure p]
  apply h.bind
  intro v w _
  exact .pure trivial

theorem Coupled.bind_pure_left {K : Coupling} {α β γ : Type} {related : α → β → Prop}
    {p : Eval α} {q : Eval β} (h : Coupled K related p q) (f : α → γ) :
    Coupled K (fun _ _ => True) (p >>= fun v => Pure.pure (f v)) q := by
  rw [← Eval.bind_pure q]
  apply h.bind
  intro v w _
  exact .pure trivial

/-- A computation that reads nothing, opens no factor and fails only where that is excused. -/
structure Computes (excused : Failure → Prop) {α : Type} (p : Eval α) : Prop where
  ahead : ∀ s, (p s).2.ahead = s.ahead
  depth : ∀ s, (p s).2.depth = s.depth
  excused : ∀ s failure, (p s).1 = .error failure → excused failure

variable {excused : Failure → Prop}

theorem Computes.bind {α β : Type} {p : Eval α} {next : α → Eval β} (hp : Computes excused p)
    (hnext : ∀ value, Computes excused (next value)) : Computes excused (p >>= next) := by
  have hend : ∀ s, ((p >>= next) s).2.ahead = s.ahead ∧ ((p >>= next) s).2.depth = s.depth ∧
      ∀ failure, ((p >>= next) s).1 = .error failure → excused failure := by
    intro s
    have hahead := hp.ahead s
    have hdepth := hp.depth s
    have hexcused := hp.excused s
    rcases hrun : p s with ⟨failure | value, t⟩ <;> rw [hrun] at hahead hdepth hexcused
    · rw [Eval.bind_of_error hrun]
      refine ⟨hahead, hdepth, ?_⟩
      rintro other ⟨⟩
      exact hexcused failure rfl
    · rw [Eval.bind_of_ok hrun]
      exact ⟨((hnext value).ahead t).trans hahead, ((hnext value).depth t).trans hdepth,
        (hnext value).excused t⟩
  exact ⟨fun s => (hend s).1, fun s => (hend s).2.1, fun s => (hend s).2.2⟩

theorem foresight_whenLive {p : Eval Decimal} (hp : Computes excused p) (q : Eval Decimal) :
    Coupled (foresight excused) (foresight excused).Same (Eval.whenLive p)
      (Eval.whenLive q) := by
  rintro s t ⟨hahead, hdepth, hquiet⟩
  rw [Eval.whenLive_of_not_live q hquiet]
  cases hlive : s.live with
  | false =>
    rw [Eval.whenLive_of_not_live p hlive]
    exact ⟨False.elim, hahead, hdepth, hquiet⟩
  | true =>
    rw [Eval.whenLive_of_live p hlive]
    have haheadAfter := hp.ahead s
    have hdepthAfter := hp.depth s
    have hexcused := hp.excused s
    rcases hrun : p s with ⟨failure | value, after⟩
    · exact hexcused failure (by rw [hrun])
    · rw [hrun] at haheadAfter hdepthAfter
      exact ⟨False.elim, haheadAfter.trans hahead, hdepthAfter.trans hdepth, hquiet⟩

/-- All failures that a result can end in are excused. -/
def Excuses (excused : Failure → Prop) (result : Except Fault Decimal) : Prop :=
  ∀ fault, result = .error fault → excused (.fault fault)

/-- Functions have to behave only if there is something that is not excused. -/
theorem excuses_of_momentary (hmomentary : ∀ failure, failure.isConfiguration = false →
    excused failure) {result : Except Fault Decimal}
    (h : (∃ failure, ¬ excused failure) → Momentary result) : Excuses excused result := by
  intro fault hfault
  by_contra hexcused
  have harithmetic := h ⟨_, hexcused⟩ fault hfault
  exact hexcused (hmomentary _ (Fault.isConfiguration_of_arithmetic harithmetic))

theorem computes_fail {α : Type} {fault : Fault} (h : excused (.fault fault)) :
    Computes excused (Eval.fail fault : Eval α) := by
  refine ⟨fun _ => rfl, fun _ => rfl, ?_⟩
  intro s failure hfailure
  cases hfailure
  exact h

theorem computes_lift {result : Except Fault Decimal} (h : Excuses excused result) :
    Computes excused (Eval.lift result) := by
  refine ⟨fun _ => rfl, fun _ => rfl, ?_⟩
  intro s failure hfailure
  cases result with
  | ok value => cases hfailure
  | error fault =>
    cases hfailure
    exact h fault rfl

/-- A store that only fails where that is excused. -/
def Store.FailsWithin (store : Store) (excused : Failure → Prop) : Prop :=
  ∀ request failure, store request = .error failure → excused failure

/-- A store that only fails for reasons of its own. -/
def Store.Momentary (store : Store) : Prop :=
  ∀ request failure, store request = .error failure → failure.isConfiguration = false

theorem computes_request {store : Store} (h : store.FailsWithin excused) (request : Request) :
    Computes excused (Eval.request store request) :=
  ⟨fun _ => rfl, fun _ => rfl, fun _ failure hfailure => h request failure hfailure⟩

theorem computes_report (event : Event) : Computes excused (Eval.report event) :=
  ⟨fun _ => rfl, fun _ => rfl, fun _ _ h => nomatch h⟩

theorem computes_reduce {env : Environment} (hstore : env.store.FailsWithin excused)
    (function metric : String) (window : Window) {reduction : Statistics.Reduction}
    {numbers : List Decimal} (hcontext : excused (.fault (.noContext function)))
    (h : ∀ series, Excuses excused (reduction series numbers)) :
    Computes excused (Call.reduce env function metric window reduction numbers) := by
  rw [Call.reduce]
  cases env.context with
  | none => exact computes_fail hcontext
  | some context =>
    apply (computes_request hstore _).bind
    intro samples
    apply (computes_report _).bind
    intro _
    exact computes_lift (h _)

theorem foresight_quietly {α β : Type} {related : α → β → Prop} {p : Eval α} {q : Eval β}
    (hp : Coupled (foresight excused) related p q) :
    Coupled (foresight excused) related (Eval.quietly p) q := by
  rintro s t ⟨hahead, hdepth, hquiet⟩
  have hends := hp { s with live := false } t ⟨hahead, hdepth, hquiet⟩
  rcases hfirst : p { s with live := false } with ⟨e | v, s'⟩ <;>
    rcases hsecond : q t with ⟨f | w, t'⟩ <;> rw [hfirst, hsecond] at hends <;>
    simp only [Eval.quietly, hfirst]
  · exact hends
  · exact hends
  · exact hends
  · exact hends

/-- What the second run has to know of the names of functions: those that the first run has
bound, and no others unless refusing them as variables is excused. -/
structure BindsAfter (excused : Failure → Prop) (first second : Environment) : Prop where
  bound : ∀ name, first.registry.contains name = true → (first.bindings name).isSome = true →
    (second.bindings name).isSome = true
  unbound : ∀ name, first.registry.contains name = true → first.bindings name = none →
    (second.bindings name).isSome = true →
    excused (.fault (.parse (.functionAsVariable name)))

/-- The values of the first bindings, and of the second ones where those have none. -/
def united (bindings others : String → Option Decimal) (name : String) : Option Decimal :=
  (bindings name).or (others name)

theorem isSome_united_left {bindings : String → Option Decimal} {name : String}
    (others : String → Option Decimal) (h : (bindings name).isSome = true) :
    (united bindings others name).isSome = true := by
  rw [united, Option.isSome_or, h, Bool.true_or]

theorem isSome_united_right {others : String → Option Decimal} {name : String}
    (bindings : String → Option Decimal) (h : (others name).isSome = true) :
    (united bindings others name).isSome = true := by
  rw [united, Option.isSome_or, h, Bool.or_true]

theorem isSome_of_united {bindings others : String → Option Decimal} {name : String}
    (h : (united bindings others name).isSome = true) (hnone : bindings name = none) :
    (others name).isSome = true := by
  rwa [united, hnone, Option.none_or] at h

theorem foresight_variables {first second : Environment}
    (hregistry : first.registry = second.registry) (hbindings : BindsAfter excused first second)
    (hmomentary : ∀ failure, failure.isConfiguration = false → excused failure)
    (name : String) :
    Coupled (foresight excused) (foresight excused).Same (variableValue first name)
      (variableValue second name) := by
  have hboth : (first.bindings name).isSome = true → (second.bindings name).isSome = true →
      Coupled (foresight excused) (foresight excused).Same (variableValue first name)
        (variableValue second name) := by
    rintro hfirst hsecond s t ⟨hahead, hdepth, hquiet⟩
    obtain ⟨v, hv, -⟩ := variableValue_of_bound hfirst s
    obtain ⟨w, hw, -⟩ := variableValue_of_bound hsecond t
    rw [hv, hw]
    exact ⟨False.elim, hahead, hdepth, hquiet⟩
  cases hname : first.registry.contains name with
  | true =>
    cases hfirst : first.bindings name with
    | some value =>
      have hbound : (first.bindings name).isSome = true := by rw [hfirst]; rfl
      exact hboth hbound (hbindings.bound name hname hbound)
    | none =>
      rw [variableValue_of_known hfirst hname]
      cases hsecond : second.bindings name with
      | some value =>
        exact .alone (hbindings.unbound name hname hfirst (by rw [hsecond]; rfl)) _
      | none =>
        rw [variableValue_of_known hsecond (hregistry ▸ hname)]
        exact .failParse _
  | false =>
    rintro s t ⟨hahead, hdepth, hquiet⟩
    rcases variableValue_of_unknown (hregistry ▸ hname) t with ⟨w, hw, -⟩ | ⟨-, hwanted⟩
    · rcases variableValue_of_unknown hname s with ⟨v, hv, -⟩ | ⟨hunbound, -⟩
      · rw [hv, hw]
        exact ⟨False.elim, hahead, hdepth, hquiet⟩
      · rw [hunbound, hw]
        exact hmomentary _ rfl
    · rw [hquiet] at hwanted
      cases hwanted

/-! ### Lazy calls -/

theorem passOver_foreseen (hp : Coupled (foresight excused) (foresight excused).Same p q)
    (consumed count : Nat) :
    Coupled (foresight excused) (fun _ _ => True) (Call.passOver p consumed count)
      (Call.values q consumed count) := by
  induction count generalizing consumed with
  | zero => exact .pure trivial
  | succ count ih =>
    rw [Call.passOver, Call.values]
    apply (separator_coupled consumed).bind
    intro _ _ _
    apply (foresight_quietly hp).bind
    intro _ w _
    exact (ih (consumed + 1)).bind_pure_right (w :: ·)

/-- One more argument is read on both sides, to whatever use. -/
theorem argument_foreseen {α β : Type} {first : Eval α} {related : α → Decimal → Prop}
    (hfirst : Coupled (foresight excused) related first q) {total consumed : Nat}
    (hconsumed : consumed < total) {next : α → Eval β}
    (hnext : ∀ v, Coupled (foresight excused) (fun _ _ => True) (next v)
      (Call.values q (consumed + 1) (total - (consumed + 1)))) :
    Coupled (foresight excused) (fun _ _ => True)
      (Call.separator consumed >>= fun _ => first >>= next)
      (Call.values q consumed (total - consumed)) := by
  have hcount : total - consumed = total - (consumed + 1) + 1 := by omega
  rw [hcount, Call.values]
  apply (separator_coupled consumed).bind
  intro _ _ _
  apply hfirst.bind
  intro v w _
  exact (hnext v).bind_pure_right (w :: ·)

/-- Whatever a benign strategy does with the arguments that are left, the other run reads
them too. -/
theorem remainder_foreseen (hp : Coupled (foresight excused) (foresight excused).Same p q)
    (hmomentary : ∀ failure, failure.isConfiguration = false → excused failure)
    (strategy : Strategy) {total consumed : Nat}
    (hbenign : (∃ failure, ¬ excused failure) → strategy.Benign total consumed) :
    Coupled (foresight excused) (fun _ _ => True) (remainder p total strategy consumed)
      (Call.values q consumed (total - consumed)) := by
  induction strategy generalizing consumed with
  | finish value =>
    exact (passOver_foreseen hp consumed (total - consumed)).bind_pure_left fun _ => value
  | fail fault =>
    refine .alone ?_ _
    by_contra hexcused
    have harithmetic := hbenign ⟨_, hexcused⟩
    exact hexcused (hmomentary _ (Fault.isConfiguration_of_arithmetic harithmetic))
  | ask next ih => exact ih _ hbenign
  | take next refused ih ihRefused =>
    rw [remainder, Call.follow]
    by_cases hconsumed : consumed < total
    · rw [if_pos hconsumed]
      simp only [Eval.bind_assoc]
      refine argument_foreseen hp hconsumed fun v => ih v fun hstrict => ?_
      have htaken := hbenign hstrict
      rw [Strategy.Benign, if_pos hconsumed] at htaken
      exact htaken v
    · rw [if_neg hconsumed]
      refine ihRefused _ fun hstrict => ?_
      have hrefused := hbenign hstrict
      rwa [Strategy.Benign, if_neg hconsumed] at hrefused
  | skip next refused ih ihRefused =>
    rw [remainder, Call.follow]
    by_cases hconsumed : consumed < total
    · rw [if_pos hconsumed]
      simp only [Eval.bind_assoc]
      refine argument_foreseen (foresight_quietly hp) hconsumed fun _ => ih fun hstrict => ?_
      have hskipped := hbenign hstrict
      rwa [Strategy.Benign, if_pos hconsumed] at hskipped
    · rw [if_neg hconsumed]
      refine ihRefused _ fun hstrict => ?_
      have hrefused := hbenign hstrict
      rwa [Strategy.Benign, if_neg hconsumed] at hrefused

theorem foresight_lazy (hp : Coupled (foresight excused) (foresight excused).Same p q)
    (hmomentary : ∀ failure, failure.isConfiguration = false → excused failure)
    (strategy : Strategy) (count : Nat)
    (hbenign : (∃ failure, ¬ excused failure) → strategy.Benign count 0) :
    Coupled (foresight excused) (foresight excused).Same (Call.lazy p strategy count)
      (Call.lazy q strategy count) := by
  rw [Call.lazy, Call.lazy]
  apply Coupled.next_get
  rintro s t ⟨-, -, hquiet⟩
  rw [hquiet]
  have hclose : ∀ v w : Decimal, Coupled (foresight excused) (foresight excused).Same
      (Eval.expect .closeParen >>= fun _ => pure v)
      (Eval.expect .closeParen >>= fun _ => pure w) := by
    intro v w
    apply Coupled.expectClose.bind
    intro _ _ _
    exact .pure False.elim
  cases s.live with
  | true =>
    change Coupled _ _ (remainder p count strategy 0 >>= fun v =>
      Eval.expect .closeParen >>= fun _ => pure v) (Call.values q 0 count >>= fun _ =>
      Eval.expect .closeParen >>= fun _ => pure Decimal.zero)
    apply (remainder_foreseen hp hmomentary strategy hbenign).bind
    intro v _ _
    exact hclose v Decimal.zero
  | false =>
    apply (values_coupled hp 0 count).bind
    intro _ _ _
    exact hclose Decimal.zero Decimal.zero

/-- A run stays beside one that checks, whatever the functions are if every failure is
excused, and otherwise if they only fail because of their values. -/
theorem foresight_carries {first second : Environment}
    (hregistry : first.registry = second.registry) (hmaxDepth : first.maxDepth = second.maxDepth)
    (hbenign : (∃ failure, ¬ excused failure) → first.registry.Benign)
    (hmomentary : ∀ failure, failure.isConfiguration = false → excused failure)
    (hstore : first.store.FailsWithin excused) (hbindings : BindsAfter excused first second) :
    (foresight excused).Carries first second where
  registry := hregistry
  maxDepth := hmaxDepth
  precision hexact := hexact.elim
  benign := hbenign
  computed _ hcomputed :=
    foresight_whenLive (computes_lift (excuses_of_momentary hmomentary hcomputed)) _
  nested hp := by
    rw [hmaxDepth]
    apply Coupled.nested _ _ _ _ hp
    · exact fun h => h.2.1
    · exact fun h depth => ⟨h.1, rfl, h.2.2⟩
    · exact fun h _ _ => h
  named := foresight_variables hregistry hbindings hmomentary
  lazy hp strategy count hstrategy := foresight_lazy hp hmomentary strategy count hstrategy
  reduced function metric window _ _ _ _ hreduced :=
    foresight_whenLive (computes_reduce hstore function metric window (hmomentary _ rfl)
      fun series => excuses_of_momentary hmomentary fun hstrict => hreduced hstrict series) _

end Foresight

end DerivedTelemetry
