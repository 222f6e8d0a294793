import DerivedTelemetry.Proofs.Denotation
import DerivedTelemetry.Proofs.Evaluation.Dependence
import DerivedTelemetry.Proofs.Expression.Respelling

/-!
# What an evaluation can depend on

Checking an expression answers the names in it, without any values.  These names are all that
an evaluation can depend on: other variables have no influence, a variable can only be missing
if it is among the names, and nothing is asked of the store unless one of the functions looks
back at samples.
-/

namespace DerivedTelemetry

open DerivedTelemetry.Derivation

/-! ### Two instances -/

/-- Outcomes that are the same. -/
def Outcome.equality : Outcome.Congruence where
  relates := Eq
  pure _ := rfl
  bind h hnext := by rw [h, funext hnext]
  lift _ := rfl

/-- An outcome that makes permitted requests only, and fails only with a fault of an excused
kind or where the store failed in answer to one of its requests. -/
structure Outcome.Explained (store : Store) (excused : Fault.Kind → Prop)
    (permitted : Request → Prop) {α : Type} (m : Outcome α) : Prop where
  requests : ∀ request ∈ m.requests, permitted request
  failures : ∀ failure, m.result = .error failure →
    (∃ cause, failure = .fault cause ∧ excused cause.kind) ∨
      ∃ request ∈ m.requests, store request = .error failure

namespace Outcome.Explained

variable {store : Store} {excused : Fault.Kind → Prop} {permitted : Request → Prop} {α β : Type}

theorem pure (value : α) : Explained store excused permitted (Pure.pure value) :=
  ⟨List.forall_mem_nil _, nofun⟩

theorem fail {fault : Fault} (h : excused fault.kind) :
    Explained store excused permitted (.fail fault : Outcome α) := by
  refine ⟨List.forall_mem_nil _, ?_⟩
  rintro failure ⟨⟩
  exact .inl ⟨fault, rfl, h⟩

theorem lift {result : Except Fault α} (harithmetic : excused .arithmetic)
    (h : Momentary result) : Explained store excused permitted (.lift result) := by
  cases result with
  | ok value => exact pure value
  | error fault =>
    apply fail
    rwa [show fault.kind = .arithmetic from h fault rfl]

theorem bind {m : Outcome α} {f : α → Outcome β} (h : Explained store excused permitted m)
    (hnext : ∀ value, Explained store excused permitted (f value)) :
    Explained store excused permitted (m >>= f) := by
  obtain ⟨requests, result⟩ := m
  cases result with
  | error failure =>
    refine ⟨h.requests, ?_⟩
    rintro other ⟨⟩
    exact h.failures failure rfl
  | ok value =>
    constructor
    · intro request hrequest
      rcases List.mem_append.mp hrequest with hfirst | hsecond
      · exact h.requests request hfirst
      · exact (hnext value).requests request hsecond
    · intro failure hfailure
      rcases (hnext value).failures failure hfailure with hexcused | ⟨request, hmem, hanswer⟩
      · exact .inl hexcused
      · exact .inr ⟨request, List.mem_append_right _ hmem, hanswer⟩

theorem request {request : Request} (h : permitted request) :
    Explained store excused permitted ⟨[request], store request⟩ := by
  constructor
  · intro other hother
    rwa [List.mem_singleton.mp hother]
  · intro failure hfailure
    exact .inr ⟨request, List.mem_singleton_self request, hfailure⟩

end Outcome.Explained

/-- Being explained is a relation in which the second outcome has no part. -/
def Outcome.explained (store : Store) (excused : Fault.Kind → Prop)
    (permitted : Request → Prop) (harithmetic : excused .arithmetic) : Outcome.Congruence where
  relates m _ := m.Explained store excused permitted
  pure := .pure
  bind := .bind
  lift := .lift harithmetic

/-- Looking back makes one request, in a context. -/
theorem explained_windowMeaning (env : Environment) {excused : Fault.Kind → Prop}
    {permitted : Request → Prop} (harithmetic : excused .arithmetic)
    (hcontext : excused .noContext) (hpermitted : ∀ request, permitted request)
    {function : String} {texts : List String} {target : String × Window}
    (htarget : Call.target function texts = .ok target) {reduction : Statistics.Reduction}
    {numbers : List Decimal} (h : ∀ series, Momentary (reduction series numbers)) :
    (windowMeaning env function reduction texts numbers).Explained env.store excused
      permitted := by
  rw [windowMeaning, htarget]
  cases env.context with
  | none => exact .fail hcontext
  | some context =>
    apply Outcome.Explained.bind (.request (hpermitted _))
    intro samples
    exact .lift harithmetic (h _)

/-! ### Names and categories -/

theorem Registry.lookup?_name {registry : Registry} {name : String} {entry : Entry}
    (h : registry.lookup? name = some entry) : registry.lookup? entry.name = some entry := by
  have hkey : nameKey entry.name = nameKey name := by
    have hfound := List.find?_some h
    exact beq_iff_eq.mp hfound
  rw [registry.lookup?_congr hkey, h]

/-- Only statistical functions look back at samples. -/
theorem Builtin.category_of_statistical : ∀ entry ∈ registry.entries, ∀ kinds reduction,
    entry.implementation = .statistical kinds reduction → entry.category = .statistical := by
  apply forall_registry
  · simp [mathFunctions, math]
  · simp [logicFunctions, logic]
  · simp [statisticalFunctions, statistical]

/-- The registered name of a function is among the names. -/
def ExpressionInfo.Calls (info : ExpressionInfo) (registry : Registry) (name : String) : Prop :=
  ∀ entry, registry.lookup? name = some entry → entry.name ∈ info.functionNames

/-- No function among the names is one that looks back at samples. -/
def ExpressionInfo.Memoryless (info : ExpressionInfo) (registry : Registry) : Prop :=
  ∀ name ∈ info.functionNames, ∀ entry, registry.lookup? name = some entry →
    entry.category ≠ .statistical

theorem ExpressionInfo.Memoryless.implementation_ne {info : ExpressionInfo}
    (h : info.Memoryless Builtin.registry) {name : String}
    (hcalled : info.Calls Builtin.registry name) {entry : Entry}
    (hentry : Builtin.registry.lookup? name = some entry) {kinds : List ArgumentKind}
    {reduction : Statistics.Reduction} :
    entry.implementation ≠ .statistical kinds reduction := by
  intro himplementation
  have hmem : entry ∈ Builtin.registry.entries := List.mem_of_find?_eq_some hentry
  exact h entry.name (hcalled entry hentry) entry (Registry.lookup?_name hentry)
    (Builtin.category_of_statistical entry hmem kinds reduction himplementation)

/-- All names among symbols are noted. -/
theorem namesWithin_noted (registry : Registry) (symbols : List Symbol) :
    NamesWithin (· ∈ (noted registry symbols .empty).variableNames)
      ((noted registry symbols .empty).Calls registry) symbols := by
  rw [namesWithin_iff]
  constructor
  · intro name hname
    rw [mem_variableNames_noted]
    exact .inr hname
  · intro name hname entry hentry
    rw [mem_functionNames_noted]
    exact .inr ⟨name, hname, entry, hentry, rfl⟩

namespace Engine

/-- What an evaluation asks for, and what comes of it. -/
def outcome (engine : Engine) (store : Store) (bindings : String → Option Decimal)
    (context : Option Context) (expression : String) : Outcome Decimal :=
  ⟨(engine.evaluate store bindings context expression).2.requests,
    (engine.evaluate store bindings context expression).1⟩

/-- An accepted expression has an admissible tree, with no other names than those that were
answered, and evaluations come to what the tree means. -/
theorem outcome_of_validate {engine : Engine} {expression : String} {info : ExpressionInfo}
    (h : engine.validate expression = .ok info) :
    ∃ tree : Comparison, tree.Admissible engine.registry ∧
      NamesWithin (· ∈ info.variableNames) (info.Calls engine.registry) tree.yield ∧
      ∀ store bindings context, engine.outcome store bindings context expression =
        tree.meaning (engine.environment store bindings context) := by
  obtain ⟨tokens, tree, htokens, hderives, hadmissible, hnesting, hinfo⟩ := validate_eq_ok.mp h
  refine ⟨tree, hadmissible, ?_, ?_⟩
  · have hall : NamesWithin (· ∈ info.variableNames) (info.Calls engine.registry)
        (tokens.map (·.symbol)) :=
      hinfo ▸ namesWithin_noted engine.registry _
    rw [hderives.derived, namesWithin_append (by simp)] at hall
    exact hall.1
  · intro store bindings context
    obtain ⟨hvalue, hrequests⟩ :=
      evaluate_of_derives htokens hderives hadmissible hnesting store bindings context
    rw [outcome, hvalue, hrequests]

/-- Two evaluations of an accepted expression are related if the values and the windows are
that the names in it stand for. -/
theorem outcome_related {engine : Engine} {expression : String} {info : ExpressionInfo}
    (h : engine.validate expression = .ok info) {store otherStore : Store}
    {bindings others : String → Option Decimal} {context otherContext : Option Context}
    {R : Outcome.Congruence}
    (hcarries : R.Carries (· ∈ info.variableNames) (info.Calls engine.registry)
      (engine.environment store bindings context)
      (engine.environment otherStore others otherContext)) :
    R.relates (engine.outcome store bindings context expression)
      (engine.outcome otherStore others otherContext expression) := by
  obtain ⟨tree, hadmissible, hnames, hmeaning⟩ := outcome_of_validate h
  rw [hmeaning, hmeaning]
  exact comparison_related hcarries tree hnames hadmissible

/-! ### The environments of an engine -/

section Carries

variable {engine : Engine} {bare called : String → Prop} {store : Store}
  {bindings : String → Option Decimal} {context : Option Context}

theorem equality_carries_bindings (hbenign : engine.registry.Benign)
    {others : String → Option Decimal}
    (hagree : ∀ name, bare name → bindings name = others name) :
    Outcome.equality.Carries bare called (engine.environment store bindings context)
      (engine.environment store others context) where
  registry := rfl
  precision := rfl
  benign := hbenign
  named name hname := by
    have hbindings : (engine.environment store bindings context).bindings name =
        (engine.environment store others context).bindings name := hagree name hname
    change Factor.meaning _ _ = Factor.meaning _ _
    rw [Factor.meaning, Factor.meaning, hbindings]
  window _ _ _ _ _ _ _ _ := rfl

/-- Variables that are bound are never unknown. -/
theorem explained_carries_bound (hbenign : engine.registry.Benign)
    (hbound : ∀ name, bare name → (bindings name).isSome = true) :
    (Outcome.explained store (· ≠ .unknownVariable) (fun _ => True) (by decide)).Carries bare
      called (engine.environment store bindings context)
      (engine.environment store bindings context) where
  registry := rfl
  precision := rfl
  benign := hbenign
  named name hname := by
    obtain ⟨value, hvalue⟩ := Option.isSome_iff_exists.mp (hbound name hname)
    have hbinding : (engine.environment store bindings context).bindings name = some value :=
      hvalue
    change (Factor.meaning _ _).Explained _ _ _
    rw [Factor.meaning, hbinding]
    exact .pure value
  window _ _ _ _ _ _ htarget hmomentary :=
    explained_windowMeaning (engine.environment store bindings context) (by decide) (by decide)
      (fun _ => trivial) htarget hmomentary

variable (hnone : ∀ {name : String}, called name → ∀ {entry : Entry},
  engine.registry.lookup? name = some entry → ∀ {kinds : List ArgumentKind}
    {reduction : Statistics.Reduction}, entry.implementation ≠ .statistical kinds reduction)

include hnone

/-- Where nothing looks back, store and context are never asked. -/
theorem equality_carries_surroundings (hbenign : engine.registry.Benign) (otherStore : Store)
    (otherContext : Option Context) :
    Outcome.equality.Carries bare called (engine.environment store bindings context)
      (engine.environment otherStore bindings otherContext) where
  registry := rfl
  precision := rfl
  benign := hbenign
  named _ _ := rfl
  window hcalled hentry himplementation := absurd himplementation (hnone hcalled hentry)

theorem explained_carries_memoryless (hbenign : engine.registry.Benign) :
    (Outcome.explained store (fun kind => kind ≠ .noContext ∧ kind ≠ .store) (fun _ => False)
      (by decide)).Carries bare called (engine.environment store bindings context)
      (engine.environment store bindings context) where
  registry := rfl
  precision := rfl
  benign := hbenign
  named name _ := by
    change (Factor.meaning _ _).Explained _ _ _
    rw [Factor.meaning]
    cases (engine.environment store bindings context).bindings name with
    | some value => exact .pure value
    | none => exact .fail ⟨nofun, nofun⟩
  window hcalled hentry himplementation := absurd himplementation (hnone hcalled hentry)

end Carries

/-- With the built-in functions, the names that checking answers are all that an evaluation of
the expression can depend on.  Values of other variables make no difference.  If all of these
variables are bound, none is unknown, unless it is the store that answers so.  And if none of
these functions looks back at samples, the store is never asked, so that neither the store nor
the context makes a difference or can be to blame for a failure. -/
theorem validated_names_suffice (settings : Settings) {expression : String}
    {info : ExpressionInfo}
    (h : Engine.validate ⟨settings, Builtin.registry⟩ expression = .ok info) :
    let engine : Engine := ⟨settings, Builtin.registry⟩
    (∀ store context (bindings others : String → Option Decimal),
      (∀ name ∈ info.variableNames, bindings name = others name) →
      let first := engine.evaluate store bindings context expression
      let second := engine.evaluate store others context expression
      first.1 = second.1 ∧ first.2.requests = second.2.requests) ∧
    (∀ store context (bindings : String → Option Decimal),
      (∀ name ∈ info.variableNames, (bindings name).isSome = true) →
      let evaluated := engine.evaluate store bindings context expression
      ∀ name, evaluated.1 = .error (.fault (.unknownVariable name)) →
        ∃ request ∈ evaluated.2.requests,
          store request = .error (.fault (.unknownVariable name))) ∧
    (info.Memoryless Builtin.registry →
      ∀ store context (bindings : String → Option Decimal),
        let evaluated := engine.evaluate store bindings context expression
        evaluated.2.requests = [] ∧
        (∀ failure, evaluated.1 = .error failure →
          ∃ cause, failure = .fault cause ∧ cause.kind ≠ .noContext ∧ cause.kind ≠ .store) ∧
        ∀ otherStore otherContext,
          (engine.evaluate otherStore bindings otherContext expression).1 = evaluated.1) := by
  intro engine
  refine ⟨?_, ?_, ?_⟩
  · intro store context bindings others hagree first second
    have hsame : engine.outcome store bindings context expression =
        engine.outcome store others context expression :=
      outcome_related h (equality_carries_bindings Builtin.benign_registry hagree)
    exact ⟨congrArg Outcome.result hsame, congrArg Outcome.requests hsame⟩
  · intro store context bindings hbound evaluated name hunknown
    have hexplained : Outcome.Explained store (· ≠ .unknownVariable) (fun _ => True)
        (engine.outcome store bindings context expression) :=
      outcome_related h (explained_carries_bound Builtin.benign_registry hbound)
    rcases hexplained.failures _ hunknown with ⟨cause, hcause, hkind⟩ | hasked
    · cases hcause
      exact absurd rfl hkind
    · exact hasked
  · intro hmemoryless store context bindings evaluated
    have hexplained : Outcome.Explained store (fun kind => kind ≠ .noContext ∧ kind ≠ .store)
        (fun _ => False) (engine.outcome store bindings context expression) :=
      outcome_related h
        (explained_carries_memoryless hmemoryless.implementation_ne Builtin.benign_registry)
    refine ⟨List.eq_nil_iff_forall_not_mem.mpr hexplained.requests, ?_, ?_⟩
    · intro failure hfailed
      rcases hexplained.failures failure hfailed with hcause | ⟨request, hmem, -⟩
      · exact hcause
      · exact absurd (hexplained.requests request hmem) not_false
    · intro otherStore otherContext
      have hsame : engine.outcome otherStore bindings otherContext expression =
          engine.outcome store bindings context expression :=
        outcome_related h (equality_carries_surroundings hmemoryless.implementation_ne
          Builtin.benign_registry store context)
      exact congrArg Outcome.result hsame

/-- A condition on three variables that are the same number fails in the same way whatever the
other variables are, also in a context and with a store that is down. -/
theorem validated_names_suffice_of_condition :
    Engine.validate ⟨Settings.standard, Builtin.registry⟩ "if(x > 1, y, sqrt(z))" =
        .ok ⟨["x", "y", "z"], ["if", "sqrt"]⟩ ∧
      ∀ bindings : String → Option Decimal,
        (∀ name ∈ ["x", "y", "z"], bindings name = some ⟨true, 4, 0⟩) →
        (Engine.evaluate ⟨Settings.standard, Builtin.registry⟩
            (fun _ => .error (.fault (.store "down"))) bindings (some ⟨"pump", ⟨0, 0⟩⟩)
            "if(x > 1, y, sqrt(z))").1 =
          .error (.fault (.arithmetic (.negative "sqrt" ⟨true, 4, 0⟩))) ∧
        (Engine.evaluate ⟨Settings.standard, Builtin.registry⟩
            (fun _ => .error (.fault (.store "down"))) bindings (some ⟨"pump", ⟨0, 0⟩⟩)
            "if(x > 1, y, sqrt(z))").2.requests = [] := by
  have haccepted : Engine.validate ⟨Settings.standard, Builtin.registry⟩
      "if(x > 1, y, sqrt(z))" = .ok ⟨["x", "y", "z"], ["if", "sqrt"]⟩ := by
    decide +kernel
  have hevaluated : (Engine.evaluate ⟨Settings.standard, Builtin.registry⟩ emptyStore
      (fun _ => some ⟨true, 4, 0⟩) none "if(x > 1, y, sqrt(z))").1 =
      .error (.fault (.arithmetic (.negative "sqrt" ⟨true, 4, 0⟩))) := by
    decide +kernel
  have hcategories : ∀ name ∈ ["if", "sqrt"],
      (Builtin.registry.lookup? name).map (·.category) ≠ some .statistical := by
    decide +kernel
  have hmemoryless :
      ExpressionInfo.Memoryless ⟨["x", "y", "z"], ["if", "sqrt"]⟩ Builtin.registry := by
    intro name hname entry hentry hcategory
    apply hcategories name hname
    rw [hentry, Option.map_some, hcategory]
  refine ⟨haccepted, ?_⟩
  intro bindings hagree
  obtain ⟨hbindings, -, hsurroundings⟩ := validated_names_suffice Settings.standard haccepted
  have hdown := hsurroundings hmemoryless (fun _ => .error (.fault (.store "down")))
    (some ⟨"pump", ⟨0, 0⟩⟩) bindings
  have hsame := hdown.2.2 emptyStore none
  have hagreed := (hbindings emptyStore none bindings (fun _ => some ⟨true, 4, 0⟩) hagree).1
  refine ⟨?_, hdown.1⟩
  rw [← hevaluated, ← hagreed]
  exact hsame.symm

/-- Without any variable one can be unknown: the store may say so.  And bindings have to agree
in digits, not in value alone, because a fault shows the number that it is about. -/
theorem names_do_not_suffice :
    let engine : Engine := ⟨Settings.standard, Builtin.registry⟩
    let store : Store := fun _ => .error (.fault (.unknownVariable "load"))
    (engine.validate "avg(\"load\", \"1h\")" = .ok ⟨[], ["avg"]⟩ ∧
      (engine.evaluate store (fun _ => some .one) (some ⟨"pump", ⟨0, 0⟩⟩)
        "avg(\"load\", \"1h\")").1 = .error (.fault (.unknownVariable "load"))) ∧
    engine.validate "sqrt(x)" = .ok ⟨["x"], ["sqrt"]⟩ ∧
      Decimal.Same ⟨true, 4, 0⟩ ⟨true, 40, 1⟩ ∧
      (engine.evaluate emptyStore (fun _ => some ⟨true, 4, 0⟩) none "sqrt(x)").1 ≠
        (engine.evaluate emptyStore (fun _ => some ⟨true, 40, 1⟩) none "sqrt(x)").1 := by
  refine ⟨⟨?_, ?_⟩, ?_, ?_, ?_⟩ <;> decide +kernel

end Engine

end DerivedTelemetry
