import DerivedTelemetry.Expression.Admissible
import DerivedTelemetry.Evaluation.Meaning
import DerivedTelemetry.Proofs.Evaluation.CallReading
import DerivedTelemetry.Proofs.Function.BenignEntries
import Mathlib.Data.List.Forall2

/-!
# What the meaning of an expression depends on

The meaning of a tree is built from the meanings of its variables and of its windows.  So a
relation between outcomes that is kept by doing one thing after another holds between the
meanings of a tree in two environments as soon as it holds between those of the variables and
of the windows.  Only names that stand in the text matter, and all of them do, also those in
arguments that are never evaluated.

With equality as the relation this says what the meaning depends on.  With a property of the
first outcome in its place it says what outcomes a tree can have.
-/

namespace DerivedTelemetry

open DerivedTelemetry.Derivation

/-! ### The names among symbols -/

/-- All variables and all called functions among symbols satisfy a predicate. -/
def NamesWithin (bare called : String → Prop) : List Symbol → Prop
  | .name name :: .openParen :: rest => called name ∧ NamesWithin bare called rest
  | .name name :: rest => bare name ∧ NamesWithin bare called rest
  | _ :: rest => NamesWithin bare called rest
  | [] => True

variable {bare called : String → Prop}

theorem namesWithin_iff (symbols : List Symbol) : NamesWithin bare called symbols ↔
    (∀ name ∈ bareNames symbols, bare name) ∧
      ∀ name ∈ calledNames symbols, called name := by
  fun_induction NamesWithin bare called symbols with
  | case1 name rest ih => simp [bareNames, calledNames, ih, and_left_comm]
  | case2 name rest hcall ih =>
    have hbare : bareNames (.name name :: rest) = name :: bareNames rest := by
      rw [bareNames]
      exact hcall
    have hcalled : calledNames (.name name :: rest) = calledNames rest := by
      rw [calledNames]
      exact fun _ tail _ => hcall tail
    rw [hbare, hcalled, List.forall_mem_cons, ih, and_assoc]
  | case3 symbol rest hcall hname ih =>
    have hbare : bareNames (symbol :: rest) = bareNames rest := by
      rw [bareNames]
      · exact hcall
      · exact hname
    have hcalled : calledNames (symbol :: rest) = calledNames rest := by
      rw [calledNames]
      exact hcall
    rw [hbare, hcalled, ih]
  | case4 => simp [bareNames, calledNames]

theorem namesWithin_cons {symbol : Symbol} (h : ∀ text, symbol ≠ .name text)
    (rest : List Symbol) : NamesWithin bare called (symbol :: rest) ↔
      NamesWithin bare called rest := by
  cases symbol with
  | name text => exact absurd rfl (h text)
  | _ => rfl

/-- Symbols in a row may be split wherever no parenthesis opens. -/
theorem namesWithin_append {front back : List Symbol} (h : back.head? ≠ some .openParen) :
    NamesWithin bare called (front ++ back) ↔
      NamesWithin bare called front ∧ NamesWithin bare called back := by
  fun_induction NamesWithin bare called front with
  | case1 name rest ih =>
    rw [List.cons_append, List.cons_append, NamesWithin, ih, and_assoc]
  | case2 name rest hcall ih =>
    have hopen : ∀ tail, rest ++ back ≠ .openParen :: tail := by
      intro tail htail
      cases rest with
      | nil => exact h (congrArg List.head? htail)
      | cons first others => exact hcall others (by rw [(List.cons.inj htail).1])
    rw [List.cons_append, NamesWithin, ih, and_assoc]
    exact hopen
  | case3 symbol rest hcall hname ih =>
    rw [List.cons_append, NamesWithin, ih]
    · exact fun name tail hsymbol _ => hname name hsymbol
    · exact hname
  | case4 => simp

/-- Two phrases with an operator between them. -/
theorem NamesWithin.infixed {left right : List Symbol} {symbol : Symbol}
    (h : NamesWithin bare called (left ++ symbol :: right))
    (hname : ∀ text, symbol ≠ .name text) (hopen : symbol ≠ .openParen) :
    NamesWithin bare called left ∧ NamesWithin bare called right := by
  rwa [namesWithin_append (by simpa using hopen), namesWithin_cons hname] at h

theorem NamesWithin.separated {arguments : List (List Symbol)}
    (h : NamesWithin bare called (separated arguments ++ [.closeParen])) :
    ∀ argument ∈ arguments, NamesWithin bare called argument := by
  cases arguments with
  | nil => nofun
  | cons first others =>
    have hlater : ∀ others : List (List Symbol),
        (others.flatMap (.comma :: ·) ++ [Symbol.closeParen]).head? ≠ some .openParen := by
      intro others
      cases others <;> simp
    rw [separated_cons_eq, List.append_assoc, namesWithin_append (hlater others)] at h
    refine List.forall_mem_cons.mpr ⟨h.1, ?_⟩
    replace h := h.2
    induction others with
    | nil => nofun
    | cons second others ih =>
      rw [List.flatMap_cons, List.cons_append, List.cons_append, List.append_assoc,
        namesWithin_cons (by simp), namesWithin_append (hlater others)] at h
      exact List.forall_mem_cons.mpr ⟨h.1, ih h.2⟩

/-! ### Relations that are kept -/

/-- A relation between outcomes that is kept by doing one thing after another. -/
structure Outcome.Congruence where
  relates {α : Type} : Outcome α → Outcome α → Prop
  pure {α : Type} (value : α) : relates (Pure.pure value) (Pure.pure value)
  bind {α β : Type} {m n : Outcome α} {f g : α → Outcome β} (h : relates m n)
    (hnext : ∀ value, relates (f value) (g value)) : relates (m >>= f) (n >>= g)
  lift {result : Except Fault Decimal} (h : Momentary result) :
    relates (.lift result) (.lift result)

/-- The relation holds between the variables and between the windows of two environments, as
far as they may be named. -/
structure Outcome.Congruence.Carries (R : Outcome.Congruence) (bare called : String → Prop)
    (env other : Environment) : Prop where
  registry : env.registry = other.registry
  precision : env.precision = other.precision
  benign : env.registry.Benign
  named : ∀ name, bare name →
    R.relates (Factor.meaning env (.named name)) (Factor.meaning other (.named name))
  window : ∀ {name : String} {entry : Entry} {kinds : List ArgumentKind}
    {reduction : Statistics.Reduction}, called name →
    env.registry.lookup? name = some entry → entry.implementation = .statistical kinds reduction →
    ∀ {texts : List String} {target : String × Window} {numbers : List Decimal},
      Call.target entry.name texts = .ok target →
      (∀ series, Momentary (reduction series numbers)) →
      R.relates (windowMeaning env entry.name reduction texts numbers)
        (windowMeaning other entry.name reduction texts numbers)

namespace Outcome.Congruence

variable {R : Outcome.Congruence} {env other : Environment}

/-- All arguments have a value before what they are for is known. -/
theorem mapM_bind {values others : List (Outcome Decimal)}
    (h : List.Forall₂ R.relates values others) {β : Type} {f g : List Decimal → Outcome β}
    (hnext : ∀ numbers : List Decimal, numbers.length = values.length →
      R.relates (f numbers) (g numbers)) :
    R.relates (values.mapM id >>= f) (others.mapM id >>= g) := by
  induction h generalizing f g with
  | nil => exact hnext [] rfl
  | cons hfirst _ ih =>
    simp only [List.mapM_cons, bind_assoc, pure_bind]
    apply R.bind hfirst
    intro value
    apply ih
    intro numbers hlength
    exact hnext (value :: numbers) (congrArg (· + 1) hlength)

theorem strategy_related (strategy : Strategy) {left others : List (Outcome Decimal)}
    (h : List.Forall₂ R.relates left others) {total consumed : Nat}
    (htotal : consumed + left.length = total) (hbenign : strategy.Benign total consumed) :
    R.relates (strategy.meaning total left) (strategy.meaning total others) := by
  induction strategy generalizing consumed left others with
  | finish value => exact R.pure value
  | fail fault => exact R.lift (.error hbenign)
  | ask next ih =>
    rw [Strategy.meaning, Strategy.meaning, ← h.length_eq]
    apply ih left.length h htotal
    rw [Strategy.Benign] at hbenign
    rwa [show left.length = total - consumed by omega]
  | take next refused ih ihRefused =>
    rw [Strategy.Benign] at hbenign
    cases h with
    | nil =>
      rw [if_neg (by simp at htotal; omega)] at hbenign
      exact ihRefused _ .nil htotal hbenign
    | cons hfirst hrest =>
      simp only [List.length_cons] at htotal
      rw [if_pos (by omega)] at hbenign
      apply R.bind hfirst
      intro value
      exact ih value hrest (by omega) (hbenign value)
  | skip next refused ih ihRefused =>
    rw [Strategy.Benign] at hbenign
    cases h with
    | nil =>
      rw [if_neg (by simp at htotal; omega)] at hbenign
      exact ihRefused _ .nil htotal hbenign
    | cons hfirst hrest =>
      simp only [List.length_cons] at htotal
      rw [if_pos (by omega)] at hbenign
      exact ih hrest (by omega) hbenign

end Outcome.Congruence

theorem Derivation.Arguments.length_meanings_eq_count (env : Environment)
    (arguments : Arguments) :
    (arguments.meanings env).length = arguments.quotes.count false := by
  fun_induction Arguments.quotes arguments with
  | case1 => rfl
  | case2 first rest ih =>
    rw [Arguments.meanings, List.length_cons, List.count_cons_self, ih]
  | case3 text rest ih =>
    rw [Arguments.meanings, List.count_cons_of_ne (by decide), ih]

theorem count_isQuoted (kinds : List ArgumentKind) :
    (kinds.map (·.isQuoted)).count false = kinds.count .number := by
  induction kinds with
  | nil => rfl
  | cons kind kinds ih =>
    rw [List.map_cons]
    cases kind with
    | number => rw [ArgumentKind.isQuoted, List.count_cons_self, List.count_cons_self, ih]
    | literal =>
      rw [ArgumentKind.isQuoted, List.count_cons_of_ne (by decide),
        List.count_cons_of_ne (by decide), ih]

namespace Outcome.Congruence.Carries

variable {R : Outcome.Congruence} {env other : Environment}
  (h : R.Carries bare called env other)

include h

/-- A call of a function that may be named. -/
theorem entry_related {name : String} {entry : Entry} (hname : called name)
    (hentry : env.registry.lookup? name = some entry) {arguments : Arguments}
    (haccepts : entry.arity.accepts arguments.quotes.length = true)
    (hadmits : entry.implementation.Admits arguments.quotes arguments.texts)
    (harguments : List.Forall₂ R.relates (arguments.meanings env) (arguments.meanings other)) :
    R.relates (entry.meaning env arguments.texts (arguments.meanings env))
      (entry.meaning other arguments.texts (arguments.meanings other)) := by
  have hbenign := h.benign.of_lookup? hentry
  rw [Entry.meaning, Entry.meaning]
  cases himplementation : entry.implementation with
  | numeric arity function =>
    rw [himplementation] at hbenign hadmits
    rw [Entry.arity, himplementation] at haccepts
    apply mapM_bind harguments
    intro numbers hlength
    apply R.lift
    apply hbenign
    rwa [hlength, arguments.length_meanings env hadmits]
  | lazy arity strategy =>
    rw [himplementation] at hbenign hadmits
    rw [Entry.arity, himplementation] at haccepts
    dsimp only
    rw [← harguments.length_eq]
    apply strategy_related strategy harguments (Nat.zero_add _)
    rw [arguments.length_meanings env hadmits]
    exact hbenign _ haccepts
  | statistical kinds reduction =>
    rw [himplementation] at hbenign hadmits
    obtain ⟨hquotes, metric, code, others, htexts, hcode⟩ := hadmits
    obtain ⟨window, htarget⟩ := exists_target entry.name metric others hcode
    rw [← htexts] at htarget
    apply mapM_bind harguments
    intro numbers hlength
    apply h.window hname hentry himplementation htarget
    intro series
    apply hbenign
    rw [hlength, arguments.length_meanings_eq_count, hquotes, count_isQuoted]

end Outcome.Congruence.Carries

/-! ### Trees -/

section Trees

variable {R : Outcome.Congruence} {env other : Environment}

/-- An operator between two phrases. -/
theorem Outcome.Congruence.infixed {left right : List Symbol} {symbol : Symbol}
    (hname : ∀ text, symbol ≠ .name text) (hopen : symbol ≠ .openParen)
    (h : NamesWithin bare called (left ++ symbol :: right)) {a b c d : Outcome Decimal}
    (hleft : NamesWithin bare called left → R.relates a b)
    (hright : NamesWithin bare called right → R.relates c d)
    {f : Decimal → Decimal → Outcome Decimal} (hf : ∀ x y, R.relates (f x y) (f x y)) :
    R.relates (a >>= fun x => c >>= fun y => f x y) (b >>= fun x => d >>= fun y => f x y) := by
  obtain ⟨hfirst, hsecond⟩ := h.infixed hname hopen
  apply R.bind (hleft hfirst)
  intro x
  apply R.bind (hright hsecond)
  intro y
  exact hf x y

mutual

theorem comparison_related (h : R.Carries bare called env other) : ∀ tree : Comparison,
    NamesWithin bare called tree.yield → tree.Admissible env.registry →
    R.relates (tree.meaning env) (tree.meaning other)
  | .plain operand, hnames, hadmissible => sum_related h operand hnames hadmissible
  | .compared left symbol right valid, hnames, hadmissible => by
    apply R.infixed _ _ hnames
    · exact fun hleft => sum_related h left hleft hadmissible.1
    · exact fun hright => sum_related h right hright hadmissible.2
    · exact fun x y => R.pure _
    · rintro text rfl
      cases valid
    · rintro rfl
      cases valid

theorem sum_related (h : R.Carries bare called env other) : ∀ tree : Sum,
    NamesWithin bare called tree.yield → tree.Admissible env.registry →
    R.relates (tree.meaning env) (tree.meaning other)
  | .plain operand, hnames, hadmissible => product_related h operand hnames hadmissible
  | .added left right, hnames, hadmissible =>
    R.infixed (by simp) (by simp) hnames (fun hleft => sum_related h left hleft hadmissible.1)
      (fun hright => product_related h right hright hadmissible.2)
      fun a b => R.lift (Checked.momentary_add a b)
  | .subtracted left right, hnames, hadmissible =>
    R.infixed (by simp) (by simp) hnames (fun hleft => sum_related h left hleft hadmissible.1)
      (fun hright => product_related h right hright hadmissible.2)
      fun a b => R.lift (Checked.momentary_sub a b)

theorem product_related (h : R.Carries bare called env other) : ∀ tree : Product,
    NamesWithin bare called tree.yield → tree.Admissible env.registry →
    R.relates (tree.meaning env) (tree.meaning other)
  | .plain operand, hnames, hadmissible => factor_related h operand hnames hadmissible
  | .multiplied left right, hnames, hadmissible =>
    R.infixed (by simp) (by simp) hnames
      (fun hleft => product_related h left hleft hadmissible.1)
      (fun hright => factor_related h right hright hadmissible.2)
      fun a b => R.lift (Checked.momentary_mul a b)
  | .divided left right, hnames, hadmissible => by
    rw [Product.meaning, Product.meaning, ← h.precision]
    exact R.infixed (by simp) (by simp) hnames
      (fun hleft => product_related h left hleft hadmissible.1)
      (fun hright => factor_related h right hright hadmissible.2)
      fun a b => R.lift (Checked.momentary_div a b _)

theorem factor_related (h : R.Carries bare called env other) : ∀ tree : Factor,
    NamesWithin bare called tree.yield → tree.Admissible env.registry →
    R.relates (tree.meaning env) (tree.meaning other)
  | .positive operand, hnames, hadmissible => factor_related h operand hnames hadmissible
  | .negative operand, hnames, hadmissible =>
    R.bind (factor_related h operand hnames hadmissible) fun value => R.pure (-value)
  | .number value, _, _ => R.pure value
  | .group inner, hnames, hadmissible =>
    comparison_related h inner ((namesWithin_append (by simp)).mp hnames).1 hadmissible
  | .named name, hnames, _ => h.named name hnames.1
  | .call name arguments, hnames, hadmissible => by
    obtain ⟨⟨entry, hentry, haccepts, hadmits⟩, harguments⟩ := hadmissible
    rw [Factor.meaning, Factor.meaning, ← h.registry, hentry]
    exact h.entry_related hnames.1 hentry haccepts hadmits
      (arguments_related h arguments hnames.2.separated harguments)

theorem arguments_related (h : R.Carries bare called env other) : ∀ arguments : Arguments,
    (∀ argument ∈ arguments.yields, NamesWithin bare called argument) →
    arguments.Admissible env.registry →
    List.Forall₂ R.relates (arguments.meanings env) (arguments.meanings other)
  | .nil, _, _ => .nil
  | .value first rest, hnames, hadmissible => by
    obtain ⟨hfirst, hrest⟩ := List.forall_mem_cons.mp hnames
    exact .cons (comparison_related h first hfirst hadmissible.1)
      (arguments_related h rest hrest hadmissible.2)
  | .text _ rest, hnames, hadmissible =>
    arguments_related h rest (List.forall_mem_cons.mp hnames).2 hadmissible

end

end Trees

end DerivedTelemetry
