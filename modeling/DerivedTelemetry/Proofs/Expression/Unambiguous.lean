import DerivedTelemetry.Expression.Derivation
import DerivedTelemetry.Proofs.Expression.Reach

/-!
# The grammar is unambiguous

No two trees derive the same symbols, so that one may speak of the tree of an expression.
The trees of one nonterminal are told apart symbol by symbol from the left, also when
something follows that cannot belong to them.

Operators associate to the left, and a tree of products or sums has its first operand at
the bottom.  Such a tree is laid out as its operands in the order of the text first.
-/

namespace DerivedTelemetry.Derivation

/-- Each tree with the property `p` is determined by any text that begins with its yield
and goes on with something that it cannot be continued by. -/
def UniquelyRead {Tree : Type} (looseness : Nat) (yield : Tree → List Symbol)
    (p : Tree → Prop) : Prop :=
  ∀ a b restA restB, p a → Stops looseness restA → Stops looseness restB →
    yield a ++ restA = yield b ++ restB → a = b ∧ restA = restB

/-! ### Operands in a row -/

/-- Operands, each with the operator before it. -/
def operandYield {Tree : Type} (yield : Tree → List Symbol) (operands : List (Symbol × Tree)) :
    List Symbol :=
  operands.flatMap fun operand => operand.1 :: yield operand.2

theorem operandYield_append {Tree : Type} (yield : Tree → List Symbol)
    (operands : List (Symbol × Tree)) (operator : Symbol) (last : Tree) :
    operandYield yield (operands ++ [(operator, last)]) =
      operandYield yield operands ++ operator :: yield last := by
  simp [operandYield]

theorem stops_operandYield {Tree : Type} {yield : Tree → List Symbol} {looseness : Nat}
    {operands : List (Symbol × Tree)} {rest : List Symbol}
    (hoperators : ∀ operand ∈ operands, operand.1.looseness = looseness)
    (hrest : Stops (looseness + 1) rest) :
    Stops looseness (operandYield yield operands ++ rest) := by
  cases operands with
  | nil => exact hrest.mono (Nat.le_succ looseness)
  | cons operand operands => exact Nat.le_of_eq (hoperators operand List.mem_cons_self).symm

theorem UniquelyRead.operands {Tree : Type} {looseness : Nat} {yield : Tree → List Symbol}
    {p : Tree → Prop} (h : UniquelyRead looseness yield p) {as bs : List (Symbol × Tree)}
    {restA restB : List Symbol} (hp : ∀ a ∈ as, p a.2)
    (has : ∀ a ∈ as, a.1.looseness = looseness) (hbs : ∀ b ∈ bs, b.1.looseness = looseness)
    (hrestA : Stops (looseness + 1) restA) (hrestB : Stops (looseness + 1) restB)
    (heq : operandYield yield as ++ restA = operandYield yield bs ++ restB) :
    as = bs ∧ restA = restB := by
  induction as generalizing bs with
  | nil =>
    cases bs with
    | nil => exact ⟨rfl, heq⟩
    | cons b bs =>
      have hstops : Stops (looseness + 1) (operandYield yield (b :: bs) ++ restB) :=
        heq ▸ hrestA
      have := hbs b List.mem_cons_self
      exact absurd hstops (by simp [operandYield, Stops, this])
  | cons a as ih =>
    cases bs with
    | nil =>
      have hstops : Stops (looseness + 1) (operandYield yield (a :: as) ++ restA) :=
        heq ▸ hrestB
      have := has a List.mem_cons_self
      exact absurd hstops (by simp [operandYield, Stops, this])
    | cons b bs =>
      simp only [operandYield, List.flatMap_cons, List.cons_append, List.append_assoc] at heq
      obtain ⟨hoperator, hoperand⟩ := List.cons.inj heq
      have hasTail := fun x hx => has x (List.mem_cons_of_mem a hx)
      have hbsTail := fun x hx => hbs x (List.mem_cons_of_mem b hx)
      obtain ⟨hfirst, hlater⟩ := h a.2 b.2 _ _ (hp a List.mem_cons_self)
        (stops_operandYield hasTail hrestA) (stops_operandYield hbsTail hrestB) hoperand
      obtain ⟨rfl, hrest⟩ :=
        ih (fun x hx => hp x (List.mem_cons_of_mem a hx)) hasTail hbsTail hlater
      exact ⟨by rw [Prod.ext hoperator hfirst], hrest⟩

/-- Trees that are laid out as a first operand and further ones after operators. -/
structure Layout (Tree Operand : Type) (yield : Tree → List Symbol)
    (operandYields : Operand → List Symbol) (looseness : Nat) where
  spine : Tree → Operand × List (Symbol × Operand)
  injective : Function.Injective spine
  yield_eq : ∀ tree, yield tree =
    operandYields (spine tree).1 ++ operandYield operandYields (spine tree).2
  looseness_eq : ∀ tree, ∀ operand ∈ (spine tree).2, operand.1.looseness = looseness

theorem UniquelyRead.ofLayout {Tree Operand : Type} {yield : Tree → List Symbol}
    {operandYields : Operand → List Symbol} {looseness : Nat} {p : Operand → Prop}
    (h : UniquelyRead looseness operandYields p)
    (layout : Layout Tree Operand yield operandYields looseness) :
    UniquelyRead (looseness + 1) yield fun tree =>
      p (layout.spine tree).1 ∧ ∀ operand ∈ (layout.spine tree).2, p operand.2 := by
  intro a b restA restB hp hrestA hrestB heq
  rw [layout.yield_eq, layout.yield_eq, List.append_assoc, List.append_assoc] at heq
  obtain ⟨hfirst, hlater⟩ := h _ _ _ _ hp.1
    (stops_operandYield (layout.looseness_eq a) hrestA)
    (stops_operandYield (layout.looseness_eq b) hrestB) heq
  obtain ⟨hoperands, hrest⟩ := h.operands hp.2 (layout.looseness_eq a)
    (layout.looseness_eq b) hrestA hrestB hlater
  exact ⟨layout.injective (Prod.ext hfirst hoperands), hrest⟩

/-! ### Products and sums -/

/-- A row of operands with one more at its end. -/
def extended {Operand : Type} (row : Operand × List (Symbol × Operand)) (operator : Symbol)
    (last : Operand) : Operand × List (Symbol × Operand) :=
  (row.1, row.2 ++ [(operator, last)])

theorem extended_inj {Operand : Type} {a b : Operand × List (Symbol × Operand)}
    {operatorA operatorB : Symbol} {lastA lastB : Operand} :
    extended a operatorA lastA = extended b operatorB lastB ↔
      a = b ∧ operatorA = operatorB ∧ lastA = lastB := by
  constructor
  · intro h
    obtain ⟨hfirst, hoperands⟩ := Prod.mk.inj h
    obtain ⟨hinit, hlast⟩ := List.append_inj' hoperands rfl
    obtain ⟨hoperator, hlast⟩ := Prod.mk.inj (List.cons.inj hlast).1
    exact ⟨Prod.ext hfirst hinit, hoperator, hlast⟩
  · rintro ⟨rfl, rfl, rfl⟩
    rfl

theorem extended_ne_single {Operand : Type} (row : Operand × List (Symbol × Operand))
    (operator : Symbol) (last only : Operand) : extended row operator last ≠ (only, []) := by
  simp [extended]

def Product.spine : Product → Factor × List (Symbol × Factor)
  | .plain operand => (operand, [])
  | .multiplied left right => extended left.spine .star right
  | .divided left right => extended left.spine .slash right

def Sum.spine : Sum → Product × List (Symbol × Product)
  | .plain operand => (operand, [])
  | .added left right => extended left.spine .plus right
  | .subtracted left right => extended left.spine .minus right

theorem Product.spine_injective : ∀ a b : Product, a.spine = b.spine → a = b
  | .plain _, .plain _, h => congrArg Product.plain (Prod.mk.inj h).1
  | .multiplied a x, .multiplied b y, h => by
    obtain ⟨hleft, -, rfl⟩ := extended_inj.mp h
    rw [Product.spine_injective a b hleft]
  | .divided a x, .divided b y, h => by
    obtain ⟨hleft, -, rfl⟩ := extended_inj.mp h
    rw [Product.spine_injective a b hleft]
  | .plain _, .multiplied _ _, h => absurd h.symm (extended_ne_single _ _ _ _)
  | .plain _, .divided _ _, h => absurd h.symm (extended_ne_single _ _ _ _)
  | .multiplied _ _, .plain _, h => absurd h (extended_ne_single _ _ _ _)
  | .divided _ _, .plain _, h => absurd h (extended_ne_single _ _ _ _)
  | .multiplied _ _, .divided _ _, h => nomatch (extended_inj.mp h).2.1
  | .divided _ _, .multiplied _ _, h => nomatch (extended_inj.mp h).2.1

theorem Sum.spine_injective : ∀ a b : Sum, a.spine = b.spine → a = b
  | .plain _, .plain _, h => congrArg Sum.plain (Prod.mk.inj h).1
  | .added a x, .added b y, h => by
    obtain ⟨hleft, -, rfl⟩ := extended_inj.mp h
    rw [Sum.spine_injective a b hleft]
  | .subtracted a x, .subtracted b y, h => by
    obtain ⟨hleft, -, rfl⟩ := extended_inj.mp h
    rw [Sum.spine_injective a b hleft]
  | .plain _, .added _ _, h => absurd h.symm (extended_ne_single _ _ _ _)
  | .plain _, .subtracted _ _, h => absurd h.symm (extended_ne_single _ _ _ _)
  | .added _ _, .plain _, h => absurd h (extended_ne_single _ _ _ _)
  | .subtracted _ _, .plain _, h => absurd h (extended_ne_single _ _ _ _)
  | .added _ _, .subtracted _ _, h => nomatch (extended_inj.mp h).2.1
  | .subtracted _ _, .added _ _, h => nomatch (extended_inj.mp h).2.1

/-- One more operand after a row that is laid out. -/
theorem yield_extended {Operand : Type} {yield : Operand → List Symbol} {symbols : List Symbol}
    {row : Operand × List (Symbol × Operand)}
    (h : symbols = yield row.1 ++ operandYield yield row.2) (operator : Symbol)
    (last : Operand) :
    symbols ++ operator :: yield last =
      yield (extended row operator last).1 ++
        operandYield yield (extended row operator last).2 := by
  rw [extended, operandYield_append, ← List.append_assoc, h]

theorem forall_extended {Operand : Type} {row : Operand × List (Symbol × Operand)}
    {operator : Symbol} {last : Operand} {p : Symbol × Operand → Prop}
    (h : ∀ operand ∈ row.2, p operand) (hlast : p (operator, last)) :
    ∀ operand ∈ (extended row operator last).2, p operand := by
  intro operand hmem
  rcases List.mem_append.mp hmem with hrow | hend
  · exact h operand hrow
  · rw [List.mem_singleton.mp hend]
    exact hlast

theorem Product.yield_spine : ∀ tree : Product,
    tree.yield = tree.spine.1.yield ++ operandYield Factor.yield tree.spine.2
  | .plain operand => (List.append_nil operand.yield).symm
  | .multiplied left right => yield_extended left.yield_spine .star right
  | .divided left right => yield_extended left.yield_spine .slash right

theorem Sum.yield_spine : ∀ tree : Sum,
    tree.yield = tree.spine.1.yield ++ operandYield Product.yield tree.spine.2
  | .plain operand => (List.append_nil operand.yield).symm
  | .added left right => yield_extended left.yield_spine .plus right
  | .subtracted left right => yield_extended left.yield_spine .minus right

theorem Product.looseness_spine : ∀ tree : Product,
    ∀ operand ∈ tree.spine.2, operand.1.looseness = 1
  | .plain _ => nofun
  | .multiplied left _ => forall_extended left.looseness_spine rfl
  | .divided left _ => forall_extended left.looseness_spine rfl

theorem Sum.looseness_spine : ∀ tree : Sum,
    ∀ operand ∈ tree.spine.2, operand.1.looseness = 2
  | .plain _ => nofun
  | .added left _ => forall_extended left.looseness_spine rfl
  | .subtracted left _ => forall_extended left.looseness_spine rfl

/-- What every product passes on to its parts holds of its operands. -/
theorem Product.forall_spine {P : Product → Prop} {p : Factor → Prop}
    (hplain : ∀ operand, P (.plain operand) → p operand)
    (hmultiplied : ∀ left right, P (.multiplied left right) → P left ∧ p right)
    (hdivided : ∀ left right, P (.divided left right) → P left ∧ p right)
    (tree : Product) (h : P tree) :
    p tree.spine.1 ∧ ∀ operand ∈ tree.spine.2, p operand.2 := by
  cases tree with
  | plain operand => exact ⟨hplain operand h, nofun⟩
  | multiplied left right =>
    obtain ⟨hleft, hright⟩ := hmultiplied left right h
    have hspine := left.forall_spine hplain hmultiplied hdivided hleft
    exact ⟨hspine.1, forall_extended hspine.2 hright⟩
  | divided left right =>
    obtain ⟨hleft, hright⟩ := hdivided left right h
    have hspine := left.forall_spine hplain hmultiplied hdivided hleft
    exact ⟨hspine.1, forall_extended hspine.2 hright⟩

/-- What every sum passes on to its parts holds of its operands. -/
theorem Sum.forall_spine {P : Sum → Prop} {p : Product → Prop}
    (hplain : ∀ operand, P (.plain operand) → p operand)
    (hadded : ∀ left right, P (.added left right) → P left ∧ p right)
    (hsubtracted : ∀ left right, P (.subtracted left right) → P left ∧ p right)
    (tree : Sum) (h : P tree) :
    p tree.spine.1 ∧ ∀ operand ∈ tree.spine.2, p operand.2 := by
  cases tree with
  | plain operand => exact ⟨hplain operand h, nofun⟩
  | added left right =>
    obtain ⟨hleft, hright⟩ := hadded left right h
    have hspine := left.forall_spine hplain hadded hsubtracted hleft
    exact ⟨hspine.1, forall_extended hspine.2 hright⟩
  | subtracted left right =>
    obtain ⟨hleft, hright⟩ := hsubtracted left right h
    have hspine := left.forall_spine hplain hadded hsubtracted hleft
    exact ⟨hspine.1, forall_extended hspine.2 hright⟩

theorem Product.nesting_spine {levels : Nat} (tree : Product) (h : tree.nesting ≤ levels) :
    tree.spine.1.nesting ≤ levels ∧ ∀ operand ∈ tree.spine.2, operand.2.nesting ≤ levels :=
  tree.forall_spine (P := fun tree => tree.nesting ≤ levels) (fun _ h => h)
    (fun _ _ h => Nat.max_le.mp h) (fun _ _ h => Nat.max_le.mp h) h

theorem Sum.nesting_spine {levels : Nat} (tree : Sum) (h : tree.nesting ≤ levels) :
    tree.spine.1.nesting ≤ levels ∧ ∀ operand ∈ tree.spine.2, operand.2.nesting ≤ levels :=
  tree.forall_spine (P := fun tree => tree.nesting ≤ levels) (fun _ h => h)
    (fun _ _ h => Nat.max_le.mp h) (fun _ _ h => Nat.max_le.mp h) h

theorem Product.uniquelyRead {levels : Nat}
    (h : UniquelyRead 1 Factor.yield fun tree => tree.nesting ≤ levels) :
    UniquelyRead 2 Product.yield fun tree => tree.nesting ≤ levels := by
  let layout : Layout Product Factor Product.yield Factor.yield 1 :=
    ⟨Product.spine, Product.spine_injective, Product.yield_spine, Product.looseness_spine⟩
  intro a b restA restB hnesting
  exact h.ofLayout layout a b restA restB (a.nesting_spine hnesting)

theorem Sum.uniquelyRead {levels : Nat}
    (h : UniquelyRead 1 Factor.yield fun tree => tree.nesting ≤ levels) :
    UniquelyRead 3 Sum.yield fun tree => tree.nesting ≤ levels := by
  let layout : Layout Sum Product Sum.yield Product.yield 2 :=
    ⟨Sum.spine, Sum.spine_injective, Sum.yield_spine, Sum.looseness_spine⟩
  intro a b restA restB hnesting
  exact (Product.uniquelyRead h).ofLayout layout a b restA restB (a.nesting_spine hnesting)

/-! ### Comparisons -/

theorem Comparison.uniquelyRead {levels : Nat}
    (h : UniquelyRead 1 Factor.yield fun tree => tree.nesting ≤ levels) :
    UniquelyRead 4 Comparison.yield fun tree => tree.nesting ≤ levels := by
  have hsum := Sum.uniquelyRead h
  have hsymbol : ∀ {symbol : Symbol}, symbol.isComparison = true → ∀ rest,
      Stops 3 (symbol :: rest) := fun hvalid rest =>
    Nat.le_of_eq (Symbol.looseness_of_isComparison hvalid).symm
  -- What ends a comparison is no sign of comparison.
  have hends : ∀ {symbol : Symbol}, symbol.isComparison = true → ∀ {rest},
      ¬ Stops 4 (symbol :: rest) := by
    intro symbol hvalid rest hstops
    rw [Stops, Symbol.looseness_of_isComparison hvalid] at hstops
    omega
  intro a b restA restB hnesting hrestA hrestB heq
  cases a with
  | plain a =>
    cases b with
    | plain b =>
      obtain ⟨rfl, hrest⟩ := hsum a b restA restB hnesting (hrestA.mono (by decide))
        (hrestB.mono (by decide)) heq
      exact ⟨rfl, hrest⟩
    | compared left symbol right valid =>
      simp only [Comparison.yield, List.append_assoc, List.cons_append] at heq
      obtain ⟨-, rfl⟩ := hsum a left restA _ hnesting (hrestA.mono (by decide))
        (hsymbol valid _) heq
      exact absurd hrestA (hends valid)
  | compared leftA symbolA rightA validA =>
    obtain ⟨hleftA, hrightA⟩ := Nat.max_le.mp hnesting
    cases b with
    | plain b =>
      simp only [Comparison.yield, List.append_assoc, List.cons_append] at heq
      obtain ⟨-, rfl⟩ := hsum leftA b _ restB hleftA (hsymbol validA _)
        (hrestB.mono (by decide)) heq
      exact absurd hrestB (hends validA)
    | compared leftB symbolB rightB validB =>
      simp only [Comparison.yield, List.append_assoc, List.cons_append] at heq
      obtain ⟨rfl, hlater⟩ := hsum leftA leftB _ _ hleftA (hsymbol validA _)
        (hsymbol validB _) heq
      obtain ⟨rfl, hright⟩ := List.cons.inj hlater
      obtain ⟨rfl, hrest⟩ := hsum rightA rightB restA restB hrightA
        (hrestA.mono (by decide)) (hrestB.mono (by decide)) hright
      exact ⟨rfl, hrest⟩

/-! ### Factors and arguments -/

theorem Factor.yield_head (tree : Factor) :
    ∃ symbol rest, tree.yield = symbol :: rest ∧ symbol.beginsFactor = true := by
  cases tree <;> exact ⟨_, _, rfl, rfl⟩

theorem Product.yield_head (tree : Product) :
    ∃ symbol rest, tree.yield = symbol :: rest ∧ symbol.beginsFactor = true := by
  obtain ⟨symbol, rest, hyield, hbegins⟩ := tree.spine.1.yield_head
  exact ⟨symbol, _, by rw [tree.yield_spine, hyield, List.cons_append], hbegins⟩

theorem Sum.yield_head (tree : Sum) :
    ∃ symbol rest, tree.yield = symbol :: rest ∧ symbol.beginsFactor = true := by
  obtain ⟨symbol, rest, hyield, hbegins⟩ := tree.spine.1.yield_head
  exact ⟨symbol, _, by rw [tree.yield_spine, hyield, List.cons_append], hbegins⟩

theorem Comparison.yield_head (tree : Comparison) :
    ∃ symbol rest, tree.yield = symbol :: rest ∧ symbol.beginsFactor = true := by
  cases tree with
  | plain operand => exact operand.yield_head
  | compared left symbol right valid =>
    obtain ⟨first, rest, hyield, hbegins⟩ := left.yield_head
    exact ⟨first, _, by rw [Comparison.yield, hyield, List.cons_append], hbegins⟩

/-- The arguments after the first one, each with the comma before it. -/
def Arguments.laterYield (arguments : Arguments) : List Symbol :=
  arguments.yields.flatMap (.comma :: ·)

theorem separated_cons_eq (first : List Symbol) (others : List (List Symbol)) :
    separated (first :: others) = first ++ others.flatMap (.comma :: ·) := by
  induction others generalizing first with
  | nil => simp [separated]
  | cons second others ih =>
    rw [separated, ih]
    · simp
    · simp

theorem separated_cons (first : List Symbol) (arguments : Arguments) :
    separated (first :: arguments.yields) = first ++ arguments.laterYield :=
  separated_cons_eq first arguments.yields

theorem Arguments.stops_laterYield (arguments : Arguments) (rest : List Symbol) :
    Stops 4 (arguments.laterYield ++ .closeParen :: rest) := by
  cases arguments <;> exact Nat.le_refl 4

theorem Arguments.later_uniquelyRead {levels : Nat}
    (h : UniquelyRead 4 Comparison.yield fun tree => tree.nesting ≤ levels) :
    ∀ (a b : Arguments) (restA restB : List Symbol), a.nesting ≤ levels →
      a.laterYield ++ .closeParen :: restA = b.laterYield ++ .closeParen :: restB →
      a = b ∧ restA = restB
  | .nil, .nil, _, _, _, heq => ⟨rfl, (List.cons.inj heq).2⟩
  | .nil, .value _ _, _, _, _, heq => nomatch (List.cons.inj heq).1
  | .nil, .text _ _, _, _, _, heq => nomatch (List.cons.inj heq).1
  | .value _ _, .nil, _, _, _, heq => nomatch (List.cons.inj heq).1
  | .text _ _, .nil, _, _, _, heq => nomatch (List.cons.inj heq).1
  | .value a as, .value b bs, restA, restB, hnesting, heq => by
    obtain ⟨hfirst, hothers⟩ := Nat.max_le.mp hnesting
    simp only [laterYield, yields, List.flatMap_cons, List.cons_append, List.append_assoc,
      List.cons.injEq, true_and] at heq
    obtain ⟨rfl, hlater⟩ := h a b _ _ hfirst (as.stops_laterYield restA)
      (bs.stops_laterYield restB) heq
    obtain ⟨rfl, hrest⟩ := later_uniquelyRead h as bs restA restB hothers hlater
    exact ⟨rfl, hrest⟩
  | .text a as, .text b bs, restA, restB, hnesting, heq => by
    simp only [laterYield, yields, List.flatMap_cons, List.cons_append, List.nil_append,
      List.cons.injEq, Symbol.quoted.injEq, true_and] at heq
    obtain ⟨rfl, hlater⟩ := heq
    obtain ⟨rfl, hrest⟩ := later_uniquelyRead h as bs restA restB hnesting hlater
    exact ⟨rfl, hrest⟩
  | .value a _, .text b _, _, _, _, heq => by
    obtain ⟨symbol, rest, hyield, hbegins⟩ := a.yield_head
    simp only [laterYield, yields, List.flatMap_cons, List.cons_append, hyield,
      List.cons.injEq, true_and] at heq
    rw [heq.1] at hbegins
    cases hbegins
  | .text a _, .value b _, _, _, _, heq => by
    obtain ⟨symbol, rest, hyield, hbegins⟩ := b.yield_head
    simp only [laterYield, yields, List.flatMap_cons, List.cons_append, hyield,
      List.cons.injEq, true_and] at heq
    rw [← heq.1] at hbegins
    cases hbegins

/-- A first argument is there, and it does not close the call. -/
theorem Arguments.separated_yields {arguments : Arguments} (h : arguments ≠ .nil) :
    arguments.laterYield = .comma :: separated arguments.yields ∧
      ∃ symbol rest, separated arguments.yields = symbol :: rest ∧ symbol ≠ .closeParen := by
  cases arguments with
  | nil => exact absurd rfl h
  | value first others =>
    obtain ⟨symbol, rest, hyield, hbegins⟩ := first.yield_head
    refine ⟨by rw [yields, separated_cons]; rfl, symbol, rest ++ others.laterYield, ?_, ?_⟩
    · rw [yields, separated_cons, hyield, List.cons_append]
    · rintro rfl
      cases hbegins
  | text first others =>
    refine ⟨by rw [yields, separated_cons]; rfl, .quoted first, others.laterYield, ?_, nofun⟩
    rw [yields, separated_cons, List.cons_append, List.nil_append]

theorem Arguments.uniquelyRead {levels : Nat}
    (h : UniquelyRead 4 Comparison.yield fun tree => tree.nesting ≤ levels)
    {a b : Arguments} {restA restB : List Symbol} (hnesting : a.nesting ≤ levels)
    (heq : separated a.yields ++ .closeParen :: restA =
      separated b.yields ++ .closeParen :: restB) : a = b ∧ restA = restB := by
  by_cases ha : a = .nil
  · by_cases hb : b = .nil
    · subst ha hb
      exact ⟨rfl, (List.cons.inj heq).2⟩
    · obtain ⟨-, symbol, rest, hyield, hclose⟩ := separated_yields hb
      subst ha
      rw [hyield] at heq
      exact absurd (List.cons.inj heq).1.symm hclose
  · by_cases hb : b = .nil
    · obtain ⟨-, symbol, rest, hyield, hclose⟩ := separated_yields ha
      subst hb
      rw [hyield] at heq
      exact absurd (List.cons.inj heq).1 hclose
    · apply later_uniquelyRead h a b restA restB hnesting
      rw [(separated_yields ha).1, (separated_yields hb).1, List.cons_append, heq,
        List.cons_append]

/-- One more level of factors.  The first symbol tells which kind of factor it is, except
that a name is a call or not by the symbol after it. -/
theorem Factor.uniquelyRead_succ {levels : Nat}
    (h : UniquelyRead 1 Factor.yield fun tree => tree.nesting ≤ levels) :
    UniquelyRead 1 Factor.yield fun tree => tree.nesting ≤ levels + 1 := by
  have hcomparison := Comparison.uniquelyRead h
  intro a b restA restB hnesting hrestA hrestB heq
  cases a with
  | positive a =>
    cases b with
    | positive b =>
      obtain ⟨rfl, hrest⟩ := h a b restA restB (Nat.le_of_succ_le_succ hnesting) hrestA hrestB
        (List.cons.inj heq).2
      exact ⟨rfl, hrest⟩
    | _ => exact nomatch (List.cons.inj heq).1
  | negative a =>
    cases b with
    | negative b =>
      obtain ⟨rfl, hrest⟩ := h a b restA restB (Nat.le_of_succ_le_succ hnesting) hrestA hrestB
        (List.cons.inj heq).2
      exact ⟨rfl, hrest⟩
    | _ => exact nomatch (List.cons.inj heq).1
  | number a =>
    cases b with
    | number b =>
      obtain ⟨hvalue, hrest⟩ := List.cons.inj heq
      rw [Symbol.number.inj hvalue]
      exact ⟨rfl, hrest⟩
    | _ => exact nomatch (List.cons.inj heq).1
  | group a =>
    cases b with
    | group b =>
      simp only [Factor.yield, List.cons_append, List.append_assoc, List.nil_append,
        List.cons.injEq, true_and] at heq
      obtain ⟨rfl, hclose⟩ := hcomparison a b _ _ (Nat.le_of_succ_le_succ hnesting)
        (Stops.cons restA (by decide)) (Stops.cons restB (by decide)) heq
      exact ⟨rfl, (List.cons.inj hclose).2⟩
    | _ => exact nomatch (List.cons.inj heq).1
  | named a =>
    cases b with
    | named b =>
      obtain ⟨hname, hrest⟩ := List.cons.inj heq
      rw [Symbol.name.inj hname]
      exact ⟨rfl, hrest⟩
    | call b arguments =>
      have hopen : restA = .openParen :: _ := (List.cons.inj heq).2
      rw [hopen] at hrestA
      exact absurd hrestA (not_stops_openParen _)
    | _ => exact nomatch (List.cons.inj heq).1
  | call a argumentsA =>
    cases b with
    | named b =>
      have hopen : _ = restB := (List.cons.inj heq).2
      rw [← hopen] at hrestB
      exact absurd hrestB (not_stops_openParen _)
    | call b argumentsB =>
      simp only [Factor.yield, List.cons_append, List.append_assoc, List.nil_append,
        List.cons.injEq, Symbol.name.injEq, true_and] at heq
      obtain ⟨rfl, hlater⟩ := heq
      obtain ⟨rfl, hrest⟩ := Arguments.uniquelyRead hcomparison
        (Nat.le_of_succ_le_succ hnesting) hlater
      exact ⟨rfl, hrest⟩
    | _ => exact nomatch (List.cons.inj heq).1

theorem Factor.uniquelyRead (levels : Nat) :
    UniquelyRead 1 Factor.yield fun tree => tree.nesting ≤ levels := by
  induction levels with
  | zero =>
    intro a b restA restB hnesting
    cases a <;> exact absurd hnesting (Nat.not_succ_le_zero _)
  | succ levels ih => exact Factor.uniquelyRead_succ ih

/-- A whole text has at most one tree. -/
theorem Comparison.yield_injective {a b : Comparison}
    (h : a.yield ++ [.finish] = b.yield ++ [.finish]) : a = b :=
  (Comparison.uniquelyRead (Factor.uniquelyRead a.nesting) a b _ _ (Nat.le_refl _)
    (Stops.cons [] (by decide)) (Stops.cons [] (by decide)) h).1

end DerivedTelemetry.Derivation
