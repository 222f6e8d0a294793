import DerivedTelemetry.Expression.Admissible
import DerivedTelemetry.Proofs.Evaluation.Reading
import DerivedTelemetry.Proofs.Expression.Unambiguous

/-!
# Rows of operands

The machine reads operands one after another and computes as it goes.  A tree of products
or sums has the same operands in its layout, and its meaning is computed from them in the
same order.  So a row of operands is read to the meaning of its tree once every operand
is, and a comparison is read once its two sums are.
-/

namespace DerivedTelemetry

open DerivedTelemetry.Derivation Grammar

/-- Wherever `symbols` come next and then something that ends the phrase, `p` reads them
and yields `m`, if so many more factors may be opened.  Where the text is only checked,
it yields zero. -/
def Reads (env : Environment) (p : Eval Decimal) (levels looseness : Nat)
    (symbols : List Symbol) (m : Outcome Decimal) : Prop :=
  ∀ s rest, s.symbols = symbols ++ rest → Stops looseness rest →
    s.depth + levels ≤ env.maxDepth → Yields env.registry p s (m.ifLive s.live) rest

/-! ### Meanings of rows -/

/-- What an operator makes of two numbers. -/
def applied (operators : Operators) (operator : Symbol) (left right : Decimal) :
    Outcome Decimal :=
  match operators operator with
  | some f => .lift (f left right)
  | none => pure left

/-- What the further operands of a row make of a first value. -/
def rowMeaning {Operand : Type} (operators : Operators) (meaning : Operand → Outcome Decimal)
    (live : Bool) : List (Symbol × Operand) → Decimal → Outcome Decimal
  | [], value => pure value
  | (operator, operand) :: others, value => do
    let right ← (meaning operand).ifLive live
    let result ← (applied operators operator value right).ifLive live
    rowMeaning operators meaning live others result

section Meanings

variable {Operand : Type} (operators : Operators) (meaning : Operand → Outcome Decimal)
variable (live : Bool)

theorem rowMeaning_append (row : List (Symbol × Operand)) (operator : Symbol) (last : Operand)
    (value : Decimal) :
    rowMeaning operators meaning live (row ++ [(operator, last)]) value =
      rowMeaning operators meaning live row value >>= fun left =>
        (meaning last).ifLive live >>= fun right =>
          (applied operators operator left right).ifLive live := by
  induction row generalizing value with
  | nil =>
    simp only [List.nil_append, rowMeaning, bind_pure, pure_bind]
  | cons operand row ih =>
    rw [List.cons_append, rowMeaning, rowMeaning]
    simp only [ih, bind_assoc]

/-- One more operand after a row whose meaning is known. -/
theorem rowMeaning_extended {m : Outcome Decimal} {row : Operand × List (Symbol × Operand)}
    (h : m.ifLive live =
      (meaning row.1).ifLive live >>= rowMeaning operators meaning live row.2)
    (operator : Symbol) {f : Decimal → Decimal → Except Fault Decimal}
    (hoperator : operators operator = some f) (last : Operand) :
    (m >>= fun left => meaning last >>= fun right => .lift (f left right)).ifLive live =
      (meaning (extended row operator last).1).ifLive live >>=
        rowMeaning operators meaning live (extended row operator last).2 := by
  have happlied : ∀ left right, applied operators operator left right = .lift (f left right) := by
    intro left right
    rw [applied, hoperator]
  calc
    (m >>= fun left => meaning last >>= fun right => .lift (f left right)).ifLive live =
        m.ifLive live >>= fun left =>
          (meaning last).ifLive live >>= fun right =>
            (Outcome.lift (f left right)).ifLive live := by
      simp only [Outcome.ifLive_bind]
    _ = (meaning row.1).ifLive live >>= fun first =>
          rowMeaning operators meaning live row.2 first >>= fun left =>
            (meaning last).ifLive live >>= fun right =>
              (Outcome.lift (f left right)).ifLive live := by
      rw [h, bind_assoc]
    _ = (meaning (extended row operator last).1).ifLive live >>=
          rowMeaning operators meaning live (extended row operator last).2 := by
      apply congrArg
      funext first
      rw [extended, rowMeaning_append]
      simp only [happlied]

end Meanings

theorem Derivation.Product.meaning_spine (env : Environment) (live : Bool) (tree : Product) :
    (tree.meaning env).ifLive live = (tree.spine.1.meaning env).ifLive live >>=
      rowMeaning (productOperators env) (Factor.meaning env) live tree.spine.2 := by
  cases tree with
  | plain operand => exact (Outcome.bind_pure _).symm
  | multiplied left right =>
    exact rowMeaning_extended _ _ live (left.meaning_spine env live) .star rfl right
  | divided left right =>
    exact rowMeaning_extended _ _ live (left.meaning_spine env live) .slash rfl right

theorem Derivation.Sum.meaning_spine (env : Environment) (live : Bool) (tree : Sum) :
    (tree.meaning env).ifLive live = (tree.spine.1.meaning env).ifLive live >>=
      rowMeaning sumOperators (Product.meaning env) live tree.spine.2 := by
  cases tree with
  | plain operand => exact (Outcome.bind_pure _).symm
  | added left right =>
    exact rowMeaning_extended _ _ live (left.meaning_spine env live) .plus rfl right
  | subtracted left right =>
    exact rowMeaning_extended _ _ live (left.meaning_spine env live) .minus rfl right

/-! ### Runs over rows -/

/-- The operators of a level of the grammar are the symbols of one looseness, and names
are not among them. -/
structure IsLevel (operators : Operators) (looseness : Nat) : Prop where
  isSome_iff : ∀ symbol, (operators symbol).isSome = true ↔ symbol.looseness = looseness
  lt : looseness < 4

theorem isLevel_productOperators (env : Environment) : IsLevel (productOperators env) 1 :=
  ⟨fun symbol => by cases symbol <;> simp [productOperators, Symbol.looseness], by decide⟩

theorem isLevel_sumOperators : IsLevel sumOperators 2 :=
  ⟨fun symbol => by cases symbol <;> simp [sumOperators, Symbol.looseness], by decide⟩

theorem IsLevel.eq_none {operators : Operators} {looseness : Nat}
    (h : IsLevel operators looseness) {symbol : Symbol}
    (hsymbol : looseness + 1 ≤ symbol.looseness) : operators symbol = none := by
  rw [← Option.not_isSome_iff_eq_none, h.isSome_iff]
  omega

theorem IsLevel.not_name {operators : Operators} {looseness : Nat}
    (h : IsLevel operators looseness) {symbol : Symbol} (hsymbol : symbol.looseness = looseness) :
    ∀ name, symbol ≠ .name name := by
  rintro name rfl
  exact absurd h.lt (hsymbol ▸ Nat.lt_irrefl 4)

section Runs

variable {Operand : Type} {env : Environment} {operators : Operators} {p : Eval Decimal}
variable {levels looseness : Nat} {yield : Operand → List Symbol}
variable {meaning : Operand → Outcome Decimal}

/-- The number of tokens ahead is enough for the operands in them. -/
theorem chainTail_yields (hlevel : IsLevel operators looseness) {row : List (Symbol × Operand)}
    (hread : ∀ operand ∈ row, Reads env p levels looseness (yield operand.2) (meaning operand.2))
    (hrow : ∀ operand ∈ row, operand.1.looseness = looseness) {s : State} {rest : List Symbol}
    {fuel : Nat} (value : Decimal) (h : s.symbols = operandYield yield row ++ rest)
    (hrest : Stops (looseness + 1) rest) (hdepth : s.depth + levels ≤ env.maxDepth)
    (hfuel : s.symbols.length ≤ fuel) :
    Yields env.registry (chainTail operators p fuel value) s
      (rowMeaning operators meaning s.live row value) rest := by
  induction row generalizing s fuel value with
  | nil =>
    cases fuel with
    | zero => exact .pure value h
    | succ fuel =>
      obtain ⟨symbol, tail, rfl, hsymbol⟩ := hrest.exists_cons
      rw [chainTail]
      apply Yields.next_peek h
      intro token htoken
      rw [htoken, hlevel.eq_none hsymbol]
      exact .pure value h
  | cons operand row ih =>
    obtain ⟨operator, operand⟩ := operand
    have hoperator : operator.looseness = looseness := hrow _ List.mem_cons_self
    obtain ⟨f, hf⟩ := Option.isSome_iff_exists.mp ((hlevel.isSome_iff operator).mpr hoperator)
    have hrowTail := fun x hx => hrow x (List.mem_cons_of_mem _ hx)
    have hstops : Stops looseness (operandYield yield row ++ rest) :=
      stops_operandYield hrowTail hrest
    have hnext : s.symbols = operator :: (yield operand ++ (operandYield yield row ++ rest)) := by
      rw [h, operandYield, List.flatMap_cons, List.cons_append, List.cons_append,
        List.append_assoc, operandYield]
    have hmore : yield operand ++ (operandYield yield row ++ rest) ≠ [] := by
      obtain ⟨symbol, tail, htail, -⟩ := hstops.exists_cons
      rw [htail]
      exact List.append_ne_nil_of_right_ne_nil _ (List.cons_ne_nil symbol tail)
    cases fuel with
    | zero =>
      rw [hnext] at hfuel
      exact absurd hfuel (Nat.not_succ_le_zero _)
    | succ fuel =>
      rw [chainTail]
      apply Yields.next_peek hnext
      intro first hfirst
      simp only [hfirst, hf]
      apply Yields.next_advance hnext hmore (hlevel.not_name hoperator)
      intro token t htoken ht
      have hdepthT : t.depth + levels ≤ env.maxDepth := ht.depth ▸ hdepth
      have hright := hread _ List.mem_cons_self t _ ht.symbols hstops hdepthT
      rw [rowMeaning, ← ht.live]
      apply hright.bind
      intro right u hu
      have happlied : applied operators operator value right = .lift (f value right) := by
        rw [applied, hf]
      rw [happlied, ← hu.live]
      apply (Yields.whenLive hu.symbols (.lift (f value right) hu.symbols)).bind
      intro result v hv
      rw [← hv.live]
      apply ih (fun x hx => hread x (List.mem_cons_of_mem _ hx)) hrowTail result hv.symbols
      · rw [hv.depth, hu.depth]
        exact hdepthT
      · rw [hnext] at hfuel
        rw [hv.symbols]
        simp only [List.length_cons, List.length_append] at hfuel ⊢
        omega

/-- A row is read once all of its operands are. -/
theorem reads_chain (hlevel : IsLevel operators looseness)
    {row : Operand × List (Symbol × Operand)}
    (hfirst : Reads env p levels looseness (yield row.1) (meaning row.1))
    (hread : ∀ operand ∈ row.2,
      Reads env p levels looseness (yield operand.2) (meaning operand.2))
    (hrow : ∀ operand ∈ row.2, operand.1.looseness = looseness)
    {symbols : List Symbol} (hsymbols : symbols = yield row.1 ++ operandYield yield row.2)
    {m : Outcome Decimal}
    (hmeaning : ∀ live, m.ifLive live =
      (meaning row.1).ifLive live >>= rowMeaning operators meaning live row.2) :
    Reads env (chain operators p) levels (looseness + 1) symbols m := by
  intro s rest h hrest hdepth
  rw [hsymbols, List.append_assoc] at h
  rw [hmeaning, chain]
  apply (hfirst s _ h (stops_operandYield hrow hrest) hdepth).bind
  intro value t ht
  apply Yields.next_get
  rw [← ht.live]
  apply chainTail_yields hlevel hread hrow value ht.symbols hrest (ht.depth ▸ hdepth)
  exact Nat.le_of_eq (List.length_map _)

end Runs

/-! ### Products, sums and comparisons -/

section Phrases

variable {env : Environment} {factor : Eval Decimal} {levels : Nat}

theorem Derivation.Product.admissible_spine {registry : Registry} (tree : Product)
    (h : tree.Admissible registry) :
    tree.spine.1.Admissible registry ∧ ∀ operand ∈ tree.spine.2, operand.2.Admissible registry :=
  tree.forall_spine (fun _ h => h) (fun _ _ h => h) (fun _ _ h => h) h

theorem Derivation.Sum.admissible_spine {registry : Registry} (tree : Sum)
    (h : tree.Admissible registry) :
    tree.spine.1.Admissible registry ∧ ∀ operand ∈ tree.spine.2, operand.2.Admissible registry :=
  tree.forall_spine (fun _ h => h) (fun _ _ h => h) (fun _ _ h => h) h

/-- Every admissible factor with so many levels of nesting is read to its meaning. -/
def ReadsFactors (env : Environment) (factor : Eval Decimal) (levels : Nat) : Prop :=
  ∀ tree : Factor, tree.Admissible env.registry → tree.nesting ≤ levels →
    Reads env factor levels 1 tree.yield (tree.meaning env)

theorem ReadsFactors.product (h : ReadsFactors env factor levels) {tree : Product}
    (hadmissible : tree.Admissible env.registry) (hnesting : tree.nesting ≤ levels) :
    Reads env (product env factor) levels 2 tree.yield (tree.meaning env) := by
  obtain ⟨hfirst, hothers⟩ := tree.admissible_spine hadmissible
  obtain ⟨hfirstNesting, hothersNesting⟩ := tree.nesting_spine hnesting
  exact reads_chain (isLevel_productOperators env) (h _ hfirst hfirstNesting)
    (fun operand hmem => h _ (hothers operand hmem) (hothersNesting operand hmem))
    tree.looseness_spine tree.yield_spine (fun live => tree.meaning_spine env live)

theorem ReadsFactors.sum (h : ReadsFactors env factor levels) {tree : Sum}
    (hadmissible : tree.Admissible env.registry) (hnesting : tree.nesting ≤ levels) :
    Reads env (sum env factor) levels 3 tree.yield (tree.meaning env) := by
  obtain ⟨hfirst, hothers⟩ := tree.admissible_spine hadmissible
  obtain ⟨hfirstNesting, hothersNesting⟩ := tree.nesting_spine hnesting
  exact reads_chain isLevel_sumOperators (h.product hfirst hfirstNesting)
    (fun operand hmem => h.product (hothers operand hmem) (hothersNesting operand hmem))
    tree.looseness_spine tree.yield_spine (fun live => tree.meaning_spine env live)

theorem ReadsFactors.comparison (h : ReadsFactors env factor levels) {tree : Comparison}
    (hadmissible : tree.Admissible env.registry) (hnesting : tree.nesting ≤ levels) :
    Reads env (comparison env factor) levels 4 tree.yield (tree.meaning env) := by
  intro s rest hs hrest hdepth
  obtain ⟨last, tail, rfl, hlast⟩ := hrest.exists_cons
  have hend : last.isComparison = false := Symbol.isComparison_of_looseness hlast
  rw [Grammar.comparison]
  cases tree with
  | plain operand =>
    have hsum := h.sum hadmissible hnesting s _ hs (hrest.mono (by decide)) hdepth
    rw [Comparison.meaning, ← Outcome.bind_pure ((operand.meaning env).ifLive s.live)]
    apply hsum.bind
    intro value t ht
    apply Yields.next_peek ht.symbols
    intro token htoken
    simp only [htoken, hend, Bool.false_eq_true, if_false]
    exact .pure value ht.symbols
  | compared left symbol right valid =>
    obtain ⟨hleft, hright⟩ := hadmissible
    obtain ⟨hleftNesting, hrightNesting⟩ := Nat.max_le.mp hnesting
    have hloose := Symbol.looseness_of_isComparison valid
    rw [Comparison.yield, List.append_assoc, List.cons_append] at hs
    rw [Comparison.meaning, Outcome.ifLive_bind]
    apply (h.sum hleft hleftNesting s _ hs (Stops.cons _ (Nat.le_of_eq hloose.symm)) hdepth).bind
    intro a t ht
    apply Yields.next_peek ht.symbols
    intro token htoken
    simp only [htoken, valid, if_true]
    have hmore : right.yield ++ last :: tail ≠ [] :=
      List.append_ne_nil_of_right_ne_nil _ (List.cons_ne_nil last tail)
    have hname : ∀ name, symbol ≠ .name name := by
      rintro name rfl
      cases valid
    apply Yields.next_advance ht.symbols hmore hname
    intro taken u htaken hu
    have hdepthU : u.depth + levels ≤ env.maxDepth := hu.depth ▸ ht.depth ▸ hdepth
    rw [Outcome.ifLive_bind, ← ht.live, ← hu.live]
    apply (h.sum hright hrightNesting u _ hu.symbols (hrest.mono (by decide)) hdepthU).bind
    intro b v hv
    apply Yields.next_peek hv.symbols
    intro following hfollowing
    simp only [hfollowing, hend, Bool.false_eq_true, if_false]
    rw [← hv.live, ← Grammar.holds_eq_asserts valid]
    exact .whenLive hv.symbols (.pure _ hv.symbols)

end Phrases

end DerivedTelemetry
