import DerivedTelemetry.Proofs.Evaluation.CallReading

/-!
# Reading expressions

Every admissible tree is read to its meaning.  Factors nest, and with the rules for rows
and calls at hand the argument is an induction on the levels of nesting, where each kind of
factor is told by its first symbol.
-/

namespace DerivedTelemetry

open DerivedTelemetry.Derivation Grammar

variable {env : Environment} {s : State} {rest : List Symbol}

/-! ### Names -/

/-- Where a name comes next, the symbol after it tells a call from a variable. -/
theorem primary_of_name (env : Environment) (factor : Eval Decimal) {name : String}
    {symbol : Symbol} (h : s.symbols = .name name :: symbol :: rest) :
    ∃ position tail, tail.map (·.symbol) = symbol :: rest ∧
      primary env factor s =
        (if symbol = .openParen then Call.call env (Grammar.comparison env factor) name position
          else variableValue env name) { s with ahead := tail } := by
  obtain ⟨token, tail, htoken, htail, hrun⟩ :=
    Eval.advance_of_symbols h (List.cons_ne_nil symbol rest)
  obtain ⟨next, hnext, hpeek⟩ := Eval.peek_of_symbols (s := { s with ahead := tail }) htail
  refine ⟨token.position, tail, htail, ?_⟩
  rw [primary, Eval.bind_of_ok hrun]
  simp only [htoken]
  rw [Eval.bind_of_ok hpeek, hnext]
  cases symbol <;> rfl

/-- An unbound variable that is no function fails where values are computed. -/
theorem variableValue_of_unbound {name : String} (hbound : env.bindings name = none)
    (hname : env.registry.contains name = false) (s : State) :
    variableValue env name s =
      if s.live then (.error (.fault (.unknownVariable name)), s)
      else (.ok Decimal.zero, { s with info := s.info.addVariable name }) := by
  rw [variableValue, hbound, hname]
  cases hlive : s.live <;>
    simp [hlive, Eval.fail, Eval.noteVariable, bind, Eval.bind, Eval.get, Eval.modify]

/-- A variable has its value, or it is unbound. -/
theorem named_yields (env : Environment) (factor : Eval Decimal) {name : String}
    (hname : env.registry.contains name = false) (hrest : Stops 1 rest)
    (h : s.symbols = .name name :: rest) :
    Yields env.registry (primary env factor) s
      ((Factor.meaning env (.named name)).ifLive s.live) rest := by
  obtain ⟨symbol, others, rfl, hsymbol⟩ := hrest.exists_cons
  obtain ⟨position, tail, htail, hprimary⟩ := primary_of_name env factor h
  have hrun : primary env factor s = variableValue env name { s with ahead := tail } := by
    rw [hprimary, if_neg]
    rintro rfl
    exact absurd hsymbol (Nat.not_succ_le_zero 0)
  let t : State := { s with ahead := tail, info := s.info.addVariable name }
  have hreached : Reached env.registry s (symbol :: others) t := by
    refine ⟨htail, rfl, rfl, ?_⟩
    rw [State.names, State.names, h, noted_variable env.registry name hrest]
    exact congrArg (noted env.registry · t.info) htail
  rw [Factor.meaning]
  cases hbound : env.bindings name with
  | some value =>
    refine Yields.continued (q := Eval.whenLive (pure value)) ?_ hreached rfl ?_
    · exact .whenLive htail (.pure value htail)
    · rw [hrun, variableValue, hbound]
      rfl
  | none =>
    cases hlive : s.live with
    | true =>
      refine ⟨{ s with ahead := tail }, ?_, (List.append_nil _).symm, ?_⟩
      · rw [hrun, variableValue_of_unbound hbound hname, if_pos hlive]
        rfl
      · intro value hvalue
        cases hvalue
    | false =>
      refine Yields.continued (q := pure Decimal.zero) ?_ hreached rfl ?_
      · exact .pure Decimal.zero htail
      · rw [hrun, variableValue_of_unbound hbound hname, if_neg (by simp [hlive])]
        rfl

/-- A call of a registered function has the meaning of the function on its arguments. -/
theorem called_yields {factor : Eval Decimal} {levels : Nat}
    (hp : ReadsComparisons env (Grammar.comparison env factor) levels) {name : String}
    {arguments : Arguments} (hadmissible : Factor.Admissible env.registry (.call name arguments))
    (hnesting : arguments.nesting ≤ levels) (hdepth : s.depth + levels ≤ env.maxDepth)
    (hrest : rest ≠ []) (h : s.symbols = (Factor.call name arguments).yield ++ rest) :
    Yields env.registry (primary env factor) s
      ((Factor.meaning env (.call name arguments)).ifLive s.live) rest := by
  obtain ⟨⟨entry, hentry, haccepts, hadmits⟩, hadmissible⟩ := hadmissible
  rw [Factor.yield, List.append_assoc, List.cons_append, List.cons_append, List.singleton_append]
    at h
  obtain ⟨position, tail, htail, hprimary⟩ := primary_of_name env factor h
  let t : State := { s with ahead := tail, info := s.info.addFunction entry.name }
  have hreached : Reached env.registry s (t.symbols) t := by
    refine ⟨rfl, rfl, rfl, ?_⟩
    rw [State.names, State.names, h, noted_call, ExpressionInfo.addCalled, hentry]
    change noted env.registry (tail.map (·.symbol)) _ = _
    rw [htail]
    rfl
  refine Yields.continued (q := Call.invoke env (Grammar.comparison env factor) entry position) ?_
    hreached rfl ?_
  · rw [Factor.meaning, hentry]
    exact invoke_yields (s := t) hp haccepts hadmits hadmissible hnesting hdepth hrest htail
      position
  · rw [hprimary, if_pos rfl, Call.call, hentry]
    rfl

/-! ### Factors -/

theorem ReadsFactors.succ {factor : Eval Decimal} {levels : Nat}
    (h : ReadsFactors env factor levels) :
    ReadsFactors env (Eval.nested env.maxDepth (primary env factor)) (levels + 1) := by
  have hcomparison : ReadsComparisons env (Grammar.comparison env factor) levels :=
    fun tree hadmissible hnesting => h.comparison hadmissible hnesting
  intro tree hadmissible hnesting s rest hs hrest hdepth
  obtain ⟨last, others, rfl, -⟩ := hrest.exists_cons
  have hne : ∀ front : List Symbol, front ++ last :: others ≠ [] := fun front =>
    List.append_ne_nil_of_right_ne_nil front (List.cons_ne_nil last others)
  apply Yields.nested (by omega)
  let t : State := { s with depth := s.depth + 1 }
  change Yields env.registry (primary env factor) t ((tree.meaning env).ifLive t.live) _
  have hopened : t.depth + levels ≤ env.maxDepth := by
    change s.depth + 1 + levels ≤ env.maxDepth
    omega
  cases tree with
  | positive operand =>
    rw [primary, Factor.meaning]
    apply Yields.next_advance (s := t) hs (hne operand.yield) (by simp)
    intro token u htoken hu
    simp only [htoken]
    rw [← hu.live]
    exact h operand hadmissible (Nat.le_of_succ_le_succ hnesting) u _ hu.symbols hrest
      (hu.depth ▸ hopened)
  | negative operand =>
    rw [primary, Factor.meaning, Outcome.ifLive_bind]
    apply Yields.next_advance (s := t) hs (hne operand.yield) (by simp)
    intro token u htoken hu
    simp only [htoken]
    rw [← hu.live]
    apply (h operand hadmissible (Nat.le_of_succ_le_succ hnesting) u _ hu.symbols hrest
      (hu.depth ▸ hopened)).bind
    intro value v hv
    rw [← hv.live]
    exact .whenLive hv.symbols (.pure (-value) hv.symbols)
  | number value =>
    rw [primary, Factor.meaning]
    apply Yields.next_advance (s := t) hs (hne []) (by simp)
    intro token u htoken hu
    simp only [htoken]
    rw [← hu.live]
    exact .whenLive hu.symbols (.pure value hu.symbols)
  | group inner =>
    have hyield : t.symbols = .openParen :: (inner.yield ++ .closeParen :: last :: others) := by
      change s.symbols = _
      rw [hs, Factor.yield, List.append_assoc]
      rfl
    rw [primary, Factor.meaning, ← Outcome.bind_pure (Outcome.ifLive t.live _)]
    apply Yields.next_advance hyield (List.append_ne_nil_of_right_ne_nil _ (List.cons_ne_nil _ _))
      (by simp)
    intro token u htoken hu
    simp only [htoken]
    rw [← hu.live]
    apply (hcomparison inner hadmissible (Nat.le_of_succ_le_succ hnesting) u _ hu.symbols
      (Stops.cons _ (by decide)) (hu.depth ▸ hopened)).bind
    intro value v hv
    apply Yields.next_peek hv.symbols
    intro close hclose
    simp only [hclose]
    apply Yields.next_advance hv.symbols (List.cons_ne_nil _ _) (by simp)
    intro taken w htaken hw
    exact .pure value hw.symbols
  | named name => exact named_yields env factor hadmissible hrest hs
  | call name arguments =>
    exact called_yields hcomparison hadmissible (Nat.le_of_succ_le_succ hnesting) hopened
      (List.cons_ne_nil _ _) hs

theorem readsFactors (env : Environment) (levels : Nat) :
    ReadsFactors env (factor env levels) levels := by
  induction levels with
  | zero =>
    intro tree hadmissible hnesting
    cases tree <;> exact absurd hnesting (Nat.not_succ_le_zero _)
  | succ levels ih => exact ih.succ

/-! ### Whole expressions -/

/-- A whole text with an admissible tree is read to what the tree means. -/
theorem expression_yields {tree : Comparison} (hadmissible : tree.Admissible env.registry)
    (hnesting : tree.nesting ≤ env.maxDepth) (hdepth : s.depth = 0)
    (h : s.symbols = tree.yield ++ [.finish]) :
    Yields env.registry (expression env) s ((tree.meaning env).ifLive s.live) [.finish] := by
  have hread := (readsFactors env env.maxDepth).comparison hadmissible hnesting s _ h
    (Stops.cons [] (by decide)) (by omega)
  rw [Grammar.expression, ← Outcome.bind_pure (Outcome.ifLive s.live _)]
  apply hread.bind
  intro value t ht
  have hend : Yields env.registry Eval.expectEnd t (pure ()) [.finish] := by
    rw [Eval.expectEnd]
    apply Yields.next_peek ht.symbols
    intro token htoken
    simp only [htoken]
    exact .pure () ht.symbols
  apply hend.next
  intro u hu
  exact .pure value hu.symbols

end DerivedTelemetry
