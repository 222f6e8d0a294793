import DerivedTelemetry.Proofs.Evaluation.ArgumentScan
import DerivedTelemetry.Proofs.Evaluation.OperatorRows
import DerivedTelemetry.Proofs.WindowCodes

/-!
# Reading calls

The arguments of a call are read in three ways, and each of them is shown to arrive at
what the call means.  Before every argument the machine stands at the same point of the
text in all three: what is left of the arguments comes next, and then the parenthesis that
closes the call.  A lazy function may decide at each such point what becomes of the next
argument, so the run is followed along its strategy.
-/

namespace DerivedTelemetry

open DerivedTelemetry.Derivation

/-! ### Arguments from an index on -/

/-- What stands before the argument with an index. -/
def leading (index : Nat) : List Symbol := if index = 0 then [] else [.comma]

/-- The last arguments of a call, the first of which has the given index. -/
def Derivation.Arguments.yieldFrom (index : Nat) : Arguments → List Symbol
  | .nil => []
  | .value first rest => leading index ++ (first.yield ++ rest.yieldFrom (index + 1))
  | .text first rest => leading index ++ .quoted first :: rest.yieldFrom (index + 1)

theorem Derivation.Arguments.yieldFrom_succ (index : Nat) (arguments : Arguments) :
    arguments.yieldFrom (index + 1) = arguments.laterYield := by
  cases arguments with
  | nil => rfl
  | value first rest =>
    rw [yieldFrom, rest.yieldFrom_succ (index + 1)]
    rfl
  | text first rest =>
    rw [yieldFrom, rest.yieldFrom_succ (index + 1)]
    rfl

theorem Derivation.Arguments.yieldFrom_zero (arguments : Arguments) :
    arguments.yieldFrom 0 = separated arguments.yields := by
  cases arguments with
  | nil => rfl
  | value first rest =>
    rw [yields, separated_cons, yieldFrom, rest.yieldFrom_succ 0]
    rfl
  | text first rest =>
    rw [yields, separated_cons, yieldFrom, rest.yieldFrom_succ 0]
    rfl

/-- The machine stands before the last arguments of a call, which can be read. -/
structure Supplied (env : Environment) (levels : Nat) (arguments : Arguments) (index : Nat)
    (s : State) (rest : List Symbol) : Prop where
  symbols : s.symbols = arguments.yieldFrom index ++ .closeParen :: rest
  admissible : arguments.Admissible env.registry
  nesting : arguments.nesting ≤ levels
  depth : s.depth + levels ≤ env.maxDepth

/-- Every admissible comparison with so many levels of nesting is read to its meaning. -/
def ReadsComparisons (env : Environment) (p : Eval Decimal) (levels : Nat) : Prop :=
  ∀ tree : Comparison, tree.Admissible env.registry → tree.nesting ≤ levels →
    Reads env p levels 4 tree.yield (tree.meaning env)

section Arguments

variable {α β : Type} {env : Environment} {p : Eval Decimal} {levels index : Nat}
variable {s : State} {rest final : List Symbol}

theorem Yields.separator {symbols : List Symbol} (h : s.symbols = leading index ++ symbols)
    (hsymbols : symbols ≠ []) :
    Yields env.registry (Call.separator index) s (Pure.pure ()) symbols := by
  rw [leading] at h
  rw [Call.separator]
  split
  · rename_i hindex
    rw [if_pos hindex] at h
    exact .pure () h
  · rename_i hindex
    rw [if_neg hindex] at h
    exact .expect h hsymbols (by simp)

theorem Derivation.Arguments.yieldFrom_ne_nil (arguments : Arguments) (rest : List Symbol) :
    arguments.yieldFrom index ++ .closeParen :: rest ≠ [] :=
  List.append_ne_nil_of_right_ne_nil _ (List.cons_ne_nil _ rest)

/-- Reading one argument, whatever is done with it, leads to the next one. -/
theorem Supplied.argument {first : Comparison} {others : Arguments}
    (h : Supplied env levels (.value first others) index s rest)
    {read : Eval Decimal} {m : Outcome Decimal}
    (hread : ∀ t rest, t.symbols = first.yield ++ rest → Stops 4 rest → t.live = s.live →
      t.depth + levels ≤ env.maxDepth → Yields env.registry read t m rest)
    {next : Decimal → Eval β} {k : Decimal → Outcome β}
    (hnext : ∀ value t, t.live = s.live → Supplied env levels others (index + 1) t rest →
      Yields env.registry (next value) t (k value) final) :
    Yields env.registry (Call.separator index >>= fun _ => read >>= next) s (m >>= k) final := by
  have hsymbols := h.symbols
  rw [Arguments.yieldFrom, List.append_assoc, List.append_assoc] at hsymbols
  apply (Yields.separator hsymbols
    (List.append_ne_nil_of_right_ne_nil _ (others.yieldFrom_ne_nil rest))).next
  intro t ht
  have hdepth : t.depth + levels ≤ env.maxDepth := ht.depth ▸ h.depth
  have hstops : Stops 4 (others.yieldFrom (index + 1) ++ .closeParen :: rest) :=
    others.yieldFrom_succ index ▸ others.stops_laterYield rest
  apply (hread t _ ht.symbols hstops ht.live hdepth).bind
  intro value u hu
  apply hnext value u (hu.live.trans ht.live)
  exact ⟨hu.symbols, h.admissible.2, (Nat.max_le.mp h.nesting).2, hu.depth ▸ hdepth⟩

/-- Reading one argument for its value. -/
theorem Supplied.value (hp : ReadsComparisons env p levels) {first : Comparison}
    {others : Arguments} (h : Supplied env levels (.value first others) index s rest)
    {next : Decimal → Eval β} {k : Decimal → Outcome β}
    (hnext : ∀ value t, t.live = s.live → Supplied env levels others (index + 1) t rest →
      Yields env.registry (next value) t (k value) final) :
    Yields env.registry (Call.separator index >>= fun _ => p >>= next) s
      ((first.meaning env).ifLive s.live >>= k) final := by
  refine h.argument ?_ hnext
  intro t rest hsymbols hstops hlive hdepth
  rw [← hlive]
  exact hp first h.admissible.1 (Nat.max_le.mp h.nesting).1 t rest hsymbols hstops hdepth

/-- Passing over one argument. -/
theorem Supplied.passed (hp : ReadsComparisons env p levels) {first : Comparison}
    {others : Arguments} (h : Supplied env levels (.value first others) index s rest)
    {next : Decimal → Eval β} {m : Outcome β}
    (hnext : ∀ value t, t.live = s.live → Supplied env levels others (index + 1) t rest →
      Yields env.registry (next value) t m final) :
    Yields env.registry (Call.separator index >>= fun _ => Eval.quietly p >>= next) s m
      final := by
  refine h.argument (m := pure Decimal.zero) (k := fun _ => m) ?_ hnext
  intro t rest hsymbols hstops hlive hdepth
  apply Yields.quietly
  exact hp first h.admissible.1 (Nat.max_le.mp h.nesting).1 { t with live := false } rest
    hsymbols hstops hdepth

/-! ### Evaluated arguments -/

theorem values_yields (hp : ReadsComparisons env p levels) : ∀ (arguments : Arguments)
    (index : Nat) (s : State), arguments.texts = [] → Supplied env levels arguments index s rest →
    Yields env.registry (Call.values p index arguments.quotes.length) s
      ((arguments.meanings env).mapM (Outcome.ifLive s.live)) (.closeParen :: rest)
  | .nil, index, s, _, h => .pure [] h.symbols
  | .value first others, index, s, htexts, h => by
    rw [Arguments.quotes, List.length_cons, Call.values, Arguments.meanings, List.mapM_cons]
    apply h.value hp
    intro value t hlive ht
    rw [← hlive]
    apply (values_yields hp others (index + 1) t htexts ht).bind
    intro numbers u hu
    exact .pure (value :: numbers) hu.symbols
  | .text first others, _, _, htexts, _ => nomatch htexts

theorem numeric_yields (hp : ReadsComparisons env p levels) {arguments : Arguments}
    (htexts : arguments.texts = []) (h : Supplied env levels arguments 0 s rest)
    (hrest : rest ≠ []) (function : Math.NumericFunction) :
    Yields env.registry (Call.numeric p function arguments.quotes.length) s
      (((arguments.meanings env).mapM id >>= fun numbers =>
        .lift (function numbers)).ifLive s.live) rest := by
  rw [Call.numeric, Outcome.ifLive_mapM_bind]
  apply (values_yields hp arguments 0 s htexts h).bind
  intro numbers t ht
  apply (Yields.expect ht.symbols hrest (by simp)).next
  intro u hu
  rw [← ht.live, ← hu.live]
  exact .whenLive hu.symbols (.lift _ hu.symbols)

/-! ### Lazy calls -/

theorem passOver_yields (hp : ReadsComparisons env p levels) : ∀ (arguments : Arguments)
    (index : Nat) (s : State), arguments.texts = [] → Supplied env levels arguments index s rest →
    Yields env.registry (Call.passOver p index arguments.quotes.length) s (Pure.pure ())
      (.closeParen :: rest)
  | .nil, index, s, _, h => .pure () h.symbols
  | .value first others, index, s, htexts, h => by
    rw [Arguments.quotes, List.length_cons, Call.passOver]
    apply h.passed hp
    intro value t hlive ht
    exact passOver_yields hp others (index + 1) t htexts ht
  | .text first others, _, _, htexts, _ => nomatch htexts

theorem Derivation.Arguments.length_meanings (env : Environment) : ∀ arguments : Arguments,
    arguments.texts = [] → (arguments.meanings env).length = arguments.quotes.length
  | .nil, _ => rfl
  | .value _ rest, htexts => congrArg (· + 1) (rest.length_meanings env htexts)
  | .text _ _, htexts => nomatch htexts

/-- What is left of a lazy call from a point of its strategy on. -/
def remainder (p : Eval Decimal) (total : Nat) (strategy : Strategy) (consumed : Nat) :
    Eval Decimal :=
  Call.follow p total strategy consumed >>= fun reached =>
    Call.passOver p reached.2 (total - reached.2) >>= fun _ => pure reached.1

/-- Wherever a strategy stands, the run goes on to what it makes of the arguments that are
left. -/
theorem remainder_yields (hp : ReadsComparisons env p levels) (strategy : Strategy)
    {arguments : Arguments} {consumed total : Nat} (htexts : arguments.texts = [])
    (htotal : total = consumed + arguments.quotes.length) (hlive : s.live = true)
    (h : Supplied env levels arguments consumed s rest) :
    Yields env.registry (remainder p total strategy consumed) s
      (strategy.meaning total (arguments.meanings env)) (.closeParen :: rest) := by
  induction strategy generalizing arguments consumed s with
  | finish value =>
    have hleft : total - consumed = arguments.quotes.length := by omega
    change Yields _ (Call.passOver p consumed (total - consumed) >>= fun _ => pure value) _ _ _
    rw [hleft, Strategy.meaning]
    apply (passOver_yields hp arguments consumed s htexts h).next
    intro t ht
    exact .pure value ht.symbols
  | fail fault =>
    rw [Strategy.meaning]
    exact .fail fault
  | ask next ih =>
    have hleft : total - consumed = (arguments.meanings env).length := by
      rw [arguments.length_meanings env htexts]
      omega
    rw [remainder, Call.follow, hleft, Strategy.meaning]
    exact ih _ htexts htotal hlive h
  | take next refused ih ihRefused =>
    rw [remainder, Call.follow]
    cases arguments with
    | nil =>
      rw [if_neg (by rw [htotal]; exact Nat.lt_irrefl _), Arguments.meanings, Strategy.meaning]
      exact ihRefused _ rfl htotal hlive h
    | value first others =>
      rw [Arguments.quotes, List.length_cons] at htotal
      rw [if_pos (by omega), Arguments.meanings, Strategy.meaning]
      simp only [Eval.bind_assoc]
      have hfirst : first.meaning env = (first.meaning env).ifLive s.live := by
        rw [hlive]
        rfl
      rw [hfirst]
      apply h.value hp
      intro value t ht hsupplied
      exact ih value htexts (by omega) (ht.trans hlive) hsupplied
    | text first others => cases htexts
  | skip next refused ih ihRefused =>
    rw [remainder, Call.follow]
    cases arguments with
    | nil =>
      rw [if_neg (by rw [htotal]; exact Nat.lt_irrefl _), Arguments.meanings, Strategy.meaning]
      exact ihRefused _ rfl htotal hlive h
    | value first others =>
      rw [Arguments.quotes, List.length_cons] at htotal
      rw [if_pos (by omega), Arguments.meanings, Strategy.meaning]
      simp only [Eval.bind_assoc]
      apply h.passed hp
      intro value t ht hsupplied
      exact ih htexts (by omega) (ht.trans hlive) hsupplied
    | text first others => cases htexts

theorem lazy_yields (hp : ReadsComparisons env p levels) {arguments : Arguments}
    (htexts : arguments.texts = []) (h : Supplied env levels arguments 0 s rest)
    (hrest : rest ≠ []) (strategy : Strategy) :
    Yields env.registry (Call.lazy p strategy arguments.quotes.length) s
      ((strategy.meaning (arguments.meanings env).length (arguments.meanings env)).ifLive s.live)
      rest := by
  have hclose : ∀ (value : Decimal) (t : State), Reached env.registry s (.closeParen :: rest) t →
      Yields env.registry (Eval.expect .closeParen >>= fun _ => pure value) t (pure value)
        rest := by
    intro value t ht
    apply (Yields.expect ht.symbols hrest (by simp)).next
    intro u hu
    exact .pure value hu.symbols
  have hcount := arguments.length_meanings env htexts
  rw [Call.lazy]
  apply Yields.next_get
  cases hlive : s.live with
  | true =>
    change Yields _ (remainder p arguments.quotes.length strategy 0 >>= fun value =>
      Eval.expect .closeParen >>= fun _ => pure value) _ _ _
    rw [hcount, ← Outcome.bind_pure (Outcome.ifLive true _)]
    exact (remainder_yields hp strategy htexts (Nat.zero_add _).symm hlive h).bind hclose
  | false =>
    -- The values of the arguments are zero as well, and nobody asks for them.
    change Yields _ (Call.values p 0 arguments.quotes.length >>= fun _ =>
      Eval.expect .closeParen >>= fun _ => pure Decimal.zero) _ _ _
    have hvalues := values_yields hp arguments 0 s htexts h
    rw [hlive] at hvalues
    have hzero := Outcome.ifLive_mapM_bind false (arguments.meanings env)
      fun _ => pure Decimal.zero
    change pure Decimal.zero = _ at hzero
    change Yields _ _ _ (pure Decimal.zero) _
    rw [hzero]
    exact hvalues.bind fun _ => hclose Decimal.zero

/-! ### Statistical calls -/

theorem signature_yields (hp : ReadsComparisons env p levels) (function : String) :
    ∀ (kinds : List ArgumentKind) (arguments : Arguments) (index : Nat) (s : State),
      arguments.quotes = kinds.map (·.isQuoted) → Supplied env levels arguments index s rest →
      Yields env.registry (Call.signature p function index kinds) s
        ((arguments.meanings env).mapM (Outcome.ifLive s.live) >>= fun numbers =>
          pure (⟨arguments.texts, numbers⟩ : Call.Arguments)) (.closeParen :: rest)
  | [], .nil, index, s, _, h => .pure (⟨[], []⟩ : Call.Arguments) h.symbols
  | .number :: kinds, .value first others, index, s, hquotes, h => by
    rw [Call.signature, Arguments.meanings, List.mapM_cons]
    simp only [bind_assoc, pure_bind]
    apply h.value hp
    intro value t hlive ht
    have hothers := signature_yields hp function kinds others (index + 1) t
      (List.cons.inj hquotes).2 ht
    rw [hlive] at hothers
    apply hothers.bind_map
    intro numbers u hu
    exact .pure _ hu.symbols
  | .literal :: kinds, .text first others, index, s, hquotes, h => by
    have hsymbols := h.symbols
    rw [Arguments.yieldFrom, List.append_assoc, List.cons_append] at hsymbols
    rw [Call.signature, Arguments.meanings]
    apply (Yields.separator hsymbols (List.cons_ne_nil _ _)).next
    intro t ht
    have hliteral : Yields env.registry (Call.literal function index) t (pure first)
        (others.yieldFrom (index + 1) ++ .closeParen :: rest) := by
      rw [Call.literal]
      apply Yields.next_advance ht.symbols (others.yieldFrom_ne_nil rest) (by simp)
      intro token u htoken hu
      rw [htoken]
      exact .pure first hu.symbols
    apply hliteral.next
    intro u hu
    have hlive : u.live = s.live := hu.live.trans ht.live
    have hothers := signature_yields hp function kinds others (index + 1) u
      (List.cons.inj hquotes).2
      ⟨hu.symbols, h.admissible, h.nesting, hu.depth ▸ ht.depth ▸ h.depth⟩
    rw [hlive] at hothers
    apply hothers.bind_map
    intro numbers v hv
    exact .pure _ hv.symbols
  | [], .value _ _, _, _, hquotes, _ => nomatch hquotes
  | [], .text _ _, _, _, hquotes, _ => nomatch hquotes
  | .number :: _, .nil, _, _, hquotes, _ => nomatch hquotes
  | .literal :: _, .nil, _, _, hquotes, _ => nomatch hquotes
  | .number :: _, .text _ _, _, _, hquotes, _ => nomatch (List.cons.inj hquotes).1
  | .literal :: _, .value _ _, _, _, hquotes, _ => nomatch (List.cons.inj hquotes).1

theorem reduce_yields (function metric : String) (window : Window)
    (reduction : Statistics.Reduction) (texts : List String) (numbers : List Decimal)
    (htarget : Call.target function texts = .ok (metric, window)) (h : s.symbols = rest) :
    Yields env.registry (Call.reduce env function metric window reduction numbers) s
      (windowMeaning env function reduction texts numbers) rest := by
  rw [Call.reduce, windowMeaning, htarget]
  cases env.context with
  | none => exact .fail _
  | some context =>
    apply (Yields.request env.store _ h).bind
    intro samples t ht
    apply (Yields.report _ ht.symbols).next
    intro u hu
    exact .lift _ hu.symbols

theorem exists_target (function metric : String) {code : String} (others : List String)
    (h : Window.IsCode code) :
    ∃ window, Call.target function (metric :: code :: others) = .ok (metric, window) := by
  obtain ⟨window, hwindow⟩ := Option.isSome_iff_exists.mp (Window.isSome_ofCode?_iff.mpr h)
  exact ⟨window, by simp only [Call.target, hwindow]⟩

theorem statistical_yields (hp : ReadsComparisons env p levels) (function : String)
    {kinds : List ArgumentKind} {arguments : Arguments}
    (hquotes : arguments.quotes = kinds.map (·.isQuoted)) {metric code : String}
    {others : List String} (htexts : arguments.texts = metric :: code :: others)
    (hcode : Window.IsCode code) (h : Supplied env levels arguments 0 s rest)
    (hrest : rest ≠ []) (reduction : Statistics.Reduction) :
    Yields env.registry (Call.statistical env p function kinds reduction) s
      (((arguments.meanings env).mapM id >>= fun numbers =>
        windowMeaning env function reduction arguments.texts numbers).ifLive s.live) rest := by
  obtain ⟨window, htarget⟩ := exists_target function metric others hcode
  rw [← htexts] at htarget
  rw [Call.statistical, Outcome.ifLive_mapM_bind]
  apply (signature_yields hp function kinds arguments 0 s hquotes h).bind_map
  intro numbers t ht
  apply (Yields.expect ht.symbols hrest (by simp)).next
  intro u hu
  simp only [htarget]
  rw [← ht.live, ← hu.live]
  exact .whenLive hu.symbols (reduce_yields _ _ _ _ _ _ htarget hu.symbols)

/-! ### Calls -/

/-- The count ahead is that of the arguments, so a function is given all of them. -/
theorem invoke_yields (hp : ReadsComparisons env p levels) {arguments : Arguments}
    {entry : Entry} (haccepts : entry.arity.accepts arguments.quotes.length = true)
    (hadmits : entry.implementation.Admits arguments.quotes arguments.texts)
    (hadmissible : arguments.Admissible env.registry) (hnesting : arguments.nesting ≤ levels)
    (hdepth : s.depth + levels ≤ env.maxDepth) (hrest : rest ≠ [])
    (h : s.symbols = .openParen :: (separated arguments.yields ++ .closeParen :: rest))
    (position : Nat) :
    Yields env.registry (Call.invoke env p entry position) s
      ((entry.meaning env arguments.texts (arguments.meanings env)).ifLive s.live) rest := by
  have hinner : separated arguments.yields ++ .closeParen :: rest ≠ [] :=
    List.append_ne_nil_of_right_ne_nil _ (List.cons_ne_nil _ rest)
  rw [Call.invoke]
  apply (Yields.expect h hinner (by simp)).next
  intro t ht
  apply Yields.next_get
  have hahead : t.ahead.map (·.symbol) = _ := ht.symbols
  obtain ⟨closing, hcount⟩ := ArgumentCount.ofTokens_eq_ok_of_tree entry.name position hahead
  have hsupplied : Supplied env levels arguments 0 t rest :=
    ⟨arguments.yieldFrom_zero ▸ ht.symbols, hadmissible, hnesting, ht.depth ▸ hdepth⟩
  simp only [hcount, haccepts, if_true]
  rw [← ht.live, Entry.meaning]
  cases himplementation : entry.implementation with
  | numeric arity function =>
    rw [himplementation] at hadmits
    exact numeric_yields hp hadmits hsupplied hrest function
  | lazy arity strategy =>
    rw [himplementation] at hadmits
    exact lazy_yields hp hadmits hsupplied hrest strategy
  | statistical kinds reduction =>
    rw [himplementation] at hadmits
    obtain ⟨hquotes, metric, code, others, htexts, hcode⟩ := hadmits
    exact statistical_yields hp entry.name hquotes htexts hcode hsupplied hrest reduction

end Arguments

end DerivedTelemetry
