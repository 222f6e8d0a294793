import DerivedTelemetry.Proofs.Evaluation.Consumption
import DerivedTelemetry.Proofs.WindowCodes

/-!
# What is accepted has a tree

Where a text is only checked, a run that succeeds has passed symbols that an admissible tree
derives.  Each level of the grammar is followed backwards: what it has passed is put together
from what its parts have passed, and the tree from their trees.
-/

namespace DerivedTelemetry

open DerivedTelemetry.Derivation Grammar

/-- The text is only checked, and its end comes last. -/
structure Quiet (s : State) : Prop where
  live : s.live = false
  terminated : Terminated s.symbols

theorem Passed.quiet {s t : State} {front : List Token} (h : Passed s front t) (hs : Quiet s) :
    Quiet t := ⟨h.live.trans hs.live, h.ended⟩

/-- Nothing is computed, and nothing passed. -/
theorem Quiet.whenLive {s : State} (hs : Quiet s) (p : Eval Decimal) :
    Consumes (Eval.whenLive p) s fun _ front => front = [] := by
  intro value after hrun
  rw [Eval.whenLive_of_not_live p hs.live] at hrun
  cases hrun
  exact ⟨[], .refl hs.terminated, rfl⟩

/-! ### Phrases -/

/-- The symbols of an admissible tree with no more than so many levels of nesting. -/
def IsPhrase {Tree : Type} (yield : Tree → List Symbol) (nesting : Tree → Nat)
    (admissible : Tree → Prop) (levels : Nat) (symbols : List Symbol) : Prop :=
  ∃ tree, admissible tree ∧ nesting tree ≤ levels ∧ yield tree = symbols

abbrev IsFactor (registry : Registry) : Nat → List Symbol → Prop :=
  IsPhrase Factor.yield Factor.nesting (Factor.Admissible registry)

abbrev IsProduct (registry : Registry) : Nat → List Symbol → Prop :=
  IsPhrase Product.yield Product.nesting (Product.Admissible registry)

abbrev IsSum (registry : Registry) : Nat → List Symbol → Prop :=
  IsPhrase Sum.yield Sum.nesting (Sum.Admissible registry)

abbrev IsComparison (registry : Registry) : Nat → List Symbol → Prop :=
  IsPhrase Comparison.yield Comparison.nesting (Comparison.Admissible registry)

section Phrases

variable {env : Environment} {factor p : Eval Decimal} {levels : Nat} {s : State}

theorem IsProduct.extended {front back : List Symbol} {operator : Symbol}
    (hfront : IsProduct env.registry levels front)
    (hoperator : (productOperators env operator).isSome = true)
    (hback : IsFactor env.registry levels back) :
    IsProduct env.registry levels (front ++ operator :: back) := by
  obtain ⟨left, hleft, hleftNesting, rfl⟩ := hfront
  obtain ⟨right, hright, hrightNesting, rfl⟩ := hback
  have hnesting := Nat.max_le.mpr ⟨hleftNesting, hrightNesting⟩
  cases operator with
  | star => exact ⟨.multiplied left right, ⟨hleft, hright⟩, hnesting, rfl⟩
  | slash => exact ⟨.divided left right, ⟨hleft, hright⟩, hnesting, rfl⟩
  | _ => cases hoperator

theorem IsSum.extended {front back : List Symbol} {operator : Symbol}
    (hfront : IsSum env.registry levels front)
    (hoperator : (sumOperators operator).isSome = true)
    (hback : IsProduct env.registry levels back) :
    IsSum env.registry levels (front ++ operator :: back) := by
  obtain ⟨left, hleft, hleftNesting, rfl⟩ := hfront
  obtain ⟨right, hright, hrightNesting, rfl⟩ := hback
  have hnesting := Nat.max_le.mpr ⟨hleftNesting, hrightNesting⟩
  cases operator with
  | plus => exact ⟨.added left right, ⟨hleft, hright⟩, hnesting, rfl⟩
  | minus => exact ⟨.subtracted left right, ⟨hleft, hright⟩, hnesting, rfl⟩
  | _ => cases hoperator

theorem product_recognized
    (hfactor : ∀ t, Quiet t → Consumes factor t fun _ => IsFactor env.registry levels)
    (hs : Quiet s) : Consumes (product env factor) s fun _ => IsProduct env.registry levels := by
  refine .chain rfl ?_ ?_ hs.terminated fun _ t ht => hfactor t (ht.quiet hs)
  · intro symbol operator value right result front back hoperator hfront hback _
    exact hfront.extended (Option.isSome_of_eq_some hoperator) hback
  · rintro value _ ⟨tree, hadmissible, hnesting, rfl⟩
    exact ⟨.plain tree, hadmissible, hnesting, rfl⟩

theorem sum_recognized
    (hfactor : ∀ t, Quiet t → Consumes factor t fun _ => IsFactor env.registry levels)
    (hs : Quiet s) : Consumes (sum env factor) s fun _ => IsSum env.registry levels := by
  refine .chain rfl ?_ ?_ hs.terminated fun _ t ht => product_recognized hfactor (ht.quiet hs)
  · intro symbol operator value right result front back hoperator hfront hback _
    exact IsSum.extended hfront (Option.isSome_of_eq_some hoperator) hback
  · rintro value _ ⟨tree, hadmissible, hnesting, rfl⟩
    exact ⟨.plain tree, hadmissible, hnesting, rfl⟩

theorem comparison_recognized
    (hfactor : ∀ t, Quiet t → Consumes factor t fun _ => IsFactor env.registry levels)
    (hs : Quiet s) :
    Consumes (comparison env factor) s fun _ => IsComparison env.registry levels := by
  refine .comparison ?_ ?_ hs.terminated fun _ t ht => sum_recognized hfactor (ht.quiet hs)
  · rintro value _ ⟨tree, hadmissible, hnesting, rfl⟩
    exact ⟨.plain tree, hadmissible, hnesting, rfl⟩
  · rintro symbol left right _ _ truth hcomparison ⟨leftTree, hleft, hleftNesting, rfl⟩
      ⟨rightTree, hright, hrightNesting, rfl⟩
    exact ⟨.compared leftTree symbol rightTree hcomparison, ⟨hleft, hright⟩,
      Nat.max_le.mpr ⟨hleftNesting, hrightNesting⟩, rfl⟩

/-! ### Calls -/

/-- The last arguments of a call, from an index on, that fit. -/
def AreArguments (registry : Registry) (levels index : Nat) (fits : Arguments → Prop) :
    List Symbol → Prop :=
  IsPhrase (Arguments.yieldFrom index) Arguments.nesting
    (fun arguments => fits arguments ∧ arguments.Admissible registry) levels

theorem AreArguments.value {registry : Registry} {index : Nat} {fits fitsAll : Arguments → Prop}
    {front back : List Symbol} (hfront : IsComparison registry levels front)
    (hback : AreArguments registry levels (index + 1) fits back)
    (hfits : ∀ first others, fits others → fitsAll (.value first others)) :
    AreArguments registry levels index fitsAll (leading index ++ (front ++ back)) := by
  obtain ⟨first, hfirst, hfirstNesting, rfl⟩ := hfront
  obtain ⟨others, ⟨hothers, hadmissible⟩, hnesting, rfl⟩ := hback
  exact ⟨.value first others, ⟨hfits first others hothers, hfirst, hadmissible⟩,
    Nat.max_le.mpr ⟨hfirstNesting, hnesting⟩, rfl⟩

theorem AreArguments.text {registry : Registry} {index : Nat} {fits fitsAll : Arguments → Prop}
    {text : String} {back : List Symbol}
    (hback : AreArguments registry levels (index + 1) fits back)
    (hfits : ∀ others, fits others → fitsAll (.text text others)) :
    AreArguments registry levels index fitsAll (leading index ++ .quoted text :: back) := by
  obtain ⟨others, ⟨hothers, hadmissible⟩, hnesting, rfl⟩ := hback
  exact ⟨.text text others, ⟨hfits others hothers, hadmissible⟩, hnesting, rfl⟩

variable (hp : ∀ t, Quiet t → Consumes p t fun _ => IsComparison env.registry levels)

include hp

theorem values_recognized (index count : Nat) (hs : Quiet s) :
    Consumes (Call.values p index count) s fun _ =>
      AreArguments env.registry levels index fun arguments =>
        arguments.texts = [] ∧ arguments.quotes.length = count := by
  induction count generalizing index s with
  | zero => exact .pure hs.terminated ⟨.nil, ⟨⟨rfl, rfl⟩, trivial⟩, Nat.zero_le _, rfl⟩
  | succ count ih =>
    rw [Call.values]
    apply (Consumes.separator index hs.terminated).bind
    intro _ comma t ht hcomma
    apply (hp t (ht.quiet hs)).bind
    intro value front u hu hfront
    apply (ih (index + 1) (hu.quiet (ht.quiet hs))).bind
    intro rest back v hv hback
    apply Consumes.pure hv.ended
    rw [hcomma, List.append_nil]
    exact hback.value hfront fun first others hothers =>
      ⟨hothers.1, congrArg (· + 1) hothers.2⟩

theorem signature_recognized (function : String) (kinds : List ArgumentKind) (index : Nat)
    (hs : Quiet s) :
    Consumes (Call.signature p function index kinds) s fun given =>
      AreArguments env.registry levels index fun arguments =>
        arguments.quotes = kinds.map (·.isQuoted) ∧ arguments.texts = given.literals := by
  induction kinds generalizing index s with
  | nil => exact .pure hs.terminated ⟨.nil, ⟨⟨rfl, rfl⟩, trivial⟩, Nat.zero_le _, rfl⟩
  | cons kind kinds ih =>
    cases kind with
    | number =>
      rw [Call.signature]
      apply (Consumes.separator index hs.terminated).bind
      intro _ comma t ht hcomma
      apply (hp t (ht.quiet hs)).bind
      intro value front u hu hfront
      apply (ih (index + 1) (hu.quiet (ht.quiet hs))).bind
      intro rest back v hv hback
      apply Consumes.pure hv.ended
      rw [hcomma, List.append_nil]
      exact hback.value hfront fun first others hothers =>
        ⟨congrArg (false :: ·) hothers.1, hothers.2⟩
    | literal =>
      rw [Call.signature]
      apply (Consumes.separator index hs.terminated).bind
      intro _ comma t ht hcomma
      apply (Consumes.literal function index ht.ended).bind
      intro text front u hu hfront
      apply (ih (index + 1) (hu.quiet (ht.quiet hs))).bind
      intro rest back v hv hback
      apply Consumes.pure hv.ended
      rw [hcomma, hfront, List.append_nil]
      exact hback.text fun others hothers =>
        ⟨congrArg (true :: ·) hothers.1, congrArg (text :: ·) hothers.2⟩

/-- What stands between the parentheses of a call, and the closing one. -/
def IsCallOf (registry : Registry) (levels : Nat) (implementation : Implementation)
    (count : Nat) : List Symbol → Prop :=
  IsPhrase (fun arguments => separated arguments.yields ++ [.closeParen]) Arguments.nesting
    (fun arguments => arguments.quotes.length = count ∧
      implementation.Admits arguments.quotes arguments.texts ∧
      arguments.Admissible registry) levels

omit hp in
theorem AreArguments.closed {registry : Registry} {fits : Arguments → Prop}
    {implementation : Implementation} {count : Nat} {front : List Symbol}
    (hfront : AreArguments registry levels 0 fits front)
    (hfits : ∀ arguments, fits arguments → arguments.quotes.length = count ∧
      implementation.Admits arguments.quotes arguments.texts) :
    IsCallOf registry levels implementation count (front ++ [.closeParen]) := by
  obtain ⟨arguments, ⟨harguments, hadmissible⟩, hnesting, rfl⟩ := hfront
  obtain ⟨hcount, hadmits⟩ := hfits arguments harguments
  exact ⟨arguments, ⟨hcount, hadmits, hadmissible⟩, hnesting,
    by rw [arguments.yieldFrom_zero]⟩

theorem numeric_recognized (arity : Arity) (function : Math.NumericFunction) (count : Nat)
    (hs : Quiet s) :
    Consumes (Call.numeric p function count) s fun _ =>
      IsCallOf env.registry levels (.numeric arity function) count := by
  rw [Call.numeric]
  apply (values_recognized hp 0 count hs).bind
  intro numbers front t ht hfront
  apply (Consumes.expect ht.ended .closeParen (by simp)).bind
  intro _ close u hu hclose
  apply ((hu.quiet (ht.quiet hs)).whenLive _).mono
  rintro value _ rfl
  rw [hclose, List.append_nil]
  exact hfront.closed fun arguments hfits => ⟨hfits.2, hfits.1⟩

theorem lazy_recognized (arity : Arity) (strategy : Strategy) (count : Nat) (hs : Quiet s) :
    Consumes (Call.lazy p strategy count) s fun _ =>
      IsCallOf env.registry levels (.lazy arity strategy) count := by
  rw [Call.lazy]
  apply Consumes.next_get
  rw [hs.live]
  change Consumes (Call.values p 0 count >>= fun _ =>
    Eval.expect .closeParen >>= fun _ => pure Decimal.zero) s _
  apply (values_recognized hp 0 count hs).bind
  intro numbers front t ht hfront
  apply (Consumes.expect ht.ended .closeParen (by simp)).bind
  intro _ close u hu hclose
  apply Consumes.pure hu.ended
  rw [hclose, List.append_nil]
  exact hfront.closed fun arguments hfits => ⟨hfits.2, hfits.1⟩

omit hp in
/-- Only the code of a window is accepted as one. -/
theorem exists_of_target {function metric : String} {literals : List String} {window : Window}
    (h : Call.target function literals = .ok (metric, window)) :
    ∃ metric code others, literals = metric :: code :: others ∧
      Window.IsCode code := by
  rw [Call.target.eq_def] at h
  split at h
  · rename_i first code others
    refine ⟨first, code, others, rfl, Window.isSome_ofCode?_iff.mp ?_⟩
    cases hcode : Window.ofCode? code with
    | none =>
      rw [hcode] at h
      cases h
    | some window => rfl
  · cases h

theorem statistical_recognized (function : String) (kinds : List ArgumentKind)
    (reduction : Statistics.Reduction) (hs : Quiet s) :
    Consumes (Call.statistical env p function kinds reduction) s fun _ =>
      IsCallOf env.registry levels (.statistical kinds reduction) kinds.length := by
  rw [Call.statistical]
  apply (signature_recognized hp function kinds 0 hs).bind
  intro given front t ht hfront
  apply (Consumes.expect ht.ended .closeParen (by simp)).bind
  intro _ close u hu hclose
  split
  · exact .fail _
  · rename_i metric window htarget
    apply ((hu.quiet (ht.quiet hs)).whenLive _).mono
    rintro value _ rfl
    rw [hclose, List.append_nil]
    apply hfront.closed
    rintro arguments ⟨hquotes, htexts⟩
    refine ⟨by rw [hquotes, List.length_map], hquotes, ?_⟩
    rw [htexts]
    exact exists_of_target htarget

/-- The parentheses of a call and what stands between them, where a function is called. -/
def IsInvocation (registry : Registry) (levels : Nat) (entry : Entry) : List Symbol → Prop :=
  IsPhrase (fun arguments => .openParen :: separated arguments.yields ++ [.closeParen])
    Arguments.nesting
    (fun arguments => entry.arity.accepts arguments.quotes.length = true ∧
      entry.implementation.Admits arguments.quotes arguments.texts ∧
      arguments.Admissible registry) levels

omit hp in
theorem IsCallOf.invocation {registry : Registry} {entry : Entry} {count : Nat}
    {inner : List Symbol} (hinner : IsCallOf registry levels entry.implementation count inner)
    (haccepts : entry.arity.accepts count = true) :
    IsInvocation registry levels entry (.openParen :: inner) := by
  obtain ⟨arguments, ⟨rfl, hadmits, hadmissible⟩, hnesting, rfl⟩ := hinner
  exact ⟨arguments, ⟨haccepts, hadmits, hadmissible⟩, hnesting, rfl⟩

/-- The count ahead may be of anything; what is accepted has as many arguments as were
counted. -/
theorem invoke_recognized (entry : Entry) (position : Nat) (hs : Quiet s) :
    Consumes (Call.invoke env p entry position) s fun _ =>
      IsInvocation env.registry levels entry := by
  rw [Call.invoke]
  apply (Consumes.expect hs.terminated .openParen (by simp)).bind
  intro _ opening t ht hopening
  rw [hopening]
  apply Consumes.next_get
  split
  · exact .fail _
  · rename_i count closing hcount
    split
    · rename_i haccepts
      have hmore : ∀ (value : Decimal) (inner : List Symbol),
          IsCallOf env.registry levels entry.implementation count inner →
          IsInvocation env.registry levels entry (.openParen :: inner) :=
        fun value inner hinner => hinner.invocation haccepts
      cases himplementation : entry.implementation with
      | numeric arity function =>
        rw [himplementation] at hmore
        exact (numeric_recognized hp arity function count (ht.quiet hs)).mono hmore
      | lazy arity strategy =>
        rw [himplementation] at hmore
        exact (lazy_recognized hp arity strategy count (ht.quiet hs)).mono hmore
      | statistical kinds reduction =>
        rw [himplementation] at hmore
        have hlength : kinds.length = count := by
          rw [Entry.arity, himplementation] at haccepts
          exact (beq_iff_eq.mp haccepts).symm
        subst hlength
        exact (statistical_recognized hp entry.name kinds reduction (ht.quiet hs)).mono hmore
    · exact .fail _

end Phrases

/-! ### Factors -/

section Factors

variable {env : Environment} {s : State}

/-- No variable is bound to the name of a function. -/
def BindsNoFunction (env : Environment) : Prop :=
  ∀ name, env.registry.contains name = true → env.bindings name = none

theorem variable_recognized (hbindings : BindsNoFunction env) (name : String) (hs : Quiet s) :
    Consumes (variableValue env name) s fun _ front =>
      front = [] ∧ env.registry.contains name = false := by
  rw [variableValue]
  cases hbound : env.bindings name with
  | some value =>
    have hunknown : env.registry.contains name = false := by
      rw [← Bool.not_eq_true]
      intro hknown
      rw [hbindings name hknown] at hbound
      cases hbound
    apply (Consumes.noteVariable hs.terminated name).next
    intro _ t ht _
    apply ((ht.quiet hs).whenLive _).mono
    intro value front hfront
    exact ⟨hfront, hunknown⟩
  | none =>
    cases hunknown : env.registry.contains name with
    | true => exact .fail _
    | false =>
      apply Consumes.next_get
      rw [hs.live]
      apply (Consumes.noteVariable hs.terminated name).next
      intro _ t ht _
      exact .pure ht.ended ⟨rfl, rfl⟩

variable {factor : Eval Decimal} {levels : Nat}

theorem call_recognized
    (hfactor : ∀ t, Quiet t → Consumes factor t fun _ => IsFactor env.registry levels)
    (name : String) (position : Nat) (hs : Quiet s) :
    Consumes (Call.call env (comparison env factor) name position) s fun _ front =>
      IsFactor env.registry (levels + 1) (.name name :: front) := by
  rw [Call.call]
  cases hentry : env.registry.lookup? name with
  | none => exact .fail _
  | some entry =>
    apply (Consumes.noteFunction hs.terminated entry.name).next
    intro _ t ht _
    have hcomparison := fun t ht => comparison_recognized (s := t) hfactor ht
    apply (invoke_recognized hcomparison entry position (ht.quiet hs)).mono
    rintro value _ ⟨arguments, ⟨haccepts, hadmits, hadmissible⟩, hnesting, rfl⟩
    exact ⟨.call name arguments, ⟨⟨entry, hentry, haccepts, hadmits⟩, hadmissible⟩,
      Nat.succ_le_succ hnesting, rfl⟩

/-- Each kind of factor that is accepted has a node of its own. -/
theorem primary_recognized (hbindings : BindsNoFunction env)
    (hfactor : ∀ t, Quiet t → Consumes factor t fun _ => IsFactor env.registry levels)
    (hs : Quiet s) :
    Consumes (primary env factor) s fun _ => IsFactor env.registry (levels + 1) := by
  rw [primary]
  apply Consumes.next_advance hs.terminated
  · intro token t htoken
    simp only [htoken]
    exact .fail _
  · intro token t ht
    split
    · rename_i hsymbol
      rw [hsymbol]
      apply (hfactor t (ht.quiet hs)).mono
      rintro value _ ⟨operand, hadmissible, hnesting, rfl⟩
      exact ⟨.positive operand, hadmissible, Nat.succ_le_succ hnesting, rfl⟩
    · rename_i hsymbol
      rw [hsymbol]
      apply (hfactor t (ht.quiet hs)).bind
      rintro value front u hu ⟨operand, hadmissible, hnesting, hsymbols⟩
      apply ((hu.quiet (ht.quiet hs)).whenLive _).mono
      rintro _ _ rfl
      rw [← hsymbols, List.append_nil]
      exact ⟨.negative operand, hadmissible, Nat.succ_le_succ hnesting, rfl⟩
    · rename_i number hsymbol
      rw [hsymbol]
      apply ((ht.quiet hs).whenLive _).mono
      rintro _ _ rfl
      exact ⟨.number number, trivial, Nat.succ_le_succ (Nat.zero_le levels), rfl⟩
    · rename_i hsymbol
      rw [hsymbol]
      apply (comparison_recognized hfactor (ht.quiet hs)).bind
      rintro value front u hu ⟨inner, hadmissible, hnesting, hsymbols⟩
      apply Consumes.next_peek hu.ended
      intro close rest htokens
      split
      · rename_i hclose
        apply Consumes.next_taken hu.ended htokens (by rw [hclose]; simp)
        intro v hv
        apply Consumes.pure hv.ended
        rw [hclose, ← hsymbols]
        exact ⟨.group inner, hadmissible, Nat.succ_le_succ hnesting, rfl⟩
      · exact .fail _
    · rename_i name hsymbol
      rw [hsymbol]
      apply Consumes.next_peek ht.ended
      intro following rest _
      split
      · exact call_recognized hfactor name token.position (ht.quiet hs)
      · apply (variable_recognized hbindings name (ht.quiet hs)).mono
        rintro value _ ⟨rfl, hunknown⟩
        exact ⟨.named name, hunknown, Nat.succ_le_succ (Nat.zero_le levels), rfl⟩
    · exact .fail _
    · exact .fail _

theorem factor_recognized (hbindings : BindsNoFunction env) (levels : Nat) (hs : Quiet s) :
    Consumes (Grammar.factor env levels) s fun _ => IsFactor env.registry levels := by
  induction levels generalizing s with
  | zero => exact .fail _
  | succ levels ih =>
    apply Consumes.nested
    exact primary_recognized hbindings (fun _ hu => ih hu) ⟨hs.live, hs.terminated⟩

/-- A whole text that is accepted has an admissible tree. -/
theorem expression_recognized (hbindings : BindsNoFunction env) (hs : Quiet s)
    {value : Decimal} {after : State} (h : expression env s = (.ok value, after)) :
    ∃ tree : Comparison, tree.Admissible env.registry ∧ tree.nesting ≤ env.maxDepth ∧
      s.symbols = tree.yield ++ [.finish] := by
  rw [Grammar.expression] at h
  obtain ⟨given, t, hcomparison, hend⟩ := Eval.bind_eq_ok.mp h
  obtain ⟨front, hpassed, tree, hadmissible, hnesting, hyield⟩ :=
    comparison_recognized (fun _ hu => factor_recognized hbindings env.maxDepth hu) hs
      given t hcomparison
  refine ⟨tree, hadmissible, hnesting, ?_⟩
  have hterminated := hpassed.ended
  obtain ⟨symbol, rest, hrest⟩ := List.exists_cons_of_ne_nil hterminated.ne_nil
  obtain ⟨token, htoken, hpeek⟩ := Eval.peek_of_symbols hrest
  obtain ⟨_, u, hfinish, -⟩ := Eval.bind_eq_ok.mp hend
  rw [Eval.expectEnd, Eval.bind_of_ok hpeek, htoken] at hfinish
  have hlast : symbol = .finish := by
    cases symbol <;> first | rfl | cases hfinish
  subst hlast
  rw [hrest] at hterminated
  have hremaining : t.ahead.map (·.symbol) = [.finish] := hterminated.eq_nil ▸ hrest
  rw [State.symbols, hpassed.ahead, List.map_append, hyield, hremaining]

end Factors

end DerivedTelemetry
