import DerivedTelemetry.Proofs.Evaluation.Consumption
import DerivedTelemetry.Proofs.Evaluation.LazySteps

/-!
# Values and the symbols they were read from

What can be said of a value may depend on how much of something its text contains.  Each
symbol has a weight, and a value is graded by the weight of the symbols that it was read
from.  A grading is sound if every operation and every function keeps it.  Then it holds of
every value that a run computes, whatever else the run does and whether it succeeds only
under these bindings or under any.

On the way it turns out that the symbols read are a phrase: parentheses are balanced, and
commas outside of them do not occur.
-/

namespace DerivedTelemetry

open ArgumentCount Grammar
open DerivedTelemetry.Derivation (separated separated_cons_eq)

/-- A weight for each symbol, and what holds of a value that was read from symbols of some
weight together. -/
structure Grading where
  weight : Symbol → Nat
  holds : Nat → Decimal → Prop
  /-- What is known of the numbers in the text. -/
  literal : Decimal → Prop

namespace Grading

variable (G : Grading)

def weigh : List Symbol → Nat
  | [] => 0
  | symbol :: symbols => G.weight symbol + weigh symbols

/-- The numbers among the symbols are as they are known to be. -/
def Literal (symbols : List Symbol) : Prop := ∀ value, Symbol.number value ∈ symbols →
  G.literal value

/-- The value has the grade of the symbols. -/
def Graded (value : Decimal) (symbols : List Symbol) : Prop :=
  G.Literal symbols → G.holds (G.weigh symbols) value

/-- The symbols are a phrase, and the value has their grade. -/
structure Read (value : Decimal) (symbols : List Symbol) : Prop where
  phrase : Phrase symbols
  graded : G.Graded value symbols

end Grading

/-- If every value that it is given has a property, so has every value it ends with. -/
def Strategy.Closed (holds : Decimal → Prop) : Strategy → Prop
  | .finish value => holds value
  | .fail _ => True
  | .ask next => ∀ left, (next left).Closed holds
  | .take next refused =>
    (∀ value, holds value → (next value).Closed holds) ∧ ∀ fault, (refused fault).Closed holds
  | .skip next refused => next.Closed holds ∧ ∀ fault, (refused fault).Closed holds

/-- How a function has to treat values of a grade.  Its name may add to the weight. -/
def Implementation.Keeps (G : Grading) (env : Environment) (weight : Nat) :
    Implementation → Prop
  | .numeric _ function => ∀ grade arguments result, (∀ value ∈ arguments, G.holds grade value) →
    function arguments = .ok result → G.holds (weight + grade) result
  | .lazy _ strategy => ∀ grade, strategy.Closed (G.holds grade)
  | .statistical _ reduction => ∀ grade numbers request samples window result,
    (∀ value ∈ numbers, G.holds grade value) → env.store request = .ok samples →
    reduction ⟨samples, window, env.precision⟩ numbers = .ok result →
    G.holds (weight + grade) result

/-- Every operation and every function keeps the grading. -/
structure Grading.Sound (G : Grading) (env : Environment) : Prop where
  mono : ∀ {grade greater value}, grade ≤ greater → G.holds grade value → G.holds greater value
  ofBool : ∀ truth, G.holds 0 (Decimal.ofBool truth)
  literal : ∀ value, G.literal value → G.holds 0 value
  bound : ∀ name value, env.bindings name = some value → G.holds 0 value
  neg : ∀ {grade value}, G.holds grade value → G.holds grade (-value)
  product : ∀ {symbol operator left right a b result},
    productOperators env symbol = some operator → G.holds left a → G.holds right b →
    operator a b = .ok result → G.holds (left + (G.weight symbol + right)) result
  sum : ∀ {symbol operator left right a b result},
    sumOperators symbol = some operator → G.holds left a → G.holds right b →
    operator a b = .ok result → G.holds (left + (G.weight symbol + right)) result
  function : ∀ name entry, env.registry.lookup? name = some entry →
    entry.implementation.Keeps G env (G.weight (.name name))

namespace Grading

variable {G : Grading} {env : Environment} {value : Decimal} {front back : List Symbol}

theorem weigh_append (front back : List Symbol) :
    G.weigh (front ++ back) = G.weigh front + G.weigh back := by
  induction front with
  | nil => exact (Nat.zero_add _).symm
  | cons symbol front ih => rw [List.cons_append, weigh, weigh, ih, Nat.add_assoc]

theorem Literal.of_subset (h : G.Literal back) (hsubset : front ⊆ back) : G.Literal front :=
  fun value hvalue => h value (hsubset hvalue)

theorem weigh_le_of_sublist (h : front.Sublist back) : G.weigh front ≤ G.weigh back := by
  induction h with
  | slnil => exact Nat.le_refl _
  | cons symbol _ ih =>
    rw [weigh]
    omega
  | cons_cons symbol _ ih =>
    rw [weigh, weigh]
    omega

/-- A value keeps its grade in every longer text. -/
theorem Graded.of_sublist (hG : G.Sound env) (h : G.Graded value front)
    (hsublist : front.Sublist back) : G.Graded value back := fun hliteral =>
  hG.mono (weigh_le_of_sublist hsublist) (h (hliteral.of_subset hsublist.subset))

theorem Sound.graded_ofBool (hG : G.Sound env) (truth : Bool) (symbols : List Symbol) :
    G.Graded (Decimal.ofBool truth) symbols := fun _ =>
  hG.mono (Nat.zero_le _) (hG.ofBool truth)

theorem Sound.graded_zero (hG : G.Sound env) (symbols : List Symbol) :
    G.Graded Decimal.zero symbols := hG.graded_ofBool false symbols

end Grading

/-! ### Operators -/

section Operators

variable {G : Grading} {env : Environment} {p : Eval Decimal} {operators : Operators} {s : State}

/-- Operators stand between phrases, and what they make of two values has the weight of both
and their own. -/
def Grading.Operates (G : Grading) (operators : Operators) : Prop :=
  ∀ symbol operator, operators symbol = some operator → isPlain symbol = true ∧
    ∀ left right a b result, G.holds left a → G.holds right b → operator a b = .ok result →
      G.holds (left + (G.weight symbol + right)) result

theorem Grading.Sound.operates_product (hG : G.Sound env) :
    G.Operates (productOperators env) := by
  intro symbol operator hoperator
  refine ⟨?_, fun left right a b result ha hb h => hG.product hoperator ha hb h⟩
  cases symbol <;> first | rfl | cases hoperator

theorem Grading.Sound.operates_sum (hG : G.Sound env) : G.Operates sumOperators := by
  intro symbol operator hoperator
  refine ⟨?_, fun left right a b result ha hb h => hG.sum hoperator ha hb h⟩
  cases symbol <;> first | rfl | cases hoperator

theorem Grading.Read.infixed (hG : G.Sound env) (hoperates : G.Operates operators)
    {a b result : Decimal} {front back : List Symbol} {symbol : Symbol}
    {operator : Decimal → Decimal → Except Fault Decimal} (hfront : G.Read a front)
    (hoperator : operators symbol = some operator) (hback : G.Read b back)
    (hresult : ZeroOr (operator a b) result) : G.Read result (front ++ symbol :: back) := by
  obtain ⟨hplain, hkeeps⟩ := hoperates symbol operator hoperator
  refine ⟨hfront.phrase.infixed hplain hback.phrase, ?_⟩
  rcases hresult with rfl | hresult
  · exact hG.graded_zero _
  · intro hliteral
    rw [Grading.weigh_append, Grading.weigh]
    apply hkeeps _ _ a b result _ _ hresult
    · exact hfront.graded (hliteral.of_subset (List.subset_append_left front _))
    · exact hback.graded (hliteral.of_subset
        (List.Subset.trans (List.subset_cons_self symbol back) (List.subset_append_right front _)))

theorem chain_read (hG : G.Sound env) (hoperates : G.Operates operators)
    (hp : ∀ t : State, Terminated t.symbols → Consumes p t G.Read) (hs : Terminated s.symbols) :
    Consumes (chain operators p) s G.Read := by
  have hfinish : operators .finish = none := by
    cases hoperator : operators .finish with
    | none => rfl
    | some operator => cases (hoperates _ _ hoperator).1
  exact .chain hfinish
    (fun hoperator hfront hback => hfront.infixed hG hoperates hoperator hback) id hs
    fun _ t ht => hp t ht.ended

theorem sum_read (hG : G.Sound env)
    (hp : ∀ t : State, Terminated t.symbols → Consumes p t G.Read) (hs : Terminated s.symbols) :
    Consumes (sum env p) s G.Read :=
  chain_read hG hG.operates_sum
    (fun _ ht => chain_read hG hG.operates_product hp ht) hs

theorem comparison_read (hG : G.Sound env)
    (hp : ∀ t : State, Terminated t.symbols → Consumes p t G.Read) (hs : Terminated s.symbols) :
    Consumes (comparison env p) s G.Read := by
  refine .comparison id ?_ hs fun _ t ht => sum_read hG hp ht.ended
  intro symbol left right front back truth hcomparison hfront hback
  exact ⟨hfront.phrase.infixed (isPlain_of_isComparison hcomparison) hback.phrase,
    hG.graded_ofBool truth _⟩

end Operators

/-! ### Arguments -/

/-- The symbols of arguments, the first of which has the given index. -/
def joined (index : Nat) : List (List Symbol) → List Symbol
  | [] => []
  | first :: others => leading index ++ (first ++ joined (index + 1) others)

theorem joined_succ (index : Nat) (arguments : List (List Symbol)) :
    joined (index + 1) arguments = arguments.flatMap (.comma :: ·) := by
  induction arguments generalizing index with
  | nil => rfl
  | cons first others ih =>
    rw [joined, ih (index + 1), List.flatMap_cons]
    rfl

theorem joined_zero (arguments : List (List Symbol)) :
    joined 0 arguments = separated arguments := by
  cases arguments with
  | nil => rfl
  | cons first others =>
    rw [separated_cons_eq, joined, joined_succ]
    rfl

theorem balanced_joined (index : Nat) {arguments : List (List Symbol)}
    (h : ∀ argument ∈ arguments, Phrase argument) : Balanced (joined index arguments) := by
  cases index with
  | zero =>
    rw [joined_zero]
    exact balanced_separated h
  | succ index =>
    rw [joined_succ]
    exact balanced_later h

/-- So many arguments were read, from an index on, and values with the grade of their
symbols. -/
def Grading.Supplied (G : Grading) (index count : Nat) (values : List Decimal)
    (symbols : List Symbol) : Prop :=
  (∀ value ∈ values, G.Graded value symbols) ∧ ∃ arguments : List (List Symbol),
    arguments.length = count ∧ (∀ argument ∈ arguments, Phrase argument) ∧
    symbols = joined index arguments

section Arguments

variable {G : Grading} {env : Environment} {p : Eval Decimal} {s : State} {index count : Nat}

theorem Grading.Supplied.none (G : Grading) (index : Nat) : G.Supplied index 0 [] [] :=
  ⟨List.forall_mem_nil _, [], rfl, List.forall_mem_nil _, rfl⟩

theorem Grading.Supplied.balanced {values : List Decimal} {symbols : List Symbol}
    (h : G.Supplied index count values symbols) : Balanced symbols := by
  obtain ⟨-, arguments, -, hphrases, rfl⟩ := h
  exact balanced_joined index hphrases

/-- One more argument before others, with any values of its own. -/
theorem Grading.Supplied.cons (hG : G.Sound env) (first : List Decimal) {others : List Decimal}
    {front back : List Symbol} (hfront : Phrase front)
    (hfirst : ∀ value ∈ first, G.Graded value front)
    (h : G.Supplied (index + 1) count others back) :
    G.Supplied index (count + 1) (first ++ others) (leading index ++ (front ++ back)) := by
  obtain ⟨hothers, arguments, rfl, hphrases, rfl⟩ := h
  refine ⟨?_, front :: arguments, rfl, List.forall_mem_cons.mpr ⟨hfront, hphrases⟩, rfl⟩
  intro value hvalue
  rcases List.mem_append.mp hvalue with hmem | hmem
  · exact (hfirst value hmem).of_sublist hG
      ((List.sublist_append_left front _).trans (List.sublist_append_right _ _))
  · exact (hothers value hmem).of_sublist hG
      ((List.sublist_append_right front _).trans (List.sublist_append_right _ _))

/-- The value of an argument that was evaluated. -/
def Call.Use.values : Call.Use → List Decimal
  | .evaluated value => [value]
  | .skipped => []

theorem readsOne_read (hp : ∀ t : State, Terminated t.symbols → Consumes p t G.Read)
    {use : Call.Use} {after : State} (h : Call.ReadsOne p index use s after)
    (hs : Terminated s.symbols) :
    ∃ front argument, Passed s front after ∧
      front.map (·.symbol) = leading index ++ argument ∧ Phrase argument ∧
      ∀ value ∈ use.values, G.Graded value argument := by
  cases h with
  | evaluated hseparator hvalue =>
    obtain ⟨comma, hcomma, hleading⟩ := Consumes.separator index hs _ _ hseparator
    obtain ⟨front, hfront, hread⟩ := hp _ hcomma.ended _ _ hvalue
    refine ⟨comma ++ front, front.map (·.symbol), hcomma.trans hfront, ?_, hread.phrase, ?_⟩
    · rw [List.map_append, hleading]
    · intro value hvalue
      obtain rfl := List.mem_singleton.mp hvalue
      exact hread.graded
  | skipped hseparator hvalue =>
    rename_i t value
    obtain ⟨comma, hcomma, hleading⟩ := Consumes.separator index hs _ _ hseparator
    obtain ⟨front, hfront, hread⟩ :=
      Consumes.quietly (hp { t with live := false } hcomma.ended) _ _ hvalue
    refine ⟨comma ++ front, front.map (·.symbol), hcomma.trans hfront, ?_, hread.phrase,
      List.forall_mem_nil _⟩
    rw [List.map_append, hleading]

/-- Arguments that were each read once are phrases with commas between them. -/
theorem readsEach_read (hG : G.Sound env)
    (hp : ∀ t : State, Terminated t.symbols → Consumes p t G.Read) {uses : List Call.Use}
    {after : State} (h : Call.ReadsEach p index uses s after) (hs : Terminated s.symbols) :
    ∃ front, Passed s front after ∧
      G.Supplied index uses.length (uses.flatMap (·.values)) (front.map (·.symbol)) := by
  induction h with
  | nil index s => exact ⟨[], .refl hs, .none G index⟩
  | cons hfirst _ ih =>
    obtain ⟨front, argument, hfront, hsymbols, hphrase, hgraded⟩ := readsOne_read hp hfirst hs
    obtain ⟨back, hback, hsupplied⟩ := ih hfront.ended
    refine ⟨front ++ back, hfront.trans hback, ?_⟩
    rw [List.map_append, hsymbols, List.append_assoc]
    exact .cons hG _ hphrase hgraded hsupplied

theorem values_read (hG : G.Sound env)
    (hp : ∀ t : State, Terminated t.symbols → Consumes p t G.Read) (index count : Nat)
    (hs : Terminated s.symbols) :
    Consumes (Call.values p index count) s (G.Supplied index count) := by
  intro given after h
  obtain ⟨heach, rfl⟩ := Call.readsEach_of_values h
  obtain ⟨front, hfront, hsupplied⟩ := readsEach_read hG hp heach hs
  rw [List.length_map] at hsupplied
  have hvalues : (given.map Call.Use.evaluated).flatMap (·.values) = given := by
    rw [List.flatMap_map]
    exact List.flatMap_singleton' given
  rw [hvalues] at hsupplied
  exact ⟨front, hfront, hsupplied⟩

/-- Quoted strings are phrases as well, and have no value. -/
theorem signature_read (hG : G.Sound env)
    (hp : ∀ t : State, Terminated t.symbols → Consumes p t G.Read) (function : String)
    (kinds : List ArgumentKind) (index : Nat) (hs : Terminated s.symbols) :
    Consumes (Call.signature p function index kinds) s fun given =>
      G.Supplied index kinds.length given.numbers := by
  induction kinds generalizing index s with
  | nil => exact .pure hs (.none G index)
  | cons kind kinds ih =>
    cases kind with
    | literal =>
      rw [Call.signature]
      apply (Consumes.separator index hs).bind
      rintro _ comma t ht hcomma
      apply (Consumes.literal function index ht.ended).bind
      rintro text front u hu hfront
      apply (ih (index + 1) hu.ended).bind
      intro given back v hv hback
      apply Consumes.pure hv.ended
      rw [hcomma, hfront, List.append_nil]
      exact .cons hG [] (.single (.quoted text) rfl) (List.forall_mem_nil _) hback
    | number =>
      rw [Call.signature]
      apply (Consumes.separator index hs).bind
      rintro _ comma t ht hcomma
      apply (hp t ht.ended).bind
      rintro value front u hu hfront
      apply (ih (index + 1) hu.ended).bind
      intro given back v hv hback
      apply Consumes.pure hv.ended
      rw [hcomma, List.append_nil]
      refine .cons hG [value] hfront.phrase ?_ hback
      intro other hother
      obtain rfl := List.mem_singleton.mp hother
      exact hfront.graded

end Arguments

/-! ### Lazy calls -/

section Closed

variable {holds : Decimal → Prop} {p : Eval Decimal} {total : Nat} {point next : Call.Point}

theorem Strategy.Closed.step (h : Call.Step p total point next)
    (hclosed : point.strategy.Closed holds)
    (huses : ∀ value ∈ next.uses.flatMap (·.values), holds value) :
    next.strategy.Closed holds := by
  cases h with
  | asked => exact hclosed _
  | evaluated hleft hread =>
    rename_i value
    apply hclosed.1 value (huses value _)
    simp [Call.Use.values]
  | notEvaluated hnone => exact hclosed.2 _
  | skipped hleft hread => exact hclosed.1
  | notSkipped hnone => exact hclosed.2 _

/-- A strategy keeps what holds of the values that it is given. -/
theorem Strategy.Closed.steps (h : Call.Steps p total point next)
    (hclosed : point.strategy.Closed holds)
    (huses : ∀ value ∈ next.uses.flatMap (·.values), holds value) :
    next.strategy.Closed holds := by
  induction h with
  | refl => exact hclosed
  | tail _ hstep ih =>
    refine Strategy.Closed.step hstep (ih fun value hvalue => huses value ?_) huses
    obtain ⟨more, hmore, -⟩ := hstep.kept
    rw [hmore, List.flatMap_append]
    exact List.mem_append_left _ hvalue

end Closed

/-! ### Calls -/

/-- What stands in the parentheses of a call is balanced, and the value of the call has the
grade of it, with the weight of the function. -/
def Grading.Called (G : Grading) (weight : Nat) (value : Decimal) (symbols : List Symbol) :
    Prop :=
  Balanced symbols ∧ (G.Literal symbols → G.holds (weight + G.weigh symbols) value)

section Calls

variable {G : Grading} {env : Environment} {p : Eval Decimal} {s : State}
variable (hG : G.Sound env) (hp : ∀ t : State, Terminated t.symbols → Consumes p t G.Read)

include hG

theorem Grading.Graded.called {value : Decimal} {symbols : List Symbol}
    (h : G.Graded value symbols) (hbalanced : Balanced symbols) (weight : Nat) :
    G.Called weight value symbols :=
  ⟨hbalanced, fun hliteral => hG.mono (Nat.le_add_left _ weight) (h hliteral)⟩

include hp

theorem numeric_read (weight : Nat) {arity : Arity} {function : Math.NumericFunction}
    (hkeeps : Implementation.Keeps G env weight (.numeric arity function)) (count : Nat)
    (hs : Terminated s.symbols) :
    Consumes (Call.numeric p function count) s fun value front =>
      ∃ inner, front = inner ++ [.closeParen] ∧ G.Called weight value inner := by
  rw [Call.numeric]
  apply (values_read hG hp 0 count hs).bind
  intro values front t ht hsupplied
  apply (Consumes.expect ht.ended .closeParen (by simp)).bind
  rintro _ close u hu hclose
  apply (Consumes.whenLive_lift hu.ended _).mono
  rintro result _ ⟨rfl, hresult⟩
  rw [hclose, List.append_nil]
  refine ⟨_, rfl, hsupplied.balanced, fun hliteral => ?_⟩
  rcases hresult with rfl | hresult
  · exact hG.mono (Nat.zero_le _) (hG.ofBool false)
  · exact hkeeps _ values result (fun value hvalue => hsupplied.1 value hvalue hliteral) hresult

/-- Whatever a strategy does with the arguments, they have all been read in the end. -/
theorem lazyValue_read {strategy : Strategy} (hclosed : ∀ grade, strategy.Closed (G.holds grade))
    (count : Nat) (hs : Terminated s.symbols) :
    Consumes (Call.lazyValue p strategy count) s fun value front =>
      G.Supplied 0 count [value] front := by
  intro value after hrun
  obtain ⟨taken, t, hsteps, hcount, heach⟩ := Call.steps_of_lazyValue hrun
  obtain ⟨front, hfront, hgraded, arguments, hlength, hphrases, hsymbols⟩ :=
    readsEach_read hG hp heach hs
  refine ⟨front, hfront, ?_, arguments, ?_, hphrases, hsymbols⟩
  · intro result hresult hliteral
    obtain rfl := List.mem_singleton.mp hresult
    refine Strategy.Closed.steps hsteps (hclosed _) fun given hgiven => hgraded given ?_ hliteral
    rw [List.flatMap_append]
    exact List.mem_append_left _ hgiven
  · rw [hlength, List.length_append, List.length_replicate]
    omega

theorem lazy_read (weight : Nat) {strategy : Strategy}
    (hclosed : ∀ grade, strategy.Closed (G.holds grade)) (count : Nat)
    (hs : Terminated s.symbols) :
    Consumes (Call.lazy p strategy count) s fun value front =>
      ∃ inner, front = inner ++ [.closeParen] ∧ G.Called weight value inner := by
  have hclose : ∀ {value : Decimal} {front : List Token} {t : State}, Passed s front t →
      G.Graded value (front.map (·.symbol)) → Balanced (front.map (·.symbol)) →
      Consumes (Eval.expect .closeParen >>= fun _ => pure value) t fun value back =>
        ∃ inner, front.map (·.symbol) ++ back = inner ++ [.closeParen] ∧
          G.Called weight value inner := by
    intro value front t ht hgraded hbalanced
    apply (Consumes.expect ht.ended .closeParen (by simp)).bind
    intro _ close u hu hclose
    apply Consumes.pure hu.ended
    rw [hclose, List.append_nil]
    exact ⟨_, rfl, hgraded.called hG hbalanced weight⟩
  rw [Call.lazy]
  apply Consumes.next_get
  cases s.live with
  | true =>
    change Consumes (Call.lazyValue p strategy count >>= fun value =>
      Eval.expect .closeParen >>= fun _ => pure value) s _
    apply (lazyValue_read hG hp hclosed count hs).bind
    intro value front t ht hsupplied
    exact hclose ht (hsupplied.1 value List.mem_cons_self) hsupplied.balanced
  | false =>
    change Consumes (Call.values p 0 count >>= fun _ =>
      Eval.expect .closeParen >>= fun _ => pure Decimal.zero) s _
    apply (values_read hG hp 0 count hs).bind
    intro values front t ht hsupplied
    exact hclose ht (hG.graded_zero _) hsupplied.balanced

omit hG hp in
theorem reduce_consumes {weight : Nat} {kinds : List ArgumentKind}
    {reduction : Statistics.Reduction}
    (hkeeps : Implementation.Keeps G env weight (.statistical kinds reduction))
    (function metric : String) (window : Window) (numbers : List Decimal)
    (hs : Terminated s.symbols) :
    Consumes (Call.reduce env function metric window reduction numbers) s fun value front =>
      front = [] ∧ ∀ grade, (∀ number ∈ numbers, G.holds grade number) →
        G.holds (weight + grade) value := by
  rw [Call.reduce]
  cases env.context with
  | none => exact .fail _
  | some context =>
    apply (Consumes.request hs env.store _).next
    intro samples t ht hanswer
    apply (Consumes.report ht.ended _).next
    intro _ u hu _
    apply (Consumes.lift hu.ended _).mono
    rintro result _ ⟨rfl, hresult⟩
    exact ⟨rfl, fun grade hnumbers =>
      hkeeps grade numbers _ samples window result hnumbers hanswer hresult⟩

theorem statistical_read {weight : Nat} {kinds : List ArgumentKind}
    {reduction : Statistics.Reduction}
    (hkeeps : Implementation.Keeps G env weight (.statistical kinds reduction))
    (function : String) (hs : Terminated s.symbols) :
    Consumes (Call.statistical env p function kinds reduction) s fun value front =>
      ∃ inner, front = inner ++ [.closeParen] ∧ G.Called weight value inner := by
  rw [Call.statistical]
  apply (signature_read hG hp function kinds 0 hs).bind
  intro given front t ht hsupplied
  apply (Consumes.expect ht.ended .closeParen (by simp)).bind
  intro _ close u hu hclose
  split
  · exact .fail _
  · apply (Consumes.whenLive hu.ended (fun _ _ => hG.mono (Nat.zero_le _) (hG.ofBool false))
      (reduce_consumes hkeeps _ _ _ _ hu.ended)).mono
    rintro result _ ⟨rfl, hresult⟩
    rw [hclose, List.append_nil]
    exact ⟨_, rfl, hsupplied.balanced, fun hliteral =>
      hresult _ fun number hnumber => hsupplied.1 number hnumber hliteral⟩

theorem invoke_read {weight : Nat} (entry : Entry)
    (hkeeps : entry.implementation.Keeps G env weight) (position : Nat)
    (hs : Terminated s.symbols) :
    Consumes (Call.invoke env p entry position) s fun value front =>
      ∃ inner, front = .openParen :: inner ++ [.closeParen] ∧ G.Called weight value inner := by
  have hopened : ∀ (value : Decimal) (front : List Symbol),
      (∃ inner, front = inner ++ [.closeParen] ∧ G.Called weight value inner) →
      ∃ inner, Symbol.openParen :: front = .openParen :: inner ++ [.closeParen] ∧
        G.Called weight value inner := by
    rintro value _ ⟨inner, rfl, hcalled⟩
    exact ⟨inner, rfl, hcalled⟩
  rw [Call.invoke]
  apply (Consumes.expect hs .openParen (by simp)).bind
  intro _ opening t ht hopening
  rw [hopening]
  apply Consumes.next_get
  split
  · exact .fail _
  · rename_i count _ _
    split
    · cases himplementation : entry.implementation with
      | numeric arity function =>
        rw [himplementation] at hkeeps
        exact (numeric_read hG hp weight hkeeps count ht.ended).mono hopened
      | lazy arity strategy =>
        rw [himplementation] at hkeeps
        exact (lazy_read hG hp weight hkeeps count ht.ended).mono hopened
      | statistical kinds reduction =>
        rw [himplementation] at hkeeps
        exact (statistical_read hG hp hkeeps entry.name ht.ended).mono hopened
    · exact .fail _

theorem call_read (name : String) (position : Nat) (hs : Terminated s.symbols) :
    Consumes (Call.call env p name position) s fun value front =>
      G.Read value (.name name :: front) := by
  rw [Call.call]
  cases hentry : env.registry.lookup? name with
  | none => exact .fail _
  | some entry =>
    apply (Consumes.noteFunction hs entry.name).next
    intro _ t ht _
    apply (invoke_read hG hp entry (hG.function name entry hentry) position ht.ended).mono
    rintro value _ ⟨inner, rfl, hbalanced, hgraded⟩
    have hname : Phrase [.name name] := .single _ rfl
    refine ⟨hname.append (.parenthesized hbalanced), fun hliteral => ?_⟩
    have hinner : inner.Sublist (Symbol.openParen :: (inner ++ [.closeParen])) :=
      (List.sublist_append_left inner _).cons _
    rw [Grading.weigh]
    refine hG.mono (Nat.add_le_add_left (Grading.weigh_le_of_sublist hinner) _)
      (hgraded (hliteral.of_subset ?_))
    exact (hinner.cons (.name name)).subset

end Calls

/-! ### Factors -/

section Factors

variable {G : Grading} {env : Environment} {s : State}

theorem variable_read (hG : G.Sound env) (name : String) (hs : Terminated s.symbols) :
    Consumes (variableValue env name) s fun value front =>
      front = [] ∧ G.holds 0 value := by
  have hzero : G.holds 0 Decimal.zero := hG.ofBool false
  rw [variableValue]
  cases hbound : env.bindings name with
  | some bound =>
    apply (Consumes.noteVariable hs name).next
    intro _ t ht _
    exact .whenLive ht.ended hzero (.pure ht.ended ⟨rfl, hG.bound name bound hbound⟩)
  | none =>
    cases env.registry.contains name with
    | true => exact .fail _
    | false =>
      apply Consumes.next_get
      cases s.live with
      | true => exact .fail _
      | false =>
        apply (Consumes.noteVariable hs name).next
        intro _ t ht _
        exact .pure ht.ended ⟨rfl, hzero⟩

/-- A value that holds at no weight is graded by any symbols. -/
theorem Grading.Sound.read_single (hG : G.Sound env) {value : Decimal} {symbol : Symbol}
    (hplain : isPlain symbol = true) (h : G.Literal [symbol] → G.holds 0 value) :
    G.Read value [symbol] :=
  ⟨.single symbol hplain, fun hliteral => hG.mono (Nat.zero_le _) (h hliteral)⟩

theorem primary_read (hG : G.Sound env) {factor : Eval Decimal}
    (hfactor : ∀ t : State, Terminated t.symbols → Consumes factor t G.Read)
    (hs : Terminated s.symbols) : Consumes (primary env factor) s G.Read := by
  have hcomparison : ∀ t : State, Terminated t.symbols →
      Consumes (comparison env factor) t G.Read := fun _ ht => comparison_read hG hfactor ht
  rw [primary]
  apply Consumes.next_advance hs
  · intro token t htoken
    simp only [htoken]
    exact .fail _
  · intro token t ht
    split
    · rename_i hsymbol
      rw [hsymbol]
      apply (hfactor t ht.ended).mono
      intro value front hfront
      exact ⟨(Phrase.single .plus rfl).append hfront.phrase,
        hfront.graded.of_sublist hG (List.sublist_cons_self _ _)⟩
    · rename_i hsymbol
      rw [hsymbol]
      apply (hfactor t ht.ended).bind
      intro value front u hu hfront
      have hnegative : G.Graded (-value) (.minus :: front.map (·.symbol)) := by
        refine Grading.Graded.of_sublist hG (fun hliteral => ?_) (List.sublist_cons_self _ _)
        exact hG.neg (hfront.graded hliteral)
      apply (Consumes.whenLive (P := fun value => G.Graded value (.minus :: front.map (·.symbol)))
        hu.ended (hG.graded_zero _) (.pure hu.ended ⟨rfl, hnegative⟩)).mono
      rintro result _ ⟨rfl, hresult⟩
      rw [List.append_nil]
      exact ⟨(Phrase.single .minus rfl).append hfront.phrase, hresult⟩
    · rename_i number hsymbol
      rw [hsymbol]
      have hnumber : G.Read number [.number number] :=
        hG.read_single rfl fun hliteral => hG.literal number (hliteral number List.mem_cons_self)
      apply (Consumes.whenLive (P := fun value => G.Graded value [.number number]) ht.ended
        (hG.graded_zero _) (.pure ht.ended ⟨rfl, hnumber.graded⟩)).mono
      rintro result _ ⟨rfl, hresult⟩
      exact ⟨hnumber.phrase, hresult⟩
    · rename_i hsymbol
      rw [hsymbol]
      apply (hcomparison t ht.ended).bind
      intro value front u hu hfront
      apply Consumes.next_peek hu.ended
      intro close rest htokens
      split
      · rename_i hclose
        apply Consumes.next_taken hu.ended htokens (by rw [hclose]; simp)
        intro v hv
        apply Consumes.pure hv.ended
        rw [hclose]
        refine ⟨.parenthesized hfront.phrase.balanced, hfront.graded.of_sublist hG ?_⟩
        exact (List.sublist_append_left _ _).cons _
      · exact .fail _
    · rename_i name hsymbol
      rw [hsymbol]
      apply Consumes.next_peek ht.ended
      intro following rest _
      split
      · exact call_read hG hcomparison name token.position ht.ended
      · apply (variable_read hG name ht.ended).mono
        rintro value _ ⟨rfl, hvalue⟩
        exact hG.read_single rfl fun _ => hvalue
    · exact .fail _
    · exact .fail _

theorem factor_read (hG : G.Sound env) (levels : Nat) (hs : Terminated s.symbols) :
    Consumes (Grammar.factor env levels) s G.Read := by
  induction levels generalizing s with
  | zero => exact .fail _
  | succ levels ih => exact .nested env.maxDepth (primary_read hG (fun _ ht => ih ht) hs)

/-- What a whole expression answers has the grade of its symbols. -/
theorem expression_graded (hG : G.Sound env) (hs : Terminated s.symbols)
    (hliteral : G.Literal s.symbols) {value : Decimal} {after : State}
    (h : expression env s = (.ok value, after)) : G.holds (G.weigh s.symbols) value := by
  rw [Grammar.expression] at h
  obtain ⟨given, t, hcomparison, hend⟩ := Eval.bind_eq_ok.mp h
  obtain ⟨front, hpassed, hread⟩ :=
    comparison_read hG (fun _ ht => factor_read hG env.maxDepth ht) hs given t hcomparison
  obtain ⟨_, u, -, hvalue⟩ := Eval.bind_eq_ok.mp hend
  cases hvalue
  refine hread.graded.of_sublist hG ?_ hliteral
  rw [State.symbols, hpassed.ahead, List.map_append]
  exact List.sublist_append_left _ _

end Factors

end DerivedTelemetry
