import DerivedTelemetry.Proofs.LazyArguments
import Mathlib.Data.Nat.PSub

/-!
# The count ahead and the calls

The arguments of a call are counted before any of them is read.  The count looks at
parentheses and commas alone, while the arguments are read by the grammar, so that the two
could come to different ends.  They do not.  Arguments that can be read one after another,
up to a parenthesis that closes them, are counted as many as they are, and the count stops
at that parenthesis.  A call that was told a count reads so many arguments and passes the
parenthesis where the count has stopped.  A call that takes another number of arguments
fails before it looks at any of them.
-/

namespace DerivedTelemetry

open ArgumentCount
open DerivedTelemetry.Derivation (Arguments separated)

/-! ### The counter of open parentheses -/

namespace ArgumentCount

/-- How many parentheses are open after a symbol.  There is no such number where one is
closed that was never opened. -/
def nestingAfter? (nesting : Nat) : Symbol → Option Nat
  | .openParen => some (nesting + 1)
  | .closeParen => nesting.ppred
  | _ => some nesting

/-- The count with a counter that every symbol moves unless the count ends at it.  There is
no result if the counter would have to fall below zero. -/
def counting (function : String) (position : Nat) :
    (nesting count : Nat) → (fresh : Bool) → List Token → Option Scan
  | _, _, _, [] => some (.error (.missingCallClose function position))
  | nesting, count, fresh, token :: rest =>
    match nesting, token.symbol with
    | 0, .closeParen =>
      some (if fresh && count != 0 then .error (.emptyArgument function position)
        else .ok (count, token :: rest))
    | 0, .comma =>
      if fresh then some (.error (.emptyArgument function position))
      else counting function position 0 count true rest
    | _, .finish => some (.error (.missingCallClose function position))
    | nesting, symbol => do
      let after ← nestingAfter? nesting symbol
      counting function position after (if fresh then count + 1 else count) false rest

/-- The counter does not fall below zero, on whatever tokens.  Within parentheses an argument
has always begun. -/
theorem counting_eq_scan (function : String) (position : Nat) (tokens : List Token)
    {nesting : Nat} (count : Nat) {fresh : Bool} (hbegun : nesting = 0 ∨ fresh = false) :
    counting function position nesting count fresh tokens =
      some (scan function position nesting count fresh tokens) := by
  induction tokens generalizing nesting count fresh with
  | nil => cases nesting <;> rfl
  | cons token rest ih =>
    cases nesting with
    | zero =>
      cases hsymbol : token.symbol <;> simp [counting, scan, hsymbol, nestingAfter?, ih]
      split <;> simp
    | succ nesting =>
      obtain rfl := hbegun.resolve_left (Nat.succ_ne_zero nesting)
      cases hsymbol : token.symbol <;> simp [counting, scan, hsymbol, nestingAfter?, ih]

end ArgumentCount

namespace Call

/-! ### Arguments that can be read -/

/-- One argument is read, with the comma before it: as an expression, which may be evaluated
or only checked, or as a quoted string. -/
inductive ReadsArgument (env : Environment) (levels : Nat) (function : String) (index : Nat) :
    State → State → Prop
  | expression {use : Use} {s after : State}
      (hread : ReadsOne (argument env levels) index use s after) :
      ReadsArgument env levels function index s after
  | text {s t after : State} {text : String} (hseparator : separator index s = (.ok (), t))
      (htext : literal function index t = (.ok text, after)) :
      ReadsArgument env levels function index s after

/-- So many arguments are read one after another, from an index on. -/
inductive ReadsArguments (env : Environment) (levels : Nat) (function : String) :
    (index count : Nat) → State → State → Prop
  | nil (index : Nat) (s : State) : ReadsArguments env levels function index 0 s s
  | cons {index count : Nat} {s t after : State}
      (hfirst : ReadsArgument env levels function index s t)
      (hothers : ReadsArguments env levels function (index + 1) count t after) :
      ReadsArguments env levels function index (count + 1) s after

/-- A call whose arguments begin at `s` and which ends at `after` has read so many of them,
and then the parenthesis with which `closing` begins. -/
def ReadsCall (env : Environment) (levels : Nat) (function : String) (count : Nat) (s : State)
    (closing : List Token) (after : State) : Prop :=
  ∃ token passed, ReadsArguments env levels function 0 count s passed ∧
    token.symbol = .closeParen ∧ passed.ahead = token :: after.ahead ∧
    closing = token :: after.ahead

variable {env : Environment} {levels index count : Nat} {function : String}
  {s passed after : State}

theorem ReadsArgument.passes (h : ReadsArgument env levels function index s after)
    (hs : Terminated s.symbols) :
    ∃ front argument, Passed s front after ∧
      front.map (·.symbol) = leading index ++ argument ∧ Phrase argument := by
  cases h with
  | expression hread =>
    obtain ⟨front, argument, hpassed, hsymbols, hphrase, -⟩ :=
      readsOne_read (argument_consumes env levels) hread hs
    exact ⟨front, argument, hpassed, hsymbols, hphrase⟩
  | text hseparator htext =>
    rename_i text
    obtain ⟨comma, hcomma, hleading⟩ := Consumes.separator index hs _ _ hseparator
    obtain ⟨front, hfront, hquoted⟩ := Consumes.literal function index hcomma.ended _ _ htext
    refine ⟨comma ++ front, [.quoted text], hcomma.trans hfront, ?_, .single _ rfl⟩
    rw [List.map_append, hleading, hquoted]

/-- Arguments that were read are phrases, with commas between them. -/
theorem ReadsArguments.passes (h : ReadsArguments env levels function index count s after)
    (hs : Terminated s.symbols) :
    ∃ front arguments, Passed s front after ∧ arguments.length = count ∧
      (∀ argument ∈ arguments, Phrase argument) ∧
      front.map (·.symbol) = joined index arguments := by
  induction h with
  | nil index s => exact ⟨[], [], .refl hs, rfl, List.forall_mem_nil _, rfl⟩
  | cons hfirst _ ih =>
    obtain ⟨front, argument, hfront, hsymbols, hphrase⟩ := hfirst.passes hs
    obtain ⟨back, others, hback, rfl, hphrases, hrest⟩ := ih hfront.ended
    refine ⟨front ++ back, argument :: others, hfront.trans hback, rfl,
      List.forall_mem_cons.mpr ⟨hphrase, hphrases⟩, ?_⟩
    rw [List.map_append, hsymbols, hrest, List.append_assoc]
    rfl

theorem ReadsArguments.terminated (h : ReadsArguments env levels function index count s after)
    (hs : Terminated s.symbols) : Terminated after.symbols := by
  obtain ⟨_, _, hpassed, -⟩ := h.passes hs
  exact hpassed.ended

/-- The count is of the arguments that are read, and stops at the parenthesis that is passed
behind them. -/
theorem ReadsArguments.ofTokens_eq (h : ReadsArguments env levels function 0 count s passed)
    (hs : Terminated s.symbols) (hclosing : Eval.expect .closeParen passed = (.ok (), after))
    (name : String) (position : Nat) :
    ∃ token, token.symbol = .closeParen ∧ passed.ahead = token :: after.ahead ∧
      ofTokens name position s.ahead = .ok (count, token :: after.ahead) := by
  obtain ⟨front, arguments, hpassed, rfl, hphrases, hsymbols⟩ := h.passes hs
  obtain ⟨token, htoken, hafter⟩ := expect_eq_ok hclosing hpassed.ended (by simp)
  have hahead : passed.ahead = token :: after.ahead := hafter.ahead
  refine ⟨token, htoken, hahead, ?_⟩
  rw [hpassed.ahead, hahead]
  exact ofTokens_eq_ok hphrases name position (hsymbols.trans (joined_zero arguments)) htoken

/-! ### Calls that succeed -/

theorem ReadsEach.readsArguments {uses : List Use}
    (h : ReadsEach (argument env levels) index uses s after) (function : String) :
    ReadsArguments env levels function index uses.length s after := by
  induction h with
  | nil index s => exact .nil index s
  | cons hfirst _ ih => exact .cons (.expression hfirst) ih

theorem readsArguments_of_values {values : List Decimal}
    (h : Call.values (argument env levels) index count s = (.ok values, after))
    (function : String) : ReadsArguments env levels function index count s after := by
  obtain ⟨heach, rfl⟩ := readsEach_of_values h
  have hreads := heach.readsArguments function
  rwa [List.length_map] at hreads

theorem readsArguments_of_lazyValue {strategy : Strategy} {value : Decimal}
    (h : lazyValue (argument env levels) strategy count s = (.ok value, after))
    (function : String) : ReadsArguments env levels function 0 count s after := by
  obtain ⟨taken, t, -, hcount, heach⟩ := steps_of_lazyValue h
  have hreads := heach.readsArguments function
  rwa [List.length_append, List.length_replicate, Nat.add_sub_cancel' hcount] at hreads

theorem readsArguments_of_signature {kinds : List ArgumentKind} {given : Call.Arguments}
    (h : signature (argument env levels) function index kinds s = (.ok given, after)) :
    ReadsArguments env levels function index kinds.length s after := by
  induction kinds generalizing index s given with
  | nil =>
    cases h
    exact .nil index _
  | cons kind kinds ih =>
    cases kind with
    | literal =>
      rw [signature] at h
      obtain ⟨_, t, hseparator, h⟩ := Eval.bind_eq_ok.mp h
      obtain ⟨text, u, htext, h⟩ := Eval.bind_eq_ok.mp h
      obtain ⟨others, v, hothers, h⟩ := Eval.bind_eq_ok.mp h
      cases h
      exact .cons (.text hseparator htext) (ih hothers)
    | number =>
      rw [signature] at h
      obtain ⟨_, t, hseparator, h⟩ := Eval.bind_eq_ok.mp h
      obtain ⟨value, u, hvalue, h⟩ := Eval.bind_eq_ok.mp h
      obtain ⟨others, v, hothers, h⟩ := Eval.bind_eq_ok.mp h
      cases h
      exact .cons (.expression (.evaluated hseparator hvalue)) (ih hothers)

theorem ahead_eq_of_consumes {p : Eval Decimal} {known : Decimal → Prop} {value : Decimal}
    (hp : Consumes p s fun value front => front = [] ∧ known value)
    (h : p s = (.ok value, after)) : after.ahead = s.ahead := by
  obtain ⟨front, hpassed, hfront, -⟩ := hp value after h
  rw [hpassed.ahead, List.map_eq_nil_iff.mp hfront, List.nil_append]

/-- A call that reads its arguments and passes the parenthesis behind them ends where the
count has stopped. -/
theorem ReadsArguments.readsCall {closed : State} {position counted : Nat}
    {closing : List Token} (h : ReadsArguments env levels function 0 count s passed)
    (hs : Terminated s.symbols) (hclosing : Eval.expect .closeParen passed = (.ok (), closed))
    (hafter : after.ahead = closed.ahead)
    (hcount : ofTokens function position s.ahead = .ok (counted, closing)) :
    count = counted ∧ ReadsCall env levels function counted s closing after := by
  obtain ⟨token, htoken, hahead, hscan⟩ := h.ofTokens_eq hs hclosing function position
  rw [hcount] at hscan
  cases hscan
  rw [← hafter] at hahead ⊢
  exact ⟨rfl, token, passed, h, htoken, hahead, rfl⟩

section Calls

variable {position counted : Nat} {closing : List Token} {value : Decimal}
variable (hs : Terminated s.symbols)
variable (hcount : ofTokens function position s.ahead = .ok (counted, closing))

include hs hcount

theorem numeric_reads {f : Math.NumericFunction}
    (h : numeric (argument env levels) f counted s = (.ok value, after)) :
    ReadsCall env levels function counted s closing after := by
  rw [numeric] at h
  obtain ⟨values, passed, hvalues, h⟩ := Eval.bind_eq_ok.mp h
  obtain ⟨_, closed, hclosing, h⟩ := Eval.bind_eq_ok.mp h
  have hreads := readsArguments_of_values hvalues function
  obtain ⟨_, -, hpassed⟩ := expect_eq_ok hclosing (hreads.terminated hs) (by simp)
  have hafter := ahead_eq_of_consumes (.whenLive_lift hpassed.ended _) h
  exact (hreads.readsCall hs hclosing hafter hcount).2

theorem lazy_reads {strategy : Strategy}
    (h : lazy (argument env levels) strategy counted s = (.ok value, after)) :
    ReadsCall env levels function counted s closing after := by
  cases hlive : s.live with
  | true =>
    obtain ⟨passed, hvalue, hclosing⟩ := lazy_eq_ok hlive h
    have hreads := readsArguments_of_lazyValue hvalue function
    exact (hreads.readsCall hs hclosing rfl hcount).2
  | false =>
    rw [lazy] at h
    change (if s.live = true then _ else values (argument env levels) 0 counted >>= fun _ =>
      Eval.expect .closeParen >>= fun _ => pure Decimal.zero : Eval Decimal) s = _ at h
    rw [if_neg (by simp [hlive])] at h
    obtain ⟨given, passed, hvalues, h⟩ := Eval.bind_eq_ok.mp h
    obtain ⟨_, closed, hclosing, h⟩ := Eval.bind_eq_ok.mp h
    cases h
    have hreads := readsArguments_of_values hvalues function
    exact (hreads.readsCall hs hclosing rfl hcount).2

/-- A statistical call reads what its signature says, so it succeeds only where so many
arguments were counted. -/
theorem statistical_reads {kinds : List ArgumentKind} {reduction : Statistics.Reduction}
    (h : statistical env (argument env levels) function kinds reduction s = (.ok value, after)) :
    kinds.length = counted ∧ ReadsCall env levels function counted s closing after := by
  rw [statistical] at h
  obtain ⟨given, passed, hgiven, h⟩ := Eval.bind_eq_ok.mp h
  obtain ⟨_, closed, hclosing, h⟩ := Eval.bind_eq_ok.mp h
  have hreads := readsArguments_of_signature hgiven
  obtain ⟨_, -, hpassed⟩ := expect_eq_ok hclosing (hreads.terminated hs) (by simp)
  cases htarget : target function given.literals with
  | error cause =>
    rw [htarget] at h
    cases h
  | ok found =>
    obtain ⟨metric, window⟩ := found
    rw [htarget] at h
    have hkeeps : Implementation.Keeps Grading.plain env 0 (.statistical kinds reduction) :=
      fun _ _ _ _ _ _ _ _ _ => trivial
    have hreduce := reduce_consumes hkeeps function metric window given.numbers hpassed.ended
    have hzero : ∀ grade, (∀ number ∈ given.numbers, Grading.plain.holds grade number) →
        Grading.plain.holds (0 + grade) Decimal.zero := fun _ _ => trivial
    have hafter := ahead_eq_of_consumes (.whenLive hpassed.ended hzero hreduce) h
    exact hreads.readsCall hs hclosing hafter hcount

end Calls

/-! ### Calls that are refused -/

/-- A call with a number of arguments that the function does not take fails in the place
where they begin.  Nothing has been asked of the reader of arguments. -/
theorem call_of_refused_count {name : String} {entry : Entry} {position : Nat}
    {opening : Token} {closing : List Token} (expression : Eval Decimal)
    (hentry : env.registry.lookup? name = some entry) (hopening : opening.symbol = .openParen)
    (hs : Terminated s.symbols)
    (hcount : ofTokens entry.name position s.ahead = .ok (count, closing))
    (hrefused : entry.arity.accepts count = false) :
    call env expression name position { s with ahead := opening :: s.ahead } =
      (.error (.fault (.argumentCount entry.name entry.arity count)),
        { s with info := s.info.addFunction entry.name }) := by
  have hahead : s.ahead ≠ [] := fun h => hs.ne_nil (List.map_eq_nil_iff.mpr h)
  let noted : State := { s with info := s.info.addFunction entry.name }
  have hopened : Eval.expect .openParen { noted with ahead := opening :: s.ahead } =
      (.ok (), noted) := by
    have hadvance : Eval.advance { noted with ahead := opening :: s.ahead } =
        (.ok opening, noted) := Eval.advance_of_ahead rfl hahead
    rw [Eval.expect, Eval.bind_of_ok hadvance, if_pos hopening]
    rfl
  rw [call, hentry]
  change invoke env expression entry position { noted with ahead := opening :: s.ahead } = _
  have hstate : Eval.get noted = (.ok noted, noted) := rfl
  rw [invoke, Eval.bind_of_ok hopened, Eval.bind_of_ok hstate]
  simp only [noted, hcount, hrefused]
  rfl

/-! ### The count and the calls -/

/-- The count ahead agrees with the calls that `opening` may belong to, where `s` stands
behind it. -/
structure CountAgrees (env : Environment) (levels : Nat) (function : String) (position : Nat)
    (opening : Token) (s : State) : Prop where
  /-- Arguments that the grammar derives are counted, whatever comes of reading them. -/
  written : ∀ (arguments : Derivation.Arguments) (inner rest : List Token) (closing : Token),
    s.ahead = inner ++ closing :: rest → inner.map (·.symbol) = separated arguments.yields →
    closing.symbol = .closeParen →
    ofTokens function position s.ahead = .ok (arguments.quotes.length, closing :: rest)
  /-- Arguments that can be read are counted, and the count stops at the parenthesis that is
  taken behind them. -/
  read : ∀ count passed after, ReadsArguments env levels function 0 count s passed →
    Eval.expect .closeParen passed = (.ok (), after) →
    ∃ closing, closing.symbol = .closeParen ∧ passed.ahead = closing :: after.ahead ∧
      ofTokens function position s.ahead = .ok (count, closing :: after.ahead)
  /-- A numeric call reads what was counted. -/
  numeric : ∀ count closing f value after,
    ofTokens function position s.ahead = .ok (count, closing) →
    Call.numeric (argument env levels) f count s = (.ok value, after) →
    ReadsCall env levels function count s closing after
  /-- A lazy call reads what was counted, whatever its strategy leaves over. -/
  lazy : ∀ count closing strategy value after,
    ofTokens function position s.ahead = .ok (count, closing) →
    Call.lazy (argument env levels) strategy count s = (.ok value, after) →
    ReadsCall env levels function count s closing after
  /-- What a statistical call reads by its signature is what was counted. -/
  statistical : ∀ count closing kinds reduction value after,
    ofTokens function position s.ahead = .ok (count, closing) →
    Call.statistical env (argument env levels) function kinds reduction s =
      (.ok value, after) →
    kinds.length = count ∧ ReadsCall env levels function count s closing after
  /-- On no tokens does the counter of open parentheses fall below zero. -/
  counter : ∀ tokens,
    counting function position 0 0 true tokens = some (ofTokens function position tokens)
  /-- A call that does not take what was counted fails, whatever would read its arguments: no
  name in them is noted and no sample requested. -/
  refused : ∀ (expression : Eval Decimal) name entry count closing,
    env.registry.lookup? name = some entry →
    ofTokens entry.name position s.ahead = .ok (count, closing) →
    entry.arity.accepts count = false →
    call env expression name position { s with ahead := opening :: s.ahead } =
      (.error (.fault (.argumentCount entry.name entry.arity count)),
        { s with info := s.info.addFunction entry.name })

/-- Behind every opening parenthesis of a text the count ahead agrees with the calls. -/
theorem count_ahead_agrees {chars : List Char} {result front : List Token} {opening : Token}
    {s : State} (env : Environment) (levels : Nat) (function : String) (position : Nat)
    (htokens : Lexer.tokens chars = .ok result) (hplace : result = front ++ opening :: s.ahead)
    (hopening : opening.symbol = .openParen) :
    CountAgrees env levels function position opening s := by
  have hrest : Terminated (opening.symbol :: s.symbols) := by
    have hwhole := Lexer.terminated_tokens htokens
    rw [hplace, List.map_append] at hwhole
    exact hwhole.behind (List.cons_ne_nil _ _)
  have hs : Terminated s.symbols := hrest.tail (by simp [hopening])
  exact {
    written := by
      intro arguments inner rest closing hahead hinner hclosing
      rw [hahead, ofTokens_eq_ok (phrase_arguments arguments) function position hinner hclosing,
        length_yields]
    read := fun _ _ _ hreads hclosing => hreads.ofTokens_eq hs hclosing function position
    numeric := fun _ _ _ _ _ hcount hcall => numeric_reads hs hcount hcall
    lazy := fun _ _ _ _ _ hcount hcall => lazy_reads hs hcount hcall
    statistical := fun _ _ _ _ _ _ hcount hcall => statistical_reads hs hcount hcall
    counter := fun tokens => counting_eq_scan function position tokens 0 (.inl rfl)
    refused := fun expression _ _ _ _ hentry hcount hrefused =>
      call_of_refused_count expression hentry hopening hs hcount hrefused }

/-- A call in a call, with a group in it: the count of the outer one goes past the commas and
the parentheses of the inner one, and stops where the outer one ends. -/
theorem count_ahead_agrees_around_call :
    let least : Math.NumericFunction := fun values => .ok (values.headD .zero)
    let entry : Entry := ⟨"least", .math, "", .numeric (.exact 2) least⟩
    let env : Environment :=
      ⟨Registry.empty.register entry, fun _ => none, none, emptyStore, 10, 64⟩
    let number (value : Nat) : Symbol := .number (Decimal.ofNat value)
    let opening : Token := ⟨.openParen, 5⟩
    let ahead : List Token :=
      [⟨.name "least", 6⟩, ⟨.openParen, 11⟩, ⟨number 1, 12⟩, ⟨.comma, 13⟩, ⟨.openParen, 15⟩,
        ⟨number 2, 16⟩, ⟨.closeParen, 17⟩, ⟨.closeParen, 18⟩, ⟨.comma, 19⟩, ⟨number 3, 21⟩,
        ⟨.closeParen, 22⟩, ⟨.plus, 24⟩, ⟨number 4, 26⟩, ⟨.finish, 27⟩]
    let s : State := ⟨ahead, true, 0, .empty, .empty⟩
    let ended := Call.numeric (argument env 9) least 2 s
    Lexer.tokens "least(least(1, (2)), 3) + 4".toList =
        .ok ([⟨.name "least", 0⟩] ++ opening :: ahead) ∧
      ended.1 = .ok Decimal.one ∧
      ofTokens "least" 0 ahead = .ok (2, ⟨.closeParen, 22⟩ :: ended.2.ahead) ∧
      ReadsCall env 9 "least" 2 s (⟨.closeParen, 22⟩ :: ended.2.ahead) ended.2 := by
  intro least entry env number opening ahead s ended
  have htokens : Lexer.tokens "least(least(1, (2)), 3) + 4".toList =
      .ok ([⟨.name "least", 0⟩] ++ opening :: ahead) := by decide +kernel
  have hvalue : ended.1 = .ok Decimal.one := by decide +kernel
  have hcount : ofTokens "least" 0 ahead = .ok (2, ⟨.closeParen, 22⟩ :: ended.2.ahead) := by
    decide +kernel
  have hagrees := count_ahead_agrees env 9 "least" 0 htokens (s := s) rfl rfl
  exact ⟨htokens, hvalue, hcount,
    hagrees.numeric 2 _ least Decimal.one ended.2 hcount (Prod.ext hvalue rfl)⟩

end Call

end DerivedTelemetry
