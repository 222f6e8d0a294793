import DerivedTelemetry.Evaluation.Grammar
import DerivedTelemetry.Proofs.Expression.Respelling
import DerivedTelemetry.Proofs.Function.BenignEntries

/-!
# Two runs side by side

Two runs over the same tokens take the same steps, as long as both go on.  What they have
in common is stated once, as a coupling: which states correspond, which failures do, and
which failures the second run need not share.  Every production of the grammar keeps two
runs together, provided that the few steps do in which the runs differ.

The tokens may also be spelled differently in the two runs.  Then faults correspond that are
of one kind, since what they say of the text differs.
-/

namespace DerivedTelemetry

/-- How two runs over tokens that are spelled alike are compared. -/
structure Coupling where
  /-- The states that correspond. -/
  states : State → State → Prop
  /-- The failures that correspond, with the states after them. -/
  agree : Failure → State → Failure → State → Prop
  /-- The failures of the first run in which the second one may go on. -/
  alone : Failure → Prop
  /-- Whether both runs compute the same values. -/
  exact : Prop
  /-- Whether a function may only fail because of its values. -/
  strict : Prop
  /-- Whether both runs read the very same tokens. -/
  verbatim : Prop
  ahead : ∀ {s t}, states s t → Respelled s.ahead t.ahead
  literally : verbatim → ∀ {s t}, states s t → s.ahead = t.ahead
  moved : ∀ {s t}, states s t → ∀ {front back}, Respelled front back →
    (verbatim → front = back) → states { s with ahead := front } { t with ahead := back }
  noted : ∀ {s t}, states s t → ∀ f : ExpressionInfo → ExpressionInfo,
    states { s with info := f s.info } { t with info := f t.info }
  refused : ∀ {s t} {fault other : Fault}, states s t → fault.isConfiguration = true →
    fault.kind = other.kind → (verbatim → fault = other) →
    agree (.fault fault) s (.fault other) t

namespace Coupling

variable (K : Coupling)

/-- Values that are the same if both runs compute the same. -/
def Same {α : Type} (v w : α) : Prop := K.exact → v = w

/-- Two ends correspond: the second run succeeds if the first one does, with values that are
related, and otherwise fails like it, unless the first run failed alone. -/
def Ends {α β : Type} (related : α → β → Prop) :
    Except Failure α × State → Except Failure β × State → Prop
  | (.ok v, s), (.ok w, t) => related v w ∧ K.states s t
  | (.ok _, _), (.error _, _) => False
  | (.error e, _), (.ok _, _) => K.alone e
  | (.error e, s), (.error f, t) => K.alone e ∨ K.agree e s f t

end Coupling

/-- From corresponding states two runs come to corresponding ends. -/
def Coupled {α β : Type} (K : Coupling) (related : α → β → Prop) (p : Eval α) (q : Eval β) :
    Prop :=
  ∀ s t, K.states s t → K.Ends related (p s) (q t)

namespace Coupled

variable {K : Coupling} {α α' β β' : Type} {related : α → β → Prop} {after : α' → β' → Prop}

theorem pure {v : α} {w : β} (h : related v w) :
    Coupled K related (Pure.pure v) (Pure.pure w) := fun _ _ hstates => ⟨h, hstates⟩

/-- What one run says of its text, the other one says of its own. -/
theorem failAlike {fault other : Fault} (h : fault.isConfiguration = true)
    (hkind : fault.kind = other.kind) (hsame : K.verbatim → fault = other) :
    Coupled K related (Eval.fail fault) (Eval.fail other) :=
  fun _ _ hstates => .inr (K.refused hstates h hkind hsame)

theorem fail {fault : Fault} (h : fault.isConfiguration = true) :
    Coupled K related (Eval.fail fault) (Eval.fail fault) := failAlike h rfl fun _ => rfl

theorem failParseAlike {cause other : ParseFault} (hsame : K.verbatim → cause = other) :
    Coupled K related (Eval.failParse cause) (Eval.failParse other) :=
  failAlike rfl rfl fun hverbatim => congrArg Fault.parse (hsame hverbatim)

theorem failParse (cause : ParseFault) :
    Coupled K related (Eval.failParse cause) (Eval.failParse cause) := fail rfl

theorem bind {p : Eval α} {q : Eval β} {f : α → Eval α'} {g : β → Eval β'}
    (h : Coupled K related p q) (hnext : ∀ v w, related v w → Coupled K after (f v) (g w)) :
    Coupled K after (p >>= f) (q >>= g) := by
  intro s t hstates
  have hends := h s t hstates
  rcases hp : p s with ⟨failure | v, s'⟩ <;> rcases hq : q t with ⟨other | w, t'⟩ <;>
    rw [hp, hq] at hends
  · rw [Eval.bind_of_error hp, Eval.bind_of_error hq]
    exact hends
  · -- The first run has failed alone, so that it does not matter how the second one ends.
    rw [Eval.bind_of_error hp, Eval.bind_of_ok hq]
    rcases g w t' with ⟨other | last, t''⟩
    · exact .inl hends
    · exact hends
  · exact absurd hends not_false
  · rw [Eval.bind_of_ok hp, Eval.bind_of_ok hq]
    exact hnext v w hends.1 s' t' hends.2

theorem mono {other : α → β → Prop} {p : Eval α} {q : Eval β} (h : Coupled K related p q)
    (hle : ∀ v w, related v w → other v w) : Coupled K other p q := by
  intro s t hstates
  have hends := h s t hstates
  rcases hp : p s with ⟨failure | v, s'⟩ <;> rcases hq : q t with ⟨f | w, t'⟩ <;>
    rw [hp, hq] at hends
  · exact hends
  · exact hends
  · exact hends
  · exact ⟨hle v w hends.1, hends.2⟩

theorem next_peek {f : Token → Eval α} {g : Token → Eval β}
    (h : ∀ token other, token.symbol.Resembles other.symbol → (K.verbatim → token = other) →
      Coupled K related (f token) (g other)) :
    Coupled K related (Eval.peek >>= f) (Eval.peek >>= g) := by
  intro s t hstates
  change K.Ends related (f (s.ahead.headD Eval.endToken) s) (g (t.ahead.headD Eval.endToken) t)
  refine h _ _ (K.ahead hstates).next_resembles ?_ s t hstates
  intro hverbatim
  rw [K.literally hverbatim hstates]

/-- Taking a token.  If it is a name that is spelled differently, a parenthesis opens
behind it. -/
theorem next_advance {f : Token → Eval α} {g : Token → Eval β}
    (hsame : ∀ token other, token.symbol = other.symbol → (K.verbatim → token = other) →
      Coupled K related (f token) (g other))
    (hcalled : ∀ token other name typed, token.symbol = .name name →
      other.symbol = .name typed → nameKey name = nameKey typed → (K.verbatim → token = other) →
      ∀ s t, K.states s t → (s.ahead.headD Eval.endToken).symbol = .openParen →
        K.Ends related (f token s) (g other t)) :
    Coupled K related (Eval.advance >>= f) (Eval.advance >>= g) := by
  intro s t hstates
  have hahead := K.ahead hstates
  have hliteral : K.verbatim → s.ahead = t.ahead := fun hverbatim => K.literally hverbatim hstates
  have hmoved := K.moved hstates hahead.passed fun hverbatim =>
    congrArg Eval.passed (hliteral hverbatim)
  have htokens : K.verbatim →
      s.ahead.headD Eval.endToken = t.ahead.headD Eval.endToken := by
    intro hverbatim
    rw [hliteral hverbatim]
  change K.Ends related (f (s.ahead.headD Eval.endToken) { s with ahead := Eval.passed s.ahead })
    (g (t.ahead.headD Eval.endToken) { t with ahead := Eval.passed t.ahead })
  rcases hahead.next with hsymbol | ⟨name, typed, hname, htyped, hkey, hopen⟩
  · exact hsame _ _ hsymbol htokens _ _ hmoved
  · exact hcalled _ _ name typed hname htyped hkey htokens _ _ hmoved hopen

/-- A token is taken that has been looked at before. -/
theorem next_taken {p : Eval α} {q : Eval β} (h : Coupled K related p q) :
    Coupled K related (Eval.advance >>= fun _ => p) (Eval.advance >>= fun _ => q) := by
  apply next_advance
  · exact fun _ _ _ _ => h
  · exact fun _ _ _ _ _ _ _ _ s t hstates _ => h s t hstates

theorem next_get {f : State → Eval α} {g : State → Eval β}
    (h : ∀ s t, K.states s t → Coupled K related (f s) (g t)) :
    Coupled K related (Eval.get >>= f) (Eval.get >>= g) :=
  fun s t hstates => h s t hstates s t hstates

theorem expect {wanted : Symbol} (hwanted : ∀ name, wanted ≠ .name name) :
    Coupled K (fun _ _ => True) (Eval.expect wanted) (Eval.expect wanted) := by
  rw [Eval.expect]
  apply next_advance
  · intro token other hsymbol hsame
    rw [← hsymbol]
    split
    · exact pure trivial
    · exact failParseAlike fun hverbatim => by rw [hsame hverbatim]
  · intro token other name typed hname htyped _ hsame s t hstates _
    rw [if_neg (by rw [hname]; exact (hwanted name).symm),
      if_neg (by rw [htyped]; exact (hwanted typed).symm)]
    exact failParseAlike (fun hverbatim => by rw [hsame hverbatim]) s t hstates

theorem expectOpen : Coupled K (fun _ _ => True) (Eval.expect .openParen)
    (Eval.expect .openParen) := expect (by simp)

theorem expectClose : Coupled K (fun _ _ => True) (Eval.expect .closeParen)
    (Eval.expect .closeParen) := expect (by simp)

theorem expectEnd : Coupled K (fun _ _ => True) Eval.expectEnd Eval.expectEnd := by
  rw [Eval.expectEnd]
  apply next_peek
  rintro token other (hsymbol | ⟨name, typed, hname, htyped⟩) hsame
  · rw [← hsymbol]
    split
    · exact pure trivial
    · exact failParseAlike fun hverbatim => by rw [hsame hverbatim]
    · exact failParseAlike fun hverbatim => by rw [hsame hverbatim]
  · rw [hname, htyped]
    refine failParseAlike fun hverbatim => ?_
    rw [← hname, ← htyped, hsame hverbatim]

theorem noteFunction (name : String) :
    Coupled K (fun _ _ => True) (Eval.noteFunction name) (Eval.noteFunction name) :=
  fun _ _ hstates => ⟨trivial, K.noted hstates (·.addFunction name)⟩

/-- A run that fails alone need not be followed. -/
theorem alone {fault : Fault} (h : K.alone (.fault fault)) (q : Eval β) :
    Coupled K related (Eval.fail fault) q := by
  intro s t _
  rcases q t with ⟨f | w, t'⟩
  · exact .inl h
  · exact h

/-- A limit on the nesting keeps two runs together that agree on how many factors are
open. -/
theorem nested
    (hdepth : ∀ {s t}, K.states s t → s.depth = t.depth)
    (hstates : ∀ {s t}, K.states s t → ∀ depth,
      K.states { s with depth := depth } { t with depth := depth })
    (hagree : ∀ {e s f t}, K.agree e s f t → ∀ m n,
      K.agree e { s with depth := m } f { t with depth := n })
    (limit : Nat) {p : Eval α} {q : Eval β} (hp : Coupled K related p q) :
    Coupled K related (Eval.nested limit p) (Eval.nested limit q) := by
  intro s t h
  have hsame := hdepth h
  by_cases hfull : limit ≤ s.depth
  · rw [Eval.nested_of_full p hfull, Eval.nested_of_full q (hsame ▸ hfull)]
    exact .inr (K.refused h rfl rfl fun _ => rfl)
  · have hopen : s.depth < limit := Nat.lt_of_not_le hfull
    have hends := hp _ _ (hstates h (s.depth + 1))
    rw [Eval.nested_of_open p hopen, Eval.nested_of_open q (hsame ▸ hopen), ← hsame]
    rcases hfirst : p { s with depth := s.depth + 1 } with ⟨e | v, s'⟩ <;>
      rcases hsecond : q { t with depth := s.depth + 1 } with ⟨f | w, t'⟩ <;>
      rw [hfirst, hsecond] at hends
    · exact hends.imp_right fun h => hagree h _ _
    · exact hends
    · exact hends
    · refine ⟨hends.1, ?_⟩
      dsimp only
      rw [← hdepth hends.2]
      exact hstates hends.2 _

end Coupled

open Grammar

/-- The steps inside a factor in which two runs may differ, and which have to keep them
together. -/
structure Coupling.CarriesPhrases (K : Coupling) (first second : Environment) : Prop where
  registry : first.registry = second.registry
  precision : K.exact → first.precision = second.precision
  benign : K.strict → first.registry.Benign
  computed : ∀ {a b : Except Fault Decimal}, K.Same a b → (K.strict → Momentary a) →
    Coupled K K.Same (Eval.whenLive (.lift a)) (Eval.whenLive (.lift b))
  named : ∀ name, Coupled K K.Same (variableValue first name) (variableValue second name)
  lazy : ∀ {p q : Eval Decimal}, Coupled K K.Same p q → ∀ strategy count,
    (K.strict → strategy.Benign count 0) →
    Coupled K K.Same (Call.lazy p strategy count) (Call.lazy q strategy count)
  reduced : ∀ (function metric : String) (window : Window) (reduction : Statistics.Reduction)
    {a b : List Decimal}, K.Same a b → (K.strict → ∀ series, Momentary (reduction series a)) →
    Coupled K K.Same (Eval.whenLive (Call.reduce first function metric window reduction a))
      (Eval.whenLive (Call.reduce second function metric window reduction b))

/-- The same for the factors themselves, where both runs open as many of them. -/
structure Coupling.Carries (K : Coupling) (first second : Environment) : Prop
    extends K.CarriesPhrases first second where
  maxDepth : first.maxDepth = second.maxDepth
  nested : ∀ {p q : Eval Decimal}, Coupled K K.Same p q →
    Coupled K K.Same (Eval.nested first.maxDepth p) (Eval.nested second.maxDepth q)

variable {K : Coupling} {first second : Environment} {p q : Eval Decimal}

/-! ### Calls -/

theorem separator_coupled (index : Nat) :
    Coupled K (fun _ _ => True) (Call.separator index) (Call.separator index) := by
  rw [Call.separator]
  split
  · exact .pure trivial
  · exact .expect (by simp)

theorem values_coupled (hp : Coupled K K.Same p q) (index count : Nat) :
    Coupled K (fun v w => K.Same v w ∧ v.length = count) (Call.values p index count)
      (Call.values q index count) := by
  induction count generalizing index with
  | zero => exact .pure ⟨fun _ => rfl, rfl⟩
  | succ count ih =>
    rw [Call.values, Call.values]
    apply (separator_coupled index).bind
    intro _ _ _
    apply hp.bind
    intro v w hfirst
    apply (ih (index + 1)).bind
    rintro vs ws ⟨hothers, hlength⟩
    apply Coupled.pure
    refine ⟨fun hexact => ?_, congrArg (· + 1) hlength⟩
    rw [hfirst hexact, hothers hexact]

theorem literal_coupled (function : String) (index : Nat) :
    Coupled K Eq (Call.literal function index) (Call.literal function index) := by
  rw [Call.literal]
  apply Coupled.next_advance
  · intro token other hsymbol hsame
    rw [← hsymbol]
    split
    · exact .pure rfl
    · exact .failParseAlike fun hverbatim => by rw [hsame hverbatim]
  · intro token other name typed hname htyped _ hsame s t hstates _
    rw [hname, htyped]
    refine Coupled.failParseAlike (fun hverbatim => ?_) s t hstates
    rw [← hname, ← htyped, hsame hverbatim]

/-- The quoted arguments are the same in both runs, whatever the numbers are. -/
theorem signature_coupled (hp : Coupled K K.Same p q) (function : String)
    (kinds : List ArgumentKind) (index : Nat) :
    Coupled K (fun v w => v.literals = w.literals ∧ K.Same v.numbers w.numbers ∧
        v.numbers.length = kinds.count .number)
      (Call.signature p function index kinds) (Call.signature q function index kinds) := by
  induction kinds generalizing index with
  | nil => exact .pure ⟨rfl, fun _ => rfl, rfl⟩
  | cons kind kinds ih =>
    cases kind with
    | literal =>
      rw [Call.signature, Call.signature]
      apply (separator_coupled index).bind
      intro _ _ _
      apply (literal_coupled function index).bind
      rintro text _ rfl
      apply (ih (index + 1)).bind
      rintro v w ⟨hliterals, hnumbers, hlength⟩
      refine .pure ⟨congrArg (text :: ·) hliterals, hnumbers, ?_⟩
      rw [List.count_cons_of_ne (by decide)]
      exact hlength
    | number =>
      rw [Call.signature, Call.signature]
      apply (separator_coupled index).bind
      intro _ _ _
      apply hp.bind
      intro v w hfirst
      apply (ih (index + 1)).bind
      rintro vs ws ⟨hliterals, hnumbers, hlength⟩
      refine .pure ⟨hliterals, fun hexact => ?_, ?_⟩
      · change v :: vs.numbers = w :: ws.numbers
        rw [hfirst hexact, hnumbers hexact]
      · rw [List.count_cons_self]
        exact congrArg (· + 1) hlength

section Calls

variable (hcarries : K.CarriesPhrases first second)

include hcarries

theorem numeric_coupled (hp : Coupled K K.Same p q) {function : Math.NumericFunction}
    {count : Nat} (hbenign : K.strict → ∀ arguments : List Decimal, arguments.length = count →
      Momentary (function arguments)) :
    Coupled K K.Same (Call.numeric p function count) (Call.numeric q function count) := by
  rw [Call.numeric, Call.numeric]
  apply (values_coupled hp 0 count).bind
  rintro v w ⟨hsame, hlength⟩
  apply Coupled.expectClose.bind
  intro _ _ _
  exact hcarries.computed (fun hexact => congrArg function (hsame hexact))
    fun hstrict => hbenign hstrict v hlength

theorem statistical_coupled (hp : Coupled K K.Same p q) (function : String)
    {kinds : List ArgumentKind} {reduction : Statistics.Reduction}
    (hbenign : K.strict → Implementation.Benign (.statistical kinds reduction)) :
    Coupled K K.Same (Call.statistical first p function kinds reduction)
      (Call.statistical second q function kinds reduction) := by
  rw [Call.statistical, Call.statistical]
  apply (signature_coupled hp function kinds 0).bind
  rintro v w ⟨hliterals, hnumbers, hlength⟩
  apply Coupled.expectClose.bind
  intro _ _ _
  rw [hliterals]
  split
  · exact .failParse _
  · exact hcarries.reduced _ _ _ reduction hnumbers
      fun hstrict series => hbenign hstrict series v.numbers hlength

theorem invoke_coupled (hp : Coupled K K.Same p q) {entry : Entry}
    (hbenign : K.strict → entry.implementation.Benign) {position place : Nat}
    (hplace : K.verbatim → position = place) :
    Coupled K K.Same (Call.invoke first p entry position)
      (Call.invoke second q entry place) := by
  rw [Call.invoke, Call.invoke]
  apply Coupled.expectOpen.bind
  intro _ _ _
  apply Coupled.next_get
  intro s t hstates
  have hcounts : ArgumentCount.SameCount
      (ArgumentCount.ofTokens entry.name position s.ahead)
      (ArgumentCount.ofTokens entry.name place t.ahead) :=
    ArgumentCount.scan_respelled (K.ahead hstates) entry.name position place 0 0 true
  have hscans : K.verbatim → ArgumentCount.ofTokens entry.name position s.ahead =
      ArgumentCount.ofTokens entry.name place t.ahead := by
    intro hverbatim
    rw [hplace hverbatim, K.literally hverbatim hstates]
  rcases hscan : ArgumentCount.ofTokens entry.name position s.ahead
      with cause | ⟨count, closing⟩ <;>
    rcases hother : ArgumentCount.ofTokens entry.name place t.ahead
      with other | ⟨others, stop⟩ <;>
    rw [hscan, hother] at hcounts hscans
  · exact .failParseAlike fun hverbatim => Except.error.inj (hscans hverbatim)
  · exact hcounts.elim
  · exact hcounts.elim
  · obtain rfl : count = others := hcounts
    dsimp only
    split
    · rename_i haccepts
      rw [Entry.arity] at haccepts
      cases himplementation : entry.implementation with
      | numeric arity function =>
        rw [himplementation] at hbenign haccepts
        exact numeric_coupled hcarries hp fun hstrict arguments hlength =>
          hbenign hstrict arguments (hlength ▸ haccepts)
      | lazy arity strategy =>
        rw [himplementation] at hbenign haccepts
        exact hcarries.lazy hp strategy count fun hstrict => hbenign hstrict count haccepts
      | statistical kinds reduction =>
        rw [himplementation] at hbenign
        exact statistical_coupled hcarries hp entry.name hbenign
    · exact .fail rfl

/-- A function may be called by two spellings of its name. -/
theorem call_coupled (hp : Coupled K K.Same p q) {name typed : String}
    (hkey : nameKey name = nameKey typed) (hname : K.verbatim → name = typed)
    {position place : Nat} (hplace : K.verbatim → position = place) :
    Coupled K K.Same (Call.call first p name position) (Call.call second q typed place) := by
  rw [Call.call, Call.call, ← hcarries.registry, ← first.registry.lookup?_congr hkey]
  cases hentry : first.registry.lookup? name with
  | none =>
    exact .failAlike rfl rfl fun hverbatim => congrArg Fault.unknownFunction (hname hverbatim)
  | some entry =>
    apply (Coupled.noteFunction entry.name).bind
    intro _ _ _
    exact invoke_coupled hcarries hp
      (fun hstrict => (hcarries.benign hstrict).of_lookup? hentry) hplace

end Calls

/-! ### The grammar -/

/-- The operators of two levels are the same symbols, and compute the same. -/
def AlikeOperators (K : Coupling) (operators others : Operators) : Prop :=
  ∀ {symbol other : Symbol}, symbol.Resembles other →
    Option.Rel (fun f g : Decimal → Decimal → Except Fault Decimal =>
      (∀ a b, Momentary (f a b)) ∧ (K.exact → f = g)) (operators symbol) (others other)

theorem alike_productOperators (hprecision : K.exact → first.precision = second.precision) :
    AlikeOperators K (productOperators first) (productOperators second) := by
  rintro symbol other (rfl | ⟨name, typed, rfl, rfl⟩)
  · cases symbol with
    | star => exact .some ⟨Checked.momentary_mul, fun _ => rfl⟩
    | slash =>
      refine .some ⟨fun a b => Checked.momentary_div a b _, fun hexact => ?_⟩
      rw [hprecision hexact]
    | _ => exact .none
  · exact .none

theorem alike_sumOperators : AlikeOperators K sumOperators sumOperators := by
  rintro symbol other (rfl | ⟨name, typed, rfl, rfl⟩)
  · cases symbol with
    | plus => exact .some ⟨Checked.momentary_add, fun _ => rfl⟩
    | minus => exact .some ⟨Checked.momentary_sub, fun _ => rfl⟩
    | _ => exact .none
  · exact .none

section Grammar

variable (hcarries : K.CarriesPhrases first second)

include hcarries

theorem whenLive_coupled {v w : Decimal} (h : K.Same v w) :
    Coupled K K.Same (Eval.whenLive (pure v)) (Eval.whenLive (pure w)) :=
  hcarries.computed (a := .ok v) (b := .ok w) (fun hexact => congrArg Except.ok (h hexact))
    fun _ => .ok v

theorem chainTail_coupled {operators others : Operators}
    (halike : AlikeOperators K operators others) (hp : Coupled K K.Same p q) (fuel : Nat)
    {v w : Decimal} (h : K.Same v w) :
    Coupled K K.Same (chainTail operators p fuel v) (chainTail others q fuel w) := by
  induction fuel generalizing v w with
  | zero => exact .pure h
  | succ fuel ih =>
    rw [chainTail, chainTail]
    apply Coupled.next_peek
    intro token other hresembles _
    have hsymbol := halike hresembles
    cases hf : operators token.symbol with
    | none =>
      cases hg : others other.symbol with
      | none => exact .pure h
      | some g => rw [hf, hg] at hsymbol; cases hsymbol
    | some f =>
      cases hg : others other.symbol with
      | none => rw [hf, hg] at hsymbol; cases hsymbol
      | some g =>
        rw [hf, hg] at hsymbol
        obtain ⟨hmomentary, hexactOperators⟩ := Option.rel_some_some.mp hsymbol
        apply Coupled.next_taken
        apply hp.bind
        intro a b hright
        have hresult : K.Same (f v a) (g w b) := by
          intro hexact
          rw [hexactOperators hexact, h hexact, hright hexact]
        apply (hcarries.computed hresult fun _ => hmomentary v a).bind
        intro x y hnext
        exact ih hnext

theorem chain_coupled {operators others : Operators}
    (halike : AlikeOperators K operators others) (hp : Coupled K K.Same p q) :
    Coupled K K.Same (chain operators p) (chain others q) := by
  rw [chain, chain]
  apply hp.bind
  intro v w h
  apply Coupled.next_get
  intro s t hstates
  rw [(K.ahead hstates).length_eq]
  exact chainTail_coupled hcarries halike hp _ h

theorem comparison_coupled (hp : Coupled K K.Same p q) :
    Coupled K K.Same (comparison first p) (comparison second q) := by
  have hsum : Coupled K K.Same (sum first p) (sum second q) :=
    chain_coupled hcarries alike_sumOperators
      (chain_coupled hcarries (alike_productOperators hcarries.precision) hp)
  rw [comparison, comparison]
  apply hsum.bind
  intro a b hleft
  apply Coupled.next_peek
  intro token other hresembles _
  dsimp only
  rw [← hresembles.isComparison_eq]
  by_cases hcomparison : token.symbol.isComparison = true
  · have hsymbol : token.symbol = other.symbol := by
      rcases hresembles with hsame | ⟨name, typed, hname, -⟩
      · exact hsame
      · rw [hname] at hcomparison
        cases hcomparison
    rw [if_pos hcomparison, if_pos hcomparison]
    apply Coupled.next_taken
    apply hsum.bind
    intro c d hright
    apply Coupled.next_peek
    intro following later hfollowing hsame
    rw [← hfollowing.isComparison_eq]
    split
    · exact .failParseAlike fun hverbatim => by rw [hsame hverbatim]
    · apply whenLive_coupled hcarries
      intro hexact
      rw [hleft hexact, hright hexact, hsymbol]
  · rw [if_neg hcomparison, if_neg hcomparison]
    exact .pure hleft

theorem group_coupled (hp : Coupled K K.Same p q) {position place : Nat}
    (hplace : K.verbatim → position = place) :
    Coupled K K.Same
      (comparison first p >>= fun value => Eval.peek >>= fun close =>
        match close.symbol with
        | .closeParen => Eval.advance >>= fun _ => pure value
        | _ => .failParse (.missingClose position))
      (comparison second q >>= fun value => Eval.peek >>= fun close =>
        match close.symbol with
        | .closeParen => Eval.advance >>= fun _ => pure value
        | _ => .failParse (.missingClose place)) := by
  apply (comparison_coupled hcarries hp).bind
  intro v w h
  have hmissing : Coupled K K.Same (Eval.failParse (.missingClose position) : Eval Decimal)
      (Eval.failParse (.missingClose place) : Eval Decimal) :=
    .failParseAlike fun hverbatim => congrArg ParseFault.missingClose (hplace hverbatim)
  apply Coupled.next_peek
  rintro close other (hsymbol | ⟨name, typed, hname, htyped⟩) _
  · rw [← hsymbol]
    split
    · exact .next_taken (.pure h)
    · exact hmissing
  · rw [hname, htyped]
    exact hmissing

/-- A name is that of a function if a parenthesis opens behind it. -/
theorem name_coupled (hp : Coupled K K.Same p q) (name : String) {position place : Nat}
    (hplace : K.verbatim → position = place) :
    Coupled K K.Same
      (Eval.peek >>= fun next =>
        match next.symbol with
        | .openParen => Call.call first p name position
        | _ => variableValue first name)
      (Eval.peek >>= fun next =>
        match next.symbol with
        | .openParen => Call.call second q name place
        | _ => variableValue second name) := by
  apply Coupled.next_peek
  rintro following other (hsymbol | ⟨before, after, hbefore, hafter⟩) _
  · rw [← hsymbol]
    split
    · exact call_coupled hcarries hp rfl (fun _ => rfl) hplace
    · exact hcarries.named name
  · rw [hbefore, hafter]
    exact hcarries.named name

theorem primary_coupled (hp : Coupled K K.Same p q) :
    Coupled K K.Same (primary first p) (primary second q) := by
  have hcomparison := comparison_coupled hcarries hp
  rw [primary, primary]
  apply Coupled.next_advance
  · intro token other hsymbol hsame
    have hplace : K.verbatim → token.position = other.position :=
      fun hverbatim => congrArg Token.position (hsame hverbatim)
    rw [← hsymbol]
    split
    · exact hp
    · apply hp.bind
      intro v w h
      exact whenLive_coupled hcarries fun hexact => congrArg _ (h hexact)
    · exact whenLive_coupled hcarries fun _ => rfl
    · exact group_coupled hcarries hp hplace
    · exact name_coupled hcarries hcomparison _ hplace
    · exact .failParseAlike fun hverbatim => by rw [hplace hverbatim]
    · exact .failParseAlike fun hverbatim => by rw [hplace hverbatim]
  · -- In the other spelling it is the same function that is called.
    intro token other name typed hname htyped hkey hsame s t hstates hopen
    have hcall : Coupled K K.Same (Call.call first (comparison first p) name token.position)
        (Call.call second (comparison second q) typed other.position) := by
      refine call_coupled hcarries hcomparison hkey (fun hverbatim => ?_)
        fun hverbatim => congrArg Token.position (hsame hverbatim)
      have hsymbols := congrArg Token.symbol (hsame hverbatim)
      rw [hname, htyped] at hsymbols
      exact Symbol.name.inj hsymbols
    rw [hname, htyped]
    change K.Ends K.Same ((match (s.ahead.headD Eval.endToken).symbol with
        | .openParen => Call.call first (comparison first p) name token.position
        | _ => variableValue first name) s) ((match (t.ahead.headD Eval.endToken).symbol with
        | .openParen => Call.call second (comparison second q) typed other.position
        | _ => variableValue second typed) t)
    rw [hopen, (K.ahead hstates).opens hopen]
    exact hcall s t hstates

/-- Two runs over a whole expression stay together if they do over its factors. -/
theorem expression_coupled_of_factor
    (hfactor : Coupled K K.Same (factor first first.maxDepth) (factor second second.maxDepth)) :
    Coupled K K.Same (expression first) (expression second) := by
  rw [expression, expression]
  apply (comparison_coupled hcarries hfactor).bind
  intro v w h
  apply Coupled.expectEnd.bind
  intro _ _ _
  exact .pure h

end Grammar

theorem factor_coupled (hcarries : K.Carries first second) (levels : Nat) :
    Coupled K K.Same (factor first levels) (factor second levels) := by
  induction levels with
  | zero =>
    rw [factor, factor, hcarries.maxDepth]
    exact .failParse _
  | succ levels ih => exact hcarries.nested (primary_coupled hcarries.toCarriesPhrases ih)

/-- Two runs over a whole expression stay together. -/
theorem expression_coupled (hcarries : K.Carries first second) :
    Coupled K K.Same (expression first) (expression second) := by
  apply expression_coupled_of_factor hcarries.toCarriesPhrases
  rw [hcarries.maxDepth]
  exact factor_coupled hcarries second.maxDepth

end DerivedTelemetry
