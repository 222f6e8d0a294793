import DerivedTelemetry.Proofs.Evaluation.CallReading

/-!
# What a run has passed

A run that succeeds has passed the tokens up to where it stands, and nothing else is
changed that a later run could depend on: values are computed or not as before, and as many
factors are open as before.  There is one rule for each step of the machine, which says what
the step and those after it have passed together, and one for each level of operators, over
whatever its operands are.  The end of the text is never passed, so the rules hold wherever
the end comes last.
-/

namespace DerivedTelemetry

/-- The run from a state to another one has passed these tokens. -/
structure Passed (s : State) (front : List Token) (after : State) : Prop where
  ahead : s.ahead = front ++ after.ahead
  ended : Terminated after.symbols
  live : after.live = s.live
  depth : after.depth = s.depth

/-- If the run of `p` from `s` succeeds, it has passed symbols that are `derived` with its
value. -/
def Consumes {α : Type} (p : Eval α) (s : State) (derived : α → List Symbol → Prop) : Prop :=
  ∀ value after, p s = (.ok value, after) →
    ∃ front, Passed s front after ∧ derived value (front.map (·.symbol))

theorem Passed.refl {s : State} (hs : Terminated s.symbols) : Passed s [] s := ⟨rfl, hs, rfl, rfl⟩

theorem Passed.trans {s t after : State} {front back : List Token} (h : Passed s front t)
    (hafter : Passed t back after) : Passed s (front ++ back) after :=
  ⟨by rw [h.ahead, hafter.ahead, List.append_assoc], hafter.ended, hafter.live.trans h.live,
    hafter.depth.trans h.depth⟩

/-- A result of which only the value matters where values are computed, and which is zero
elsewhere. -/
def ZeroOr (computed : Except Fault Decimal) (result : Decimal) : Prop :=
  result = Decimal.zero ∨ computed = .ok result

theorem Eval.advance_of_ahead {s : State} {token : Token} {tail : List Token}
    (h : s.ahead = token :: tail) (htail : tail ≠ []) :
    Eval.advance s = (.ok token, { s with ahead := tail }) := by
  obtain ⟨next, rest, rfl⟩ := List.exists_cons_of_ne_nil htail
  simp only [Eval.advance, h, List.headD_cons, Eval.passed]

namespace Consumes

variable {α β : Type} {s : State} {P R : α → List Symbol → Prop} {Q : β → List Symbol → Prop}

theorem mono {p : Eval α} (h : Consumes p s P)
    (hmono : ∀ value front, P value front → R value front) : Consumes p s R := by
  intro value after hrun
  obtain ⟨front, hpassed, hfront⟩ := h value after hrun
  exact ⟨front, hpassed, hmono value _ hfront⟩

theorem pure (hs : Terminated s.symbols) {value : α} (h : P value []) :
    Consumes (Pure.pure value) s P := by
  intro given after hrun
  cases hrun
  exact ⟨[], .refl hs, h⟩

theorem fail (fault : Fault) : Consumes (.fail fault) s P := by
  intro value after hrun
  cases hrun

theorem bind {p : Eval α} {next : α → Eval β} (hp : Consumes p s P)
    (hnext : ∀ value front t, Passed s front t → P value (front.map (·.symbol)) →
      Consumes (next value) t fun result back => Q result (front.map (·.symbol) ++ back)) :
    Consumes (p >>= next) s Q := by
  intro result after hrun
  obtain ⟨value, t, hfirst, hsecond⟩ := Eval.bind_eq_ok.mp hrun
  obtain ⟨front, hpassed, hfront⟩ := hp value t hfirst
  obtain ⟨back, hlater, hback⟩ := hnext value front t hpassed hfront result after hsecond
  refine ⟨front ++ back, hpassed.trans hlater, ?_⟩
  rwa [List.map_append]

/-- A step that passes nothing. -/
theorem next {p : Eval α} {next : α → Eval β} {known : α → Prop}
    (hp : Consumes p s fun value front => front = [] ∧ known value)
    (hnext : ∀ value t, Passed s [] t → known value → Consumes (next value) t Q) :
    Consumes (p >>= next) s Q := by
  apply hp.bind
  rintro value front t ht ⟨hfront, hvalue⟩
  obtain rfl := List.map_eq_nil_iff.mp hfront
  exact hnext value t ht hvalue

theorem next_get {next : State → Eval β} (hnext : Consumes (next s) s Q) :
    Consumes (Eval.get >>= next) s Q := hnext

theorem next_peek (hs : Terminated s.symbols) {next : Token → Eval β}
    (hnext : ∀ token rest, s.ahead = token :: rest → Consumes (next token) s Q) :
    Consumes (Eval.peek >>= next) s Q := by
  have hahead : s.ahead ≠ [] := fun h => hs.ne_nil (List.map_eq_nil_iff.mpr h)
  obtain ⟨token, rest, htokens⟩ := List.exists_cons_of_ne_nil hahead
  intro result after hrun
  have hpeek : Eval.peek s = (.ok token, s) := by
    simp only [Eval.peek, htokens, List.headD_cons]
  rw [Eval.bind_of_ok hpeek] at hrun
  exact hnext token rest htokens result after hrun

/-- A token that is known to come next is passed, unless it is the end. -/
theorem next_taken (hs : Terminated s.symbols) {next : Token → Eval β} {token : Token}
    {rest : List Token} (htokens : s.ahead = token :: rest) (htoken : token.symbol ≠ .finish)
    (hnext : ∀ t, Passed s [token] t →
      Consumes (next token) t fun result back => Q result (token.symbol :: back)) :
    Consumes (Eval.advance >>= next) s Q := by
  have hended : Terminated (rest.map (·.symbol)) := by
    rw [State.symbols, htokens, List.map_cons] at hs
    exact hs.tail htoken
  have hadvance := Eval.advance_of_ahead htokens fun h => hended.ne_nil (by rw [h]; rfl)
  have htaken : Passed s [token] { s with ahead := rest } := ⟨htokens, hended, rfl, rfl⟩
  intro result after hrun
  rw [Eval.bind_of_ok hadvance] at hrun
  obtain ⟨back, hpassed, hback⟩ := hnext _ htaken result after hrun
  exact ⟨token :: back, htaken.trans hpassed, hback⟩

/-- Any token is taken.  Nothing succeeds that takes the end. -/
theorem next_advance (hs : Terminated s.symbols) {next : Token → Eval β}
    (hfinish : ∀ token t, token.symbol = .finish → Consumes (next token) t fun _ _ => False)
    (hnext : ∀ token t, Passed s [token] t →
      Consumes (next token) t fun result back => Q result (token.symbol :: back)) :
    Consumes (Eval.advance >>= next) s Q := by
  have hahead : s.ahead ≠ [] := fun h => hs.ne_nil (List.map_eq_nil_iff.mpr h)
  obtain ⟨token, rest, htokens⟩ := List.exists_cons_of_ne_nil hahead
  by_cases hend : token.symbol = .finish
  · have hadvance : Eval.advance s = (.ok token, { s with ahead := Eval.passed s.ahead }) := by
      simp only [Eval.advance, htokens, List.headD_cons]
    intro result after hrun
    rw [Eval.bind_of_ok hadvance] at hrun
    obtain ⟨back, -, hback⟩ := hfinish token _ hend result after hrun
    exact absurd hback not_false
  · exact next_taken hs htokens hend (hnext token)

theorem expect (hs : Terminated s.symbols) (wanted : Symbol) (hwanted : wanted ≠ .finish) :
    Consumes (Eval.expect wanted) s fun _ front => front = [wanted] := by
  rw [Eval.expect]
  apply next_advance hs
  · intro token t htoken
    rw [if_neg (by rw [htoken]; exact hwanted.symm)]
    exact fail _
  · intro token t ht
    split
    · rename_i hsymbol
      exact pure ht.ended (by rw [hsymbol])
    · exact fail _

/-- Where values are computed, nothing is passed that the computation does not pass. -/
theorem whenLive (hs : Terminated s.symbols) {p : Eval Decimal} {P : Decimal → Prop}
    (hzero : P Decimal.zero) (hp : Consumes p s fun value front => front = [] ∧ P value) :
    Consumes (Eval.whenLive p) s fun value front => front = [] ∧ P value := by
  intro value after hrun
  cases hlive : s.live with
  | true =>
    rw [Eval.whenLive_of_live p hlive] at hrun
    exact hp value after hrun
  | false =>
    rw [Eval.whenLive_of_not_live p hlive] at hrun
    cases hrun
    exact ⟨[], .refl hs, rfl, hzero⟩

theorem lift (hs : Terminated s.symbols) (computed : Except Fault Decimal) :
    Consumes (Eval.lift computed) s fun value front => front = [] ∧ computed = .ok value := by
  intro value after hrun
  cases computed with
  | error fault => cases hrun
  | ok given =>
    cases hrun
    exact ⟨[], .refl hs, rfl, rfl⟩

/-- What is computed where values are computed at all. -/
theorem whenLive_lift (hs : Terminated s.symbols) (computed : Except Fault Decimal) :
    Consumes (Eval.whenLive (.lift computed)) s fun value front =>
      front = [] ∧ ZeroOr computed value :=
  whenLive hs (.inl rfl) ((lift hs computed).mono fun _ _ h => ⟨h.1, .inr h.2⟩)

theorem quietly {p : Eval α} (hp : Consumes p { s with live := false } P) :
    Consumes (Eval.quietly p) s P := by
  intro value after hrun
  rcases hinner : p { s with live := false } with ⟨result, t⟩
  simp only [Eval.quietly, hinner] at hrun
  cases hrun
  obtain ⟨front, hpassed, hfront⟩ := hp value t hinner
  exact ⟨front, ⟨hpassed.ahead, hpassed.ended, rfl, hpassed.depth⟩, hfront⟩

theorem nested (limit : Nat) {p : Eval α}
    (hp : Consumes p { s with depth := s.depth + 1 } P) : Consumes (Eval.nested limit p) s P := by
  intro value after hrun
  rcases Nat.lt_or_ge s.depth limit with hopen | hfull
  · rw [Eval.nested_of_open p hopen] at hrun
    rcases hinner : p { s with depth := s.depth + 1 } with ⟨result, t⟩
    rw [hinner] at hrun
    cases hrun
    obtain ⟨front, hpassed, hfront⟩ := hp value t hinner
    refine ⟨front, ⟨hpassed.ahead, hpassed.ended, hpassed.live, ?_⟩, hfront⟩
    change t.depth - 1 = s.depth
    rw [hpassed.depth, Nat.add_sub_cancel]
  · rw [Eval.nested_of_full p hfull] at hrun
    cases hrun

theorem noteVariable (hs : Terminated s.symbols) (name : String) :
    Consumes (Eval.noteVariable name) s fun _ front => front = [] ∧ True := by
  intro value after hrun
  cases hrun
  exact ⟨[], ⟨rfl, hs, rfl, rfl⟩, rfl, trivial⟩

theorem noteFunction (hs : Terminated s.symbols) (name : String) :
    Consumes (Eval.noteFunction name) s fun _ front => front = [] ∧ True := by
  intro value after hrun
  cases hrun
  exact ⟨[], ⟨rfl, hs, rfl, rfl⟩, rfl, trivial⟩

theorem report (hs : Terminated s.symbols) (event : Event) :
    Consumes (Eval.report event) s fun _ front => front = [] ∧ True := by
  intro value after hrun
  cases hrun
  exact ⟨[], ⟨rfl, hs, rfl, rfl⟩, rfl, trivial⟩

theorem request (hs : Terminated s.symbols) (store : Store) (r : Request) :
    Consumes (Eval.request store r) s fun samples front =>
      front = [] ∧ store r = .ok samples := by
  intro samples after hrun
  change (store r, _) = (.ok samples, after) at hrun
  obtain ⟨hanswer, rfl⟩ := Prod.mk.inj hrun
  exact ⟨[], ⟨rfl, hs, rfl, rfl⟩, rfl, hanswer⟩

theorem separator (index : Nat) (hs : Terminated s.symbols) :
    Consumes (Call.separator index) s fun _ front => front = leading index := by
  rw [Call.separator, leading]
  split
  · exact .pure hs rfl
  · exact .expect hs .comma (by simp)

theorem literal (function : String) (index : Nat) (hs : Terminated s.symbols) :
    Consumes (Call.literal function index) s fun text front => front = [.quoted text] := by
  rw [Call.literal]
  apply next_advance hs
  · intro token t htoken
    rw [htoken]
    exact .fail _
  · intro token t ht
    split
    · rename_i text hsymbol
      exact .pure ht.ended (by rw [hsymbol])
    · exact .fail _

end Consumes

/-! ### Operators -/

namespace Consumes

variable {s : State} {p : Eval Decimal} {operators : Grammar.Operators}
variable {operand phrase : Decimal → List Symbol → Prop}

section Chains

variable (hfinish : operators .finish = none)
variable (hphrase : ∀ {symbol operator value right result front back},
  operators symbol = some operator → phrase value front → operand right back →
  ZeroOr (operator value right) result → phrase result (front ++ symbol :: back))

include hfinish hphrase

/-- What has been passed stays a phrase with every further operand. -/
theorem chainTail (fuel : Nat) {value : Decimal} {front : List Symbol}
    (hfront : phrase value front) (hs : Terminated s.symbols)
    (hp : ∀ passed t, Passed s passed t → Consumes p t operand) :
    Consumes (Grammar.chainTail operators p fuel value) s fun result back =>
      phrase result (front ++ back) := by
  induction fuel generalizing value front s with
  | zero => exact .pure hs (by rwa [List.append_nil])
  | succ fuel ih =>
    rw [Grammar.chainTail]
    apply next_peek hs
    intro token rest htokens
    cases hoperator : operators token.symbol with
    | none => exact .pure hs (by rwa [List.append_nil])
    | some operator =>
      have hsymbol : token.symbol ≠ .finish := by
        intro hsymbol
        rw [hsymbol, hfinish] at hoperator
        cases hoperator
      apply next_taken hs htokens hsymbol
      intro t ht
      apply (hp _ t ht).bind
      intro right back u hu hback
      apply (whenLive_lift hu.ended _).next
      intro result v hv hresult
      have hmore := hphrase hoperator hfront hback hresult
      have honward : ∀ passed w, Passed v passed w → Consumes p w operand :=
        fun _ w hw => hp _ w (((ht.trans hu).trans hv).trans hw)
      apply (ih hmore hv.ended honward).mono
      intro _ later hlater
      simpa only [List.append_assoc, List.cons_append] using hlater

/-- Operands with operators between them are a phrase, if a single operand is one. -/
theorem chain (hfirst : ∀ {value front}, operand value front → phrase value front)
    (hs : Terminated s.symbols) (hp : ∀ passed t, Passed s passed t → Consumes p t operand) :
    Consumes (Grammar.chain operators p) s phrase := by
  rw [Grammar.chain]
  apply (hp [] s (.refl hs)).bind
  intro value front t ht hfront
  exact chainTail hfinish hphrase _ (hfirst hfront) ht.ended fun _ _ hu => hp _ _ (ht.trans hu)

end Chains

/-- Two sums that are compared, or one that is not. -/
theorem comparison {env : Environment}
    (hfirst : ∀ {value front}, operand value front → phrase value front)
    (hcompared : ∀ {symbol left right front back} (truth : Bool), symbol.isComparison = true →
      operand left front → operand right back →
      phrase (Decimal.ofBool truth) (front ++ symbol :: back))
    (hs : Terminated s.symbols)
    (hp : ∀ passed t, Passed s passed t → Consumes (Grammar.sum env p) t operand) :
    Consumes (Grammar.comparison env p) s phrase := by
  rw [Grammar.comparison]
  apply (hp [] s (.refl hs)).bind
  intro left front t ht hfront
  apply next_peek ht.ended
  intro token rest htokens
  dsimp only
  split
  · rename_i hcomparison
    have hsymbol : token.symbol ≠ .finish := by
      intro hsymbol
      rw [hsymbol] at hcomparison
      cases hcomparison
    apply next_taken ht.ended htokens hsymbol
    intro u hu
    apply (hp _ u (ht.trans hu)).bind
    intro right back v hv hback
    apply next_peek hv.ended
    intro following later _
    split
    · exact .fail _
    · apply (whenLive (P := fun value => ∃ truth, value = Decimal.ofBool truth) hv.ended
        ⟨false, rfl⟩ (.pure hv.ended ⟨rfl, _, rfl⟩)).mono
      rintro _ _ ⟨rfl, truth, rfl⟩
      rw [List.append_nil]
      exact hcompared truth hcomparison hfront hback
  · apply Consumes.pure ht.ended
    rw [List.append_nil]
    exact hfirst hfront

end Consumes

end DerivedTelemetry
