import DerivedTelemetry.Evaluation.Meaning
import DerivedTelemetry.Proofs.Expression.Names

/-!
# What a run yields

A run yields an outcome: it has its result, it makes its requests after the earlier ones,
and if it succeeds it has read the symbols ahead up to a given rest.  Everything else is
as it was, where names that were noted and names that still lie ahead count together.

There is one rule for each step of the machine.  The state never appears in a proof about
a phrase of the grammar, apart from the symbols ahead of it.
-/

namespace DerivedTelemetry

/-! ### Outcomes -/

namespace Outcome

theorem bind_assoc {α β γ : Type} (m : Outcome α) (f : α → Outcome β) (g : β → Outcome γ) :
    m >>= f >>= g = m >>= fun value => f value >>= g := by
  obtain ⟨requests, result⟩ := m
  cases result with
  | error failure => rfl
  | ok value =>
    change Outcome.bind (Outcome.bind ⟨requests, .ok value⟩ f) g =
      Outcome.bind ⟨requests, .ok value⟩ fun value => Outcome.bind (f value) g
    cases hf : (f value).result with
    | error failure => simp only [Outcome.bind, hf]
    | ok given => simp only [Outcome.bind, hf, List.append_assoc]

theorem bind_pure {α : Type} (m : Outcome α) : m >>= pure = m := by
  obtain ⟨requests, result⟩ := m
  cases result with
  | error failure => rfl
  | ok value =>
    change (⟨requests ++ [], .ok value⟩ : Outcome α) = ⟨requests, .ok value⟩
    rw [List.append_nil]

instance : LawfulMonad Outcome :=
  LawfulMonad.mk' Outcome bind_pure (fun _ _ => rfl) bind_assoc

/-- The outcome where values are computed, and zero where the text is only checked. -/
def ifLive (live : Bool) (m : Outcome Decimal) : Outcome Decimal :=
  if live then m else pure Decimal.zero

theorem ifLive_bind (live : Bool) (m : Outcome Decimal) (f : Decimal → Outcome Decimal) :
    (m >>= f).ifLive live = m.ifLive live >>= fun value => (f value).ifLive live := by
  cases live <;> rfl

theorem ifLive_mapM_bind (live : Bool) (values : List (Outcome Decimal))
    (f : List Decimal → Outcome Decimal) :
    (values.mapM id >>= f).ifLive live =
      values.mapM (ifLive live) >>= fun numbers => (f numbers).ifLive live := by
  cases live with
  | true => rfl
  | false =>
    change pure Decimal.zero = _ >>= fun _ => pure Decimal.zero
    induction values with
    | nil => rfl
    | cons first rest ih =>
      rw [List.mapM_cons, bind_assoc]
      change _ = List.mapM (ifLive false) rest >>= _ >>= _
      rw [bind_assoc]
      exact ih

end Outcome

/-! ### States -/

/-- The symbols that lie ahead. -/
def State.symbols (s : State) : List Symbol := s.ahead.map (·.symbol)

/-- The names that are noted once everything ahead is read. -/
def State.names (registry : Registry) (s : State) : ExpressionInfo :=
  noted registry s.symbols s.info

/-- Up to `rest` the symbols ahead have been read, and nothing else has changed but the
trace. -/
structure Reached (registry : Registry) (s : State) (rest : List Symbol) (after : State) :
    Prop where
  symbols : after.symbols = rest
  live : after.live = s.live
  depth : after.depth = s.depth
  names : after.names registry = s.names registry

theorem Reached.trans {registry : Registry} {s t after : State} {between rest : List Symbol}
    (h : Reached registry s between t) (hafter : Reached registry t rest after) :
    Reached registry s rest after :=
  ⟨hafter.symbols, hafter.live.trans h.live, hafter.depth.trans h.depth,
    hafter.names.trans h.names⟩

/-- Where the last symbol does not come next, the next token is taken. -/
theorem Eval.advance_of_symbols {s : State} {symbol : Symbol} {rest : List Symbol}
    (h : s.symbols = symbol :: rest) (hrest : rest ≠ []) :
    ∃ token tail, token.symbol = symbol ∧ tail.map (·.symbol) = rest ∧
      Eval.advance s = (.ok token, { s with ahead := tail }) := by
  obtain ⟨token, tail, hahead, htoken, htail⟩ := List.map_eq_cons_iff.mp h
  refine ⟨token, tail, htoken, htail, ?_⟩
  cases tail with
  | nil => exact absurd htail.symm hrest
  | cons next tail => simp only [Eval.advance, hahead, List.headD_cons, Eval.passed]

theorem Eval.peek_of_symbols {s : State} {symbol : Symbol} {rest : List Symbol}
    (h : s.symbols = symbol :: rest) :
    ∃ token, token.symbol = symbol ∧ Eval.peek s = (.ok token, s) := by
  obtain ⟨token, tail, hahead, htoken, -⟩ := List.map_eq_cons_iff.mp h
  exact ⟨token, htoken, by simp only [Eval.peek, hahead, List.headD_cons]⟩

theorem Eval.bind_pure {α : Type} (p : Eval α) : p >>= pure = p := by
  funext s
  rcases hrun : p s with ⟨failure | value, t⟩
  · rw [bind_of_error hrun]
  · rw [bind_of_ok hrun]
    rfl

theorem Eval.bind_assoc {α β γ : Type} (p : Eval α) (f : α → Eval β) (g : β → Eval γ) :
    p >>= f >>= g = p >>= fun value => f value >>= g := by
  funext s
  rcases hrun : p s with ⟨failure | value, t⟩
  · rw [bind_of_error (bind_of_error hrun), bind_of_error hrun]
  · change Eval.bind (Eval.bind p f) g s = Eval.bind p (fun value => Eval.bind (f value) g) s
    simp only [Eval.bind, hrun]

/-! ### Yields -/

/-- The run of `p` from `s` yields the outcome `m`, and reads up to `rest` if it
succeeds. -/
def Yields {α : Type} (registry : Registry) (p : Eval α) (s : State) (m : Outcome α)
    (rest : List Symbol) : Prop :=
  ∃ after, p s = (m.result, after) ∧
    after.trace.requests = s.trace.requests ++ m.requests ∧
    ∀ value, m.result = .ok value → Reached registry s rest after

namespace Yields

variable {α β : Type} {registry : Registry} {s t : State} {between rest : List Symbol}

theorem pure (value : α) (h : s.symbols = rest) :
    Yields registry (Pure.pure value) s (Pure.pure value) rest :=
  ⟨s, rfl, (List.append_nil _).symm, fun _ _ => ⟨h, rfl, rfl, rfl⟩⟩

theorem fail (fault : Fault) :
    Yields registry (.fail fault : Eval α) s (.fail fault) rest :=
  ⟨s, rfl, (List.append_nil _).symm, nofun⟩

theorem lift (result : Except Fault α) (h : s.symbols = rest) :
    Yields registry (.lift result) s (.lift result) rest :=
  ⟨s, rfl, (List.append_nil _).symm, fun _ _ => ⟨h, rfl, rfl, rfl⟩⟩

/-- A run that has reached a state goes on from there. -/
theorem continued {p q : Eval α} {m : Outcome α} (hq : Yields registry q t m rest)
    (hreached : Reached registry s between t) (htrace : t.trace = s.trace) (hrun : p s = q t) :
    Yields registry p s m rest := by
  obtain ⟨after, hafter, hrequests, hend⟩ := hq
  rw [htrace] at hrequests
  exact ⟨after, hrun.trans hafter, hrequests, fun _ h => hreached.trans (hend _ h)⟩

/-- One step after another, where the result of the first is made of another one. -/
theorem bind_map {γ : Type} {p : Eval α} {next : α → Eval β} {m : Outcome γ} {f : γ → α}
    {k : γ → Outcome β} (hp : Yields registry p s (m >>= fun given => Pure.pure (f given)) between)
    (hnext : ∀ given t, Reached registry s between t →
      Yields registry (next (f given)) t (k given) rest) :
    Yields registry (p >>= next) s (m >>= k) rest := by
  obtain ⟨t, hrun, hrequests, hreached⟩ := hp
  obtain ⟨requests, result⟩ := m
  cases result with
  | error failure => exact ⟨t, Eval.bind_of_error hrun, hrequests, nofun⟩
  | ok given =>
    have ht := hreached (f given) rfl
    obtain ⟨after, hafter, hlater, hend⟩ := hnext given t ht
    refine ⟨after, (Eval.bind_of_ok hrun).trans hafter, ?_, fun _ h => ht.trans (hend _ h)⟩
    rw [hlater, hrequests]
    change s.trace.requests ++ (requests ++ []) ++ (k given).requests =
      s.trace.requests ++ (requests ++ (k given).requests)
    rw [List.append_nil, List.append_assoc]

theorem bind {p : Eval α} {next : α → Eval β} {m : Outcome α} {k : α → Outcome β}
    (hp : Yields registry p s m between)
    (hnext : ∀ value t, Reached registry s between t →
      Yields registry (next value) t (k value) rest) :
    Yields registry (p >>= next) s (m >>= k) rest := by
  rw [← Outcome.bind_pure m] at hp
  exact hp.bind_map hnext

/-- A step that computes nothing leaves the outcome to what comes next. -/
theorem next {p : Eval α} {next : α → Eval β} {value : α} {m : Outcome β}
    (hp : Yields registry p s (Pure.pure value) between)
    (hnext : ∀ t, Reached registry s between t → Yields registry (next value) t m rest) :
    Yields registry (p >>= next) s m rest :=
  bind_map (m := Pure.pure ()) (f := fun _ => value) (k := fun _ => m) hp fun _ => hnext

theorem next_peek {next : Token → Eval β} {symbol : Symbol} {m : Outcome β}
    (h : s.symbols = symbol :: between)
    (hnext : ∀ token, token.symbol = symbol → Yields registry (next token) s m rest) :
    Yields registry (Eval.peek >>= next) s m rest := by
  obtain ⟨token, htoken, hpeek⟩ := Eval.peek_of_symbols h
  obtain ⟨after, hafter, hend⟩ := hnext token htoken
  exact ⟨after, (Eval.bind_of_ok hpeek).trans hafter, hend⟩

theorem next_get {next : State → Eval β} {m : Outcome β}
    (hnext : Yields registry (next s) s m rest) :
    Yields registry (Eval.get >>= next) s m rest := hnext

/-- Taking the next token, unless it is a name, which is to be noted. -/
theorem next_advance {next : Token → Eval β} {symbol : Symbol} {m : Outcome β}
    (h : s.symbols = symbol :: between) (hbetween : between ≠ [])
    (hname : ∀ name, symbol ≠ .name name)
    (hnext : ∀ token t, token.symbol = symbol → Reached registry s between t →
      Yields registry (next token) t m rest) :
    Yields registry (Eval.advance >>= next) s m rest := by
  obtain ⟨token, tail, htoken, htail, hrun⟩ := Eval.advance_of_symbols h hbetween
  have hreached : Reached registry s between { s with ahead := tail } := by
    refine ⟨htail, rfl, rfl, ?_⟩
    rw [State.names, State.names, h, noted_cons registry hname, ← htail]
    rfl
  exact (hnext token _ htoken hreached).continued hreached rfl (Eval.bind_of_ok hrun)

theorem expect {wanted : Symbol} (h : s.symbols = wanted :: rest) (hrest : rest ≠ [])
    (hname : ∀ name, wanted ≠ .name name) :
    Yields registry (Eval.expect wanted) s (Pure.pure ()) rest := by
  rw [Eval.expect]
  apply next_advance h hrest hname
  intro token t htoken ht
  rw [if_pos htoken]
  exact pure () ht.symbols

theorem whenLive {p : Eval Decimal} {m : Outcome Decimal} (h : s.symbols = rest)
    (hp : Yields registry p s m rest) :
    Yields registry (Eval.whenLive p) s (m.ifLive s.live) rest := by
  cases hlive : s.live with
  | true =>
    obtain ⟨after, hrun, hend⟩ := hp
    exact ⟨after, (Eval.whenLive_of_live p hlive).trans hrun, hend⟩
  | false =>
    have hzero : Yields registry (Pure.pure Decimal.zero) s (Pure.pure Decimal.zero) rest :=
      pure Decimal.zero h
    obtain ⟨after, hrun, hend⟩ := hzero
    exact ⟨after, (Eval.whenLive_of_not_live p hlive).trans hrun, hend⟩

theorem quietly {p : Eval α} {m : Outcome α}
    (hp : Yields registry p { s with live := false } m rest) :
    Yields registry (Eval.quietly p) s m rest := by
  obtain ⟨after, hrun, hrequests, hend⟩ := hp
  refine ⟨{ after with live := s.live }, by simp only [Eval.quietly, hrun], hrequests, ?_⟩
  intro value hvalue
  have hreached := hend value hvalue
  exact ⟨hreached.symbols, rfl, hreached.depth, hreached.names⟩

theorem nested {limit : Nat} {p : Eval α} {m : Outcome α} (h : s.depth < limit)
    (hp : Yields registry p { s with depth := s.depth + 1 } m rest) :
    Yields registry (Eval.nested limit p) s m rest := by
  obtain ⟨after, hrun, hrequests, hend⟩ := hp
  refine ⟨{ after with depth := after.depth - 1 },
    by rw [Eval.nested_of_open p h, hrun], hrequests, ?_⟩
  intro value hvalue
  have hreached := hend value hvalue
  refine ⟨hreached.symbols, hreached.live, ?_, hreached.names⟩
  change after.depth - 1 = s.depth
  rw [hreached.depth, Nat.add_sub_cancel]

theorem request (store : Store) (r : Request) (h : s.symbols = rest) :
    Yields registry (Eval.request store r) s ⟨[r], store r⟩ rest :=
  ⟨{ s with trace := s.trace ++ ⟨[r], []⟩ }, rfl, rfl, fun _ _ => ⟨h, rfl, rfl, rfl⟩⟩

theorem report (event : Event) (h : s.symbols = rest) :
    Yields registry (Eval.report event) s (Pure.pure ()) rest :=
  ⟨{ s with trace := s.trace ++ Trace.event event }, rfl, rfl, fun _ _ => ⟨h, rfl, rfl, rfl⟩⟩

end Yields

end DerivedTelemetry
