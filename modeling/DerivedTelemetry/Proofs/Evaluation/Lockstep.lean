import DerivedTelemetry.Proofs.Evaluation.Coupling

/-!
# Runs in lockstep

In one environment two runs can only differ in the text that they read and in how deep they
may nest.  Everything that is computed, requested or reported is the same in both.  So a
coupling keeps such runs together as soon as its states stay in correspondence when both runs
do the same to them, and failures correspond wherever both runs end in the same one.
-/

namespace DerivedTelemetry

open Grammar

/-- Corresponding states stay so when the same happens to both.  Failures of the store are
those that it answers. -/
structure Coupling.Lockstep (K : Coupling) (store : Store) : Prop where
  exact : K.exact
  lenient : ¬ K.strict
  live : ∀ {s t}, K.states s t → s.live = t.live
  switched : ∀ {s t}, K.states s t → ∀ live,
    K.states { s with live := live } { t with live := live }
  agreeSwitched : ∀ {e s f t}, K.agree e s f t → ∀ live,
    K.agree e { s with live := live } f { t with live := live }
  requested : ∀ {s t}, K.states s t → ∀ request,
    K.states { s with trace := s.trace ++ ⟨[request], []⟩ }
      { t with trace := t.trace ++ ⟨[request], []⟩ }
  fetched : ∀ {s t}, K.states s t → ∀ function device metric window samples,
    K.states
      { s with trace := s.trace ++ .event (.windowFetched function device metric window samples) }
      { t with trace := t.trace ++ .event (.windowFetched function device metric window samples) }
  failed : ∀ {s t}, K.states s t → ∀ fault, K.agree (.fault fault) s (.fault fault) t
  unanswered : ∀ {s t}, K.states s t → ∀ request failure, store request = .error failure →
    K.agree failure s failure t

namespace Coupling.Lockstep

variable {K : Coupling} {env : Environment} {p q : Eval Decimal} (h : K.Lockstep env.store)

include h

theorem eq_of_same {α : Type} {v w : α} (hsame : K.Same v w) : v = w := hsame h.exact

omit h in
theorem same_of_eq {α : Type} {v w : α} (heq : v = w) : K.Same v w := fun _ => heq

theorem fail {α β : Type} {related : α → β → Prop} (fault : Fault) :
    Coupled K related (Eval.fail fault) (Eval.fail fault) :=
  fun _ _ hstates => .inr (h.failed hstates fault)

theorem lift {α : Type} (result : Except Fault α) :
    Coupled K Eq (Eval.lift result) (Eval.lift result) := by
  cases result with
  | error fault => exact h.fail fault
  | ok value => exact .pure rfl

theorem whenLive (hp : Coupled K Eq p q) : Coupled K Eq (Eval.whenLive p) (Eval.whenLive q) := by
  intro s t hstates
  cases hlive : s.live with
  | true =>
    rw [Eval.whenLive_of_live p hlive, Eval.whenLive_of_live q (h.live hstates ▸ hlive)]
    exact hp s t hstates
  | false =>
    rw [Eval.whenLive_of_not_live p hlive, Eval.whenLive_of_not_live q (h.live hstates ▸ hlive)]
    exact ⟨rfl, hstates⟩

theorem quietly {α β : Type} {related : α → β → Prop} {p : Eval α} {q : Eval β}
    (hp : Coupled K related p q) : Coupled K related (Eval.quietly p) (Eval.quietly q) := by
  intro s t hstates
  have hends := hp _ _ (h.switched hstates false)
  rcases hfirst : p { s with live := false } with ⟨e | v, s'⟩ <;>
    rcases hsecond : q { t with live := false } with ⟨f | w, t'⟩ <;>
    rw [hfirst, hsecond] at hends <;>
    simp only [Eval.quietly, hfirst, hsecond, ← h.live hstates]
  · exact hends.imp_right fun hagree => h.agreeSwitched hagree s.live
  · exact hends
  · exact hends
  · exact ⟨hends.1, h.switched hends.2 s.live⟩

theorem request (r : Request) :
    Coupled K Eq (Eval.request env.store r) (Eval.request env.store r) := by
  intro s t hstates
  have hrequested := h.requested hstates r
  change K.Ends Eq (env.store r, _) (env.store r, _)
  cases hanswer : env.store r with
  | ok samples => exact ⟨rfl, hrequested⟩
  | error failure => exact .inr (h.unanswered hrequested r failure hanswer)

theorem reduce (function metric : String) (window : Window) (reduction : Statistics.Reduction)
    (numbers : List Decimal) :
    Coupled K Eq (Call.reduce env function metric window reduction numbers)
      (Call.reduce env function metric window reduction numbers) := by
  rw [Call.reduce]
  cases env.context with
  | none => exact h.fail _
  | some context =>
    apply (h.request _).bind
    rintro samples _ rfl
    have hreport : Coupled K (fun _ _ => True)
        (Eval.report (.windowFetched function context.device metric window samples.length))
        (Eval.report (.windowFetched function context.device metric window samples.length)) :=
      fun _ _ hstates => ⟨trivial, h.fetched hstates _ _ _ _ _⟩
    apply hreport.bind
    intro _ _ _
    exact h.lift _

/-- A bound variable, or one that is not bound. -/
theorem named (limit : Nat) (name : String) :
    Coupled K Eq (variableValue env name)
      (variableValue { env with maxDepth := limit } name) := by
  have hnote : Coupled K (fun _ _ => True) (Eval.noteVariable name) (Eval.noteVariable name) :=
    fun _ _ hstates => ⟨trivial, K.noted hstates (·.addVariable name)⟩
  rw [variableValue, variableValue]
  dsimp only
  cases env.bindings name with
  | some value =>
    apply hnote.bind
    intro _ _ _
    exact h.whenLive (.pure rfl)
  | none =>
    dsimp only
    split
    · exact .failParse _
    · apply Coupled.next_get
      intro s t hstates
      rw [h.live hstates]
      split
      · exact h.fail _
      · apply hnote.bind
        intro _ _ _
        exact .pure rfl

/-! ### Lazy calls -/

variable (hp : Coupled K Eq p q)

include hp

theorem follow (total : Nat) (strategy : Strategy) (consumed : Nat) :
    Coupled K Eq (Call.follow p total strategy consumed)
      (Call.follow q total strategy consumed) := by
  induction strategy generalizing consumed with
  | finish value => exact .pure rfl
  | fail fault => exact h.fail fault
  | ask next ih => exact ih _ consumed
  | take next refused ih ihRefused =>
    rw [Call.follow, Call.follow]
    split
    · apply (separator_coupled consumed).bind
      intro _ _ _
      apply hp.bind
      rintro value _ rfl
      exact ih value (consumed + 1)
    · exact ihRefused _ consumed
  | skip next refused ih ihRefused =>
    rw [Call.follow, Call.follow]
    split
    · apply (separator_coupled consumed).bind
      intro _ _ _
      apply (h.quietly hp).bind
      intro _ _ _
      exact ih (consumed + 1)
    · exact ihRefused _ consumed

theorem passOver (consumed count : Nat) :
    Coupled K Eq (Call.passOver p consumed count) (Call.passOver q consumed count) := by
  induction count generalizing consumed with
  | zero => exact .pure rfl
  | succ count ih =>
    rw [Call.passOver, Call.passOver]
    apply (separator_coupled consumed).bind
    intro _ _ _
    apply (h.quietly hp).bind
    intro _ _ _
    exact ih (consumed + 1)

theorem lazyValue (strategy : Strategy) (count : Nat) :
    Coupled K Eq (Call.lazyValue p strategy count) (Call.lazyValue q strategy count) := by
  rw [Call.lazyValue, Call.lazyValue]
  apply (h.follow hp count strategy 0).bind
  rintro ⟨value, consumed⟩ _ rfl
  apply (h.passOver hp consumed (count - consumed)).bind
  intro _ _ _
  exact .pure rfl

theorem lazy (strategy : Strategy) (count : Nat) :
    Coupled K Eq (Call.lazy p strategy count) (Call.lazy q strategy count) := by
  have hclose : ∀ value : Decimal, Coupled K Eq
      (Eval.expect .closeParen >>= fun _ => pure value)
      (Eval.expect .closeParen >>= fun _ => pure value) := by
    intro value
    apply Coupled.expectClose.bind
    intro _ _ _
    exact .pure rfl
  rw [Call.lazy, Call.lazy]
  apply Coupled.next_get
  intro s t hstates
  rw [h.live hstates]
  cases t.live with
  | true =>
    change Coupled K Eq (Call.lazyValue p strategy count >>= fun value => _)
      (Call.lazyValue q strategy count >>= fun value => _)
    apply (h.lazyValue hp strategy count).bind
    rintro value _ rfl
    exact hclose value
  | false =>
    apply (values_coupled (hp.mono fun _ _ => same_of_eq) 0 count).bind
    intro _ _ _
    exact hclose Decimal.zero

omit hp

/-- In one environment the steps inside factors are the same on both sides. -/
theorem carriesPhrases (limit : Nat) :
    K.CarriesPhrases env { env with maxDepth := limit } where
  registry := rfl
  precision _ := rfl
  benign hstrict := absurd hstrict h.lenient
  computed hsame _ := by
    rw [h.eq_of_same hsame]
    exact (h.whenLive (h.lift _)).mono fun _ _ => same_of_eq
  named name := (h.named limit name).mono fun _ _ => same_of_eq
  lazy hp strategy count _ :=
    (h.lazy (hp.mono fun _ _ => h.eq_of_same) strategy count).mono fun _ _ => same_of_eq
  reduced function metric window reduction _ _ hsame _ := by
    rw [h.eq_of_same hsame]
    exact (h.whenLive (h.reduce function metric window reduction _)).mono fun _ _ => same_of_eq

end Coupling.Lockstep

end DerivedTelemetry
