import DerivedTelemetry.Expression.Info
import DerivedTelemetry.Function.Registry
import DerivedTelemetry.Trace

/-!
# The evaluation machine

An expression is checked and evaluated in one pass over its tokens, and no tree of it
is kept.  The machine's state is the tokens that lie ahead, whether values are
computed at all or the text is only being checked, how many factors are open, and
what has been seen and done so far.

A step either yields something or fails, with a fault or because the store broke off.
In each case there is a state after it: what was requested before a failure stays
requested.
-/

namespace DerivedTelemetry

/-- The device and the time that statistical functions look back from. -/
structure Context where
  device : String
  reference : Timestamp
  deriving DecidableEq

/-- A store answers each request with samples, or it fails. -/
abbrev Store := Request → Except Failure (List Sample)

/-- The store without any history. -/
def emptyStore : Store := fun _ => .ok []

/-- What stays the same throughout an evaluation. -/
structure Environment where
  registry : Registry
  bindings : String → Option Decimal
  context : Option Context
  store : Store
  precision : Nat
  maxDepth : Nat

structure State where
  ahead : List Token
  live : Bool
  depth : Nat
  info : ExpressionInfo
  trace : Trace

/-- A step of the machine. -/
def Eval (α : Type) : Type := State → Except Failure α × State

namespace Eval

protected def pure {α : Type} (value : α) : Eval α := fun s => (.ok value, s)

/-- One step after another.  A failure ends both. -/
protected def bind {α β : Type} (first : Eval α) (second : α → Eval β) : Eval β := fun s =>
  match first s with
  | (.ok value, after) => second value after
  | (.error failure, after) => (.error failure, after)

instance : Monad Eval where
  pure := Eval.pure
  bind := Eval.bind

/-- A step that succeeds hands its value and its state to the next one. -/
theorem bind_of_ok {α β : Type} {first : Eval α} {second : α → Eval β} {s after : State}
    {value : α} (h : first s = (.ok value, after)) :
    (first >>= second) s = second value after := by
  change Eval.bind first second s = _
  simp only [Eval.bind, h]

/-- A step that fails ends the run in its own state. -/
theorem bind_of_error {α β : Type} {first : Eval α} {second : α → Eval β} {s after : State}
    {failure : Failure} (h : first s = (.error failure, after)) :
    (first >>= second) s = (.error failure, after) := by
  change Eval.bind first second s = _
  simp only [Eval.bind, h]

/-- A run of two steps that succeeds is a success of each of them. -/
theorem bind_eq_ok {α β : Type} {first : Eval α} {second : α → Eval β} {s after : State}
    {value : β} : (first >>= second) s = (.ok value, after) ↔
      ∃ given between, first s = (.ok given, between) ∧
        second given between = (.ok value, after) := by
  constructor
  · intro h
    rcases reached : first s with ⟨failure | given, between⟩
    · rw [bind_of_error reached] at h
      cases h
    · rw [bind_of_ok reached] at h
      exact ⟨given, between, rfl, h⟩
  · rintro ⟨given, between, reached, h⟩
    rw [bind_of_ok reached, h]

@[simp]
theorem pure_apply {α : Type} (value : α) (s : State) :
    (pure value : Eval α) s = (.ok value, s) := rfl

def fail {α : Type} (fault : Fault) : Eval α := fun s => (.error (.fault fault), s)

def failParse {α : Type} (cause : ParseFault) : Eval α := fail (.parse cause)

/-- A result that was computed outside the machine. -/
def lift {α : Type} (result : Except Fault α) : Eval α := fun s =>
  (result.mapError .fault, s)

def get : Eval State := fun s => (.ok s, s)

def modify (f : State → State) : Eval Unit := fun s => (.ok (), f s)

/-! ### The tokens ahead -/

/-- The token that stands for the end when there is none. -/
def endToken : Token := ⟨.finish, 0⟩

def peek : Eval Token := fun s => (.ok (s.ahead.headD endToken), s)

/-- The tokens after the next one.  The last token is never passed. -/
def passed : List Token → List Token
  | [] => []
  | [last] => [last]
  | _ :: rest => rest

/-- Takes the next token. -/
def advance : Eval Token := fun s =>
  (.ok (s.ahead.headD endToken), { s with ahead := passed s.ahead })

/-- Takes the next token, which has to be the given symbol. -/
def expect (wanted : Symbol) : Eval Unit := do
  let token ← advance
  if token.symbol = wanted then return ()
  else failParse (.mismatch wanted token.symbol token.position)

/-- The end of the expression has to come next. -/
def expectEnd : Eval Unit := do
  let token ← peek
  match token.symbol with
  | .finish => return ()
  | .closeParen => failParse (.strayClose token.position)
  | symbol => failParse (.unexpected symbol token.position)

/-! ### Values and effects -/

/-- A value where values are computed, and zero where the text is only checked. -/
def whenLive (value : Eval Decimal) : Eval Decimal := do
  if (← get).live then value else return Decimal.zero

/-- Where the text is only checked, nothing is computed. -/
theorem whenLive_of_not_live {s : State} (value : Eval Decimal) (h : s.live = false) :
    whenLive value s = (.ok Decimal.zero, s) := by
  change (if s.live = true then value else pure Decimal.zero : Eval Decimal) s = _
  rw [h]
  rfl

theorem whenLive_of_live {s : State} (value : Eval Decimal) (h : s.live = true) :
    whenLive value s = value s := by
  change (if s.live = true then value else pure Decimal.zero : Eval Decimal) s = _
  rw [if_pos h]

/-- Only checks what `body` reads.  Afterwards values are computed as before. -/
def quietly {α : Type} (body : Eval α) : Eval α := fun s =>
  let (result, after) := body { s with live := false }
  (result, { after with live := s.live })

/-- Opens a factor around `body` and closes it again.  No more than `limit` factors
may be open at once. -/
def nested {α : Type} (limit : Nat) (body : Eval α) : Eval α := fun s =>
  let opened := { s with depth := s.depth + 1 }
  let (result, after) :=
    if limit < opened.depth then failParse (.tooDeep limit) opened else body opened
  (result, { after with depth := after.depth - 1 })

/-- Whatever happens inside, values are computed afterwards as they were before. -/
theorem quietly_live {α : Type} (body : Eval α) (s : State) :
    (quietly body s).2.live = s.live := rfl

/-- A factor too many fails, and leaves the state as it was. -/
theorem nested_of_full {α : Type} {limit : Nat} {s : State} (body : Eval α)
    (h : limit ≤ s.depth) :
    nested limit body s = (.error (.fault (.parse (.tooDeep limit))), s) := by
  have full : limit < s.depth + 1 := by omega
  simp only [nested, full, if_true, failParse, fail, Nat.add_sub_cancel]

/-- A factor that may be opened is closed again, however its body ends. -/
theorem nested_of_open {α : Type} {limit : Nat} {s : State} (body : Eval α)
    (h : s.depth < limit) :
    nested limit body s = ((body { s with depth := s.depth + 1 }).1,
      { (body { s with depth := s.depth + 1 }).2 with
        depth := (body { s with depth := s.depth + 1 }).2.depth - 1 }) := by
  have room : ¬ limit < s.depth + 1 := by omega
  simp only [nested, room, if_false]

def noteVariable (name : String) : Eval Unit :=
  modify fun s => { s with info := s.info.addVariable name }

def noteFunction (name : String) : Eval Unit :=
  modify fun s => { s with info := s.info.addFunction name }

def report (event : Event) : Eval Unit :=
  modify fun s => { s with trace := s.trace ++ Trace.event event }

/-- Asks the store, which is seen whatever it answers. -/
def request (store : Store) (r : Request) : Eval (List Sample) := do
  modify fun s => { s with trace := s.trace ++ ⟨[r], []⟩ }
  fun s => (store r, s)

end Eval

end DerivedTelemetry
