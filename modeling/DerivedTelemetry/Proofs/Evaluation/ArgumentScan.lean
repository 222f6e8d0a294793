import DerivedTelemetry.Evaluation.ArgumentCount
import DerivedTelemetry.Proofs.Expression.Unambiguous

/-!
# The count ahead is the count of the arguments

Counting ahead sees neither operators nor names, only parentheses, commas and the end.
This module proves that this is enough: over a phrase of the grammar the scan comes back
to the nesting it began with, a phrase outside further parentheses counts as one argument,
and so the scan of a call stops at the parenthesis that closes it with the number of the
arguments that are written there.
-/

namespace DerivedTelemetry.ArgumentCount

open DerivedTelemetry.Derivation

/-- How far a scan has come: the parentheses that are open, the arguments that were seen,
and whether another one would begin here. -/
structure Progress where
  nesting : Nat
  count : Nat
  fresh : Bool

/-- Goes on over one symbol.  There is no progress where the scan ends. -/
def Progress.over (progress : Progress) (symbol : Symbol) : Option Progress :=
  match progress, symbol with
  | _, .finish => none
  | ⟨0, _, _⟩, .closeParen => none
  | ⟨0, count, fresh⟩, .comma => if fresh then none else some ⟨0, count, true⟩
  | ⟨0, count, fresh⟩, .openParen => some ⟨1, if fresh then count + 1 else count, false⟩
  | ⟨0, count, fresh⟩, _ => some ⟨0, if fresh then count + 1 else count, false⟩
  | ⟨nesting + 1, count, fresh⟩, .openParen => some ⟨nesting + 2, count, fresh⟩
  | ⟨nesting + 1, count, fresh⟩, .closeParen => some ⟨nesting, count, fresh⟩
  | progress, _ => some progress

/-- Goes on over symbols in a row. -/
def Progress.through (progress : Progress) (symbols : List Symbol) : Option Progress :=
  symbols.foldlM Progress.over progress

theorem Progress.through_append (progress : Progress) (front back : List Symbol) :
    progress.through (front ++ back) = (progress.through front).bind (·.through back) :=
  List.foldlM_append ..

theorem Progress.through_cons (progress : Progress) (symbol : Symbol) (back : List Symbol) :
    progress.through (symbol :: back) = (progress.over symbol).bind (·.through back) := rfl

/-- The scan from where it has come to. -/
def Progress.scan (function : String) (position : Nat) (progress : Progress)
    (ahead : List Token) : Scan :=
  ArgumentCount.scan function position progress.nesting progress.count progress.fresh ahead

theorem Progress.scan_over (function : String) (position : Nat) {progress after : Progress}
    {token : Token} (h : progress.over token.symbol = some after) (rest : List Token) :
    progress.scan function position (token :: rest) = after.scan function position rest := by
  obtain ⟨nesting, count, fresh⟩ := progress
  simp only [scan]
  cases nesting with
  | zero =>
    cases fresh <;> cases hsymbol : token.symbol <;> rw [hsymbol] at h <;> cases h <;>
      simp [ArgumentCount.scan, hsymbol]
  | succ nesting =>
    cases hsymbol : token.symbol <;> rw [hsymbol] at h <;> cases h <;>
      simp [ArgumentCount.scan, hsymbol]

theorem Progress.scan_through (function : String) (position : Nat) {progress after : Progress}
    {tokens : List Token} (h : progress.through (tokens.map (·.symbol)) = some after)
    (rest : List Token) :
    progress.scan function position (tokens ++ rest) = after.scan function position rest := by
  induction tokens generalizing progress with
  | nil =>
    cases h
    rfl
  | cons token tokens ih =>
    rw [List.map_cons, through_cons, Option.bind_eq_some_iff] at h
    obtain ⟨between, hover, hthrough⟩ := h
    rw [List.cons_append, scan_over function position hover]
    exact ih hthrough

/-! ### Phrases -/

/-- Inside parentheses a balanced row of symbols changes nothing. -/
def Balanced (symbols : List Symbol) : Prop :=
  ∀ nesting count fresh, Progress.through ⟨nesting + 1, count, fresh⟩ symbols =
    some ⟨nesting + 1, count, fresh⟩

/-- A phrase is balanced, and outside parentheses it belongs to one argument. -/
structure Phrase (symbols : List Symbol) : Prop where
  balanced : Balanced symbols
  counted : ∀ count fresh, Progress.through ⟨0, count, fresh⟩ symbols =
    some ⟨0, if fresh then count + 1 else count, false⟩

/-- The symbols that no counting looks at. -/
def isPlain : Symbol → Bool
  | .openParen | .closeParen | .comma | .finish => false
  | _ => true

theorem Balanced.nil : Balanced [] := fun _ _ _ => rfl

theorem Balanced.append {front back : List Symbol} (hfront : Balanced front)
    (hback : Balanced back) : Balanced (front ++ back) := by
  intro nesting count fresh
  rw [Progress.through_append, hfront, Option.bind_some, hback]

theorem Balanced.comma : Balanced [.comma] := fun _ _ _ => rfl

theorem Balanced.parenthesized {inner : List Symbol} (h : Balanced inner) :
    Balanced (.openParen :: inner ++ [.closeParen]) := by
  intro nesting count fresh
  have hinner := h (nesting + 1) count fresh
  rw [List.cons_append, Progress.through_cons]
  change Progress.through ⟨nesting + 1 + 1, count, fresh⟩ (inner ++ [.closeParen]) = _
  rw [Progress.through_append, hinner]
  rfl

theorem Phrase.single (symbol : Symbol) (h : isPlain symbol = true) : Phrase [symbol] := by
  constructor
  · intro nesting count fresh
    cases symbol <;> first | rfl | cases h
  · intro count fresh
    cases symbol <;> first | rfl | cases h

theorem Phrase.append {front back : List Symbol} (hfront : Phrase front)
    (hback : Phrase back) : Phrase (front ++ back) := by
  refine ⟨hfront.balanced.append hback.balanced, fun count fresh => ?_⟩
  rw [Progress.through_append, hfront.counted, Option.bind_some, hback.counted]
  rfl

/-- An operator between two phrases. -/
theorem Phrase.infixed {left right : List Symbol} (hleft : Phrase left) {symbol : Symbol}
    (h : isPlain symbol = true) (hright : Phrase right) : Phrase (left ++ symbol :: right) :=
  hleft.append ((Phrase.single symbol h).append hright)

theorem Phrase.parenthesized {inner : List Symbol} (h : Balanced inner) :
    Phrase (.openParen :: inner ++ [.closeParen]) := by
  refine ⟨h.parenthesized, fun count fresh => ?_⟩
  have hinner := h 0 (if fresh then count + 1 else count) false
  rw [List.cons_append, Progress.through_cons]
  change Progress.through ⟨0 + 1, _, false⟩ (inner ++ [.closeParen]) = _
  rw [Progress.through_append, hinner]
  rfl

theorem isPlain_of_isComparison {symbol : Symbol} (h : symbol.isComparison = true) :
    isPlain symbol = true := by
  cases symbol <;> first | rfl | cases h

/-! ### Arguments -/

section Arguments

variable {arguments : List (List Symbol)} (h : ∀ argument ∈ arguments, Phrase argument)

include h

theorem balanced_later : Balanced (arguments.flatMap (.comma :: ·)) := by
  induction arguments with
  | nil => exact .nil
  | cons first others ih =>
    obtain ⟨hfirst, hothers⟩ := List.forall_mem_cons.mp h
    rw [List.flatMap_cons]
    exact (Balanced.comma.append hfirst.balanced).append (ih hothers)

/-- What stands between the parentheses of a call is balanced, commas included. -/
theorem balanced_separated : Balanced (separated arguments) := by
  cases arguments with
  | nil => exact .nil
  | cons first others =>
    obtain ⟨hfirst, hothers⟩ := List.forall_mem_cons.mp h
    rw [separated_cons_eq]
    exact hfirst.balanced.append (balanced_later hothers)

/-- Every comma after the first argument is followed by one more. -/
theorem through_later (count : Nat) :
    Progress.through ⟨0, count, false⟩ (arguments.flatMap (.comma :: ·)) =
      some ⟨0, count + arguments.length, false⟩ := by
  induction arguments generalizing count with
  | nil => rfl
  | cons first others ih =>
    obtain ⟨hfirst, hothers⟩ := List.forall_mem_cons.mp h
    rw [List.flatMap_cons]
    change Progress.through ⟨0, count, true⟩ (first ++ others.flatMap (.comma :: ·)) = _
    rw [Progress.through_append, hfirst.counted, Option.bind_some, if_pos rfl,
      ih hothers (count + 1), List.length_cons, Nat.add_assoc, Nat.add_comm 1]

/-- Where the arguments of a call end, as many were counted as are written; another one
would begin there only if there was none. -/
theorem through_separated :
    Progress.through ⟨0, 0, true⟩ (separated arguments) =
      some ⟨0, arguments.length, arguments.isEmpty⟩ := by
  cases arguments with
  | nil => rfl
  | cons first others =>
    obtain ⟨hfirst, hothers⟩ := List.forall_mem_cons.mp h
    rw [separated_cons_eq, Progress.through_append, hfirst.counted, Option.bind_some, if_pos rfl,
      through_later hothers, Nat.zero_add, Nat.add_comm]
    rfl

/-- The scan of a call counts its arguments and stops at the parenthesis that closes it. -/
theorem ofTokens_eq_ok (function : String) (position : Nat) {inner rest : List Token}
    {closing : Token} (hinner : inner.map (·.symbol) = separated arguments)
    (hclosing : closing.symbol = .closeParen) :
    ofTokens function position (inner ++ closing :: rest) =
      .ok (arguments.length, closing :: rest) := by
  have hthrough := through_separated h
  rw [← hinner] at hthrough
  refine (Progress.scan_through function position hthrough (closing :: rest)).trans ?_
  simp only [Progress.scan, scan, hclosing]
  cases arguments with
  | nil => rfl
  | cons first others => rfl

end Arguments

/-! ### Trees -/

mutual

theorem phrase_comparison : ∀ tree : Comparison, Phrase tree.yield
  | .plain operand => phrase_sum operand
  | .compared left _ right valid =>
    (phrase_sum left).infixed (isPlain_of_isComparison valid) (phrase_sum right)

theorem phrase_sum : ∀ tree : Sum, Phrase tree.yield
  | .plain operand => phrase_product operand
  | .added left right => (phrase_sum left).infixed rfl (phrase_product right)
  | .subtracted left right => (phrase_sum left).infixed rfl (phrase_product right)

theorem phrase_product : ∀ tree : Product, Phrase tree.yield
  | .plain operand => phrase_factor operand
  | .multiplied left right => (phrase_product left).infixed rfl (phrase_factor right)
  | .divided left right => (phrase_product left).infixed rfl (phrase_factor right)

theorem phrase_factor : ∀ tree : Factor, Phrase tree.yield
  | .positive operand =>
    (Phrase.single .plus rfl).append (phrase_factor operand)
  | .negative operand =>
    (Phrase.single .minus rfl).append (phrase_factor operand)
  | .number _ => .single _ rfl
  | .group inner => .parenthesized (phrase_comparison inner).balanced
  | .named _ => .single _ rfl
  | .call name arguments =>
    (Phrase.single (.name name) rfl).append
      (.parenthesized (balanced_separated (phrase_arguments arguments)))

theorem phrase_arguments : ∀ arguments : Arguments, ∀ argument ∈ arguments.yields,
    Phrase argument
  | .nil => nofun
  | .value first rest =>
    List.forall_mem_cons.mpr ⟨phrase_comparison first, phrase_arguments rest⟩
  | .text first rest =>
    List.forall_mem_cons.mpr ⟨.single (.quoted first) rfl, phrase_arguments rest⟩

end

theorem length_yields : ∀ arguments : Arguments, arguments.yields.length = arguments.quotes.length
  | .nil => rfl
  | .value _ rest => congrArg (· + 1) (length_yields rest)
  | .text _ rest => congrArg (· + 1) (length_yields rest)

/-- The scan of a call whose arguments have a tree. -/
theorem ofTokens_eq_ok_of_tree (function : String) (position : Nat) {arguments : Arguments}
    {ahead : List Token} {rest : List Symbol}
    (h : ahead.map (·.symbol) = separated arguments.yields ++ .closeParen :: rest) :
    ∃ closing, ofTokens function position ahead = .ok (arguments.quotes.length, closing) := by
  obtain ⟨inner, closing, rfl, hinner, hclosing⟩ := List.map_eq_append_iff.mp h
  obtain ⟨token, tail, rfl, htoken, -⟩ := List.map_eq_cons_iff.mp hclosing
  rw [ofTokens_eq_ok (phrase_arguments arguments) function position hinner htoken, length_yields]
  exact ⟨_, rfl⟩

end DerivedTelemetry.ArgumentCount
