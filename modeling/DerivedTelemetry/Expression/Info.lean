import DerivedTelemetry.Expression.Token

/-!
# Names in an expression

An expression refers to variables and to functions.  Each set of names is a list in
ascending order without repetition.

A name is that of a function when an opening parenthesis follows it directly, and
that of a variable otherwise.
-/

namespace DerivedTelemetry

/-- The names of variables among the symbols of an expression. -/
def bareNames : List Symbol → List String
  | .name _ :: .openParen :: rest => bareNames rest
  | .name name :: rest => name :: bareNames rest
  | _ :: rest => bareNames rest
  | [] => []

/-- The names of functions among the symbols of an expression, as they are written. -/
def calledNames : List Symbol → List String
  | .name name :: .openParen :: rest => name :: calledNames rest
  | _ :: rest => calledNames rest
  | [] => []

/-- Adds a name to an ascending list, unless it is there. -/
def insertName (name : String) : List String → List String
  | [] => [name]
  | other :: rest =>
    if name < other then name :: other :: rest
    else if name = other then other :: rest
    else other :: insertName name rest

theorem mem_insertName {name other : String} {names : List String} :
    other ∈ insertName name names ↔ other = name ∨ other ∈ names := by
  induction names with
  | nil => simp [insertName]
  | cons first rest ih =>
    simp only [insertName]
    split
    · simp
    · split
      · rename_i same
        subst same
        simp
      · simp only [List.mem_cons, ih, or_left_comm]

/-- The names that an expression refers to: variables as they are written, functions
as they are registered. -/
structure ExpressionInfo where
  variableNames : List String
  functionNames : List String
  deriving DecidableEq

namespace ExpressionInfo

def empty : ExpressionInfo := ⟨[], []⟩

def addVariable (info : ExpressionInfo) (name : String) : ExpressionInfo :=
  { info with variableNames := insertName name info.variableNames }

def addFunction (info : ExpressionInfo) (name : String) : ExpressionInfo :=
  { info with functionNames := insertName name info.functionNames }

end ExpressionInfo

end DerivedTelemetry
