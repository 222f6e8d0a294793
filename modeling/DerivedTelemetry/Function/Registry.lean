import DerivedTelemetry.Function.Math
import DerivedTelemetry.Function.Statistics
import DerivedTelemetry.Function.Strategy

/-!
# The function registry

Functions are registered under a name and looked up without regard to the case of
its ASCII letters.  Registering a name again replaces the function, and what was
there before is handed back.  The listings are in the order of the names as they
were registered, so they do not depend on the order of registration.
-/

namespace DerivedTelemetry

inductive Category where
  | math
  | logic
  | statistical
  deriving DecidableEq

/-- The categories in the order of the listings. -/
def Category.all : List Category := [.math, .logic, .statistical]

def Category.toText : Category → String
  | .math => "Math"
  | .logic => "Logic"
  | .statistical => "Statistical"

/-- How an argument of a statistical function is written: as an expression, or as a
quoted string that stands for itself. -/
inductive ArgumentKind where
  | number
  | literal
  deriving DecidableEq

def ArgumentKind.toText : ArgumentKind → String
  | .number => "Number"
  | .literal => "Literal"

/-- How a function works.  The first literal of a statistical signature is the
variable, the second the code of the window. -/
inductive Implementation where
  | numeric (arity : Arity) (function : Math.NumericFunction)
  | lazy (arity : Arity) (strategy : Strategy)
  | statistical (signature : List ArgumentKind) (reduction : Statistics.Reduction)

def Implementation.arity : Implementation → Arity
  | .numeric arity _ => arity
  | .lazy arity _ => arity
  | .statistical signature _ => .exact signature.length

def Implementation.toText : Implementation → String
  | .numeric arity _ => "Numeric(" ++ arity.toText ++ ")"
  | .lazy arity _ => "Lazy(" ++ arity.toText ++ ")"
  | .statistical signature _ =>
    "Statistical([" ++ String.intercalate ", " (signature.map (·.toText)) ++ "])"

/-- A registered function. -/
structure Entry where
  name : String
  category : Category
  description : String
  implementation : Implementation

def Entry.arity (entry : Entry) : Arity := entry.implementation.arity

/-- What documentation shows of a function. -/
structure FunctionInfo where
  name : String
  category : Category
  description : String
  arity : String
  deriving DecidableEq

def Entry.info (entry : Entry) : FunctionInfo :=
  ⟨entry.name, entry.category, entry.description, entry.arity.toText⟩

/-- The form of a name that look-up compares. -/
def nameKey (name : String) : List Char := name.toList.map Char.toLower

/-- Registered functions, at most one for each key. -/
structure Registry where
  entries : List Entry

namespace Registry

def empty : Registry := ⟨[]⟩

/-- The function of a name, in whatever case. -/
def lookup? (registry : Registry) (name : String) : Option Entry :=
  registry.entries.find? fun entry => nameKey entry.name == nameKey name

theorem lookup?_congr (registry : Registry) {name typed : String}
    (h : nameKey name = nameKey typed) : registry.lookup? name = registry.lookup? typed := by
  rw [lookup?, lookup?, h]

def contains (registry : Registry) (name : String) : Bool :=
  (registry.lookup? name).isSome

def size (registry : Registry) : Nat := registry.entries.length

/-- Puts an entry in the place of the one with its key, or at the end. -/
def put (entry : Entry) : List Entry → List Entry
  | [] => [entry]
  | other :: rest =>
    if nameKey other.name == nameKey entry.name then entry :: rest
    else other :: put entry rest

def register (registry : Registry) (entry : Entry) : Registry :=
  ⟨put entry registry.entries⟩

theorem find?_put (entry : Entry) (key : List Char) (entries : List Entry) :
    (put entry entries).find? (fun other => nameKey other.name == key) =
      if nameKey entry.name = key then some entry
      else entries.find? fun other => nameKey other.name == key := by
  induction entries with
  | nil => by_cases h : nameKey entry.name = key <;> simp [put, h]
  | cons other rest ih =>
    by_cases same : nameKey other.name = nameKey entry.name
    · by_cases h : nameKey entry.name = key <;> simp [put, same, h]
    · by_cases h : nameKey other.name = key
      · subst h
        simp [put, same, Ne.symm same]
      · simp [put, same, h, ih]

/-- The last function registered under a key is the one that is found. -/
theorem lookup?_register (registry : Registry) (entry : Entry) (name : String) :
    (registry.register entry).lookup? name =
      if nameKey entry.name = nameKey name then some entry else registry.lookup? name :=
  find?_put entry (nameKey name) registry.entries

/-- Registers functions in order, and answers what each of them replaced. -/
def registerAll (registry : Registry) : List Entry → List (Option Entry) × Registry
  | [] => ([], registry)
  | entry :: rest =>
    let (replaced, final) := (registry.register entry).registerAll rest
    (registry.lookup? entry.name :: replaced, final)

/-- In the order of the names, character by character. -/
def sortedByName (infos : List FunctionInfo) : List FunctionInfo :=
  infos.mergeSort fun a b => decide (a.name ≤ b.name)

def functions (registry : Registry) : List FunctionInfo :=
  sortedByName (registry.entries.map (·.info))

/-- The functions of one category. -/
def ofCategory (registry : Registry) (category : Category) : List FunctionInfo :=
  sortedByName ((registry.entries.map (·.info)).filter fun info => info.category = category)

/-- The functions of each category that has any. -/
def byCategory (registry : Registry) : List (Category × List FunctionInfo) :=
  (Category.all.map fun category => (category, registry.ofCategory category)).filter
    fun group => !group.2.isEmpty

end Registry

end DerivedTelemetry
