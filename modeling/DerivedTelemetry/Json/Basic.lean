import DerivedTelemetry.Binary64.Basic

/-!
# JSON values

Numbers keep the distinction between whole numbers, which are exact as long as
they fit 64 bits, and all others, which are doubles.  Objects keep their members in the
order in which they were read; of members with one name the last counts.
-/

namespace DerivedTelemetry

inductive Json where
  | null
  | bool (value : Bool)
  | whole (value : Int)
  | double (value : Binary64.Parts)
  | text (value : String)
  | array (items : List Json)
  | object (members : List (String × Json))
  deriving Inhabited

namespace Json

/-- Whole numbers in this range are exact: signed and unsigned words together. -/
def IsWord (n : Int) : Prop := -(twoTo 63 : Int) ≤ n ∧ n < twoTo 64

instance (n : Int) : Decidable (IsWord n) := inferInstanceAs (Decidable (_ ∧ _))

/-- The value that an object has under a name. -/
def member? (members : List (String × Json)) (name : String) : Option Json :=
  (members.reverse.find? fun entry => entry.1 == name).map (·.2)

/-- The member of an object; nothing else has members. -/
def get? (value : Json) (name : String) : Option Json :=
  match value with
  | .object members => member? members name
  | _ => none

end Json

end DerivedTelemetry
