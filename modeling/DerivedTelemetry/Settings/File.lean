import DerivedTelemetry.Record.Decode
import DerivedTelemetry.Settings.EnvironmentVariable
import DerivedTelemetry.Settings.Toml
import DerivedTelemetry.Settings.Yaml

/-!
# Loading settings

Settings come in layers, each a list of members: the standard settings, files, and
the environment.  A later layer decides over an earlier one, member by member, so that
a value which is no setting does no harm when a later layer replaces it.  A file that
cannot be read at all refuses the whole load.
-/

namespace DerivedTelemetry

/-- How a file writes settings down. -/
inductive SettingsFormat where
  | toml
  | yaml
  | json
  deriving DecidableEq

namespace SettingsFormat

def ofExtension? : String → Option SettingsFormat
  | "toml" => some .toml
  | "yaml" | "yml" => some .yaml
  | "json" => some .json
  | _ => none

/-- The members that the text of a file gives. -/
def read? : SettingsFormat → String → Option (List (String × Json))
  | .toml, text => Toml.read? text
  | .yaml, text => Yaml.read? text
  | .json, text => match Json.parse? text with
    | some (.object members) => some members
    | _ => none

/-- The layer of a file.  A file that is not there gives no members. -/
def layer (format : SettingsFormat) : Option String → Except Fault (List (String × Json))
  | none => .ok []
  | some text => match format.read? text with
    | some members => .ok members
    | none => .error (.setting .unreadable)

end SettingsFormat

/-- What follows the last point in the last part of a path, if something stands
before that point. -/
def fileExtension? (path : String) : Option String :=
  let parts := (path.toList.splitOn '/').filter fun part => part ≠ [] ∧ part ≠ ['.']
  let name := parts.getLast?.getD []
  let reversed := name.reverse.takeWhile (· != '.')
  let stem := name.take (name.length - (reversed.length + 1))
  if name = ['.', '.'] ∨ stem = [] then none else some (String.ofList reversed.reverse)

namespace Settings

/-- The settings that the layers give together, from the earliest to the latest. -/
def ofLayers (layers : List (List (String × Json))) : Except Fault Settings :=
  match Record.settings? (.object layers.flatten) with
  | some settings => settings.checked
  | none => .error (.setting .unreadable)

/-- Settings from one file, in the format that its extension names. -/
def ofFile (path : String) (text : Option String) : Except Fault Settings := do
  let extension ← (fileExtension? path).elim (.error (.setting .noExtension)) .ok
  match SettingsFormat.ofExtension? extension with
  | some format => ofLayers [← format.layer text]
  | none => .error (.setting (.unknownExtension extension))

/-- Settings from the files at their usual places and from the environment. -/
def ofSources (toml yaml : Option String) (environment : List (String × String)) :
    Except Fault Settings := do
  let toml ← SettingsFormat.toml.layer toml
  let yaml ← SettingsFormat.yaml.layer yaml
  ofLayers [toml, yaml, EnvironmentVariable.members environment]

end Settings

end DerivedTelemetry
