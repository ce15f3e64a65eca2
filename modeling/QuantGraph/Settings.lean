import QuantGraph.NameError
import QuantGraph.Registry

namespace QuantGraph

/-! Settings of a run as a user writes them: names instead of types, and nothing
where the default is meant. -/

structure Settings where
  updatePrecisions : Option Bool := none
  supportAsymmetric : Option Bool := none
  activationPrecisions : Option (List String) := none
  /-- The kinds of operation whose transformations are left out. -/
  disabledTransformations : Option (List String) := none
  deriving DecidableEq, Repr, Inhabited

/-- Why there are no settings, or why they cannot be used. -/
inductive SettingsError where
  /-- There is no such file. -/
  | missingFile
  /-- The file is not well-formed, or a setting in it has the wrong type. -/
  | malformed
  | unknownPrecision (name : String)
  | unknownOperation (name : String)
  deriving DecidableEq, Repr

/-- The text of an error; errors of the file have none of their own. -/
def SettingsError.message? : SettingsError → Option String
  | missingFile | malformed => none
  | unknownPrecision name => some ("Configuration error: Unknown precision: " ++ name)
  | unknownOperation name => some ("Configuration error: Unknown operation type: " ++ name)

namespace Settings

def precision (name : String) : Except SettingsError ElementType :=
  match ElementType.ofName? name with
  | some elementType => .ok elementType
  | none => .error (.unknownPrecision name)

def operation (name : String) : Except SettingsError OpKind :=
  match OpKind.ofName? name with
  | some kind => .ok kind
  | none => .error (.unknownOperation name)

/-- The policy that the settings describe. The first unknown precision is the
error. -/
def resolve (settings : Settings) : Except SettingsError Policy := do
  let standard : Policy := {}
  let precisions ← match settings.activationPrecisions with
    | some names => names.mapM precision
    | none => .ok standard.activationPrecisions
  return {
    updatePrecisions := settings.updatePrecisions.getD standard.updatePrecisions
    supportAsymmetric := settings.supportAsymmetric.getD standard.supportAsymmetric
    activationPrecisions := precisions }

/-- The kinds of operation that the settings disable. The first unknown name is
the error. -/
def disabledKinds (settings : Settings) : Except SettingsError (List OpKind) :=
  (settings.disabledTransformations.getD []).mapM operation

/-- The default transformations under the policy of the settings, without those
for the disabled kinds. -/
def registry (settings : Settings) : Except SettingsError Registry := do
  let policy ← settings.resolve
  return (← settings.disabledKinds).foldl Registry.remove (Registry.all policy)

end Settings

end QuantGraph
