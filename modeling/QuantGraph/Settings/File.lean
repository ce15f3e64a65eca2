import QuantGraph.Settings
import QuantGraph.Toml.Document

namespace QuantGraph.Settings

open Toml (Value Entries)

/-! Settings in a file: reading them, finding the file, and writing them. -/

/-- The name of the section that the settings are in. They may also stand outside
of any section. -/
def sectionName : String := "low-precision"

def updatePrecisionsKey : String := "update_precisions"

def supportAsymmetricKey : String := "support_asymmetric_quantization"

def activationPrecisionsKey : String := "precisions_on_activations"

def disabledTransformationsKey : String := "disabled_transformations"

/-! ## Reading -/

/-- The setting under a key: absent without the key, and refused if its value
has the wrong type. -/
def setting? (read : Value → Option β) (key : String) (entries : Entries) : Option (Option β) :=
  match entries.lookup key with
  | some value => (read value).map some
  | none => some none

/-- The settings in a table; none if one of them has the wrong type. Other keys
do not matter. -/
def ofEntries? (entries : Entries) : Option Settings := do
  return {
    updatePrecisions := ← setting? Value.boolean? updatePrecisionsKey entries
    supportAsymmetric := ← setting? Value.boolean? supportAsymmetricKey entries
    activationPrecisions := ← setting? Value.texts? activationPrecisionsKey entries
    disabledTransformations := ← setting? Value.texts? disabledTransformationsKey entries }

/-- The settings in the value of the section. Besides a table that may be an array,
which gives a value to every setting in order and may go on behind them, and a
date or a time, which sets nothing. -/
def ofSection? : Value → Option Settings
  | .table _ entries => ofEntries? entries
  | .array (updatePrecisions :: supportAsymmetric :: activationPrecisions ::
      disabledTransformations :: _) => do
      return {
        updatePrecisions := ← updatePrecisions.boolean?
        supportAsymmetric := ← supportAsymmetric.boolean?
        activationPrecisions := ← activationPrecisions.texts?
        disabledTransformations := ← disabledTransformations.texts? }
  | .moment => some {}
  | _ => none

/-- The settings in a document. If it has the section, only that counts. Settings
outside of it are dropped, all of them, if one has the wrong type. -/
def ofDocument (root : Entries) : Except SettingsError Settings :=
  match root.lookup sectionName with
  | none => .ok ((ofEntries? root).getD {})
  | some value =>
      match ofSection? value with
      | some settings => .ok settings
      | none => .error .malformed

/-- The settings in a text. -/
def parse (text : List Char) : Except SettingsError Settings :=
  match Toml.parse? text with
  | some root => ofDocument root
  | none => .error .malformed

/-- The settings in a file, given by its text if there is one. -/
def load (file : Option String) : Except SettingsError Settings :=
  match file with
  | some text => parse text.toList
  | none => .error .missingFile

/-- The settings in the first of some files that exists. -/
def find (files : List (Option String)) : Except SettingsError (Option Settings) :=
  match files.findSome? id with
  | some text => some <$> parse text.toList
  | none => .ok none

/-! ## Writing -/

def listText (names : List String) : List Char :=
  let quoted := names.map fun name => Toml.Quoted.write name.toList
  match quoted with
  | [] => ['[', ']']
  | [name] => '[' :: name ++ [']']
  | several => "[\n".toList ++ several.flatMap (fun name => "    ".toList ++ name ++ ",\n".toList)
      ++ [']']

def booleanText (value : Bool) : List Char := (toString value).toList

/-- The line of one setting, if it is set. -/
def lineText (key : String) (write : β → List Char) : Option β → List Char
  | some value => key.toList ++ " = ".toList ++ write value ++ ['\n']
  | none => []

/-- The text of a file with the settings in a table of their own. -/
def fileText (settings : Settings) : List Char :=
  '[' :: sectionName.toList ++ "]\n".toList ++
    lineText updatePrecisionsKey booleanText settings.updatePrecisions ++
    lineText supportAsymmetricKey booleanText settings.supportAsymmetric ++
    lineText activationPrecisionsKey listText settings.activationPrecisions ++
    lineText disabledTransformationsKey listText settings.disabledTransformations

end QuantGraph.Settings
