import StreamTypes.Config.Basic
import StreamTypes.Config.Error
import StreamTypes.Yaml.Value

/-!
# Reading configuration files

A configuration is a YAML mapping, which a loader finds in a text. Of two faults the one
of the outer mapping is reported, and of two in the same mapping the one that is checked
first: unknown fields, then each field in a fixed order.

## Main definitions

- `Config.ofValue?` — the settings that a value describes
- `Config.ofText?` — the settings that a text describes
- `Config.ofFile?` — the settings in a file
-/

namespace StreamTypes

namespace Config

/-- The value of a field. -/
def field? (entries : List (Yaml.Scalar × Yaml.Value)) (name : String) : Option Yaml.Value :=
  (entries.find? fun entry => entry.1.isText name).map Prod.snd

/-- The fields that are not among the known ones, as they are shown, in order; nothing if
one of them cannot be shown. -/
def unknownFields? (known : List String) (entries : List (Yaml.Scalar × Yaml.Value)) :
    Option (List WideText) :=
  let unknown := entries.filter fun entry => !known.any fun name => entry.1.isText name
  let names := unknown.mapM fun entry => entry.1.display?
  names.map fun names => names.mergeSort WideText.precedes

/-- The entries of a mapping that has no unknown fields. -/
def knownEntries? (part : ConfigPart) (known : List String) (value : Yaml.Value) :
    Except SettingsFault (List (Yaml.Scalar × Yaml.Value)) :=
  match value with
  | .mapping entries =>
    match unknownFields? known entries with
    | some [] => .ok entries
    | some names => .error (.unknownFields part names)
    | none => .error .unshownField
  | _ => .error (.notMapping part)

/-- What the value of a field is read as, or the standard one if there is no such field. -/
def fieldOr {α : Type} (entries : List (Yaml.Scalar × Yaml.Value)) (name : String)
    (standard : α) (read : Yaml.Value → Except SettingsFault α) : Except SettingsFault α :=
  match field? entries name with
  | none => .ok standard
  | some value => read value

/-- The text that a field of the graph holds. -/
def text? (name : String) : Yaml.Value → Except SettingsFault WideText
  | .scalar (.str s) => .ok s
  | _ => .error (.textType name)

/-- How deep expressions may nest. -/
def depth? : Yaml.Value → Except SettingsFault Int
  | .scalar (.int n) => if n < 1 then .error .depthRange else .ok n
  | _ => .error .depthType

/-- Whether cluster boundaries are drawn. -/
def clusters? : Yaml.Value → Except SettingsFault Bool
  | .scalar (.bool b) => .ok b
  | _ => .error .clustersType

/-- The presentation settings that a value describes. -/
def dotOptions? (value : Yaml.Value) : Except SettingsFault DotOptions := do
  let standard : DotOptions := {}
  let entries ← knownEntries? .graph ["name", "rankdir", "fontname", "clusters"] value
  let graphName ← fieldOr entries "name" standard.graphName (text? "name")
  let rankdir ← fieldOr entries "rankdir" (.ofString standard.rankdir.name) (text? "rankdir")
  let fontname ← fieldOr entries "fontname" standard.fontname (text? "fontname")
  let clusters ← fieldOr entries "clusters" standard.clusters clusters?
  -- The name of the direction is looked at when all types are right.
  if RankDir.ofName? rankdir = none then throw (.unknownDirection rankdir)
  -- It is looked at once more when the settings are put together.
  match DotOptions.ofNames? graphName rankdir fontname clusters with
  | .error name => throw (.refusedDirection name)
  | .ok options => return options

/-- The settings that a value describes; nothing describes the standard ones. -/
def ofValue? (value : Yaml.Value) : Except SettingsFault Config :=
  match value with
  | .scalar .null => .ok {}
  | _ => do
    let entries ← knownEntries? .whole ["max-depth", "graph"] value
    let maxDepth ← fieldOr entries "max-depth" Peg.defaultMaxDepth depth?
    let render ← fieldOr entries "graph" {} dotOptions?
    return ⟨maxDepth, render⟩

/-- The settings that a text describes, which a label names in messages. -/
def ofText? (load : Yaml.Loader) (label text : String) : Except LoadFault Config :=
  match load text with
  | .error (.notYaml reason) => .error (.rejected (.notYaml label reason))
  | .error (.fault fault) => .error (.valueless fault)
  | .ok value =>
    match ofValue? value with
    | .error fault => .error (.ofSettings label fault)
    | .ok config => .ok config

/-- The settings in the file at a path, of which the contents or a fault is given. -/
def ofFile? (load : Yaml.Loader) (path : Path) (contents : Except FileFault (List UInt8)) :
    Except LoadFault Config :=
  match contents with
  | .error .missing => .error (.rejected (.missing path))
  | .error .nulInPath => .error .nulInPath
  | .error fault => .error (.rejected (.unreadable path fault))
  | .ok bytes =>
    match Text.Utf8.decode? bytes with
    | .error fault => .error (.notText fault)
    | .ok text => ofText? load path.text (String.ofList (Text.unifiedLines text.toList))

/-- The name of the configuration file of a directory. -/
def fileName : String :=
  ".rivertype.yaml"

end Config

end StreamTypes
