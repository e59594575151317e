import StreamTypes.Dot
import StreamTypes.Files.Tree
import StreamTypes.Yaml.Failure

/-!
# Faults of configuration files

## Main definitions

- `SettingsFault` — what is wrong with the value of a file
- `ConfigError` — why a file is rejected
- `LoadFault` — why there are no settings, which includes what a file is not
  rejected for
-/

namespace StreamTypes

/-- The two mappings of a configuration. -/
inductive ConfigPart where
  | whole
  | graph
  deriving DecidableEq, Repr

/-- What is wrong with the value of a configuration file. -/
inductive SettingsFault where
  | notMapping (part : ConfigPart)
  /-- There are fields of no meaning. -/
  | unknownFields (part : ConfigPart) (names : List WideText)
  /-- The name of a field of no meaning is a number with too many digits to be shown. -/
  | unshownField
  | depthType
  | depthRange
  /-- A field of the graph is not a text. -/
  | textType (field : String)
  | clustersType
  | unknownDirection (name : WideText)
  /-- The name of a direction is refused by the settings that are put together. -/
  | refusedDirection (name : WideText)
  deriving DecidableEq, Repr

/-- What is wrong with a file that a label names. -/
def SettingsFault.message (label : String) : SettingsFault → String
  | .notMapping .whole => label ++ ": config must be a YAML mapping"
  | .notMapping .graph => label ++ ": graph must be a YAML mapping"
  | .unknownFields part names =>
    label ++ (if part = .graph then ": graph" else "") ++ ": unknown field(s) " ++
      String.intercalate ", " (names.map Text.quotedWide)
  | .unshownField =>
    "Exceeds the limit (" ++ Nat.repr Text.numeralLimit ++
      " digits) for integer string conversion; use sys.set_int_max_str_digits() to increase " ++
      "the limit"
  | .depthType => label ++ ": 'max-depth' must be an integer"
  | .depthRange => label ++ ": 'max-depth' must be at least 1"
  | .textType field => label ++ ": graph: '" ++ field ++ "' must be a string"
  | .clustersType => label ++ ": graph: 'clusters' must be a boolean"
  | .unknownDirection name => label ++ ": graph: 'rankdir' " ++ RankDir.complaint name
  | .refusedDirection name => "rankdir " ++ RankDir.complaint name

/-- Why a configuration file is rejected. -/
inductive ConfigError where
  | missing (path : Path)
  | unreadable (path : Path) (fault : FileFault)
  | notYaml (label reason : String)
  | settings (label : String) (fault : SettingsFault)
  deriving DecidableEq, Repr

/-- Why a file is rejected, in words. -/
def ConfigError.message : ConfigError → String
  | .missing path => "Config file not found: " ++ path.text
  | .unreadable path fault => "Cannot read config file: " ++ fault.message path
  | .notYaml label reason => "Invalid YAML in " ++ label ++ ": " ++ reason
  | .settings label fault => fault.message label

/-- Why there are no settings. -/
inductive LoadFault where
  | rejected (error : ConfigError)
  | notText (fault : Text.Utf8.Fault)
  /-- Something in the file has the form of a value but is none. -/
  | valueless (fault : Yaml.ValueFault)
  /-- The name of a field cannot be shown. -/
  | unshownField
  | nulInPath
  deriving DecidableEq, Repr

/-- Why there are no settings if something is wrong with the value of a file. -/
def LoadFault.ofSettings (label : String) : SettingsFault → LoadFault
  | .unshownField => .unshownField
  | .refusedDirection name =>
    .valueless (.refused ((SettingsFault.refusedDirection name).message label))
  | fault => .rejected (.settings label fault)

/-- Why there are no settings, in words. -/
def LoadFault.message : LoadFault → String
  | .rejected error => error.message
  | .notText fault => fault.message
  | .valueless fault => fault.message
  | .unshownField => SettingsFault.unshownField.message ""
  | .nulInPath => "embedded null byte"

end StreamTypes
