import Lox.Field
import Lox.Text.Characters
import Lox.Text.Input
import Lox.Toml.Document

/-!
# Settings

Settings are stacked in layers. Each layer is entered over the ones below it,
whatever these say, and what comes of it is checked once; a field that no layer
names has its default. The layers are, from the top: the environment, the file
of this tool, and its section in the file that describes a whole project.
-/
namespace Lox

/-- How much is logged. -/
inductive LogLevel where
  | critical
  | error
  | warning
  | info
  | debug
  deriving DecidableEq, Repr

namespace LogLevel

def name : LogLevel → String
  | critical => "CRITICAL"
  | error => "ERROR"
  | warning => "WARNING"
  | info => "INFO"
  | debug => "DEBUG"

def all : List LogLevel := [critical, error, warning, info, debug]

/-- A level is named in any case. -/
def ofName? (s : String) : Option LogLevel :=
  all.find? fun l => l.name == Text.Upper.upper s

/-- Notes are written at the lowest level only. -/
def showsNotes : LogLevel → Bool
  | debug => true
  | _ => false

end LogLevel

structure Settings where
  prompt : String
  logLevel : LogLevel
  color : Bool
  deriving DecidableEq

namespace Settings

def defaults : Settings := ⟨"> ", .warning, true⟩

def levelField : Datum → Field.Checked LogLevel
  | .string s =>
      match LogLevel.ofName? s with
      | some l => .ok l
      | none => .error (.unknownLevel (LogLevel.all.map LogLevel.name))
  | _ => .error .notString

/-- A field with a default. -/
def field {α : Type} (check : Datum → Field.Checked α) (default : α) :
    Option Datum → Field.Checked α
  | some d => check d
  | none => .ok default

/-- The settings that some data amount to; otherwise the issues of their fields,
in field order. -/
def ofFields (data : Fields) : Except (List Issue) Settings :=
  let prompt := field Field.string defaults.prompt (data.lookup "prompt")
  let level := field levelField defaults.logLevel (data.lookup "log_level")
  let color := field Field.boolean defaults.color (data.lookup "color")
  match prompt, level, color with
  | .ok p, .ok l, .ok c => .ok ⟨p, l, c⟩
  | _, _, _ =>
      .error (Field.issues "prompt" prompt ++ Field.issues "log_level" level ++
        Field.issues "color" color)

/-- The data of some layers, the highest layer first. -/
def merged : List Fields → Fields
  | [] => []
  | layer :: below => Fields.update (merged below) layer

/-- The settings that some layers amount to, the highest layer first. -/
def ofLayers (layers : List Fields) : Except (List Issue) Settings :=
  ofFields (merged layers)

/-- The data that amount to given settings. -/
def toFields (s : Settings) : Fields :=
  [("prompt", .string s.prompt), ("log_level", .string s.logLevel.name),
    ("color", .bool s.color)]

/-- The settings with another log level, checked once more. -/
def withLevel (s : Settings) (level : String) : Except (List Issue) Settings :=
  ofFields (Fields.put "log_level" (.string level) s.toFields)

/-- The environment variable behind each field. -/
def environmentNames : List (String × String) :=
  [("prompt", "PYLOX_PROMPT"), ("log_level", "PYLOX_LOG_LEVEL"), ("color", "PYLOX_COLOR")]

/-- The layer of the environment. -/
def ofEnvironment (env : List (String × String)) : Fields :=
  environmentNames.filterMap fun (field, name) =>
    (env.lookup name).map fun value => (field, .string value)

/-- Why settings could not be loaded. -/
inductive LoadError where
  | undecodable (e : Text.Utf8.Error)
  | malformed (file : String)
  /-- An integer of that many digits stands in a file. -/
  | oversizedInteger (digits : Nat)
  | notTable (file : String)
  | invalid (issues : List Issue)

namespace LoadError

/-- Whether the error lies in what the settings say. Otherwise a file is not text
or holds a number that cannot be taken in, and there are no settings to speak of. -/
def concernsSettings : LoadError → Bool
  | undecodable _ | oversizedInteger _ => false
  | _ => true

/-- The wording of a configuration error. -/
def message : LoadError → String
  | undecodable e => e.message
  | malformed file => file ++ ": invalid TOML"
  | oversizedInteger digits =>
      "Exceeds the limit (" ++ String.ofList (Nat.toDigits 10 Decimal.maxDigits) ++
        " digits) for integer string conversion: value has " ++
        String.ofList (Nat.toDigits 10 digits) ++
        " digits; use sys.set_int_max_str_digits() to increase the limit"
  | notTable file => file ++ ": [tool.pylox] must be a table"
  | invalid issues => String.intercalate "\n" (issues.map fun i => i.defect.message)

end LoadError

def projectFile : String := "pyproject.toml"

def ownFile : String := "pylox.toml"

/-- The table in a file; a file that is not there holds an empty one. -/
def readTable (name : String) : Option (List UInt8) → Except LoadError Fields
  | none => .ok []
  | some bytes =>
      match Text.Utf8.decode bytes with
      | .error e => .error (.undecodable e)
      | .ok cs =>
          match Toml.parse cs with
          | .error .malformed => .error (.malformed name)
          | .error (.oversizedInteger digits) => .error (.oversizedInteger digits)
          | .ok fields => .ok fields

/-- The section of this tool in a project description. -/
def projectSection (fields : Fields) : Except LoadError Fields :=
  match fields.lookup "tool" with
  | some (.table tools) =>
      match tools.lookup "pylox" with
      | none => .ok []
      | some (.table entries) => .ok entries
      | some _ => .error (.notTable projectFile)
  | _ => .ok []

/-- Loads the settings of a directory, given its two files as far as they are
there. The project file is looked at first. -/
def load (project own : Option (List UInt8)) (env : List (String × String)) :
    Except LoadError Settings := do
  let described ← readTable projectFile project
  let low ← projectSection described
  let middle ← readTable ownFile own
  (ofLayers [ofEnvironment env, middle, low]).mapError .invalid

end Settings

end Lox
