import Stencil.Engine
import Stencil.Settings.Toml
import Stencil.Text.Case
import Stencil.Text.Html

/-!
# Settings

The settings of an engine are collected from layers: what is built in, files, and single settings that are fixed from
outside. A later file wins over an earlier one key by key, and a fixed setting over all files. Keys that are not known
are passed over. The value of a setting may be written in another form where its meaning is plain, such as a boolean as
a word.
-/

namespace Stencil

/-- A markup that settings can name. -/
inductive MarkupName
  | firstPass
  | secondPass
  deriving DecidableEq, Repr

namespace MarkupName

/-- The names of markups. -/
def all : List MarkupName := [firstPass, secondPass]

/-- The name as it is written. -/
def name : MarkupName → String
  | firstPass => "first-pass"
  | secondPass => "second-pass"

/-- The markup that goes by the name. -/
def markup : MarkupName → Markup
  | firstPass => .firstPass
  | secondPass => .secondPass

/-- The markup of a name. -/
def ofName? (name : String) : Option MarkupName := all.find? fun m => m.name == name

end MarkupName

/-- How escaped expressions are escaped. -/
inductive EscapeMode
  | none
  | html
  deriving DecidableEq, Repr

namespace EscapeMode

/-- The modes. -/
def all : List EscapeMode := [none, html]

/-- The name as it is written. -/
def name : EscapeMode → String
  | none => "none"
  | html => "html"

/-- The text as it is escaped. -/
def apply : EscapeMode → String → String
  | none => id
  | html => Text.html

end EscapeMode

/-- The settings of an engine. -/
structure Settings where
  roots : List String
  defaultFormat : String
  extension : String
  markup : MarkupName
  cache : Bool
  escape : EscapeMode
  strict : Bool
  deriving DecidableEq, Repr

/-- Where settings come from. -/
inductive SettingsLayer
  | file (path : String) (required : Bool)
  | fixed (key : String) (value : Value)
  deriving Repr

/-- Why settings cannot be collected. -/
inductive SettingsError
  | missingFile (path : String)
  | malformedFile (path : String)
  | malformedKey (key : String)
  | unsuitable (key : String)
  deriving DecidableEq, Repr

/-- The wording of the error. -/
def SettingsError.message : SettingsError → String
  | missingFile path => "configuration file \"" ++ path ++ "\" not found"
  | malformedFile path => "configuration file \"" ++ path ++ "\" cannot be read"
  | malformedKey key => "invalid key \"" ++ key ++ "\""
  | unsuitable key => "invalid value for \"" ++ key ++ "\""

namespace Settings

/-- The settings that are built in. -/
def builtIn : Bindings Value :=
  .ofList [("roots", .list [.string "."]), ("default_format", .string "html"), ("extension", .string "tpl"),
    ("syntax", .string "first-pass"), ("cache", .bool false), ("escape", .string "html"),
    ("strict_variables", .bool false)]

/-- Doubles are positional, and whole ones have no fraction digit. -/
def layout : Number.Layout := ⟨none, false⟩

/-- A value as text. -/
def text? : Value → Option String
  | .string s => some s
  | .bool b => some (if b then "true" else "false")
  | .int n => some (toString n)
  | .float x => some (layout.write x)
  | _ => none

/-- A value as a boolean. -/
def boolean? : Value → Option Bool
  | .bool b => some b
  | .int n => some (n != 0)
  | .float x => some (x != 0)
  | .string s =>
    if ["1", "true", "on", "yes"].contains (Text.lower s) then some true
    else if ["0", "false", "off", "no"].contains (Text.lower s) then some false
    else none
  | _ => none

/-- A value as a list of texts. -/
def texts? : Value → Option (List String)
  | .list vs => vs.mapM text?
  | _ => none

/-- A value as one of several names, in letters of either case. -/
def choice? {α : Type} (choices : List α) (name : α → String) : Value → Option α
  | .string s => choices.find? fun a => name a == Text.lower s
  | _ => none

/-- The setting of a key. -/
def setting {α : Type} (values : Bindings Value) (key : String) (read : Value → Option α) : Except SettingsError α :=
  match (Bindings.get? values key).bind read with
  | some a => .ok a
  | none => .error (.unsuitable key)

/-- The settings that values of keys denote. -/
def ofValues (values : Bindings Value) : Except SettingsError Settings := do
  return {
    roots := ← setting values "roots" texts?
    defaultFormat := ← setting values "default_format" text?
    extension := ← setting values "extension" text?
    markup := ← setting values "syntax" (choice? MarkupName.all MarkupName.name)
    cache := ← setting values "cache" boolean?
    escape := ← setting values "escape" (choice? EscapeMode.all EscapeMode.name)
    strict := ← setting values "strict_variables" boolean? }

/-- The file that a path names, with the usual ending or without. -/
def locate? (tree : FileTree) (path : String) : Option String := [path, path ++ ".toml"].find? tree.isFile

/-- The values of the keys of a document that are single names. -/
def topLevel (d : Toml.Document) : List (String × Value) :=
  d.filterMap fun
    | ([key], v) => some (key, v)
    | (key :: _, _) => some (key, .map [])
    | ([], _) => none

/-- The values that a file gives. -/
def readFile (tree : FileTree) (path : String) (required : Bool) : Except SettingsError (List (String × Value)) :=
  match (locate? tree path).bind tree.text? with
  | none => if required then .error (.missingFile path) else .ok []
  | some text =>
    match Toml.read? text with
    | some d => .ok (topLevel d)
    | none => .error (.malformedFile path)

/-- A character of a key that is fixed. -/
def isKeyPart (c : Char) : Bool := Toml.isBare c || c == '.' || c == '[' || c == ']'

/-- The values that a layer gives. -/
def layerValues (tree : FileTree) : SettingsLayer → Except SettingsError (List (String × Value))
  | .file path required => readFile tree path required
  | .fixed key value => if key.isEmpty || !key.all isKeyPart then .error (.malformedKey key) else .ok [(key, value)]

/-- The layer is a file. -/
def isFile : SettingsLayer → Bool
  | .file .. => true
  | .fixed .. => false

/-- Collects settings from layers. -/
def collect (tree : FileTree) (layers : List SettingsLayer) : Except SettingsError Settings := do
  let fixed ← (layers.filter (!isFile ·)).mapM (layerValues tree)
  let files ← (layers.filter isFile).mapM (layerValues tree)
  ofValues (Bindings.merge (files ++ fixed).flatten builtIn)

/-- The engine of the settings. -/
def engine (s : Settings) : Engine :=
  ⟨s.roots, s.markup.markup, s.extension, s.defaultFormat, s.cache, s.escape.apply, s.strict, []⟩

end Settings

end Stencil
