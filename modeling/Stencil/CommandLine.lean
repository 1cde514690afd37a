import Stencil.Report
import Stencil.Settings
import Stencil.Settings.Yaml

/-!
# The command line

A command line is read into an `Invocation`: options that hold for every command, and a command with its own.
Options may stand before and behind the command; the one behind it counts. `Invocation.perform` carries it out on a file
tree and gives what is to be printed.
-/

namespace Stencil.CommandLine

/-- An option, by a word, and by a letter where there is one. -/
structure Flag where
  word : String
  letter : Option Char
  /-- The option has a value. -/
  valued : Bool
  /-- The values that it may have; anything if there are none. -/
  choices : List String
  /-- The option may stand several times. -/
  repeats : Bool
  deriving DecidableEq, Repr

/-- The names of the markups. -/
def markupNames : List String := MarkupName.all.map MarkupName.name

/-- The options of every command. -/
def sharedFlags : List Flag :=
  [⟨"config", some 'c', true, [], false⟩, ⟨"root", some 'r', true, [], true⟩,
    ⟨"syntax", none, true, markupNames, false⟩, ⟨"format", some 'f', true, [], false⟩,
    ⟨"verbose", some 'v', false, [], true⟩]

/-- A data file. -/
def dataFlag : Flag := ⟨"data", some 'd', true, [], false⟩

/-- The markup to convert to. -/
def toFlag : Flag := ⟨"to", none, true, markupNames, false⟩

/-- The commands, with their own options. -/
def commands : List (String × List Flag) :=
  [("render", [dataFlag]), ("render-string", [dataFlag]), ("convert", [toFlag]), ("tokens", []), ("compile", [])]

/-- What stands on one level of a command line: the values of options in their order, and plain arguments. -/
structure Level where
  given : List (Flag × String)
  plain : List String
  deriving Repr

namespace Level

/-- Nothing. -/
def empty : Level := ⟨[], []⟩

/-- Adds the value of an option. It has to be one of the choices, and the only one unless the option repeats. -/
def add? (l : Level) (f : Flag) (value : String) : Option Level :=
  if !f.choices.isEmpty && !f.choices.contains value then none
  else if !f.repeats && l.given.any fun g => g.1 = f then none
  else some { l with given := l.given ++ [(f, value)] }

/-- The values of an option. -/
def values (l : Level) (word : String) : List String :=
  (l.given.filter fun g => g.1.word = word).map Prod.snd

end Level

/-- An argument that is not taken for the value of an option. -/
def looksLikeOption (argument : String) : Bool := argument.startsWith "-" && argument != "-"

/-- Letters of options behind a dash. The last one may have its value behind it, or in the next argument. What is left
of the arguments is given back. -/
def letters? (flags : List Flag) (level : Level) : List Char → List String → Option (Level × List String)
  | [], rest => some (level, rest)
  | c :: cs, rest => do
    let f ← flags.find? fun f => f.letter == some c
    if f.valued then
      match cs, rest with
      | [], [] => none
      | [], value :: rest => if looksLikeOption value then none else (level.add? f value).map fun l => (l, rest)
      | '=' :: cs, rest => (level.add? f (String.ofList cs)).map fun l => (l, rest)
      | cs, rest => (level.add? f (String.ofList cs)).map fun l => (l, rest)
    else letters? flags (← level.add? f "") cs rest

/-- An option by its word. -/
def word? (flags : List Flag) (level : Level) (text : List Char) (rest : List String) : Option (Level × List String) := do
  let f ← flags.find? fun f => f.word.toList == text.takeWhile (· != '=')
  match f.valued, text.dropWhile (· != '='), rest with
  | true, _ :: value, rest => (level.add? f (String.ofList value)).map fun l => (l, rest)
  | true, [], value :: rest => if looksLikeOption value then none else (level.add? f value).map fun l => (l, rest)
  | true, [], [] => none
  | false, [], rest => (level.add? f "").map fun l => (l, rest)
  | false, _ :: _, _ => none

/-- Reads a level of a command line up to the first argument that is a command. The number bounds the arguments. -/
def level? (flags : List Flag) (isCommand : String → Bool) (level : Level) :
    Nat → List String → Option (Level × List String)
  | 0, rest => some (level, rest)
  | _, [] => some (level, [])
  | count + 1, argument :: rest =>
    if argument = "--" then some ({ level with plain := level.plain ++ rest }, [])
    else match argument.toList with
      | '-' :: '-' :: text => (word? flags level text rest).bind fun (l, rest) => level? flags isCommand l count rest
      | '-' :: c :: cs =>
        (letters? flags level (c :: cs) rest).bind fun (l, rest) => level? flags isCommand l count rest
      | _ =>
        if isCommand argument then some (level, argument :: rest)
        else level? flags isCommand { level with plain := level.plain ++ [argument] } count rest

/-- What is to be done. -/
inductive Action
  | render (name : String) (data : Option String)
  | renderText (text : String) (data : Option String)
  | convert (path : String) (goal : MarkupName)
  | tokens (path : String)
  | compile (name : String)
  deriving DecidableEq, Repr

/-- A command line. -/
structure Invocation where
  config : Option String
  roots : List String
  markup : Option String
  format : Option String
  action : Action
  deriving DecidableEq, Repr

/-- The action of a command with its only plain argument. -/
def action? (command argument : String) (l : Level) : Option Action :=
  match command with
  | "render" => some (.render argument (l.values "data").head?)
  | "render-string" => some (.renderText argument (l.values "data").head?)
  | "convert" => do return .convert argument (← MarkupName.ofName? (← (l.values "to").head?))
  | "tokens" => some (.tokens argument)
  | "compile" => some (.compile argument)
  | _ => none

/-- Reads a command line. -/
def Invocation.ofArguments? (arguments : List String) : Option Invocation := do
  let isCommand := fun name => commands.any fun c => c.1 == name
  let (outer, rest) ← level? sharedFlags isCommand .empty arguments.length arguments
  match outer.plain, rest with
  | [], command :: rest =>
    let flags ← commands.lookup command
    let (inner, _) ← level? (flags ++ sharedFlags) (fun _ => false) .empty rest.length rest
    match inner.plain with
    | [argument] =>
      let shared := fun word => if (inner.values word).isEmpty then outer.values word else inner.values word
      return {
        config := (shared "config").head?
        roots := shared "root"
        markup := (shared "syntax").head?
        format := (shared "format").head?
        action := ← action? command argument inner }
    | _ => none
  | _, _ => none

/-- Why a command fails: what was tried, and why it did not work. -/
structure Failure where
  attempt : String
  reason : String
  deriving DecidableEq, Repr

/-- The wording of a failure. -/
def Failure.message (f : Failure) : String := f.attempt ++ ": " ++ f.reason

/-- A result, or a failure of an attempt. -/
def attempted {ε α : Type} (attempt : String) (message : ε → String) (x : Except ε α) : Except Failure α :=
  match x with
  | .ok a => .ok a
  | .error e => .error ⟨attempt, message e⟩

/-- The text of a file. -/
def readText (tree : FileTree) (path : String) : Except Failure String :=
  match tree.text? path with
  | some text => .ok text
  | none => .error ⟨"Error reading " ++ path, "no such text file"⟩

/-- The ending of the name of a file. -/
def ending (path : String) : String :=
  let name := (pathParts path).getLast?.getD ""
  match name.splitOn "." with
  | [] | [_] => ""
  | [_, _] => if name.startsWith "." then "" else (name.splitOn ".").getLast?.getD ""
  | parts => parts.getLast?.getD ""

/-- The locals that a data file gives: the entries of its map. -/
def readLocals (tree : FileTree) : Option String → Except Failure (Bindings Value)
  | none => .ok []
  | some path => do
    let text ← readText tree path
    let yaml := ending path = "yaml" ∨ ending path = "yml"
    match if yaml then Yaml.read? text else Json.read? text with
    | some v => return v.entries
    | none => throw ⟨if yaml then "Invalid YAML data" else "Invalid JSON data", "malformed"⟩

/-- The result of a load with a new engine. -/
def withEngine {α : Type} (s : Settings) (x : Load Engine α) : Except Error α := (x.run.run ⟨s.engine, []⟩).1

namespace Invocation

/-- Where the settings come from. -/
def layers (i : Invocation) : List SettingsLayer :=
  (i.config.toList.map fun path => .file path true) ++
    (if i.roots.isEmpty then [] else [.fixed "roots" (.list (i.roots.map .string))]) ++
    (i.markup.toList.map fun name => .fixed "syntax" (.string name)) ++
    (i.format.toList.map fun format => .fixed "default_format" (.string format))

/-- The settings. -/
def settings (i : Invocation) (tree : FileTree) : Except Failure Settings :=
  attempted "Configuration error" SettingsError.message (Settings.collect tree i.layers)

/-- Carries out an action. The result is what is to be printed. -/
def carryOut (s : Settings) (tree : FileTree) : Action → Except Failure String
  | .render name data => do
    let locals ← readLocals tree data
    attempted "Render error" Error.message (withEngine s (Engine.render tree name (fun _ => none) locals))
  | .renderText text data => do
    let locals ← readLocals tree data
    attempted "Render error" Error.message (withEngine s (Engine.renderText tree text (fun _ => none) locals))
  | .convert path goal => do
    let text ← readText tree path
    attempted "Conversion error" Error.message ((Source.inMemory path text).convert s.markup.markup goal.markup)
  | .tokens path => do
    let text ← readText tree path
    let tokens ← attempted "Lex error" Error.message ((Source.inMemory path text).tokens s.markup.markup)
    return Json.indented (.list (tokens.map Token.report)) ++ "\n"
  | .compile name => do
    let t ← attempted "Compile error" Error.message (withEngine s (Engine.template tree name s.defaultFormat))
    return Json.indented (.list (t.program.instructions.map Located.report)) ++ "\n"

/-- Carries out a command line. -/
def perform (i : Invocation) (tree : FileTree) : Except Failure String := do carryOut (← i.settings tree) tree i.action

end Invocation

/-- What a run of the program gives. -/
structure Outcome where
  code : Nat
  output : String
  complaint : String
  deriving DecidableEq, Repr

/-- What is said about a command line that cannot be read. -/
def usage : String :=
  "usage: stencil [--config FILE] [--root DIR]... [--syntax NAME] [--format FORMAT] [-v]... COMMAND\n" ++
    "commands:\n" ++
    "  render NAME [--data FILE]\n" ++
    "  render-string TEXT [--data FILE]\n" ++
    "  convert FILE --to NAME\n" ++
    "  tokens FILE\n" ++
    "  compile NAME"

/-- Runs a command line. -/
def run (tree : FileTree) (arguments : List String) : Outcome :=
  match Invocation.ofArguments? arguments with
  | none => ⟨2, "", usage⟩
  | some i =>
    match i.perform tree with
    | .ok output => ⟨0, output, ""⟩
    | .error f => ⟨1, "", f.message⟩

end Stencil.CommandLine
