import Stencil.Cache

/-!
# The engine

An engine renders templates in files. It has one loader for each output format, and if it is a caching one, a cache for
each. Text that is given directly is rendered like a file of the default format; it has the name `(string)`.
-/

namespace Stencil

/-- How templates are found, cached and rendered. -/
structure Engine where
  roots : List String
  markup : Markup
  extension : String
  defaultFormat : String
  caching : Bool
  escape : String → String
  strict : Bool
  caches : Bindings Cache

namespace Engine

variable {σ α : Type}

/-- The origin of text that is given directly. -/
def directName : String := "(string)"

/-- Where the files of a format are looked for. -/
def files (e : Engine) (format : String) : FileLoader := ⟨e.roots, format, e.extension, e.markup⟩

/-- The cache of a format. -/
def cache (e : Engine) (format : String) : Cache := (Bindings.get? e.caches format).getD .empty

/-- A load with the loader of a format. What it does to the cache of the format is kept. -/
def withLoader (tree : FileTree) (format : String) (x : Loader Cache → Load Cache α) : Load Engine α :=
  ExceptT.mk fun s =>
    let files := s.state.files format
    let loader := if s.state.caching then files.cachedLoader tree else files.loader tree
    let (result, t) := (x loader).run.run ⟨s.state.cache format, s.warnings⟩
    (result, ⟨{ s.state with caches := Bindings.set format t.state s.state.caches }, t.warnings⟩)

/-- A context to render in. -/
def context (e : Engine) (target : String → Option Value) (locals : Bindings Value) : Context :=
  .fresh target locals e.escape e.strict

/-- The template of a name in a format. -/
def template (tree : FileTree) (name format : String) : Load Engine Template :=
  withLoader tree format fun loader => loader.template name

/-- Renders the template of a name in a format. -/
def renderFormat (tree : FileTree) (name format : String) (target : String → Option Value) (locals : Bindings Value) :
    Load Engine String := do
  let e := (← get).state
  withLoader tree format fun loader => return (← (loader.render name).runFrom (e.context target locals)).1

/-- Renders the template of a name in the default format. -/
def render (tree : FileTree) (name : String) (target : String → Option Value) (locals : Bindings Value) :
    Load Engine String := do
  renderFormat tree name (← get).state.defaultFormat target locals

/-- Renders text. -/
def renderText (tree : FileTree) (text : String) (target : String → Option Value) (locals : Bindings Value) :
    Load Engine String := do
  let e := (← get).state
  withLoader tree e.defaultFormat fun loader => do
    let t ← Template.compile loader.toSources (.inMemory directName text)
    return (← (t.render loader).runFrom (e.context target locals)).1

/-- The source of a name in the default format, in another markup. -/
def convert (e : Engine) (tree : FileTree) (name : String) (goal : Markup) : Except Error String := do
  let source ← (e.files e.defaultFormat).read tree name
  source.convert e.markup goal

/-- Text in another markup. -/
def convertText (e : Engine) (text : String) (goal : Markup) : Except Error String :=
  (Source.inMemory directName text).convert e.markup goal

/-- There is a file for the template of a name in a format below a directory. -/
def hasFile (e : Engine) (tree : FileTree) (root name format : String) : Bool :=
  tree.isFile (joinPath root ((e.files format).fileName name))

/-- Another extension. All caches are dropped. -/
def withExtension (e : Engine) (extension : String) : Engine := { e with extension, caches := [] }

/-- Another default format. -/
def withDefaultFormat (e : Engine) (format : String) : Engine := { e with defaultFormat := format }

/-- The engine as messages show it. -/
def describe (e : Engine) : String :=
  "Engine \x7b roots: " ++ Text.quotedList e.roots ++ ", extension: " ++ Text.quoted e.extension ++
    ", default_format: " ++ Text.quoted e.defaultFormat ++ ", caching: " ++ (if e.caching then "true" else "false") ++
    ", missing: " ++ (if e.strict then "Strict" else "Empty") ++ ", .. \x7d"

end Engine

end Stencil
