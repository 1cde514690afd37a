import Stencil.Inheritance
import Stencil.Machine

/-!
# Templates

A source is compiled into a template: its tokens, the ancestors that it was built from, and a program.
`Template.render` runs the program in a context and takes the text that was written, so the context is left with none.

What a template includes is looked up by name through a loader and rendered in a context derived from its own. How deep
templates include one another is bounded, so rendering ends however they do it.
-/

namespace Stencil

/-- A compiled template. The parents are its ancestors, nearest first. -/
structure Template where
  name : String
  origin : String
  tokens : List Token
  parents : List Dependency
  program : Program
  deriving Repr

/-- What gives sources and compiled templates by name. -/
structure Loader (σ : Type) extends Sources σ where
  template : String → Load σ Template

/-- Converts tokens of a template of the given origin. -/
def convertTokens (goal : Markup) (origin : String) (tokens : List Token) : Except Error String :=
  match Token.convert goal tokens with
  | .ok output => .ok output
  | .error fault => .error (.conversion origin fault)

/-- The source in another markup. -/
def Source.convert (s : Source) (m goal : Markup) : Except Error String := do
  convertTokens goal s.origin (← s.tokens m)

namespace Template

variable {σ : Type}

/-- Compiles a source. Its ancestors are read from sources of the same markup. -/
def compile (sources : Sources σ) (source : Source) : Load σ Template := do
  let tokens ← Load.ofExcept (source.tokens sources.markup)
  let set ← BlockSet.build sources [source.name] source.origin (Node.ofTokens tokens)
  let (instructions, lineage) ← (set.instructions sources).runFrom set.lineage
  let program ← Load.ofExcept (Program.link source.origin instructions)
  return ⟨source.name, source.origin, tokens, lineage.ancestors.map Ancestor.dependency, program⟩

/-- The source of the template itself in another markup. -/
def convert (t : Template) (goal : Markup) : Except Error String := convertTokens goal t.origin t.tokens

/-- Runs the program and takes the text that was written, if it succeeds. -/
def renderWith (inclusion : Inclusion σ) (t : Template) : Run σ String :=
  ExceptT.mk fun start =>
    let (result, ctx, session) := (t.program.run inclusion).run.run start
    (result.map fun _ => ctx.buffer, { ctx with buffer := "" }, session)

/-- Renders the template of a name in a context derived from the present one, with further locals, and writes what it
gives. -/
def insertWith (render : Template → Run σ String) (loader : Loader σ) (name : String) (extra : Bindings Value) :
    Run σ Unit := do
  let t ← Work.ofLoad (loader.template name)
  let ctx ← Work.own
  let (output, _) ← Work.ofLoad ((render t).runFrom (ctx.derive extra))
  Work.update (·.write output)

/-- Includes the templates that a loader gives, so many levels deep. -/
def inclusion (loader : Loader σ) : Nat → Inclusion σ
  | 0, position, name, _ => throw (.render position (.includeTooDeep name))
  | levels + 1, _, name, extra => insertWith (renderWith (inclusion loader levels)) loader name extra

/-- Renders the template in a context. -/
def render (loader : Loader σ) (t : Template) : Run σ String := do
  let ctx ← Work.own
  renderWith (inclusion loader (maxIncludes - ctx.depth)) t

end Template

namespace Loader

variable {σ : Type}

/-- Compiles the source of a template whenever it is asked for. -/
def direct (sources : Sources σ) : Loader σ where
  toSources := sources
  template name := do Template.compile sources (← sources.source name)

/-- Renders the template of a name. -/
def render (loader : Loader σ) (name : String) : Run σ String := do
  let t ← Work.ofLoad (loader.template name)
  t.render loader

/-- Writes what the template of a name gives, rendered with further locals. -/
def insert (loader : Loader σ) (name : String) (extra : Bindings Value) : Run σ Unit :=
  Template.insertWith (Template.render loader) loader name extra

end Loader

end Stencil
