import Stencil.Template

/-!
# Templates in memory

Sources that are held in memory under their names, and a loader that keeps a record of what it is asked for.
-/

namespace Stencil

/-- Sources held in memory. -/
def Sources.inMemory {σ : Type} (markup : Markup) (texts : Bindings String) : Sources σ where
  markup
  source name :=
    match Bindings.get? texts name with
    | some text => return Source.inMemory name text
    | none => throw (.unknownTemplate [] name)

/-- Something asked of a loader. -/
inductive Request
  | source (name : String)
  | template (name : String)
  deriving DecidableEq, Repr

/-- The wording of a request. -/
def Request.describe : Request → String
  | source name => "source:" ++ name
  | template name => "template:" ++ name

/-- Puts a request on record. -/
def Request.note (r : Request) : Load (List Request) Unit := modify fun s => { s with state := s.state ++ [r] }

/-- Sources that put every request on record, also those that fail. -/
def Sources.recorded (sources : Sources (List Request)) : Sources (List Request) where
  markup := sources.markup
  source name := do
    Request.note (.source name)
    sources.source name

/-- A loader that puts every request on record. It takes the source of the template itself from the sources without
asking for it. -/
def Loader.recorded (sources : Sources (List Request)) : Loader (List Request) where
  toSources := sources.recorded
  template name := do
    Request.note (.template name)
    Template.compile sources.recorded (← sources.source name)

end Stencil
