import Stencil.Error

/-!
# Sources

Templates are asked for by name. What gives their sources may keep a state: it is part of a session, which also
collects warnings. A load (`Load`) is a computation in a session that may fail, and work (`Work`) one that also has a
state of its own. What they have done to the session and the state before they failed stays done.
-/

namespace Stencil

/-- The text of a template and where it comes from. A file has a path, and a time of its last change in seconds. -/
structure Source where
  name : String
  origin : String
  text : String
  path : Option String
  modified : Option Int
  deriving DecidableEq, Repr, Inhabited

/-- A template that another one was built from, as it was when it was read. -/
structure Dependency where
  name : String
  path : Option String
  modified : Option Int
  deriving DecidableEq, Repr, Inhabited

namespace Source

/-- A text under a name, held in memory. -/
def inMemory (name text : String) : Source := ⟨name, name, text, none, none⟩

/-- The source without its text. -/
def dependency (s : Source) : Dependency := ⟨s.name, s.path, s.modified⟩

end Source

/-- What is likely to be a mistake in a template that compiles. -/
inductive Warning
  | duplicateBlock (origin block : String) (previous : Nat)
  | repeatedExtends (position : Position) (previous next : String)
  | orphanBlock (origin block : String)
  deriving DecidableEq, Repr

/-- The wording of the warning. -/
def Warning.message : Warning → String
  | duplicateBlock .. => "block defined twice; both slots render the last definition"
  | repeatedExtends .. => "template extends more than once; earlier content is discarded"
  | orphanBlock .. => "block has no slot in the root template and will never render"

/-- The state of what gives the sources, and the warnings so far. -/
structure Session (σ : Type) where
  state : σ
  warnings : List Warning
  deriving Repr

/-- A computation in a session, which may fail. -/
abbrev Load (σ : Type) := ExceptT Error (StateM (Session σ))

namespace Load

variable {σ : Type}

/-- Adds a warning. -/
def warn (w : Warning) : Load σ Unit := modify fun s => { s with warnings := s.warnings ++ [w] }

/-- A result, or a failure. -/
def ofExcept {α : Type} (x : Except Error α) : Load σ α := ExceptT.mk (pure x)

end Load

/-- A computation in a session and on a state of its own, which may fail. -/
abbrev Work (κ σ : Type) := ExceptT Error (StateM (κ × Session σ))

namespace Work

variable {κ σ α : Type}

/-- A load as work that leaves its own state alone. -/
def ofLoad (x : Load σ α) : Work κ σ α :=
  ExceptT.mk fun (k, s) =>
    let (result, s) := x.run.run s
    (result, k, s)

/-- The state. -/
def own : Work κ σ κ := ExceptT.mk fun (k, s) => (.ok k, k, s)

/-- Changes the state. -/
def update (f : κ → κ) : Work κ σ Unit := ExceptT.mk fun (k, s) => (.ok (), f k, s)

/-- The work from a state on, as a load that gives the state it ends in. -/
def runFrom (x : Work κ σ α) (k : κ) : Load σ (α × κ) :=
  ExceptT.mk fun s =>
    let (result, k, s) := x.run.run (k, s)
    (result.map fun a => (a, k), s)

end Work

/-- What gives the sources of templates, all of them in one markup. -/
structure Sources (σ : Type) where
  markup : Markup
  source : String → Load σ Source

/-- The tokens of a source. -/
def Source.tokens (m : Markup) (s : Source) : Except Error (List Token) :=
  match Token.scan m s.text with
  | .ok tokens => .ok tokens
  | .error fault => .error (.unterminated s.origin fault)

theorem Source.tokens_eq_ok_iff {m : Markup} {s : Source} {tokens : List Token} :
    s.tokens m = .ok tokens ↔ Token.scan m s.text = .ok tokens := by
  unfold Source.tokens
  split
  · next h => rw [h, Except.ok.injEq, Except.ok.injEq]
  · next h => exact ⟨nofun, fun hok => by rw [h] at hok; cases hok⟩

end Stencil
