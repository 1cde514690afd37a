import Stencil.Script.Eval

/-!
# Contexts

A template is rendered in a context: its variables, the text written so far, how text is escaped, and how deep the
template is included. Variables are the locals, and behind them the members of the target. An included template has a
context of its own with a copy of the locals (`derive`), so it assigns nothing outside.
-/

namespace Stencil

/-- What a template is rendered in. -/
structure Context where
  target : String → Option Value
  locals : Bindings Value
  buffer : String
  escape : String → String
  strict : Bool
  depth : Nat

namespace Context

/-- A context in which nothing is written and no template is included. -/
def fresh (target : String → Option Value) (locals : Bindings Value) (escape : String → String) (strict : Bool) : Context :=
  ⟨target, locals, "", escape, strict, 0⟩

/-- The value of a variable. -/
def member? (ctx : Context) (name : String) : Option Value := (Bindings.get? ctx.locals name).or (ctx.target name)

/-- What expressions are evaluated in. -/
def scope (ctx : Context) : Script.Scope := ⟨ctx.member?, ctx.strict, ctx.escape⟩

/-- Writes text. -/
def write (ctx : Context) (text : String) : Context := { ctx with buffer := ctx.buffer ++ text }

/-- Binds a local. -/
def setLocal (ctx : Context) (name : String) (value : Value) : Context :=
  { ctx with locals := Bindings.set name value ctx.locals }

/-- Removes a local. -/
def removeLocal (ctx : Context) (name : String) : Context := { ctx with locals := Bindings.erase name ctx.locals }

/-- Binds locals, one after the other. -/
def bind (ctx : Context) (pass : List (String × Value)) : Context :=
  pass.foldl (fun ctx (name, value) => ctx.setLocal name value) ctx

/-- Gives locals back what they were bound to, one after the other. -/
def restore (ctx : Context) (saved : List (String × Option Value)) : Context :=
  saved.foldl (fun ctx (name, value) => value.elim (ctx.removeLocal name) (ctx.setLocal name)) ctx

/-- The context of an included template: further locals on top, nothing written, and one deeper. -/
def derive (ctx : Context) (extra : Bindings Value) : Context :=
  { ctx with locals := Bindings.merge extra ctx.locals, buffer := "", depth := ctx.depth + 1 }

end Context

end Stencil
