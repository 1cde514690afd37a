import Stencil.Script.Expr

/-!
# Failures of evaluation

Why an expression has no value, or a loop nothing to go through.
-/

namespace Stencil.Script

/-- A function of the language. -/
inductive Function
  | len
  | range
  | upper
  | lower
  | escape
  | str
  | join
  | default
  deriving DecidableEq, Repr

namespace Function

/-- The functions. -/
def all : List Function := [len, range, upper, lower, escape, str, join, default]

/-- The name that a function is called by. -/
def name : Function → String
  | len => "len"
  | range => "range"
  | upper => "upper"
  | lower => "lower"
  | escape => "escape"
  | str => "str"
  | join => "join"
  | default => "default"

/-- The function of a name. -/
def ofName? (name : String) : Option Function := all.find? fun f => f.name == name

/-- The least and the greatest number of arguments. -/
def arity : Function → Nat × Nat
  | range | join => (1, 2)
  | default => (2, 2)
  | _ => (1, 1)

end Function

/-- Why an evaluation fails. -/
inductive EvalError
  | undefined (name : String)
  | memberOf (name : String) (base : Kind)
  | indexOf (base place : Kind)
  | placeNotInteger
  | negationOf (operand : Kind)
  | incomparable (left right : Kind)
  | unsupported (op : Arithmetic) (left right : Kind)
  | overflow
  | divisionByZero
  | notFinite
  | repetition
  | unknownFunction (name : String)
  | arity (f : Function) (given : Nat)
  | argumentNotInteger (f : Function)
  | argumentKind (f : Function) (argument : Kind)
  | rangeTooLarge
  | loopOver (iterable : Kind)
  deriving DecidableEq, Repr

/-- The wording of a number of arguments. -/
def Function.arityText (f : Function) : String :=
  let (least, most) := f.arity
  if least = most then toString least else toString least ++ " to " ++ toString most

/-- The wording of the failure. -/
def EvalError.message : EvalError → String
  | undefined name => "undefined variable '" ++ name ++ "'"
  | memberOf name base => "cannot read '" ++ name ++ "' from a " ++ base.name
  | indexOf base place => "cannot index a " ++ base.name ++ " with a " ++ place.name
  | placeNotInteger => "list index must be an integer"
  | negationOf operand => "cannot negate a " ++ operand.name
  | incomparable left right => "cannot compare a " ++ left.name ++ " with a " ++ right.name
  | unsupported op left right => "unsupported operands for " ++ op.name ++ ": " ++ left.name ++ " and " ++ right.name
  | overflow => "integer overflow"
  | divisionByZero => "division by zero"
  | notFinite => "arithmetic produced a non-finite number"
  | repetition => "string repetition needs a small non-negative integer"
  | unknownFunction name => "unknown function '" ++ name ++ "'"
  | arity f given => f.name ++ "() takes " ++ f.arityText ++ " argument(s), got " ++ toString given
  | argumentNotInteger f => f.name ++ "() needs integers"
  | argumentKind f argument => f.name ++ "() of a " ++ argument.name
  | rangeTooLarge => "range() is too large"
  | loopOver iterable => "cannot loop over a " ++ iterable.name

end Stencil.Script
