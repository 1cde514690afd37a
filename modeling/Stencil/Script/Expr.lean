import Stencil.Value

/-!
# Expressions

The expressions of the script language: literals, variables, lists and maps, access to members and items, operators,
and calls of the functions that the language has.
-/

namespace Stencil.Script

/-- An operator on one operand. -/
inductive UnaryOp
  | neg
  | not
  deriving DecidableEq, Repr

/-- An operator that computes. -/
inductive Arithmetic
  | mul
  | div
  | rem
  | add
  | sub
  deriving DecidableEq, Repr

/-- An operator that compares. -/
inductive Comparison
  | eq
  | ne
  | lt
  | le
  | gt
  | ge
  deriving DecidableEq, Repr

/-- An operator on two operands. The right one of `and` and `or` is evaluated only if the left one does not decide. -/
inductive BinaryOp
  | arithmetic (op : Arithmetic)
  | comparison (op : Comparison)
  | and
  | or
  deriving DecidableEq, Repr

/-- The name of an operator, as messages show it. -/
def Arithmetic.name : Arithmetic → String
  | mul => "Mul"
  | div => "Div"
  | rem => "Rem"
  | add => "Add"
  | sub => "Sub"

/-- The name of an operator. -/
def Comparison.name : Comparison → String
  | eq => "Eq"
  | ne => "Ne"
  | lt => "Lt"
  | le => "Le"
  | gt => "Gt"
  | ge => "Ge"

/-- The name of an operator. -/
def BinaryOp.name : BinaryOp → String
  | arithmetic op => op.name
  | comparison op => op.name
  | and => "And"
  | or => "Or"

/-- The name of an operator. -/
def UnaryOp.name : UnaryOp → String
  | neg => "Neg"
  | not => "Not"

/-- An expression. -/
inductive Expr
  | literal (value : Value)
  | var (name : String)
  | list (items : List Expr)
  | map (entries : List (String × Expr))
  | member (base : Expr) (name : String)
  | index (base place : Expr)
  | unary (op : UnaryOp) (operand : Expr)
  | binary (op : BinaryOp) (left right : Expr)
  | call (function : String) (args : List Expr)
  deriving Inhabited, Repr

end Stencil.Script
