import Stencil.Script.Expr

/-!
# Statements

The statements of the script language. Conditions and loops are opened, divided and closed by statements of their own;
how these nest is the matter of a whole template.
-/

namespace Stencil.Script

/-- The variables of a loop: one for the item, or two for its index or key and its value. -/
inductive LoopVars
  | item (name : String)
  | pair (key value : String)
  deriving DecidableEq, Repr

/-- The names of the variables in their order. -/
def LoopVars.names : LoopVars → List String
  | item name => [name]
  | pair key value => [key, value]

/-- A statement. -/
inductive Statement
  | ifThen (condition : Expr)
  | elseIf (condition : Expr)
  | otherwise
  | close
  | loop (vars : LoopVars) (iterable : Expr)
  | assign (name : String) (value : Expr)
  | includes (name : Expr) (extra : List (String × Expr))
  | eval (e : Expr)
  | empty
  deriving Inhabited, Repr

end Stencil.Script
