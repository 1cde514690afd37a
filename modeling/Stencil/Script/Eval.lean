import Stencil.Script.Operators
import Stencil.Text.Case

/-!
# Evaluation

An expression is evaluated in a scope, which gives values to variables and says how text is escaped. Operands and
arguments are evaluated from the left, and the first failure is the result. A variable without a value is nil, or a
failure if the scope is strict.
-/

namespace Stencil.Script

/-- What an expression is evaluated in. -/
structure Scope where
  member? : String → Option Value
  strict : Bool
  escape : String → String

/-- The value of a variable. -/
def Scope.lookup (scope : Scope) (name : String) : Except EvalError Value :=
  match scope.member? name with
  | some v => .ok v
  | none => if scope.strict then .error (.undefined name) else .ok .null

namespace Function

/-- An argument as an integer of the signed 64-bit range. -/
def integerArgument (f : Function) (v : Value) : Except EvalError Int :=
  match v.int64? with
  | some n => .ok n
  | none => .error (.argumentNotInteger f)

/-- The integers from the first one up to but not the second one. -/
def interval (start stop : Int) : Except EvalError Value :=
  if maxLength < stop - start then .error .rangeTooLarge
  else .ok (.list ((List.range (stop - start).toNat).map fun i : Nat => .int (start + i)))

/-- The size of a string, a list or a map; nil has size zero. -/
def size : Value → Except EvalError Value
  | .null => .ok (.int 0)
  | .string s => .ok (.int s.length)
  | .list items => .ok (.int items.length)
  | .map entries => .ok (.int entries.length)
  | other => .error (.argumentKind .len other.kind)

/-- The texts of the items of a list with a separator between them. -/
def joined (separator : String) : Value → Except EvalError Value
  | .list items => .ok (.string (separator.intercalate (items.map Value.text)))
  | other => .error (.argumentKind .join other.kind)

/-- The value of a call. -/
def apply (f : Function) (escaping : String → String) (args : List Value) : Except EvalError Value :=
  match f, args with
  | len, [v] => size v
  | range, [stop] => do interval 0 (← range.integerArgument stop)
  | range, [start, stop] => do
    let start ← range.integerArgument start
    interval start (← range.integerArgument stop)
  | upper, [v] => .ok (.string (Text.upper v.text))
  | lower, [v] => .ok (.string (Text.lower v.text))
  | escape, [v] => .ok (.string (escaping v.text))
  | str, [v] => .ok (.string v.text)
  | join, [v] => joined "" v
  | join, [v, separator] => joined separator.text v
  | default, [v, fallback] => .ok (match v with | .null => fallback | v => v)
  | f, args => .error (.arity f args.length)

end Function

/-- The value of a call by name. -/
def callByName (name : String) (escaping : String → String) (args : List Value) : Except EvalError Value :=
  match Function.ofName? name with
  | some f => f.apply escaping args
  | none => .error (.unknownFunction name)

namespace Expr

mutual

/-- The value of an expression. -/
def eval (scope : Scope) : Expr → Except EvalError Value
  | literal v => .ok v
  | var name => scope.lookup name
  | list items => do .ok (.list (← evalAll scope items))
  | map entries => do .ok (.map (Bindings.ofList (← evalEntries scope entries)))
  | member base name => do memberOf (← eval scope base) name
  | index base place => do
    let base ← eval scope base
    indexOf base (← eval scope place)
  | unary .not operand => do .ok (.bool !(← eval scope operand).truthy)
  | unary .neg operand => do negate (← eval scope operand)
  | binary .and left right => do
    let left ← eval scope left
    if left.truthy then eval scope right else .ok left
  | binary .or left right => do
    let left ← eval scope left
    if left.truthy then .ok left else eval scope right
  | binary (.arithmetic op) left right => do
    let left ← eval scope left
    op.apply left (← eval scope right)
  | binary (.comparison op) left right => do
    let left ← eval scope left
    op.apply left (← eval scope right)
  | call name args => do callByName name scope.escape (← evalAll scope args)

/-- The values of expressions. -/
def evalAll (scope : Scope) : List Expr → Except EvalError (List Value)
  | [] => .ok []
  | e :: es => do
    let v ← eval scope e
    .ok (v :: (← evalAll scope es))

/-- The values of the entries of a map. -/
def evalEntries (scope : Scope) : List (String × Expr) → Except EvalError (List (String × Value))
  | [] => .ok []
  | (key, e) :: es => do
    let v ← eval scope e
    .ok ((key, v) :: (← evalEntries scope es))

end

end Expr

end Stencil.Script
