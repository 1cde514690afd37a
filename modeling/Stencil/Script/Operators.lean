import Stencil.Json.Write
import Stencil.Script.EvalError

/-!
# Operators

What the operators do with values. Arithmetic on two integers of the signed 64-bit range is exact or fails; any other
two numbers go through doubles. Order compares numbers as doubles and strings by their code points.
-/

namespace Stencil.Script

/-- The longest list that `range` builds, and the most times that a string is repeated. -/
def maxLength : Nat := 1000000

/-- An integer result, which has to be in the signed 64-bit range. -/
def integer (n : Int) : Except EvalError Value :=
  if InInt64 n then .ok (.int n) else .error .overflow

/-- A double result, which has to be finite. -/
def double (x : Float) : Except EvalError Value :=
  if x.isFinite then .ok (.float x) else .error .notFinite

/-- Arithmetic on integers: the quotient is cut towards zero, and the remainder has the sign of the dividend. -/
def Arithmetic.onIntegers (op : Arithmetic) (a b : Int) : Except EvalError Value :=
  match op with
  | add => integer (a + b)
  | sub => integer (a - b)
  | mul => integer (a * b)
  | div => if b = 0 then .error .divisionByZero else integer (a.tdiv b)
  | rem =>
    if b = 0 then .error .divisionByZero
    else if InInt64 (a.tdiv b) then integer (a.tmod b)
    else .error .overflow

/-- Arithmetic on finite doubles. -/
def Arithmetic.onDoubles (op : Arithmetic) (a b : Float) : Except EvalError Value :=
  match op with
  | add => double (a + b)
  | sub => double (a - b)
  | mul => double (a * b)
  | div => if b == 0 then .error .divisionByZero else double (a / b)
  | rem => if b == 0 then .error .divisionByZero else double (Number.remainder a b)

/-- A string repeated as often as a number says. -/
def repeated (text : String) (times : Value) : Except EvalError Value :=
  match times with
  | .int n => if 0 ≤ n ∧ n ≤ maxLength then .ok (.string (String.join (List.replicate n.toNat text))) else .error .repetition
  | _ => .error .repetition

/-- Arithmetic on operands that are not both numbers: a sum with a string appends texts, a sum of lists appends them,
and a product of a string and a number repeats the string. -/
def Arithmetic.onOthers (op : Arithmetic) (a b : Value) : Except EvalError Value :=
  match op, a, b with
  | add, .string s, b => .ok (.string (s ++ b.text))
  | add, .bool x, .string s => .ok (.string ((Value.bool x).text ++ s))
  | add, .int n, .string s => .ok (.string ((Value.int n).text ++ s))
  | add, .float x, .string s => .ok (.string ((Value.float x).text ++ s))
  | add, .list xs, .list ys => .ok (.list (xs ++ ys))
  | mul, .string s, .int n => repeated s (.int n)
  | mul, .string s, .float x => repeated s (.float x)
  | mul, .int n, .string s => repeated s (.int n)
  | mul, .float x, .string s => repeated s (.float x)
  | op, a, b => .error (.unsupported op a.kind b.kind)

/-- Arithmetic on values. -/
def Arithmetic.apply (op : Arithmetic) (a b : Value) : Except EvalError Value :=
  match a.int64?, b.int64? with
  | some m, some n => op.onIntegers m n
  | _, _ =>
    match a.double?, b.double? with
    | some x, some y => op.onDoubles x y
    | _, _ => op.onOthers a b

/-- The values are equal: two integers of the signed range exactly, other numbers as doubles, anything else part by
part. -/
def valuesEqual (a b : Value) : Bool :=
  match a.int64?, b.int64? with
  | some m, some n => m == n
  | _, _ =>
    match a.double?, b.double? with
    | some x, some y => x == y
    | _, _ => a.same b

/-- The order of two finite doubles. -/
def compareDoubles (x y : Float) : Ordering := if x < y then .lt else if x == y then .eq else .gt

/-- The order of two numbers or two strings. -/
def order? (a b : Value) : Option Ordering :=
  match a, b with
  | .string s, .string t => some (compare s t)
  | a, b =>
    match a.double?, b.double? with
    | some x, some y => some (compareDoubles x y)
    | _, _ => none

/-- A comparison of values that have an order. -/
def ordered (a b : Value) (holds : Ordering → Bool) : Except EvalError Value :=
  match order? a b with
  | some o => .ok (.bool (holds o))
  | none => .error (.incomparable a.kind b.kind)

/-- A comparison of values. -/
def Comparison.apply (op : Comparison) (a b : Value) : Except EvalError Value :=
  match op with
  | eq => .ok (.bool (valuesEqual a b))
  | ne => .ok (.bool (!valuesEqual a b))
  | lt => ordered a b Ordering.isLT
  | le => ordered a b Ordering.isLE
  | gt => ordered a b Ordering.isGT
  | ge => ordered a b Ordering.isGE

/-- A number with the other sign. -/
def negate (v : Value) : Except EvalError Value :=
  match v.int64? with
  | some n => integer (-n)
  | none =>
    match v.double? with
    | some x => double (-x)
    | none => .error (.negationOf v.kind)

/-- A member of a map; nil where there is none, and nil has all of them. -/
def memberOf (base : Value) (name : String) : Except EvalError Value :=
  match base with
  | .map entries => .ok ((Bindings.get? entries name).getD .null)
  | .null => .ok .null
  | other => .error (.memberOf name other.kind)

/-- An item of a list, counted from the end if the place is negative; nil beyond the ends. -/
def itemAt (items : List Value) (place : Int) : Value :=
  let place := if place < 0 then items.length + place else place
  if place < 0 then .null else (items[place.toNat]?).getD .null

/-- An item of a list or a member of a map. -/
def indexOf (base place : Value) : Except EvalError Value :=
  match base, place with
  | .list items, place =>
    match place.int64? with
    | some n => .ok (itemAt items n)
    | none => if place.kind = .number then .error .placeNotInteger else .error (.indexOf .list place.kind)
  | .map entries, .string key => .ok ((Bindings.get? entries key).getD .null)
  | .null, _ => .ok .null
  | base, place => .error (.indexOf base.kind place.kind)

end Stencil.Script
