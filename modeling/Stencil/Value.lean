import Stencil.Bindings
import Stencil.Number.Binary

/-!
# Values

The values that templates work with: nil, booleans, integers and doubles, strings, lists, and maps from strings. The
entries of a map are in the order of their keys. Integers range over the signed and the unsigned 64-bit integers
together; arithmetic that is exact takes part in the signed range only (`int64?`), and everything else goes through
the nearest double (`double?`).
-/

namespace Stencil

/-- A template value. -/
inductive Value
  | null
  | bool (b : Bool)
  | int (n : Int)
  | float (x : Float)
  | string (s : String)
  | list (items : List Value)
  | map (entries : List (String × Value))
  deriving Inhabited, Repr

/-- The kind of a value, as messages name it. -/
inductive Kind
  | nil
  | boolean
  | number
  | string
  | list
  | map
  deriving DecidableEq, Repr

/-- The name of a kind. -/
def Kind.name : Kind → String
  | nil => "nil"
  | boolean => "boolean"
  | number => "number"
  | string => "string"
  | list => "list"
  | map => "map"

/-- The signed 64-bit integers. -/
def InInt64 (n : Int) : Prop := -0x8000000000000000 ≤ n ∧ n < 0x8000000000000000

instance (n : Int) : Decidable (InInt64 n) := inferInstanceAs (Decidable (_ ∧ _))

namespace Value

/-- The kind of a value. -/
def kind : Value → Kind
  | null => .nil
  | bool _ => .boolean
  | int _ | float _ => .number
  | string _ => .string
  | list _ => .list
  | map _ => .map

/-- Nil, false, zero and the empty strings, lists and maps are false; all else is true. -/
def truthy : Value → Bool
  | null => false
  | bool b => b
  | int n => n != 0
  | float x => x != 0
  | string s => !s.isEmpty
  | list items => !items.isEmpty
  | map entries => !entries.isEmpty

/-- The value as a signed 64-bit integer. -/
def int64? : Value → Option Int
  | int n => if InInt64 n then some n else none
  | _ => none

/-- The double nearest to a number. -/
def double? : Value → Option Float
  | int n => some (Float.ofInt n)
  | float x => some x
  | _ => none

mutual

/-- The two values are the same: an integer and a double never are, lists and maps are compared part by part. -/
def same : Value → Value → Bool
  | null, null => true
  | bool a, bool b => a == b
  | int a, int b => a == b
  | float a, float b => a == b
  | string a, string b => a == b
  | list a, list b => sameItems a b
  | map a, map b => sameEntries a b
  | _, _ => false

/-- The lists have the same items. -/
def sameItems : List Value → List Value → Bool
  | [], [] => true
  | a :: as, b :: bs => same a b && sameItems as bs
  | _, _ => false

/-- The maps have the same keys and the same values. -/
def sameEntries : List (String × Value) → List (String × Value) → Bool
  | [], [] => true
  | (j, a) :: as, (k, b) :: bs => j == k && same a b && sameEntries as bs
  | _, _ => false

end

/-- The entries of a map; anything else has none. -/
def entries : Value → Bindings Value
  | map entries => entries
  | _ => []

/-- What a map holds under a key. -/
def member? (v : Value) (key : String) : Option Value := Bindings.get? v.entries key

@[simp] theorem int64?_int {n : Int} (h : InInt64 n) : int64? (.int n) = some n := by simp [int64?, h]

end Value

end Stencil
