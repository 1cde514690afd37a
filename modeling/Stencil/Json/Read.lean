import Stencil.Number.Reading
import Stencil.Value

/-!
# Reading JSON

`Json.read?` reads one value that takes up a whole text. A number without fraction and exponent is an integer if it
lies between `-2 ^ 63` and `2 ^ 64`; any other number is the nearest double, and so is a negative zero. A number beyond
the doubles, a lone surrogate, a raw control character in a string and more than `maxNesting` levels are refused. The
last entry of a key wins, and entries are put in the order of their keys.
-/

namespace Stencil.Json

/-- The deepest nesting of lists and maps that is read. -/
def maxNesting : Nat := 127

/-- A blank between the parts of a JSON text. -/
def isSpace (c : Char) : Bool := c == ' ' || c == '\t' || c == '\n' || c == '\r'

/-- The text from its first character that is not a blank. -/
def skip (cs : List Char) : List Char := cs.dropWhile isSpace

/-- The value of a hexadecimal digit. -/
def hexDigit? (c : Char) : Option Nat :=
  if c.isDigit then some (c.toNat - '0'.toNat)
  else if 'a' ≤ c && c ≤ 'f' then some (c.toNat - 'a'.toNat + 10)
  else if 'A' ≤ c && c ≤ 'F' then some (c.toNat - 'A'.toNat + 10)
  else none

/-- The character that a letter after a backslash stands for. -/
def escape? : Char → Option Char
  | '"' => some '"'
  | '\\' => some '\\'
  | '/' => some '/'
  | 'b' => some '\x08'
  | 'f' => some '\x0c'
  | 'n' => some '\n'
  | 'r' => some '\r'
  | 't' => some '\t'
  | _ => none

/-- The code units of a string up to its closing quote, and what follows the quote. -/
def stringUnits : List Char → Option (List Nat × List Char)
  | [] => none
  | '"' :: cs => some ([], cs)
  | '\\' :: 'u' :: a :: b :: c :: d :: cs => do
    let n := (← hexDigit? a) * 4096 + (← hexDigit? b) * 256 + (← hexDigit? c) * 16 + (← hexDigit? d)
    let (units, rest) ← stringUnits cs
    pure (n :: units, rest)
  | '\\' :: e :: cs => do
    let c ← escape? e
    let (units, rest) ← stringUnits cs
    pure (c.toNat :: units, rest)
  | c :: cs =>
    if c == '\\' || c.toNat < 0x20 then none
    else do
      let (units, rest) ← stringUnits cs
      pure (c.toNat :: units, rest)

/-- The characters of code units; a surrogate stands only before or after its partner. -/
def ofUnits : List Nat → Option (List Char)
  | [] => some []
  | [n] => if n.isValidChar then some [Char.ofNat n] else none
  | n :: m :: rest =>
    if 0xD800 ≤ n && n < 0xDC00 then
      if 0xDC00 ≤ m && m < 0xE000 then
        (ofUnits rest).map (Char.ofNat (0x10000 + (n - 0xD800) * 0x400 + (m - 0xDC00)) :: ·)
      else none
    else if n.isValidChar then (ofUnits (m :: rest)).map (Char.ofNat n :: ·)
    else none

/-- A string after its opening quote, and what follows it. -/
def string? (cs : List Char) : Option (String × List Char) := do
  let (units, rest) ← stringUnits cs
  let chars ← ofUnits units
  pure (String.ofList chars, rest)

/-- The value of a number with the given sign, digits before and after the point, and exponent. -/
def numberValue? (negative : Bool) (whole : List Char) (fraction : List Char) (exponent : Option Int) : Option Value :=
  let digits := Number.ofDigits (whole ++ fraction)
  let double := fun (x : Float) => if x.isInf then none else some (Value.float (if negative then -x else x))
  match fraction, exponent with
  | [], none =>
    let n : Int := if negative then -digits else digits
    if negative && digits == 0 then double 0
    else if -0x8000000000000000 ≤ n && n < 0x10000000000000000 then some (.int n)
    else double (Number.nearest digits 0)
  | _, _ => double (Number.nearest digits (exponent.getD 0 - fraction.length))

/-- The exponent of a number after its letter. -/
def exponent? (cs : List Char) : Option (Int × List Char) :=
  let (negative, cs) := match cs with
    | '-' :: cs => (true, cs)
    | '+' :: cs => (false, cs)
    | cs => (false, cs)
  match cs.takeWhile Char.isDigit with
  | [] => none
  | digits =>
    let n : Int := Number.ofDigits digits
    some (if negative then -n else n, cs.dropWhile Char.isDigit)

/-- A number after its sign, and what follows it. -/
def number? (negative : Bool) (cs : List Char) : Option (Value × List Char) := do
  let whole := cs.takeWhile Char.isDigit
  if whole.isEmpty || (whole.head? == some '0' && 1 < whole.length) then none
  let rest := cs.dropWhile Char.isDigit
  let (fraction, rest) ← match rest with
    | '.' :: rest =>
      let fraction := rest.takeWhile Char.isDigit
      if fraction.isEmpty then none else some (fraction, rest.dropWhile Char.isDigit)
    | rest => some ([], rest)
  let (exponent, rest) ← match rest with
    | c :: more => if c == 'e' || c == 'E' then (exponent? more).map fun (e, r) => (some e, r) else some (none, rest)
    | [] => some (none, [])
  let value ← numberValue? negative whole fraction exponent
  pure (value, rest)

mutual

/-- A value at the start of a text, and what follows it. The first argument bounds the number of steps, the second the
levels left. -/
def value? : Nat → Nat → List Char → Option (Value × List Char)
  | 0, _, _ => none
  | fuel + 1, depth, cs =>
    match skip cs with
    | 'n' :: 'u' :: 'l' :: 'l' :: rest => some (.null, rest)
    | 't' :: 'r' :: 'u' :: 'e' :: rest => some (.bool true, rest)
    | 'f' :: 'a' :: 'l' :: 's' :: 'e' :: rest => some (.bool false, rest)
    | '"' :: rest => (string? rest).map fun (s, rest) => (.string s, rest)
    | '-' :: rest => number? true rest
    | '[' :: rest =>
      if depth == 0 then none
      else match skip rest with
        | ']' :: rest => some (.list [], rest)
        | rest => (items? fuel (depth - 1) [] rest).map fun (vs, rest) => (.list vs, rest)
    | '\x7b' :: rest =>
      if depth == 0 then none
      else match skip rest with
        | '\x7d' :: rest => some (.map [], rest)
        | rest => (entries? fuel (depth - 1) [] rest).map fun (es, rest) => (.map (Bindings.ofList es), rest)
    | rest => number? false rest

/-- The items of a list up to its end; the ones read so far are given last first. -/
def items? : Nat → Nat → List Value → List Char → Option (List Value × List Char)
  | 0, _, _, _ => none
  | fuel + 1, depth, read, cs => do
    let (v, rest) ← value? fuel depth cs
    match skip rest with
    | ',' :: rest => items? fuel depth (v :: read) rest
    | ']' :: rest => pure ((v :: read).reverse, rest)
    | _ => none

/-- The entries of a map up to its end; the ones read so far are given last first. -/
def entries? : Nat → Nat → List (String × Value) → List Char → Option (List (String × Value) × List Char)
  | 0, _, _, _ => none
  | fuel + 1, depth, read, cs =>
    match skip cs with
    | '"' :: rest => do
      let (key, rest) ← string? rest
      match skip rest with
      | ':' :: rest =>
        let (v, rest) ← value? fuel depth rest
        match skip rest with
        | ',' :: rest => entries? fuel depth ((key, v) :: read) rest
        | '\x7d' :: rest => pure (((key, v) :: read).reverse, rest)
        | _ => none
      | _ => none
    | _ => none

end

/-- The value that a whole text denotes. -/
def read? (text : String) : Option Value :=
  let cs := text.toList
  match value? (cs.length + 1) maxNesting cs with
  | some (v, rest) => if (skip rest).isEmpty then some v else none
  | none => none

end Stencil.Json
