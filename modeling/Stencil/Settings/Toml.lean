import Stencil.Json.Read

/-!
# Reading TOML

`Toml.read?` reads a document of keys and values, one to a line, with comments and table headers. Values are strings on
one line, booleans, numbers, and lists, which may go over several lines. A key is a path of names; a document
that gives a path, or a part of one, twice is refused.
-/

namespace Stencil.Toml

/-- A blank inside a line. -/
def isSpace (c : Char) : Bool := c == ' ' || c == '\t'

/-- The text from its first character that is not a blank of the line. -/
def skip (cs : List Char) : List Char := cs.dropWhile isSpace

/-- A character that may not stand in strings and comments. -/
def isControl (c : Char) : Bool := c != '\t' && (c.toNat < 0x20 || c.toNat == 0x7f)

/-- A character of a name without quotes. -/
def isBare (c : Char) : Bool := c.isAlphanum || c == '_' || c == '-'

/-- The text behind a line break. -/
def afterBreak? : List Char → Option (List Char)
  | '\n' :: cs => some cs
  | '\r' :: '\n' :: cs => some cs
  | _ => none

/-- The text behind a comment, if there is one. -/
def afterComment? (cs : List Char) : Option (List Char) :=
  match skip cs with
  | '#' :: cs =>
    let rest := cs.dropWhile (!isControl ·)
    if rest.isEmpty || (afterBreak? rest).isSome then some rest else none
  | cs => some cs

/-- The text behind the end of a line. -/
def endLine? (cs : List Char) : Option (List Char) := do
  match ← afterComment? cs with
  | [] => some []
  | cs => afterBreak? cs

/-- The text behind blanks, line breaks and comments. -/
def skipLines : Nat → List Char → Option (List Char)
  | 0, cs => some cs
  | fuel + 1, cs => do
    let rest ← afterComment? cs
    match afterBreak? rest with
    | some rest => skipLines fuel rest
    | none => some rest

/-- The number that hexadecimal digits denote. -/
def hexNumber? (cs : List Char) : Option Nat := cs.foldlM (fun n c => (Json.hexDigit? c).map (16 * n + ·)) 0

/-- The character of a code point in hexadecimal digits. -/
def codePoint? (digits : List Char) (length : Nat) : Option Char := do
  let n ← hexNumber? digits
  if digits.length = length ∧ n.isValidChar then some (Char.ofNat n) else none

/-- A string with escapes behind its opening quote. -/
def basicString : Nat → List Char → Option (List Char × List Char)
  | 0, _ => none
  | fuel + 1, cs =>
    let following := fun (c : Char) (rest : List Char) => (basicString fuel rest).map fun (s, rest) => (c :: s, rest)
    match cs with
    | '"' :: rest => some ([], rest)
    | '\\' :: 'u' :: rest => (codePoint? (rest.take 4) 4).bind fun c => following c (rest.drop 4)
    | '\\' :: 'U' :: rest => (codePoint? (rest.take 8) 8).bind fun c => following c (rest.drop 8)
    | '\\' :: '/' :: _ => none
    | '\\' :: e :: rest => (Json.escape? e).bind fun c => following c rest
    | c :: rest => if isControl c || c == '\\' then none else following c rest
    | [] => none

/-- A string without escapes behind its opening quote. -/
def literalString (cs : List Char) : Option (List Char × List Char) :=
  match cs.dropWhile fun c => c != '\'' && !isControl c with
  | '\'' :: rest => some (cs.takeWhile (· != '\''), rest)
  | _ => none

/-- A string. -/
def string? (cs : List Char) : Option (String × List Char) :=
  match cs with
  | '"' :: rest => (basicString (rest.length + 1) rest).map fun (s, rest) => (String.ofList s, rest)
  | '\'' :: rest => (literalString rest).map fun (s, rest) => (String.ofList s, rest)
  | _ => none

/-- A number, all of which is read. -/
def number? (cs : List Char) : Option Value :=
  let (negative, digits) := match cs with
    | '-' :: cs => (true, cs)
    | '+' :: cs => (false, cs)
    | cs => (false, cs)
  if digits.all Char.isDigit then
    let n : Int := Number.ofDigits digits
    let n := if negative then -n else n
    if digits.isEmpty || (digits.head? == some '0' && 1 < digits.length) then none
    else if InInt64 n then some (.int n) else none
  else
    match Json.number? negative digits with
    | some (v, []) => some v
    | _ => none

/-- A value that is not a list or a string. -/
def word? (cs : List Char) : Option (Value × List Char) :=
  let isPart := fun c => isBare c || c == '+' || c == '.'
  let rest := cs.dropWhile isPart
  match cs.takeWhile isPart with
  | ['t', 'r', 'u', 'e'] => some (.bool true, rest)
  | ['f', 'a', 'l', 's', 'e'] => some (.bool false, rest)
  | word => (number? word).map fun v => (v, rest)

mutual

/-- A value, and what follows it. The argument bounds the number of steps. -/
def value? : Nat → List Char → Option (Value × List Char)
  | 0, _ => none
  | fuel + 1, cs =>
    match cs with
    | '[' :: rest => (items? fuel rest).map fun (vs, rest) => (.list vs, rest)
    | cs =>
      match string? cs with
      | some (s, rest) => some (.string s, rest)
      | none => word? cs

/-- The items of a list, and what follows its end. -/
def items? : Nat → List Char → Option (List Value × List Char)
  | 0, _ => none
  | fuel + 1, cs => do
    match ← skipLines cs.length cs with
    | ']' :: rest => some ([], rest)
    | cs =>
      let (v, rest) ← value? fuel cs
      match ← skipLines rest.length rest with
      | ',' :: rest => (items? fuel rest).map fun (vs, rest) => (v :: vs, rest)
      | ']' :: rest => some ([v], rest)
      | _ => none

end

/-- A name of a key, with or without quotes. -/
def name? (cs : List Char) : Option (String × List Char) :=
  match string? cs with
  | some found => some found
  | none =>
    match cs.takeWhile isBare with
    | [] => none
    | name => some (String.ofList name, cs.dropWhile isBare)

/-- A path of names with dots between them, and what follows it. -/
def path? : Nat → List Char → Option (List String × List Char)
  | 0, _ => none
  | fuel + 1, cs => do
    let (name, rest) ← name? (skip cs)
    match skip rest with
    | '.' :: rest => (path? fuel rest).map fun (path, rest) => (name :: path, rest)
    | rest => some ([name], rest)

/-- A document: the paths that it gives, with their values. -/
abbrev Document := List (List String × Value)

/-- Neither path is a part of the other. -/
def apart (a b : List String) : Bool := !a.isPrefixOf b && !b.isPrefixOf a

/-- The lines of a document. The header is the path of the table that they belong to; headers seen before are given. -/
def lines? (header : List String) (headers : List (List String)) (read : Document) :
    Nat → List Char → Option Document
  | 0, _ => none
  | fuel + 1, cs =>
    match skip cs with
    | [] => some read
    | '[' :: rest => do
      match ← path? rest.length rest with
      | (path, ']' :: rest) =>
        if headers.contains path || read.any fun entry => entry.1.isPrefixOf path then none
        else lines? path (path :: headers) read fuel (← endLine? rest)
      | _ => none
    | c :: rest => do
      let cs := c :: rest
      if c == '#' || (afterBreak? cs).isSome then lines? header headers read fuel (← endLine? cs)
      else
        let (path, rest) ← path? cs.length cs
        match rest with
        | '=' :: rest =>
          let (v, rest) ← value? (rest.length + 1) (skip rest)
          let path := header ++ path
          if read.all fun entry => apart entry.1 path then
            lines? header headers ((path, v) :: read) fuel (← endLine? rest)
          else none
        | _ => none

/-- The document that a text is. -/
def read? (text : String) : Option Document := lines? [] [] [] (text.length + 1) text.toList

end Stencil.Toml
