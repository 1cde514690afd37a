import Stencil.Json.Read
import Stencil.Json.Write
import Stencil.Text.Blank

/-!
# Reading YAML

`Yaml.read?` reads the plain part of YAML: maps and lists by indentation, one entry or item to a line, lists and maps in
brackets on one line, quoted strings, and words that may be nil, booleans or numbers.
-/

namespace Stencil.Yaml

/-- A line that is not blank: how far it is indented, and what stands on it. -/
structure Line where
  indent : Nat
  text : List Char

/-- The text up to a comment. A comment starts a line or follows a blank; none starts inside quotes, and quotes are
opened only at the start of a value. -/
def withoutComment (before : Char) (quote : Option Char) : List Char → List Char
  | [] => []
  | c :: cs =>
    match quote with
    | some q => c :: withoutComment c (if c == q then none else quote) cs
    | none =>
      let starts := before == ' ' || before == '\t'
      if c == '#' && starts then []
      else
        let opens := (c == '"' || c == '\'') && (starts || ['[', '\x7b', ','].contains before)
        c :: withoutComment c (if opens then some c else none) cs

/-- The line, unless there is nothing on it. -/
def line? (text : String) : Option Line :=
  let cs := text.toList
  let indent := (cs.takeWhile (· == ' ')).length
  match Text.trim (withoutComment ' ' none (cs.drop indent)) with
  | [] => none
  | text => some ⟨indent, text⟩

/-- The value of a word without quotes. An integer has no negative zero. -/
def word (cs : List Char) : Value :=
  let text := String.ofList cs
  let number := match cs with
    | '-' :: cs => Json.number? true cs
    | '+' :: cs => Json.number? false cs
    | cs => Json.number? false cs
  if ["", "~", "null", "Null", "NULL"].contains text then .null
  else if ["true", "True", "TRUE"].contains text then .bool true
  else if ["false", "False", "FALSE"].contains text then .bool false
  else if text == "-0" then .int 0
  else match number with
    | some (v, []) => v
    | _ => .string text

/-- The rest of a string in single quotes, where a quote is written twice. -/
def singleQuoted : List Char → Option (List Char × List Char)
  | '\'' :: '\'' :: cs => (singleQuoted cs).map fun (s, rest) => ('\'' :: s, rest)
  | '\'' :: cs => some ([], cs)
  | c :: cs => (singleQuoted cs).map fun (s, rest) => (c :: s, rest)
  | [] => none

/-- The text from its first character that is not a blank. -/
def skip (cs : List Char) : List Char := cs.dropWhile (· == ' ')

/-- A string in quotes, and what follows it. -/
def quoted? : List Char → Option (String × List Char)
  | '"' :: cs => Json.string? cs
  | '\'' :: cs => (singleQuoted cs).map fun (s, rest) => (String.ofList s, rest)
  | _ => none

/-- A character that ends a word inside brackets. -/
def isFlowMark (c : Char) : Bool := ['[', ']', '\x7b', '\x7d', ',', ':', '"', '\''].contains c

mutual

/-- A value inside brackets, and what follows it. -/
def flow? : Nat → List Char → Option (Value × List Char)
  | 0, _ => none
  | fuel + 1, cs =>
    match skip cs with
    | '[' :: cs => (flowItems? fuel cs).map fun (vs, rest) => (.list vs, rest)
    | '\x7b' :: cs => (flowEntries? fuel cs).map fun (es, rest) => (.map (Bindings.ofList es), rest)
    | cs =>
      match quoted? cs with
      | some (s, rest) => some (.string s, rest)
      | none =>
        let isPart := fun c => !isFlowMark c
        match Text.trim (cs.takeWhile isPart) with
        | [] => none
        | text => some (word text, cs.dropWhile isPart)

/-- The items of a list in brackets, and what follows its end. -/
def flowItems? : Nat → List Char → Option (List Value × List Char)
  | 0, _ => none
  | fuel + 1, cs =>
    match skip cs with
    | ']' :: rest => some ([], rest)
    | cs => do
      let (v, rest) ← flow? fuel cs
      match skip rest with
      | ',' :: rest => (flowItems? fuel rest).map fun (vs, rest) => (v :: vs, rest)
      | ']' :: rest => some ([v], rest)
      | _ => none

/-- The entries of a map in brackets, and what follows its end. -/
def flowEntries? : Nat → List Char → Option (List (String × Value) × List Char)
  | 0, _ => none
  | fuel + 1, cs =>
    match skip cs with
    | '\x7d' :: rest => some ([], rest)
    | cs => do
      let (key, rest) ← flow? fuel cs
      match skip rest with
      | ':' :: rest =>
        let (v, rest) ← flow? fuel rest
        match skip rest with
        | ',' :: rest => (flowEntries? fuel rest).map fun (es, rest) => ((key.text, v) :: es, rest)
        | '\x7d' :: rest => some ([(key.text, v)], rest)
        | _ => none
      | _ => none

end

/-- The text before the first colon that a blank or the end follows, and the text behind it. -/
def splitKey : List Char → Option (List Char × List Char)
  | [':'] => some ([], [])
  | ':' :: ' ' :: cs => some ([], skip cs)
  | c :: cs => (splitKey cs).map fun (key, rest) => (c :: key, rest)
  | [] => none

/-- A value on the rest of a line. -/
def inline? (cs : List Char) : Option Value :=
  match cs with
  | [] => some .null
  | c :: _ =>
    if ['[', '\x7b', '"', '\''].contains c then
      match flow? (2 * cs.length + 2) cs with
      | some (v, rest) => if (skip rest).isEmpty then some v else none
      | none => none
    else if [']', '\x7d', ',', '&', '*', '!', '|', '>', '%', '@', '\x60'].contains c then none
    else if (splitKey cs).isSome then none
    else some (word cs)

/-- The key of an entry and what follows its colon. -/
def entryOf? (cs : List Char) : Option (String × List Char) :=
  match cs with
  | [] => none
  | c :: _ =>
    if ['[', '\x7b'].contains c then none
    else match quoted? cs with
      | some (key, rest) => (splitKey (skip rest)).bind fun (between, rest) => if between.isEmpty then some (key, rest) else none
      | none => (splitKey cs).map fun (key, rest) => (String.ofList (Text.trim key), rest)

/-- The text of an item behind its dash, as a line of its own. -/
def itemOf? (l : Line) : Option Line :=
  match l.text with
  | ['-'] => some ⟨l.indent + 1, []⟩
  | '-' :: ' ' :: cs => some ⟨l.indent + 2 + (cs.takeWhile (· == ' ')).length, skip cs⟩
  | _ => none

mutual

/-- The value that lines make up, and the lines behind it. -/
def block? : Nat → List Line → Option (Value × List Line)
  | 0, _ => none
  | _, [] => some (.null, [])
  | fuel + 1, l :: rest =>
    if (itemOf? l).isSome then (items? fuel l.indent (l :: rest)).map fun (vs, rest) => (.list vs, rest)
    else if (entryOf? l.text).isSome then
      (entries? fuel l.indent (l :: rest)).map fun (es, rest) => (.map (Bindings.ofList es), rest)
    else (inline? l.text).map fun v => (v, rest)

/-- The items at an indentation, and the lines behind them. -/
def items? : Nat → Nat → List Line → Option (List Value × List Line)
  | 0, _, _ => none
  | _, _, [] => some ([], [])
  | fuel + 1, indent, l :: rest =>
    if l.indent < indent then some ([], l :: rest)
    else if indent < l.indent then none
    else match itemOf? l with
      | none => some ([], l :: rest)
      | some item => do
        let inner := if item.text.isEmpty then rest else item :: rest
        let (v, rest) ← if (inner.head?.any fun l => indent < l.indent) then block? fuel inner else some (.null, rest)
        (items? fuel indent rest).map fun (vs, rest) => (v :: vs, rest)

/-- The entries at an indentation, and the lines behind them. -/
def entries? : Nat → Nat → List Line → Option (List (String × Value) × List Line)
  | 0, _, _ => none
  | _, _, [] => some ([], [])
  | fuel + 1, indent, l :: rest =>
    if l.indent < indent then some ([], l :: rest)
    else if indent < l.indent then none
    else do
      let (key, text) ← entryOf? l.text
      let (v, rest) ←
        if !text.isEmpty then (inline? text).map fun v => (v, rest)
        else match rest with
          | [] => some (Value.null, [])
          | next :: _ =>
            if indent < next.indent then block? fuel rest
            else if next.indent = indent ∧ (itemOf? next).isSome then
              (items? fuel indent rest).map fun (vs, rest) => (.list vs, rest)
            else some (.null, rest)
      (entries? fuel indent rest).map fun (es, rest) => ((key, v) :: es, rest)

end

/-- The value that a text is. -/
def read? (text : String) : Option Value :=
  let lines := ((text.replace "\r\n" "\n").splitOn "\n").filterMap line?
  let lines := match lines with
    | ⟨0, ['-', '-', '-']⟩ :: rest => rest
    | lines => lines
  match block? (3 * text.length + 3) lines with
  | some (v, []) => some v
  | _ => none

end Stencil.Yaml
