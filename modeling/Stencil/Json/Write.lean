import Stencil.Number.Layout
import Stencil.Value

/-!
# JSON text

`Json.compact` writes a value without blanks, `Json.indented` on lines of two blanks a level. Entries are written in
the order in which they stand. A string escapes the quote, the backslash and the control characters below U+0020; all
other characters stand for themselves.
-/

namespace Stencil.Json

/-- Doubles have at least one fraction digit, are positional from `1e-5` up to but not `1e16`, and scientific
elsewhere. -/
def layout : Number.Layout := ⟨some (-5, 16), true⟩

/-- A character as it stands in a JSON string. -/
def escapedChar (c : Char) : String :=
  match c with
  | '"' => "\\\""
  | '\\' => "\\\\"
  | '\n' => "\\n"
  | '\r' => "\\r"
  | '\t' => "\\t"
  | '\x08' => "\\b"
  | '\x0c' => "\\f"
  | c =>
    if c.toNat < 0x20 then "\\u00" ++ (if c.toNat < 0x10 then "0" else "1") ++ String.ofList (Nat.toDigits 16 (c.toNat % 16))
    else c.toString

/-- The JSON string of a text, written at the end of `out`. -/
def writeString (text out : String) : String :=
  (text.foldl (fun out c => out ++ escapedChar c) (out.push '"')).push '"'

/-- The text of an integer. -/
def integer (n : Int) : String := toString n

mutual

/-- The compact text of a value, written at the end of `out`. -/
def write : Value → String → String
  | .null, out => out ++ "null"
  | .bool b, out => out ++ (if b then "true" else "false")
  | .int n, out => out ++ integer n
  | .float x, out => out ++ layout.write x
  | .string s, out => writeString s out
  | .list [], out => out ++ "[]"
  | .list (v :: vs), out => writeItems vs (write v (out.push '['))
  | .map [], out => (out.push '\x7b').push '\x7d'
  | .map ((k, v) :: es), out => writeEntries es (write v ((writeString k (out.push '\x7b')).push ':'))

/-- The remaining items of a list and its end. -/
def writeItems : List Value → String → String
  | [], out => out.push ']'
  | v :: vs, out => writeItems vs (write v (out.push ','))

/-- The remaining entries of a map and its end. -/
def writeEntries : List (String × Value) → String → String
  | [], out => out.push '\x7d'
  | (k, v) :: es, out => writeEntries es (write v ((writeString k (out.push ',')).push ':'))

end

/-- The value without blanks. -/
def compact (v : Value) : String := write v ""

/-- A new line, indented to a level. -/
def newLine (level : Nat) (out : String) : String := out ++ "\n" ++ String.ofList (List.replicate (2 * level) ' ')

mutual

/-- The indented text of a value at a level, written at the end of `out`. -/
def writeIndented (level : Nat) : Value → String → String
  | .list (v :: vs), out => indentItems level vs (writeIndented (level + 1) v (newLine (level + 1) (out.push '[')))
  | .map ((k, v) :: es), out =>
    indentEntries level es
      (writeIndented (level + 1) v (writeString k (newLine (level + 1) (out.push '\x7b')) ++ ": "))
  | v, out => write v out

/-- The remaining items of a list and its end. -/
def indentItems (level : Nat) : List Value → String → String
  | [], out => (newLine level out).push ']'
  | v :: vs, out => indentItems level vs (writeIndented (level + 1) v (newLine (level + 1) (out.push ',')))

/-- The remaining entries of a map and its end. -/
def indentEntries (level : Nat) : List (String × Value) → String → String
  | [], out => (newLine level out).push '\x7d'
  | (k, v) :: es, out =>
    indentEntries level es
      (writeIndented (level + 1) v (writeString k (newLine (level + 1) (out.push ',')) ++ ": "))

end

/-- The value on lines of its own, two blanks a level. -/
def indented (v : Value) : String := writeIndented 0 v ""

end Stencil.Json

namespace Stencil.Value

/-- The text that a value is rendered as: nothing for nil, a string itself, and JSON text for all else. -/
def text : Value → String
  | null => ""
  | string s => s
  | v => Json.compact v

end Stencil.Value
