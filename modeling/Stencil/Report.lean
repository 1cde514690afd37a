import Stencil.Instruction
import Stencil.Json.Write
import Stencil.Token

/-!
# Reports

Tokens and instructions as maps, to be printed as JSON. The fields stand in a fixed order.
-/

namespace Stencil

/-- The name of a kind in reports. -/
def TagKind.key : TagKind → String
  | comment => "comment"
  | expression => "expression"
  | escapedExpression => "escaped_expression"
  | statement => "statement"

/-- The name of a kind in reports. -/
def TokenKind.key : TokenKind → String
  | text => "text"
  | tag kind => kind.key

/-- The kind of a name in reports. -/
def TagKind.ofKey? (key : String) : Option TagKind := all.find? fun k => k.key == key

/-- The kind of a name in reports. -/
def TokenKind.ofKey? (key : String) : Option TokenKind :=
  if key = "text" then some text else (TagKind.ofKey? key).map tag

/-- The report of a token. -/
def Token.report (t : Token) : Value :=
  .map [("kind", .string t.kind.key), ("body", .string t.body), ("strip_whitespace", .bool t.strip), ("line", .int t.line)]

/-- The report of a position. -/
def Position.report (p : Position) : Value := .map [("origin", .string p.origin), ("line", .int p.line)]

/-- The report of an instruction. -/
def Instruction.report : Instruction → Value
  | literal text => .map [("op", .string "emit_literal"), ("text", .string text)]
  | expression code escaped =>
    .map [("op", .string "emit_expression"), ("code", .string code), ("escape", .bool escaped)]
  | statement code => .map [("op", .string "exec_statement"), ("code", .string code)]
  | blankLines count => .map [("op", .string "emit_blank_lines"), ("count", .int count)]

/-- The report of an instruction with its position. -/
def Located.report (l : Located) : Value :=
  .map [("instruction", l.instruction.report), ("position", l.position.report)]

end Stencil
