import Stencil.Conversion
import Stencil.Position
import Stencil.Script.EvalError
import Stencil.Script.Lexeme

/-!
# Errors

Why a template cannot be found, read, compiled, converted or rendered, with the position that the failure is put down
to where there is one.
-/

namespace Stencil

/-- The longest chain of templates that extend one another, the one being compiled included. -/
def maxExtends : Nat := 32

/-- The depth at which a template includes no more. -/
def maxIncludes : Nat := 64

/-- A statement that has to be closed. -/
inductive Opener
  | conditional
  | loop
  deriving DecidableEq, Repr

/-- The word that a statement is opened by. -/
def Opener.word : Opener → String
  | conditional => "if"
  | loop => "for"

/-- Why a template cannot be compiled. -/
inductive CompileFault
  | cyclic (chain : List String) (next : String)
  | tooDeep
  | malformed (e : Script.SyntaxError)
  | strayElseIf
  | strayElse
  | secondElse
  | strayEnd
  | unclosed (opener : Opener)
  deriving Repr

/-- The wording of the failure. -/
def CompileFault.message : CompileFault → String
  | cyclic chain next => "cyclic extends: " ++ " -> ".intercalate chain ++ " -> " ++ next
  | tooDeep => "extends chain deeper than " ++ toString maxExtends
  | malformed e => "syntax error: " ++ e.message
  | strayElseIf => "elsif without a matching if"
  | strayElse => "else without a matching if"
  | secondElse => "if has more than one else"
  | strayEnd => "end without an open if or for"
  | unclosed opener => opener.word ++ " is never closed with end"

/-- Why an instruction fails when it is run. -/
inductive RenderFault
  | evaluation (e : Script.EvalError)
  | includeTooDeep (name : String)
  | strayLoopEnd
  deriving DecidableEq, Repr

/-- The wording of the failure. -/
def RenderFault.message : RenderFault → String
  | evaluation e => e.message
  | includeTooDeep name => "include of '" ++ name ++ "' exceeds the maximum depth of " ++ toString maxIncludes
  | strayLoopEnd => "loop end without a loop"

/-- Why something asked of templates fails. -/
inductive Error
  | unknownTemplate (roots : List String) (name : String)
  | unreadable (path : String)
  | unterminated (origin : String) (fault : Unterminated)
  | compilation (position : Position) (fault : CompileFault)
  | superWithoutParent (position : Position) (block : String)
  | conversion (origin : String) (fault : ConversionFault)
  | render (position : Position) (fault : RenderFault)
  deriving Repr

namespace Error

/-- The position that the failure is put down to. -/
def position? : Error → Option Position
  | unknownTemplate _ _ | unreadable _ => none
  | unterminated origin fault => some ⟨origin, fault.line⟩
  | conversion origin fault => some ⟨origin, fault.line⟩
  | compilation position _ | superWithoutParent position _ | render position _ => some position

/-- The wording of the failure, its position aside. -/
def reason : Error → String
  | unknownTemplate roots name => "template '" ++ name ++ "' not found under " ++ Text.quotedList roots
  | unreadable path => "failed to read '" ++ path ++ "': stream did not contain valid UTF-8"
  | unterminated _ fault => fault.message
  | compilation _ fault => "compilation failed: " ++ fault.message
  | superWithoutParent _ block => "blocksuper in block '" ++ block ++ "' but the template has no parent"
  | conversion _ fault => "cannot convert without changing the template: " ++ fault.message
  | render _ fault => fault.message

/-- The wording of the failure. -/
def message (e : Error) : String :=
  match e.position? with
  | some p => p.describe ++ ": " ++ e.reason
  | none => e.reason

end Error

end Stencil
