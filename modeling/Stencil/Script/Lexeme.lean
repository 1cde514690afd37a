import Stencil.Number.Layout
import Stencil.Text.Quoted

/-!
# Lexemes

The words and signs of the script language, its numbers, strings and names.
-/

namespace Stencil.Script

/-- A word or sign with a fixed meaning. -/
inductive Symbol
  | ifWord | elsifWord | elseWord | endWord | forWord | inWord | includeWord
  | and | or | not
  | trueWord | falseWord | nilWord
  | eqEq | notEq | ltEq | gtEq | lt | gt | assign
  | plus | minus | star | slash | percent
  | leftParen | rightParen | leftBracket | rightBracket | leftBrace | rightBrace
  | comma | colon | dot
  deriving DecidableEq, Repr

namespace Symbol

/-- The name of a symbol, as messages show it. -/
def name : Symbol → String
  | ifWord => "If"
  | elsifWord => "Elsif"
  | elseWord => "Else"
  | endWord => "End"
  | forWord => "For"
  | inWord => "In"
  | includeWord => "Include"
  | and => "And"
  | or => "Or"
  | not => "Not"
  | trueWord => "True"
  | falseWord => "False"
  | nilWord => "Nil"
  | eqEq => "EqEq"
  | notEq => "NotEq"
  | ltEq => "LtEq"
  | gtEq => "GtEq"
  | lt => "Lt"
  | gt => "Gt"
  | assign => "Assign"
  | plus => "Plus"
  | minus => "Minus"
  | star => "Star"
  | slash => "Slash"
  | percent => "Percent"
  | leftParen => "LParen"
  | rightParen => "RParen"
  | leftBracket => "LBracket"
  | rightBracket => "RBracket"
  | leftBrace => "LBrace"
  | rightBrace => "RBrace"
  | comma => "Comma"
  | colon => "Colon"
  | dot => "Dot"

/-- The words of the language. Some symbols have several. -/
def words : List (String × Symbol) :=
  [("if", ifWord), ("elsif", elsifWord), ("elif", elsifWord), ("else", elseWord), ("end", endWord), ("endif", endWord),
    ("endfor", endWord), ("for", forWord), ("in", inWord), ("include", includeWord), ("and", and), ("or", or),
    ("not", not), ("true", trueWord), ("false", falseWord), ("nil", nilWord), ("null", nilWord)]

/-- The signs of the language, a sign before any other one that it starts with. -/
def signs : List (String × Symbol) :=
  [("==", eqEq), ("!=", notEq), ("<=", ltEq), (">=", gtEq), ("&&", and), ("||", or), ("!", not), ("<", lt), (">", gt),
    ("=", assign), ("+", plus), ("-", minus), ("*", star), ("/", slash), ("%", percent), ("(", leftParen),
    (")", rightParen), ("[", leftBracket), ("]", rightBracket), ("\x7b", leftBrace), ("\x7d", rightBrace),
    (",", comma), (":", colon), (".", dot)]

/-- The first spelling of a symbol. -/
def spelling (s : Symbol) : String :=
  ((words ++ signs).find? fun entry => entry.2 == s).elim "" Prod.fst

end Symbol

/-- A lexeme of the language. A double may be infinite here. -/
inductive Lexeme
  | symbol (s : Symbol)
  | int (n : Nat)
  | float (x : Float)
  | string (s : String)
  | ident (name : String)
  deriving Repr

namespace Lexeme

/-- Doubles are positional throughout, and a whole number has no fraction digit. -/
def layout : Number.Layout := ⟨none, false⟩

/-- A lexeme as messages show it. -/
def describe : Lexeme → String
  | symbol s => s.name
  | int n => toString n
  | float x => layout.write x
  | string s => "string " ++ Text.quoted s
  | ident name => "'" ++ name ++ "'"

end Lexeme

/-- A lexeme and the bytes of the code that it takes up. -/
structure LocatedLexeme where
  lexeme : Lexeme
  start : Nat
  stop : Nat
  deriving Repr

/-- What the grammar asks for at a place. -/
inductive Wanted
  | name
  | key
  | finish
  | symbol (s : Symbol)
  deriving DecidableEq, Repr

/-- The wording of what is asked for. -/
def Wanted.describe : Wanted → String
  | name => "a name"
  | key => "a key"
  | finish => "end of input"
  | symbol s => "'" ++ s.spelling ++ "'"

/-- Why a piece of code cannot be read. -/
inductive SyntaxError
  | unexpectedText (slice : String) (offset : Nat)
  | unexpected (wanted : Wanted) (found : Option Lexeme)
  | noExpression (found : Option Lexeme)
  | chainedComparison
  | infiniteNumber
  deriving Repr

/-- The wording of the error. -/
def SyntaxError.message : SyntaxError → String
  | unexpectedText slice offset => "unexpected '" ++ slice ++ "' at offset " ++ toString offset
  | unexpected wanted found => "expected " ++ wanted.describe ++ ", found " ++ found.elim "end of input" Lexeme.describe
  | noExpression none => "expected an expression"
  | noExpression (some found) => "expected an expression, found " ++ found.describe
  | chainedComparison => "comparisons cannot be chained"
  | infiniteNumber => "invalid number inf"

end Stencil.Script
