import Stencil.Script.Munch
import Stencil.Script.Statement

/-!
# The grammar

Code is read into expressions and statements by recursive descent. Operators bind by `Level`, loosest first: `or`,
`and`, `not`, comparisons, sums, products, the minus sign, and then access to members and items. The operators of a
chain group to the left. Comparisons do not chain. Lists, maps and arguments may end in a comma.

Every rule returns what follows the part it read together with a proof that it is shorter than what the rule was given
(`Parsed`). That is why reading ends, whatever the code.
-/

namespace Stencil.Script

/-- What a rule read, and what follows it. -/
structure Parsed (α : Type) (bound : Nat) where
  value : α
  rest : List Lexeme
  shorter : rest.length < bound

/-- The result of a rule. -/
abbrev Reading (α : Type) (bound : Nat) := Except SyntaxError (Parsed α bound)

/-- What follows the symbol, if the lexemes start with it. -/
def eat? (s : Symbol) : (ts : List Lexeme) → Option { rest : List Lexeme // rest.length < ts.length }
  | .symbol s' :: rest => if s' = s then some ⟨rest, Nat.lt_succ_self _⟩ else none
  | _ => none

/-- The symbol, which has to be next. -/
def expect (s : Symbol) (ts : List Lexeme) : Reading Unit ts.length :=
  match eat? s ts with
  | some ⟨rest, h⟩ => .ok ⟨(), rest, h⟩
  | none => .error (.unexpected (.symbol s) ts.head?)

/-- A name, which has to be next. -/
def expectName : (ts : List Lexeme) → Reading String ts.length
  | .ident name :: rest => .ok ⟨name, rest, Nat.lt_succ_self _⟩
  | ts => .error (.unexpected .name ts.head?)

/-- The key of an entry, a name or a string, which has to be next. -/
def expectKey : (ts : List Lexeme) → Reading String ts.length
  | .ident name :: rest => .ok ⟨name, rest, Nat.lt_succ_self _⟩
  | .string s :: rest => .ok ⟨s, rest, Nat.lt_succ_self _⟩
  | ts => .error (.unexpected .key ts.head?)

/-- Nothing may be left. -/
def expectFinish : List Lexeme → Except SyntaxError Unit
  | [] => .ok ()
  | l :: _ => .error (.unexpected .finish (some l))

/-- How tightly operators bind. -/
inductive Level
  | or
  | and
  | not
  | comparison
  | sum
  | product
  | sign
  | access
  deriving DecidableEq, Repr

namespace Level

/-- The place of a level, counted from the tightest one. -/
def rank : Level → Nat
  | or => 8
  | and => 7
  | not => 6
  | comparison => 5
  | sum => 4
  | product => 3
  | sign => 2
  | access => 1

theorem rank_le (l : Level) : l.rank ≤ 8 := by cases l <;> decide

end Level

/-- The levels whose operators form chains. -/
inductive ChainLevel
  | or
  | and
  | sum
  | product
  deriving DecidableEq, Repr

namespace ChainLevel

/-- The level itself. -/
def level : ChainLevel → Level
  | or => .or
  | and => .and
  | sum => .sum
  | product => .product

/-- The level of the operands. -/
def operand : ChainLevel → Level
  | or => .and
  | and => .not
  | sum => .product
  | product => .sign

/-- The operator of the level that a symbol stands for. -/
def operator? : ChainLevel → Symbol → Option BinaryOp
  | or, .or => some .or
  | and, .and => some .and
  | sum, .plus => some (.arithmetic .add)
  | sum, .minus => some (.arithmetic .sub)
  | product, .star => some (.arithmetic .mul)
  | product, .slash => some (.arithmetic .div)
  | product, .percent => some (.arithmetic .rem)
  | _, _ => none

/-- The operator that the lexemes start with, and what follows it. -/
def leading? (l : ChainLevel) :
    (ts : List Lexeme) → Option (BinaryOp × { rest : List Lexeme // rest.length < ts.length })
  | .symbol s :: rest => (l.operator? s).map fun op => (op, ⟨rest, Nat.lt_succ_self _⟩)
  | _ => none

theorem rank_operand_lt (l : ChainLevel) : l.operand.rank < l.level.rank := by cases l <;> decide

end ChainLevel

/-- The comparison that a symbol stands for. -/
def comparison? : Symbol → Option Comparison
  | .eqEq => some .eq
  | .notEq => some .ne
  | .lt => some .lt
  | .ltEq => some .le
  | .gt => some .gt
  | .gtEq => some .ge
  | _ => none

/-- The comparison that the lexemes start with, and what follows it. -/
def leadingComparison? :
    (ts : List Lexeme) → Option (Comparison × { rest : List Lexeme // rest.length < ts.length })
  | .symbol s :: rest => (comparison? s).map fun op => (op, ⟨rest, Nat.lt_succ_self _⟩)
  | _ => none

mutual

/-- An expression of a level. -/
def expression (level : Level) (ts : List Lexeme) : Reading Expr ts.length :=
  match level with
  | .or => chained .or ts
  | .and => chained .and ts
  | .not =>
    match eat? .not ts with
    | some ⟨rest, _⟩ => do
      let ⟨operand, rest, _⟩ ← expression .not rest
      .ok ⟨.unary .not operand, rest, by omega⟩
    | none => expression .comparison ts
  | .comparison => do
    let ⟨left, rest, _⟩ ← expression .sum ts
    match leadingComparison? rest with
    | none => .ok ⟨left, rest, by omega⟩
    | some (op, ⟨rest, _⟩) =>
      let ⟨right, rest, _⟩ ← expression .sum rest
      if (leadingComparison? rest).isSome then .error .chainedComparison
      else .ok ⟨.binary (.comparison op) left right, rest, by omega⟩
  | .sum => chained .sum ts
  | .product => chained .product ts
  | .sign =>
    match eat? .minus ts with
    | some ⟨rest, _⟩ => do
      let ⟨operand, rest, _⟩ ← expression .sign rest
      .ok ⟨.unary .neg operand, rest, by omega⟩
    | none => expression .access ts
  | .access => do
    let ⟨base, rest, _⟩ ← primary ts
    let ⟨e, rest, _⟩ ← accesses base rest
    .ok ⟨e, rest, by omega⟩
termination_by 20 * ts.length + 2 * level.rank + 1
decreasing_by all_goals simp only [Level.rank, ChainLevel.level]; omega

/-- The operands of a chain and its operators. -/
def chained (l : ChainLevel) (ts : List Lexeme) : Reading Expr ts.length := do
  let ⟨first, rest, _⟩ ← expression l.operand ts
  let ⟨e, rest, _⟩ ← chain l first rest
  .ok ⟨e, rest, by omega⟩
termination_by 20 * ts.length + 2 * l.level.rank
decreasing_by
  · have := l.rank_operand_lt
    omega
  · omega

/-- The rest of a chain, which groups to the left. -/
def chain (l : ChainLevel) (left : Expr) (ts : List Lexeme) : Reading Expr (ts.length + 1) :=
  match l.leading? ts with
  | none => .ok ⟨left, ts, by omega⟩
  | some (op, ⟨rest, _⟩) => do
    let ⟨right, rest, _⟩ ← expression l.operand rest
    let ⟨e, rest, _⟩ ← chain l (.binary op left right) rest
    .ok ⟨e, rest, by omega⟩
termination_by 20 * ts.length
decreasing_by
  · have := l.operand.rank_le
    omega
  · omega

/-- The accesses to members and items behind an expression. -/
def accesses (base : Expr) (ts : List Lexeme) : Reading Expr (ts.length + 1) :=
  match eat? .dot ts with
  | some ⟨rest, _⟩ => do
    let ⟨name, rest, _⟩ ← expectName rest
    let ⟨e, rest, _⟩ ← accesses (.member base name) rest
    .ok ⟨e, rest, by omega⟩
  | none =>
    match eat? .leftBracket ts with
    | some ⟨rest, _⟩ => do
      let ⟨place, rest, _⟩ ← expression .or rest
      let ⟨_, rest, _⟩ ← expect .rightBracket rest
      let ⟨e, rest, _⟩ ← accesses (.index base place) rest
      .ok ⟨e, rest, by omega⟩
    | none => .ok ⟨base, ts, by omega⟩
termination_by 20 * ts.length
decreasing_by all_goals have := Level.or.rank_le; omega

/-- An expression that is no operator's and no access. -/
def primary (ts : List Lexeme) : Reading Expr ts.length :=
  match ts with
  | [] => .error (.noExpression none)
  | .symbol .nilWord :: rest => .ok ⟨.literal .null, rest, by simp⟩
  | .symbol .trueWord :: rest => .ok ⟨.literal (.bool true), rest, by simp⟩
  | .symbol .falseWord :: rest => .ok ⟨.literal (.bool false), rest, by simp⟩
  | .int n :: rest => .ok ⟨.literal (.int n), rest, by simp⟩
  | .float x :: rest => if x.isFinite then .ok ⟨.literal (.float x), rest, by simp⟩ else .error .infiniteNumber
  | .string s :: rest => .ok ⟨.literal (.string s), rest, by simp⟩
  | .ident name :: rest =>
    match eat? .leftParen rest with
    | none => .ok ⟨.var name, rest, by simp⟩
    | some ⟨inner, _⟩ => do
      let ⟨args, rest', _⟩ ← items .rightParen inner
      .ok ⟨.call name args, rest', by simp only [List.length_cons]; omega⟩
  | .symbol .leftParen :: rest => do
    let ⟨e, rest', _⟩ ← expression .or rest
    let ⟨_, rest', _⟩ ← expect .rightParen rest'
    .ok ⟨e, rest', by simp only [List.length_cons]; omega⟩
  | .symbol .leftBracket :: rest => do
    let ⟨members, rest', _⟩ ← items .rightBracket rest
    .ok ⟨.list members, rest', by simp only [List.length_cons]; omega⟩
  | .symbol .leftBrace :: rest => do
    let ⟨members, rest', _⟩ ← entries rest
    .ok ⟨.map members, rest', by simp only [List.length_cons]; omega⟩
  | l :: _ => .error (.noExpression (some l))
termination_by 20 * ts.length
decreasing_by all_goals have := Level.or.rank_le; simp only [List.length_cons]; omega

/-- Expressions with commas between them, up to the closing symbol. -/
def items (close : Symbol) (ts : List Lexeme) : Reading (List Expr) ts.length :=
  match eat? close ts with
  | some ⟨rest, h⟩ => .ok ⟨[], rest, h⟩
  | none => do
    let ⟨item, rest, _⟩ ← expression .or ts
    match eat? .comma rest with
    | none =>
      let ⟨_, rest, _⟩ ← expect close rest
      .ok ⟨[item], rest, by omega⟩
    | some ⟨rest, _⟩ =>
      let ⟨others, rest, _⟩ ← items close rest
      .ok ⟨item :: others, rest, by omega⟩
termination_by 20 * ts.length + 18
decreasing_by all_goals have := Level.or.rank_le; omega

/-- Entries with commas between them, up to the closing brace. -/
def entries (ts : List Lexeme) : Reading (List (String × Expr)) ts.length :=
  match eat? .rightBrace ts with
  | some ⟨rest, h⟩ => .ok ⟨[], rest, h⟩
  | none => do
    let ⟨key, rest, _⟩ ← expectKey ts
    let ⟨_, rest, _⟩ ← expect .colon rest
    let ⟨value, rest, _⟩ ← expression .or rest
    match eat? .comma rest with
    | none =>
      let ⟨_, rest, _⟩ ← expect .rightBrace rest
      .ok ⟨[(key, value)], rest, by omega⟩
    | some ⟨rest, _⟩ =>
      let ⟨others, rest, _⟩ ← entries rest
      .ok ⟨(key, value) :: others, rest, by omega⟩
termination_by 20 * ts.length
decreasing_by all_goals have := Level.or.rank_le; omega

end

/-- The entries that follow the name of an included template, each behind a comma. -/
def extras (ts : List Lexeme) : Reading (List (String × Expr)) (ts.length + 1) :=
  match eat? .comma ts with
  | none => .ok ⟨[], ts, by omega⟩
  | some ⟨rest, _⟩ => do
    let ⟨key, rest, _⟩ ← expectKey rest
    let ⟨_, rest, _⟩ ← expect .colon rest
    let ⟨value, rest, _⟩ ← expression .or rest
    let ⟨others, rest, _⟩ ← extras rest
    .ok ⟨(key, value) :: others, rest, by omega⟩
termination_by ts.length

/-- An expression to which nothing is left over. -/
def wholeExpression (ts : List Lexeme) : Except SyntaxError Expr := do
  let ⟨e, rest, _⟩ ← expression .or ts
  expectFinish rest
  .ok e

/-- The variables of a loop. -/
def loopVars (ts : List Lexeme) : Except SyntaxError (LoopVars × List Lexeme) := do
  let ⟨first, rest, _⟩ ← expectName ts
  match eat? .comma rest with
  | none => .ok (.item first, rest)
  | some ⟨rest, _⟩ =>
    let ⟨second, rest, _⟩ ← expectName rest
    .ok (.pair first second, rest)

/-- The statement that lexemes make up. -/
def Statement.ofLexemes (ts : List Lexeme) : Except SyntaxError Statement :=
  match ts with
  | [] => .ok .empty
  | .symbol .ifWord :: rest => (wholeExpression rest).map .ifThen
  | .symbol .elsifWord :: rest => (wholeExpression rest).map .elseIf
  | .symbol .elseWord :: rest =>
    match eat? .ifWord rest with
    | some ⟨rest, _⟩ => (wholeExpression rest).map .elseIf
    | none => do
      expectFinish rest
      .ok .otherwise
  | .symbol .endWord :: rest => do
    expectFinish rest
    .ok .close
  | .symbol .forWord :: rest => do
    let (vars, rest) ← loopVars rest
    let ⟨_, rest, _⟩ ← expect .inWord rest
    (wholeExpression rest).map (.loop vars)
  | .symbol .includeWord :: rest => do
    let ⟨name, rest, _⟩ ← expression .or rest
    let ⟨extra, rest, _⟩ ← extras rest
    expectFinish rest
    .ok (.includes name extra)
  | .ident name :: .symbol .assign :: rest => (wholeExpression rest).map (.assign name)
  | ts => (wholeExpression ts).map .eval

/-- The expression that lexemes make up; nil if there are none. -/
def Expr.ofLexemes (ts : List Lexeme) : Except SyntaxError Expr :=
  match ts with
  | [] => .ok (.literal .null)
  | ts => wholeExpression ts

/-- The lexemes of a piece of code without their places. -/
def bareLexemes (code : String) : Except SyntaxError (List Lexeme) :=
  (lexemes code).map fun located => located.map LocatedLexeme.lexeme

/-- The statement that a piece of code is. -/
def Statement.ofCode (code : String) : Except SyntaxError Statement := do
  Statement.ofLexemes (← bareLexemes code)

/-- The expression that a piece of code is. -/
def Expr.ofCode (code : String) : Except SyntaxError Expr := do
  Expr.ofLexemes (← bareLexemes code)

end Stencil.Script
