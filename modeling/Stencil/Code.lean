import Stencil.Error
import Stencil.Instruction
import Stencil.Script.Grammar

/-!
# Code

The statements of a template nest: conditions and loops are opened, divided and closed by instructions of their own.
`Code` is the nested form of a list of instructions. Each part of it names the instruction that it comes from by its
place in the list, and then comes the code that follows. `Code.ofInstructions` builds it by recursive descent; it reads
the instructions in their order and stops at the first one that cannot be read or does not fit.

An `elsif` opens an alternative that is a condition of its own, and one `end` closes both.
-/

namespace Stencil

open Script (Expr LoopVars Statement)

/-- Nested instructions. Each is followed by the code after it, and `done` has nothing more to do. -/
inductive Code
  | done
  | literal (place : Nat) (text : String) (next : Code)
  | emit (place : Nat) (e : Expr) (escaped : Bool) (next : Code)
  | assign (place : Nat) (name : String) (e : Expr) (next : Code)
  | includes (place : Nat) (name : Expr) (extra : List (String × Expr)) (next : Code)
  | eval (place : Nat) (e : Expr) (next : Code)
  | ifThen (place : Nat) (test : Expr) (body next : Code)
  | ifElse (place : Nat) (test : Expr) (body : Code) (elsePlace : Nat) (alternative next : Code)
  | loop (place : Nat) (vars : LoopVars) (iterable : Expr) (body : Code) (endPlace : Nat) (next : Code)
  deriving Inhabited, Repr

/-- What an instruction says once its code is read. -/
inductive Reading
  | blank
  | literal (text : String)
  | emit (e : Expr) (escaped : Bool)
  | statement (s : Statement)
  deriving Repr

/-- An instruction and its place in the list. -/
abbrev Placed := Located × Nat

namespace Placed

/-- The failure of an instruction. -/
def fault (p : Placed) (fault : CompileFault) : Error := .compilation p.1.position fault

/-- Reads the code of an instruction. -/
def read (p : Placed) : Except Error Reading :=
  match p.1.instruction with
  | .literal text => .ok (.literal text)
  | .expression code escaped =>
    match Expr.ofCode code with
    | .ok e => .ok (.emit e escaped)
    | .error e => .error (p.fault (.malformed e))
  | .statement code =>
    match Statement.ofCode code with
    | .ok s => .ok (.statement s)
    | .error e => .error (p.fault (.malformed e))
  | .blankLines _ => .ok .blank

end Placed

namespace Code

/-- What divides or closes an open statement. -/
inductive Divider
  | close
  | otherwise
  | elseIf (test : Expr)
  deriving Repr

/-- A piece of nested code. Either the list ends behind it, or an instruction that divides or closes what was opened
before; then the instructions behind that are left. -/
inductive Piece (bound : Nat)
  | ended (code : Code)
  | divided (code : Code) (source : Placed) (divider : Divider) (rest : List Placed) (shorter : rest.length < bound)

/-- A piece with something in front of it. -/
def Piece.after {bound larger : Nat} (make : Code → Code) (h : bound ≤ larger) : Piece bound → Piece larger
  | ended code => ended (make code)
  | divided code source divider rest shorter => divided (make code) source divider rest (Nat.lt_of_lt_of_le shorter h)

/-- The body of a condition and its alternative, with the instructions behind the end of both. -/
structure Branches (bound : Nat) where
  body : Code
  alternative : Option (Nat × Code)
  rest : List Placed
  shorter : rest.length < bound

/-- A condition with its branches. -/
def conditional {bound : Nat} (place : Nat) (test : Expr) (b : Branches bound) (next : Code) : Code :=
  match b.alternative with
  | none => ifThen place test b.body next
  | some (elsePlace, alternative) => ifElse place test b.body elsePlace alternative next

mutual

/-- The nested code up to the first instruction that divides or closes something opened before. -/
def piece (ls : List Placed) : Except Error (Piece ls.length) :=
  match ls with
  | [] => .ok (.ended done)
  | l :: rest => do
    match ← l.read with
    | .blank => return (← piece rest).after id (Nat.le_succ _)
    | .literal text => return (← piece rest).after (literal l.2 text) (Nat.le_succ _)
    | .emit e escaped => return (← piece rest).after (emit l.2 e escaped) (Nat.le_succ _)
    | .statement .empty => return (← piece rest).after id (Nat.le_succ _)
    | .statement (.assign name e) => return (← piece rest).after (assign l.2 name e) (Nat.le_succ _)
    | .statement (.includes name extra) => return (← piece rest).after (includes l.2 name extra) (Nat.le_succ _)
    | .statement (.eval e) => return (← piece rest).after (eval l.2 e) (Nat.le_succ _)
    | .statement .close => return .divided done l .close rest (Nat.lt_succ_self _)
    | .statement .otherwise => return .divided done l .otherwise rest (Nat.lt_succ_self _)
    | .statement (.elseIf test) => return .divided done l (.elseIf test) rest (Nat.lt_succ_self _)
    | .statement (.ifThen test) =>
      let b ← branches l rest
      have := b.shorter
      return (← piece b.rest).after (conditional l.2 test b) (by simp only [List.length_cons]; omega)
    | .statement (.loop vars iterable) =>
      match ← piece rest with
      | .ended _ => throw (l.fault (.unclosed .loop))
      | .divided _ source .otherwise _ _ => throw (source.fault .strayElse)
      | .divided _ source (.elseIf _) _ _ => throw (source.fault .strayElseIf)
      | .divided body source .close rest' h =>
        return (← piece rest').after (loop l.2 vars iterable body source.2) (by simp only [List.length_cons]; omega)
termination_by 2 * ls.length

/-- The branches of a condition that the given instruction opens. -/
def branches (opener : Placed) (ls : List Placed) : Except Error (Branches ls.length) := do
  match ← piece ls with
  | .ended _ => throw (opener.fault (.unclosed .conditional))
  | .divided body _ .close rest h => return ⟨body, none, rest, h⟩
  | .divided body divide .otherwise rest h =>
    match ← piece rest with
    | .ended _ => throw (opener.fault (.unclosed .conditional))
    | .divided _ source .otherwise _ _ => throw (source.fault .secondElse)
    | .divided _ source (.elseIf _) _ _ => throw (source.fault .strayElseIf)
    | .divided alternative _ .close rest' h' => return ⟨body, some (divide.2, alternative), rest', Nat.lt_trans h' h⟩
  | .divided body divide (.elseIf test) rest h =>
    let b ← branches opener rest
    return ⟨body, some (divide.2, conditional divide.2 test b done), b.rest, Nat.lt_trans b.shorter h⟩
termination_by 2 * ls.length + 1

end

/-- The nested code of a list of instructions. -/
def ofInstructions (instructions : List Located) : Except Error Code := do
  match ← piece instructions.zipIdx with
  | .ended code => return code
  | .divided _ source .close _ _ => throw (source.fault .strayEnd)
  | .divided _ source .otherwise _ _ => throw (source.fault .strayElse)
  | .divided _ source (.elseIf _) _ _ => throw (source.fault .strayElseIf)

end Code

end Stencil
