import Stencil.Code

/-!
# Programs

Nested code is linked into a flat list of operations with jumps. All jumps but the one at the end of a loop go forward;
they are given as the number of operations that they pass over.

* A condition jumps over its body if it does not hold. A body that an alternative follows ends in a jump over it.
* A loop starts with an operation that enters it or jumps over it, and ends in one that goes back to the body.

Every operation names the instruction that it comes from, and so the position that its failures are put down to.
-/

namespace Stencil

open Script (Expr LoopVars)

/-- An operation. -/
inductive Op
  | literal (text : String)
  | emit (e : Expr) (escaped : Bool)
  | assign (name : String) (e : Expr)
  | includes (name : Expr) (extra : List (String × Expr))
  | eval (e : Expr)
  | jumpUnless (test : Expr) (ahead : Nat)
  | jump (ahead : Nat)
  | loopStart (vars : LoopVars) (iterable : Expr) (ahead : Nat)
  | loopNext (back : Nat)
  deriving Repr

/-- An operation and the place of the instruction that it comes from. -/
structure LinkedOp where
  op : Op
  place : Nat
  deriving Repr

/-- The operations of nested code. -/
def Code.ops : Code → List LinkedOp
  | done => []
  | literal place text next => ⟨.literal text, place⟩ :: next.ops
  | emit place e escaped next => ⟨.emit e escaped, place⟩ :: next.ops
  | assign place name e next => ⟨.assign name e, place⟩ :: next.ops
  | includes place name extra next => ⟨.includes name extra, place⟩ :: next.ops
  | eval place e next => ⟨.eval e, place⟩ :: next.ops
  | ifThen place test body next => ⟨.jumpUnless test body.ops.length, place⟩ :: (body.ops ++ next.ops)
  | ifElse place test body elsePlace alternative next =>
    ⟨.jumpUnless test (body.ops.length + 1), place⟩ ::
      (body.ops ++ ⟨.jump alternative.ops.length, elsePlace⟩ :: (alternative.ops ++ next.ops))
  | loop place vars iterable body endPlace next =>
    ⟨.loopStart vars iterable (body.ops.length + 1), place⟩ ::
      (body.ops ++ ⟨.loopNext body.ops.length, endPlace⟩ :: next.ops)

/-- The operations of a template, and the instructions that they were linked from in their flat and in their nested
form. -/
structure Program where
  origin : String
  instructions : List Located
  code : Code
  ops : Array LinkedOp
  nested : Code.ofInstructions instructions = .ok code
  linked : ops = code.ops.toArray
  deriving Repr

namespace Program

/-- Links instructions into a program. -/
def link (origin : String) (instructions : List Located) : Except Error Program :=
  match nested : Code.ofInstructions instructions with
  | .error e => .error e
  | .ok code => .ok ⟨origin, instructions, code, code.ops.toArray, nested, rfl⟩

theorem link_of_ofInstructions (origin : String) {instructions : List Located} {code : Code}
    (h : Code.ofInstructions instructions = .ok code) :
    Program.link origin instructions = .ok ⟨origin, instructions, code, code.ops.toArray, h, rfl⟩ := by
  unfold Program.link
  split
  · next e he =>
    rw [h] at he
    cases he
  · next c hc =>
    rw [h] at hc
    cases hc
    rfl

theorem link_of_ofInstructions_eq_error (origin : String) {instructions : List Located} {e : Error}
    (h : Code.ofInstructions instructions = .error e) : link origin instructions = .error e := by
  unfold link
  split
  · next e' he =>
    rw [h] at he
    cases he
    rfl
  · next c hc =>
    rw [h] at hc
    cases hc

theorem of_link {origin : String} {instructions : List Located} {p : Program}
    (h : Program.link origin instructions = .ok p) : p.origin = origin ∧ p.instructions = instructions := by
  unfold Program.link at h
  split at h
  · cases h
  · cases h
    exact ⟨rfl, rfl⟩

/-- The position of the instruction that an operation comes from. -/
def position (p : Program) (op : LinkedOp) : Position :=
  (p.instructions[op.place]?).elim ⟨p.origin, 0⟩ Located.position

/-- The failure of an operation. -/
def fault (p : Program) (op : LinkedOp) (fault : RenderFault) : Error := .render (p.position op) fault

/-- The literal text of an operation. -/
def literalOf : LinkedOp → String
  | ⟨.literal text, _⟩ => text
  | _ => ""

/-- All literal text of a program, whether it is reached or not. -/
def literalText (p : Program) : String := String.join (p.ops.toList.map literalOf)

end Program

end Stencil
