import Stencil.Context
import Stencil.Program
import Stencil.Source

/-!
# The machine

The machine runs the operations of a program in a context. Its control is the place of the next operation and a stack of
frames, one for each loop that is being gone through, with the passes that are left. Performing an operation changes the
context and gives a `Move`, and the move says how control goes on.

Control comes to an end after finitely many moves, whatever the operations are (`Control.wellFounded`): a move goes
forward, enters a loop, uses up a pass of the innermost loop and goes back no further than its body, or leaves it.
-/

namespace Stencil

open Script (EvalError Expr LoopVars)

/-- What the passes of a loop bind: the items of a list, or the keys of a map, and their values. Nil has no passes. -/
def Script.LoopVars.passes (vars : LoopVars) (v : Value) : Except EvalError (List (List (String × Value))) :=
  match v, vars with
  | .null, _ => .ok []
  | .list items, .item x => .ok (items.map fun v => [(x, v)])
  | .list items, .pair k x => .ok (items.mapIdx fun i v => [(k, .int i), (x, v)])
  | .map entries, .item x => .ok (entries.map fun (key, _) => [(x, .string key)])
  | .map entries, .pair k x => .ok (entries.map fun (key, v) => [(k, .string key), (x, v)])
  | other, _ => .error (.loopOver other.kind)

/-- A loop that is being gone through: the passes that are left, the locals to be restored behind it, and the place of
its body. -/
structure Frame where
  passes : List (List (String × Value))
  saved : List (String × Option Value)
  body : Nat
  deriving Repr

/-- The place of the next operation, and the frames of the loops around it, innermost first. -/
structure Control where
  place : Nat
  frames : List Frame
  deriving Repr

/-- How control goes on. -/
inductive Move
  | ahead (count : Nat)
  | enter (passes : List (List (String × Value))) (saved : List (String × Option Value))
  | again (back : Nat)
  deriving Repr

namespace Control

/-- Control after a move. A loop that has passes left goes back, but not beyond its own body. -/
def move (c : Control) : Move → Control
  | .ahead count => ⟨c.place + 1 + count, c.frames⟩
  | .enter passes saved => ⟨c.place + 1, ⟨passes, saved, c.place + 1⟩ :: c.frames⟩
  | .again back =>
    match c.frames with
    | [] => ⟨c.place + 1, []⟩
    | ⟨[], _, _⟩ :: frames => ⟨c.place + 1, frames⟩
    | ⟨_ :: passes, saved, body⟩ :: frames => ⟨max (c.place - back) body, ⟨passes, saved, body⟩ :: frames⟩

/-- The first control follows the second one in a program of the given size. -/
inductive Follows (size : Nat) : Control → Control → Prop
  | forward {place place' : Nat} {frames : List Frame} :
    place < size → place < place' → Follows size ⟨place', frames⟩ ⟨place, frames⟩
  | enter {place : Nat} {frames : List Frame} {passes : List (List (String × Value))}
    {saved : List (String × Option Value)} :
    place < size → Follows size ⟨place + 1, ⟨passes, saved, place + 1⟩ :: frames⟩ ⟨place, frames⟩
  | again {place place' body : Nat} {frames : List Frame} {pass : List (String × Value)}
    {passes : List (List (String × Value))} {saved : List (String × Option Value)} :
    body ≤ place' → Follows size ⟨place', ⟨passes, saved, body⟩ :: frames⟩ ⟨place, ⟨pass :: passes, saved, body⟩ :: frames⟩
  | leave {place : Nat} {frame : Frame} {frames : List Frame} :
    Follows size ⟨place + 1, frames⟩ ⟨place, frame :: frames⟩

variable {size : Nat}

theorem follows_move {c : Control} (h : c.place < size) (m : Move) : Follows size (c.move m) c := by
  obtain ⟨place, frames⟩ := c
  cases m with
  | ahead count => exact .forward h (by simp only; omega)
  | enter passes saved => exact .enter h
  | again back =>
    match frames with
    | [] => exact .forward h (Nat.lt_succ_self _)
    | ⟨[], _, _⟩ :: _ => exact .leave
    | ⟨_ :: _, _, _⟩ :: _ => exact .again (Nat.le_max_right _ _)

/-- Control ends from inside a loop if it ends from anywhere behind the start of the loop. -/
theorem acc_of_frame {passes : List (List (String × Value))} {saved : List (String × Option Value)} {body place : Nat}
    {frames : List Frame} (outer : ∀ place, body ≤ place → Acc (Follows size) ⟨place, frames⟩) (h : body ≤ place) :
    Acc (Follows size) ⟨place, ⟨passes, saved, body⟩ :: frames⟩ := by
  induction hk : size - body using Nat.strongRecOn generalizing passes saved body place frames with
  | _ k inner =>
    induction passes generalizing place with
    | nil =>
      induction hn : size - place using Nat.strongRecOn generalizing place with
      | _ n forward =>
        refine ⟨_, fun c hc => ?_⟩
        cases hc with
        | forward hs hlt => exact forward _ (by omega) (by omega) rfl
        | enter hs =>
          exact inner _ (by omega) (fun p hp => forward _ (by omega) (by omega) rfl) (Nat.le_refl _) rfl
        | leave => exact outer _ (by omega)
    | cons pass passes again =>
      induction hn : size - place using Nat.strongRecOn generalizing place with
      | _ n forward =>
        refine ⟨_, fun c hc => ?_⟩
        cases hc with
        | forward hs hlt => exact forward _ (by omega) (by omega) rfl
        | enter hs =>
          exact inner _ (by omega) (fun p hp => forward _ (by omega) (by omega) rfl) (Nat.le_refl _) rfl
        | again hb => exact again hb
        | leave => exact outer _ (by omega)

theorem acc (c : Control) : Acc (Follows size) c := by
  obtain ⟨place, frames⟩ := c
  induction frames generalizing place with
  | nil =>
    induction hn : size - place using Nat.strongRecOn generalizing place with
    | _ n forward =>
      refine ⟨_, fun c hc => ?_⟩
      cases hc with
      | forward hs hlt => exact forward _ (by omega) _ rfl
      | enter hs => exact acc_of_frame (fun p hp => forward _ (by omega) _ rfl) (Nat.le_refl _)
  | cons frame frames outer =>
    obtain ⟨passes, saved, body⟩ := frame
    induction passes generalizing place with
    | nil =>
      induction hn : size - place using Nat.strongRecOn generalizing place with
      | _ n forward =>
        refine ⟨_, fun c hc => ?_⟩
        cases hc with
        | forward hs hlt => exact forward _ (by omega) _ rfl
        | enter hs => exact acc_of_frame (fun p hp => forward _ (by omega) _ rfl) (Nat.le_refl _)
        | leave => exact outer _
    | cons pass passes again =>
      induction hn : size - place using Nat.strongRecOn generalizing place with
      | _ n forward =>
        refine ⟨_, fun c hc => ?_⟩
        cases hc with
        | forward hs hlt => exact forward _ (by omega) _ rfl
        | enter hs => exact acc_of_frame (fun p hp => forward _ (by omega) _ rfl) (Nat.le_refl _)
        | again hb => exact again _
        | leave => exact outer _

/-- In a program of any size, control comes to an end. -/
theorem wellFounded (size : Nat) : WellFounded (Follows size) := ⟨acc⟩

/-- Control in a program of the given size. -/
def Within (_size : Nat) := Control

/-- Control in a program of the given size. -/
def within (size : Nat) (c : Control) : Within size := c

instance : WellFoundedRelation (Within size) := ⟨Follows size, wellFounded size⟩

end Control

/-- Work on a context. -/
abbrev Run (σ : Type) := Work Context σ

/-- What renders an included template with further locals on behalf of the instruction at a position. -/
abbrev Inclusion (σ : Type) := Position → String → Bindings Value → Run σ Unit

namespace Program

variable {σ : Type} (p : Program)

/-- The value of an expression of an operation. -/
def evaluate (op : LinkedOp) (e : Expr) : Run σ Value := do
  let ctx ← Work.own
  match e.eval ctx.scope with
  | .ok v => return v
  | .error e => throw (p.fault op (.evaluation e))

/-- Performs an operation. -/
def perform (inclusion : Inclusion σ) (frames : List Frame) (op : LinkedOp) : Run σ Move := do
  match op.op with
  | .literal text =>
    Work.update (·.write text)
    return .ahead 0
  | .emit e escaped =>
    let v ← p.evaluate op e
    Work.update fun ctx => ctx.write (if escaped then ctx.escape v.text else v.text)
    return .ahead 0
  | .assign name e =>
    let v ← p.evaluate op e
    Work.update (·.setLocal name v)
    return .ahead 0
  | .eval e =>
    let _ ← p.evaluate op e
    return .ahead 0
  | .includes name extra =>
    let name ← p.evaluate op name
    let extra ← extra.mapM fun (key, e) => return (key, ← p.evaluate op e)
    inclusion (p.position op) name.text (Bindings.ofList extra)
    return .ahead 0
  | .jumpUnless test ahead =>
    let v ← p.evaluate op test
    return .ahead (if v.truthy then 0 else ahead)
  | .jump ahead => return .ahead ahead
  | .loopStart vars iterable ahead =>
    let v ← p.evaluate op iterable
    match vars.passes v with
    | .error e => throw (p.fault op (.evaluation e))
    | .ok [] => return .ahead ahead
    | .ok (pass :: passes) =>
      let ctx ← Work.own
      let saved := vars.names.map fun name => (name, Bindings.get? ctx.locals name)
      Work.update (·.bind pass)
      return .enter passes saved
  | .loopNext back =>
    match frames with
    | [] => throw (p.fault op .strayLoopEnd)
    | frame :: _ =>
      match frame.passes with
      | [] => Work.update (·.restore frame.saved)
      | pass :: _ => Work.update (·.bind pass)
      return .again back

/-- Performs operations from a control on, until it is behind the last one. -/
def runFrom (inclusion : Inclusion σ) (c : Control) : Run σ Unit := do
  match _h : p.ops[c.place]? with
  | none => return
  | some op =>
    let m ← p.perform inclusion c.frames op
    runFrom inclusion (c.move m)
termination_by c.within p.ops.size
decreasing_by exact Control.follows_move (Array.getElem?_eq_some_iff.mp _h).1 m

/-- Runs the program. -/
def run (inclusion : Inclusion σ) : Run σ Unit := p.runFrom inclusion ⟨0, []⟩

end Program

end Stencil
