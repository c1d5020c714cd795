import Rpn.Constant.Compile
import Rpn.Constant.Grammar
import Rpn.Constant.Language
import Rpn.Constant.Layout

/-!
# An interpreter of constant expressions

One language for constant expressions: a part of Starlark, with integers, texts, lists and
comprehensions, but without dictionaries, slices and methods.  A text is read as a program, the
program is compiled, and its code runs within a bound on the number of steps.  A variable of a
comprehension is one place of memory for the whole run.

* `Frame.execute` carries out an instruction;
* `Code.run` runs code;
* `interpreter` is the language.  It is no instance: what holds of the expander holds for any
  language, and this one is named where a fixed expression is evaluated.
-/

namespace Rpn.Constant

/-- The state of a run. -/
structure Frame where
  /-- The number of steps at which the run is stopped. -/
  limit : Nat
  /-- The number of steps taken. -/
  steps : Nat := 0
  /-- The stack of values, the top first. -/
  values : List Value := []
  /-- The elements that are left to the loops, the innermost loop first. -/
  loops : List (List Value) := []
  /-- The variables of comprehensions. -/
  slots : Array (Option Value)
  /-- What the program has assigned. -/
  globals : Table Bytes Value := ∅

namespace Frame

/-- Takes a number of steps. -/
def spend (frame : Frame) (n : Nat) : Except Failure Frame :=
  if frame.limit ≤ frame.steps + n then .error .stepLimit
  else .ok { frame with steps := frame.steps + n }

/-- Calls a function. -/
def callValue (function : Value) (arguments : List Value) : Except Failure Value :=
  match function with
  | .builtin f => f.call arguments
  | _ => .error .mismatch

/-- The values on top of a stack, the lowest first. -/
def topValues (count : Nat) (values : List Value) : Array Value :=
  (values.take count).reverse.toArray

/-- The effect of an instruction, its steps apart.  There are always enough values on the
stack. -/
def effect (frame : Frame) (instruction : Instruction) : Except Failure Frame :=
  match instruction, frame.values with
  | .push v, values => .ok { frame with values := v :: values }
  | .load slot name, values =>
    match frame.slots.getD slot none with
    | some v => .ok { frame with values := v :: values }
    | none => .error (.unset name)
  | .store slot, v :: values =>
    .ok { frame with values, slots := frame.slots.setIfInBounds slot (some v) }
  | .loadGlobal name, values =>
    match frame.globals[name]? with
    | some v => .ok { frame with values := v :: values }
    | none => .error (.unset name)
  | .storeGlobal name, v :: values =>
    .ok { frame with values, globals := frame.globals.insert name v }
  | .monadic op, x :: values => do
    let v ← op.apply x
    return { frame with values := v :: values }
  | .dyadic op, y :: x :: values => do
    let v ← op.apply x y
    return { frame with values := v :: values }
  | .list count, values =>
    .ok { frame with values := .list (topValues count values) :: values.drop count }
  | .tuple count, values =>
    .ok { frame with values := .tuple (topValues count values) :: values.drop count }
  | .call count, values =>
    match values.drop count with
    | function :: rest => do
      let v ← callValue function (values.take count).reverse
      return { frame with values := v :: rest }
    | [] => .error .mismatch
  | .index, k :: xs :: values => do
    let v ← elementAt xs k
    return { frame with values := v :: values }
  | .duplicate, v :: values => .ok { frame with values := v :: v :: values }
  | .drop, _ :: values => .ok { frame with values }
  | .append, x :: _ :: .list xs :: values =>
    .ok { frame with values := .list (xs.push x) :: values }
  | .enter, source :: values => do
    let elements ← source.elements? frame.limit
    return { frame with values, loops := elements :: frame.loops }
  | .leave, _ => .ok { frame with loops := frame.loops.drop 1 }
  | _, _ => .error .mismatch

/-- Carries out an instruction. -/
def execute (frame : Frame) (instruction : Instruction) : Except Failure Frame := do
  (← frame.spend instruction.steps).effect instruction

end Frame

namespace Code

/-- Runs code from a block on.  Every block takes a step at least, so the limit of steps is
fuel enough. -/
def runFrom (code : Code) : Nat → Nat → Frame → Except Failure Frame
  | 0, _, _ => .error .stepLimit
  | fuel + 1, here, frame => do
    let block := code.blocks.getD here {}
    let frame ← block.body.foldlM Frame.execute frame
    match block.exit, frame.values, frame.loops with
    | .finish, _, _ => frame.spend 2
    | .jump target, _, _ => do
      let frame ← frame.spend (code.layout.jumpSteps here)
      runFrom code fuel target frame
    | .branch whenTrue whenFalse, v :: values, _ =>
      if v.isTrue then do
        let frame ← { frame with values }.spend 1
        runFrom code fuel whenTrue frame
      else do
        let frame ← { frame with values }.spend
          (1 + code.layout.padding whenTrue + code.layout.jumpSteps here)
        runFrom code fuel whenFalse frame
    | .next whenDone _, _, [] :: _ => do
      let frame ← frame.spend 1
      runFrom code fuel whenDone frame
    | .next whenDone body, values, (x :: more) :: outer => do
      let frame ← { frame with values := x :: values, loops := more :: outer }.spend
        (1 + code.layout.padding whenDone + code.layout.jumpSteps here)
      runFrom code fuel body frame
    | _, _, _ => .error .mismatch

/-- Runs code that has a number of variables. -/
def run (code : Code) (limit slots : Nat) : Except Failure Frame :=
  code.runFrom limit 0 { limit, slots := Array.replicate slots none }

end Code

/-- A value as what a program leaves under a name. -/
def Value.global : Value → Global
  | .int n => .integer n
  | _ => .other

/-- The language whose programs are read, compiled and run. -/
@[reducible] def interpreter : Language where
  run limit constant? text := do
    let program ← Grammar.program text
    let (blocks, slots) ← compile constant? program
    let frame ← (Code.ofBlocks blocks).run limit slots
    return fun name => frame.globals[name]?.map Value.global

end Rpn.Constant
