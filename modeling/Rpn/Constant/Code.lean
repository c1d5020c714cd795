import Rpn.Constant.Builtin

/-!
# Code of constant expressions

A program is compiled to instructions for a machine with a stack of values.  Instructions
stand in blocks.  A block is left for another one in one of four ways, and is numbered by its
place in the program; the first block is where a program begins.

* `Instruction` and `Exit` are the two parts of a block;
* `Block.bytes` is the space that a block takes in memory, on which the cost of branches
  depends.
-/

namespace Rpn.Constant

/-- An instruction inside a block. -/
inductive Instruction where
  /-- Puts a value on the stack. -/
  | push (v : Value)
  /-- Puts the value of a variable on the stack; `name` is told if it has none. -/
  | load (slot : Nat) (name : Bytes)
  /-- Takes the value of a variable off the stack. -/
  | store (slot : Nat)
  /-- Puts the value of a name that the program assigns on the stack. -/
  | loadGlobal (name : Bytes)
  /-- Assigns the value on top to a name. -/
  | storeGlobal (name : Bytes)
  | monadic (op : Monadic)
  | dyadic (op : Dyadic)
  /-- Makes a list of the values on top. -/
  | list (count : Nat)
  /-- Makes a tuple of the values on top. -/
  | tuple (count : Nat)
  /-- Calls a function with the values on top, under which the function lies. -/
  | call (count : Nat)
  | index
  | duplicate
  | drop
  /-- Adds the value on top to the list two places below it, and drops what lies between. -/
  | append
  /-- Begins a loop over the elements of the value on top. -/
  | enter
  /-- Ends the innermost loop. -/
  | leave

/-- The steps that an instruction takes.  A test for what is not a member is a test and a
negation. -/
def Instruction.steps : Instruction → Nat
  | .dyadic .notMember => 2
  | _ => 1

/-- How a block is left. -/
inductive Exit where
  /-- The program ends. -/
  | finish
  | jump (target : Nat)
  /-- Goes on as the value on top tells. -/
  | branch (whenTrue whenFalse : Nat)
  /-- Takes the next element of the innermost loop, or goes on behind the loop. -/
  | next (whenDone body : Nat)
  deriving DecidableEq, Repr

/-- Instructions that run one after the other. -/
structure Block where
  body : List Instruction := []
  /-- The bytes that the instructions take. -/
  size : Nat := 0
  exit : Exit := .finish

/-- The bytes that the argument of an instruction takes, seven bits in each. -/
def argumentLength (n : Nat) : Nat :=
  n.log2 / 7 + 1

/-- The bytes that a jump takes: one for itself and four for its target. -/
def jumpBytes : Nat := 5

/-- The bytes that leaving a block takes, apart from a jump. -/
def Exit.bytes : Exit → Nat
  | .finish => 2
  | .jump _ => 0
  | .branch _ _ => jumpBytes
  | .next _ _ => jumpBytes

/-- The bytes that a block takes. -/
def Block.bytes (block : Block) : Nat :=
  block.size + block.exit.bytes

/-- An exit with other targets. -/
def Exit.map (f : Nat → Nat) : Exit → Exit
  | .finish => .finish
  | .jump target => .jump (f target)
  | .branch whenTrue whenFalse => .branch (f whenTrue) (f whenFalse)
  | .next whenDone body => .next (f whenDone) (f body)

/-- Where an exit goes on if nothing is to be jumped over. -/
def Exit.onward? : Exit → Option Nat
  | .finish => none
  | .jump target => some target
  | .branch _ whenFalse => some whenFalse
  | .next _ body => some body

/-- Where an exit jumps. -/
def Exit.aside? : Exit → Option Nat
  | .branch whenTrue _ => some whenTrue
  | .next whenDone _ => some whenDone
  | _ => none

end Rpn.Constant
