import Rpn.Stack
import Rpn.Symbol
import Rpn.Tokens

/-!
# The machine

A machine has a register file and two stacks of one depth: the values of an expression, and
beside each value the number of the register that it was read from.  An expression is
evaluated token by token; a register or a literal is pushed, and an operator replaces two
values by one.

* `Machine.push`, `Machine.pop`, `Machine.apply`, `Machine.step` and `Machine.eval` give the
  machine after the operation, also when it fails, beside the result;
* `Machine.steps` runs a list of tokens and counts them, so that an error tells its place.
-/

namespace Rpn

/-- An evaluation context. -/
structure Machine where
  /-- The byte between tokens; 0 selects the comma. -/
  delimiter : UInt8 := 44
  registers : Registers := {}
  values : Stack := {}
  /-- The number of the register that each value was read from. -/
  origins : Stack := {}
  /-- Whether the machine narrates what it does. -/
  verbose : Bool := false
  deriving DecidableEq, Repr

namespace Machine

/-- A machine with zeroed registers, whose stacks hold at most `depth` words. -/
def ofDepth (depth : UInt64) : Machine where
  values := Stack.ofDepth depth
  origins := Stack.ofDepth depth

/-- The numbers by name that a machine offers to the expressions it runs. -/
def defines : List (Bytes × Bytes) :=
  [(ascii "INT32_MAX", decimal 2147483647),
   (ascii "INT32_MIN", decimal (-2147483648)),
   (ascii "REG_COUNT", decimal Register.count),
   (ascii "STACK_LIMIT", decimal Stack.defaultDepth),
   (ascii "TOKEN_LIMIT", decimal tokenLimit)]

/-- Zeroes the registers and leaves the stacks alone. -/
def zeroRegisters (m : Machine) : Machine :=
  { m with registers := {} }

/-- Empties both stacks. -/
def clearStacks (m : Machine) : Machine :=
  { m with values := m.values.clear, origins := m.origins.clear }

/-- Zeroes the registers and empties both stacks. -/
def reset (m : Machine) : Machine :=
  { m.clearStacks with registers := {} }

/-- A register's number as the stack of origins holds it, cut to 32 bits. -/
def originWord (origin : Int64) : Int32 :=
  origin.toInt32

/-- Pushes a value and the number of the register that it was read from. -/
def push (m : Machine) (value : Int32) (origin : Int64) : Machine × Except Error Unit :=
  match m.values.push? value, m.origins.push? (originWord origin) with
  | some values, some origins => ({ m with values, origins }, .ok ())
  | _, _ => (m, .error .stackFull)

/-- Pops a value and the number of the register that it was read from. -/
def pop (m : Machine) : Machine × Except Error (Int32 × Int64) :=
  match m.values.pop? with
  | none => (m, .error .stackEmpty)
  | some (value, values) =>
    match m.origins.pop? with
    | some (origin, origins) => ({ m with values, origins }, .ok (value, origin.toInt64))
    | none => ({ m with values }, .ok (value, Register.noCode))

/-- The number of the register that the top value was read from. -/
def origin (m : Machine) : Int64 :=
  if m.origins.size = m.values.size then
    (m.origins.peek?.map Int32.toInt64).getD Register.noCode
  else Register.noCode

/-- The value on top. -/
def top (m : Machine) : Except Error Int32 :=
  match m.values.peek? with
  | some value => .ok value
  | none => .error .stackEmpty

/-- Replaces the two values on top by the value of an operator on them.  The values are gone
also where there are not two, or where the operator has no value on them. -/
def binary (m : Machine) (op : BinaryOp) : Machine × Except Error Int32 :=
  match m.pop with
  | (m, .error e) => (m, .error e)
  | (m, .ok (a, _)) =>
    match m.pop with
    | (m, .error e) => (m, .error e)
    | (m, .ok (b, _)) =>
      match op.compute? a b with
      | none => (m, .error .divideByZero)
      | some result =>
        match m.push result Register.noCode with
        | (m, .error e) => (m, .error e)
        | (m, .ok ()) => (m, m.top)

/-- Applies an operator, given by number, and answers the new top.  A rotation is refused, and
a number that names no operator does nothing. -/
def apply (m : Machine) (code : Int64) : Machine × Except Error Int32 :=
  let (m', result) :=
    match Operator.ofCode? code with
    | some (.binary op) => m.binary op
    | some (.rotate _) => (m, .error .notImplemented)
    | none => (m, m.top)
  (m', result.mapError (Error.under code))

/-- The value that an application shows: the new top, and 0 where it fails; a refused rotation
still shows the top. -/
def applyShown (m : Machine) (code : Int64) : Int32 :=
  match (m.apply code).2, Operator.ofCode? code with
  | .ok top, _ => top
  | .error _, some (.rotate _) => m.values.peek?.getD 0
  | .error _, _ => 0

/-- Evaluates one token. -/
def step (m : Machine) (token : Bytes) : Machine × Except Error Unit :=
  match Symbol.classify token with
  | .operator op =>
    let (m', result) := m.apply op.code
    (m', result.map fun _ => ())
  | .register r => m.push (m.registers.get r) r.code
  | .literal value => m.push value Register.noCode
  | .unknown => (m, .error (.unknownSymbol token))

/-- Evaluates tokens up to the first that fails, counting from `index`. -/
def steps (m : Machine) (index : Nat) : List Bytes → Machine × Except Error Unit
  | [] => (m, .ok ())
  | token :: rest =>
    match m.step token with
    | (m, .error e) => (m, .error (.atToken (Int64.ofNat index) token e))
    | (m, .ok ()) => steps m (index + 1) rest

/-- Evaluates an expression and answers the value left on top. -/
def eval (m : Machine) (expr : Bytes) : Machine × Except Error Int32 :=
  match tokenize m.delimiter 0 expr with
  | .error e => (m, .error e)
  | .ok tokens =>
    match m.steps 0 tokens with
    | (m, .error e) => (m, .error e)
    | (m, .ok ()) => (m, m.top)

/-- The value that an evaluation shows: the one left on top, and 0 where it fails. -/
def evalShown (m : Machine) (expr : Bytes) : Int32 :=
  match (m.eval expr).2 with
  | .ok value => value
  | .error _ => 0

theorem steps_append (m : Machine) (index : Nat) (front rest : List Bytes) :
    m.steps index (front ++ rest) =
      match m.steps index front with
      | (m, .error e) => (m, .error e)
      | (m, .ok ()) => m.steps (index + front.length) rest := by
  induction front generalizing m index with
  | nil => rfl
  | cons token front ih =>
    simp only [List.cons_append, steps]
    rcases m.step token with ⟨m', _ | _⟩
    · rfl
    · simp only [ih, List.length_cons]
      rw [show index + 1 + front.length = index + (front.length + 1) by omega]

end Machine

end Rpn
