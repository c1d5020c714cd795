import Rpn.Constant.Code
import Rpn.Table

/-!
# From expressions to code

An expression becomes instructions that leave its value on the stack.  A condition does not
always: where its value is only tested, `not`, `and`, `or` and `not in` become branches.
Adjacent terms of a sum that are texts, lists or tuples as written are joined into one.  Names
are resolved here, also in parts that never run.

* `Expr.emit` compiles an expression;
* `compile` compiles a program.
-/

namespace Rpn.Constant

/-! ## Code under construction -/

/-- The places of the constants of a program.  Equal constants have one place, integers beyond
64 bits apart. -/
structure Pool where
  integers : Table Nat Nat := ∅
  /-- The doubles, by their bits. -/
  reals : Table UInt64 Nat := ∅
  texts : Table Bytes Nat := ∅
  /-- The number of places. -/
  size : Nat := 0

/-- Code under construction. -/
structure Builder where
  /-- The blocks, among them some whose code is not known yet. -/
  blocks : Array Block := #[{}]
  /-- The block under construction. -/
  current : Nat := 0
  /-- Its instructions, the latest first. -/
  body : List Instruction := []
  /-- The bytes that they take. -/
  size : Nat := 0
  pool : Pool := {}
  /-- The places of the names of constants and functions. -/
  names : Table Bytes Nat := ∅
  /-- The number of variables of comprehensions. -/
  slots : Nat := 0

/-- A step of the construction, which may fail. -/
abbrev Emit := StateT Builder (Except Failure)

/-- Adds an instruction of some bytes. -/
def emitSized (instruction : Instruction) (bytes : Nat) : Emit Unit :=
  modify fun b => { b with body := instruction :: b.body, size := b.size + bytes }

/-- Adds an instruction without an argument. -/
def emit (instruction : Instruction) : Emit Unit :=
  emitSized instruction instruction.steps

/-- Adds an instruction with an argument. -/
def emitWith (instruction : Instruction) (argument : Nat) : Emit Unit :=
  emitSized instruction (1 + argumentLength argument)

/-- Reserves a block. -/
def newBlock : Emit Nat :=
  modifyGet fun b => (b.blocks.size, { b with blocks := b.blocks.push {} })

/-- Completes the block under construction. -/
def leave (exit : Exit) : Emit Unit :=
  modify fun b =>
    { b with blocks := b.blocks.setIfInBounds b.current ⟨b.body.reverse, b.size, exit⟩ }

/-- Goes on with the code of a reserved block. -/
def start (block : Nat) : Emit Unit :=
  modify fun b => { b with current := block, body := [], size := 0 }

/-- The place of a name, which is added where it is new. -/
def nameIndex (name : Bytes) : Emit Nat :=
  modifyGet fun b =>
    match b.names[name]? with
    | some k => (k, b)
    | none => (b.names.size, { b with names := b.names.insert name b.names.size })

namespace Pool

/-- The place of an integer, which is added where it is new. -/
def integer (pool : Pool) (n : Nat) : Nat × Pool :=
  match if n < 0x8000000000000000 then pool.integers[n]? else none with
  | some k => (k, pool)
  | none =>
    (pool.size,
      { pool with integers := pool.integers.insert n pool.size, size := pool.size + 1 })

/-- The place of a double, which is added where it is new. -/
def real (pool : Pool) (bits : UInt64) : Nat × Pool :=
  match pool.reals[bits]? with
  | some k => (k, pool)
  | none =>
    (pool.size, { pool with reals := pool.reals.insert bits pool.size, size := pool.size + 1 })

/-- The place of a text, which is added where it is new. -/
def text (pool : Pool) (bytes : Bytes) : Nat × Pool :=
  match pool.texts[bytes]? with
  | some k => (k, pool)
  | none =>
    (pool.size, { pool with texts := pool.texts.insert bytes pool.size, size := pool.size + 1 })

end Pool

/-- Adds an instruction that puts a constant on the stack, given how its place is found. -/
def emitConstant (v : Value) (place : Pool → Nat × Pool) : Emit Unit := do
  let k ← modifyGet fun b =>
    let (k, pool) := place b.pool
    (k, { b with pool })
  emitWith (.push v) k

/-- Adds an instruction that puts an integer as written on the stack. -/
def emitInteger (n : Nat) : Emit Unit :=
  emitConstant (.int n) (·.integer n)

/-- Adds an instruction that puts a double on the stack. -/
def emitReal (x : Float) : Emit Unit :=
  emitConstant (.real x) (·.real x.toBits)

/-- Adds an instruction that puts a text on the stack. -/
def emitText (bytes : Bytes) : Emit Unit :=
  emitConstant (.string (Strand.ofBytes bytes)) (·.text bytes)

/-! ## Names -/

/-- What names mean at a point of a program. -/
structure Scope where
  /-- The variables of the comprehensions around. -/
  locals : Table Bytes Nat := ∅
  /-- The places of the names that the program assigns. -/
  globals : Table Bytes Nat
  /-- The constants that the program may use. -/
  constant? : Bytes → Option Int

/-- Adds an instruction that puts the value of a name on the stack.  A name means the variable
of a comprehension around it, else what the program assigns to it, else a constant, else what
is predefined. -/
def Scope.emitName (scope : Scope) (name : Bytes) : Emit Unit := do
  match scope.locals[name]? with
  | some slot => emitWith (.load slot name) slot
  | none =>
    match scope.globals[name]? with
    | some k => emitWith (.loadGlobal name) k
    | none =>
      match scope.constant? name with
      | some n => emitWith (.push (.int n)) (← nameIndex name)
      | none =>
        match predefined.lookup name with
        | some v => emitWith (.push v) (← nameIndex name)
        | none => throw (.undefined name)

/-- Enters a comprehension, whose variables are new.  Each is one variable for the whole run of
a program: a loop assigns to it and leaves it as it is at its end. -/
def Scope.enter (scope : Scope) (names : List Bytes) : Emit Scope :=
  modifyGet fun b =>
    let (locals, slots) := names.foldl
      (fun (locals, slots) name =>
        if locals[name]?.any (b.slots ≤ ·) then (locals, slots)
        else (locals.insert name slots, slots + 1)) (scope.locals, b.slots)
    ({ scope with locals }, { b with slots })

/-- Adds an instruction that gives a variable of a comprehension its value. -/
def Scope.emitStore (scope : Scope) (name : Bytes) : Emit Unit := do
  match scope.locals[name]? with
  | some slot => emitWith (.store slot) slot
  | none => throw (.undefined name)

/-! ## Sums -/

/-- The last operand of a sum, as far as it is joined from adjacent terms. -/
inductive Joint where
  /-- The operand is complete. -/
  | closed
  /-- Texts, the latest first. -/
  | text (pieces : List Bytes)
  /-- The elements of a list, which are on the stack. -/
  | list (count : Nat)
  /-- The elements of a tuple, which are on the stack. -/
  | tuple (count : Nat)
  deriving DecidableEq, Repr

/-- A sum under construction. -/
structure Summation where
  /-- Whether some operand is complete. -/
  isStarted : Bool := false
  joint : Joint := .closed
  deriving DecidableEq, Repr

/-- Completes an operand, whose value is on the stack. -/
def Summation.operand (s : Summation) : Emit Summation := do
  if s.isStarted then emit (.dyadic .plus)
  return ⟨true, .closed⟩

/-- Completes the last operand. -/
def Summation.close (s : Summation) : Emit Summation :=
  match s.joint with
  | .closed => return s
  | .text pieces => do
    emitText pieces.reverse.flatten
    s.operand
  | .list count => do
    emitWith (.list count) count
    s.operand
  | .tuple count => do
    emitWith (.tuple count) count
    s.operand

/-- Adds a text to a sum. -/
def Summation.addText (s : Summation) (bytes : Bytes) : Emit Summation :=
  match s.joint with
  | .text pieces => return { s with joint := .text (bytes :: pieces) }
  | _ => do return { ← s.close with joint := .text [bytes] }

/-- Adds a list of `count` elements to a sum, in front of the code of the elements. -/
def Summation.addList (s : Summation) (count : Nat) : Emit Summation :=
  match s.joint with
  | .list before => return { s with joint := .list (before + count) }
  | _ => do return { ← s.close with joint := .list count }

/-- Adds a tuple of `count` elements to a sum, in front of the code of the elements. -/
def Summation.addTuple (s : Summation) (count : Nat) : Emit Summation :=
  match s.joint with
  | .tuple before => return { s with joint := .tuple (before + count) }
  | _ => do return { ← s.close with joint := .tuple count }

/-! ## Expressions -/

/-- What is done with the value of an expression. -/
inductive Goal where
  /-- It stays on the stack. -/
  | value
  /-- It is tested. -/
  | branch (whenTrue whenFalse : Nat)
  deriving DecidableEq, Repr

/-- Does what is to be done with the value on the stack. -/
def settle : Goal → Emit Unit
  | .value => return
  | .branch whenTrue whenFalse => leave (.branch whenTrue whenFalse)

/-- Compiles a loop over the value on the stack, given what compiles its inside. -/
def emitLoop (scope : Scope) (var : Bytes) (inside : Emit Unit) : Emit Unit := do
  emit .enter
  let head ← newBlock
  let body ← newBlock
  let behind ← newBlock
  leave (.jump head)
  start head
  leave (.next behind body)
  start body
  scope.emitStore var
  inside
  leave (.jump head)
  start behind
  emit .leave

mutual

/-- Compiles an expression. -/
def Expr.emit (scope : Scope) (goal : Goal) : Expr → Emit Unit
  | .name bytes => do
    scope.emitName bytes
    settle goal
  | .integer n => do
    emitInteger n
    settle goal
  | .real mantissa exponent => do
    emitReal (Real.ofDecimal mantissa exponent)
    settle goal
  | .string bytes => do
    emitText bytes
    settle goal
  | .list elements => do
    emitAll scope elements
    emitWith (.list elements.length) elements.length
    settle goal
  | .tuple elements => do
    emitAll scope elements
    emitWith (.tuple elements.length) elements.length
    settle goal
  | .dict => do
    Constant.emit (.push .dict)
    settle goal
  | .paren inside => do
    inside.emit scope .value
    settle goal
  | .sum terms => do
    let s ← emitSum scope terms
    let _ ← s.close
    settle goal
  | .monadic op operand =>
    match op, goal with
    | .not, .branch whenTrue whenFalse => operand.emit scope (.branch whenFalse whenTrue)
    | op, goal => do
      operand.emit scope .value
      Constant.emit (.monadic op)
      settle goal
  | .dyadic op left right =>
    match op, goal with
    | .and, .branch whenTrue whenFalse => do
      left.emit scope .value
      let more ← newBlock
      leave (.branch more whenFalse)
      start more
      right.emit scope (.branch whenTrue whenFalse)
    | .or, .branch whenTrue whenFalse => do
      left.emit scope .value
      let more ← newBlock
      leave (.branch whenTrue more)
      start more
      right.emit scope (.branch whenTrue whenFalse)
    | .notMember, .branch whenTrue whenFalse => do
      left.emit scope .value
      right.emit scope .value
      Constant.emit (.dyadic .member)
      leave (.branch whenFalse whenTrue)
    | .and, .value => do
      let done ← newBlock
      let more ← newBlock
      left.emit scope .value
      Constant.emit .duplicate
      leave (.branch more done)
      start more
      Constant.emit .drop
      right.emit scope .value
      leave (.jump done)
      start done
    | .or, .value => do
      let done ← newBlock
      let more ← newBlock
      left.emit scope .value
      Constant.emit .duplicate
      leave (.branch done more)
      start more
      Constant.emit .drop
      right.emit scope .value
      leave (.jump done)
      start done
    | op, goal => do
      left.emit scope .value
      right.emit scope .value
      Constant.emit (.dyadic op)
      settle goal
  | .choice condition whenTrue whenFalse => do
    let done ← newBlock
    let yes ← newBlock
    let no ← newBlock
    condition.emit scope (.branch yes no)
    start yes
    whenTrue.emit scope .value
    leave (.jump done)
    start no
    whenFalse.emit scope .value
    leave (.jump done)
    start done
    settle goal
  | .call function arguments => do
    function.emit scope .value
    emitAll scope arguments
    emitWith (.call arguments.length) (256 * arguments.length)
    settle goal
  | .index sequence position => do
    sequence.emit scope .value
    position.emit scope .value
    Constant.emit .index
    settle goal
  | .comprehension var source body => do
    emitWith (.list 0) 0
    source.emit scope .value
    let scope ← scope.enter (var :: body.vars)
    emitLoop scope var (body.emit scope)
    settle goal

/-- Compiles expressions from the left. -/
def emitAll (scope : Scope) : List Expr → Emit Unit
  | [] => return
  | e :: rest => do
    e.emit scope .value
    emitAll scope rest

/-- Compiles the terms of a sum, of which the last one is given first. -/
def emitSum (scope : Scope) : List Expr → Emit Summation
  | [] => return {}
  | .string bytes :: earlier => do
    let s ← emitSum scope earlier
    s.addText bytes
  | .list elements :: earlier => do
    let s ← emitSum scope earlier
    let s ← s.addList elements.length
    emitAll scope elements
    return s
  | .tuple elements :: earlier => do
    let s ← emitSum scope earlier
    let s ← s.addTuple elements.length
    emitAll scope elements
    return s
  | term :: earlier => do
    let s ← emitSum scope earlier
    let s ← s.close
    term.emit scope .value
    s.operand

/-- Compiles what a comprehension does for each element. -/
def Loop.emit (scope : Scope) : Loop → Emit Unit
  | .element value => do
    Constant.emit .duplicate
    value.emit scope .value
    Constant.emit .append
  | .each var source body => do
    source.emit scope .value
    emitLoop scope var (body.emit scope)
  | .only condition body => do
    let done ← newBlock
    let yes ← newBlock
    condition.emit scope (.branch yes done)
    start yes
    body.emit scope
    leave (.jump done)
    start done

end

/-! ## Programs -/

/-- Compiles a statement.  A number or a text by itself does nothing. -/
def Statement.emit (scope : Scope) : Statement → Emit Unit
  | .pass => return
  | .expression value => do
    if !value.isLiteral then
      value.emit scope .value
      Constant.emit .drop
  | .assign name value => do
    value.emit scope .value
    emitWith (.storeGlobal name) (scope.globals[name]?.getD 0)

/-- The places of the names that a program assigns.  A name is assigned once at most. -/
def assignedNames (program : List Statement) : Except Failure (Table Bytes Nat) :=
  (program.filterMap Statement.assigned?).foldlM
    (fun places name =>
      if places.contains name then .error (.reassigned name)
      else .ok (places.insert name places.size)) ∅

/-- Compiles a program to its blocks, and tells how many variables its comprehensions
have. -/
def compile (constant? : Bytes → Option Int) (program : List Statement) :
    Except Failure (Array Block × Nat) := do
  let scope : Scope := { globals := ← assignedNames program, constant? }
  let (_, b) ← StateT.run (do program.forM (·.emit scope); leave .finish) ({} : Builder)
  return (b.blocks, b.slots)

end Rpn.Constant
