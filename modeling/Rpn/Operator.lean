import Rpn.Text.Decimal

/-!
# Operators

Ten operators have a mnemonic: eight act on two values, and two rotations are named but not
carried out.  Outside the library an operator goes by its number in the table; any other
number is no operator, and number 10 is the name of none.

* `BinaryOp.compute?` is the arithmetic, on words of 32 bits;
* `ofMnemonic?_mnemonic` and `ofCode?_code` say that both tables can be read back.
-/

namespace Rpn

/-- An operator that replaces two values by one. -/
inductive BinaryOp where
  | add
  | sub
  | mul
  | div
  | shl
  | shr
  | and
  | or
  deriving DecidableEq, Repr

/-- A direction of rotation. -/
inductive Rotation where
  | left
  | right
  deriving DecidableEq, Repr

/-- An operator with a mnemonic. -/
inductive Operator where
  | binary (op : BinaryOp)
  | rotate (direction : Rotation)
  deriving DecidableEq, Repr

/-- The value of an operator on the upper value `a` and the one below it `b`, reduced to 32
bits.  Shifts move `b` by the last five bits of `a`.  There is no quotient by zero. -/
def BinaryOp.compute? (op : BinaryOp) (a b : Int32) : Option Int32 :=
  match op with
  | .add => some (a + b)
  | .sub => some (a - b)
  | .mul => some (a * b)
  | .div => if b = 0 then none else some (a / b)
  | .shl => some (b <<< a)
  | .shr => some (b >>> a)
  | .and => some (a &&& b)
  | .or => some (a ||| b)

namespace Operator

/-- The operators in table order. -/
def all : List Operator :=
  [.binary .add, .binary .sub, .binary .mul, .binary .div, .binary .shl, .binary .shr,
    .rotate .left, .rotate .right, .binary .and, .binary .or]

/-- The text of an operator in an expression. -/
def mnemonic : Operator → Bytes
  | .binary .add => ascii "+"
  | .binary .sub => ascii "-"
  | .binary .mul => ascii "*"
  | .binary .div => ascii "/"
  | .binary .shl => ascii "<<"
  | .binary .shr => ascii ">>"
  | .rotate .left => ascii "<<<"
  | .rotate .right => ascii ">>>"
  | .binary .and => ascii "&"
  | .binary .or => ascii "|"

/-- The number of an operator. -/
def code : Operator → Int64
  | .binary .add => 0
  | .binary .sub => 1
  | .binary .mul => 2
  | .binary .div => 3
  | .binary .shl => 4
  | .binary .shr => 5
  | .rotate .left => 6
  | .rotate .right => 7
  | .binary .and => 8
  | .binary .or => 9

/-- The number that stands for no operator. -/
def noCode : Int64 := 10

/-- The operator with a number. -/
def ofCode? (n : Int64) : Option Operator :=
  all.find? fun op => op.code = n

/-- The operator with a mnemonic. -/
def ofMnemonic? (token : Bytes) : Option Operator :=
  all.find? fun op => op.mnemonic = token

/-- The number of the operator with a mnemonic, and `noCode` for any other text. -/
def lookup (token : Bytes) : Int64 :=
  ((ofMnemonic? token).map code).getD noCode

/-- The name of a number: a mnemonic where there is one. -/
def name (n : Int64) : Bytes :=
  match ofCode? n with
  | some op => op.mnemonic
  | none =>
    if n = noCode then ascii "invalid"
    else ascii "Operator(" ++ decimal n.toInt ++ ascii ")"

/-- The mnemonics in table order. -/
def names : List Bytes :=
  all.map mnemonic

theorem mem_all (op : Operator) : op ∈ all := by
  rcases op with op | direction
  · cases op <;> decide
  · cases direction <;> decide

theorem ofMnemonic?_mnemonic (op : Operator) : ofMnemonic? op.mnemonic = some op := by
  rcases op with op | direction
  · cases op <;> decide
  · cases direction <;> decide

theorem ofCode?_code (op : Operator) : ofCode? op.code = some op := by
  rcases op with op | direction
  · cases op <;> decide
  · cases direction <;> decide

theorem ofMnemonic?_eq_some_iff {token : Bytes} {op : Operator} :
    ofMnemonic? token = some op ↔ token = op.mnemonic := by
  constructor
  · intro h
    have found := List.find?_some h
    exact (of_decide_eq_true found).symm
  · rintro rfl
    exact ofMnemonic?_mnemonic op

end Operator

end Rpn
