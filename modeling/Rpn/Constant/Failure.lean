import Rpn.Bytes

/-!
# How a constant expression fails

The causes for which the text of a constant expression has no value.
-/

namespace Rpn.Constant

/-- A cause for which a constant expression has no value. -/
inductive Failure where
  /-- The text does not follow the grammar. -/
  | malformed
  /-- A name that nothing defines. -/
  | undefined (name : Bytes)
  /-- A name that is assigned twice. -/
  | reassigned (name : Bytes)
  /-- A name that is read before it has a value. -/
  | unset (name : Bytes)
  /-- An operation that its operands do not have. -/
  | mismatch
  /-- A quotient or remainder by zero. -/
  | zeroDivisor
  /-- An operand outside the range of its operation. -/
  | outOfRange
  /-- More steps than the evaluation may take. -/
  | stepLimit
  deriving DecidableEq, Repr

/-- The wording of a cause. -/
def Failure.message : Failure → Bytes
  | .malformed => ascii "malformed constant expression"
  | .undefined name => ascii "undefined: " ++ name
  | .reassigned name => ascii "reassigned: " ++ name
  | .unset name => ascii "read before assignment: " ++ name
  | .mismatch => ascii "operation not defined for its operands"
  | .zeroDivisor => ascii "division by zero"
  | .outOfRange => ascii "operand out of range"
  | .stepLimit => ascii "too many steps"

end Rpn.Constant
