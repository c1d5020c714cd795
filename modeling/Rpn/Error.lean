import Rpn.Constant.Failure
import Rpn.Operator
import Rpn.Text.Template

/-!
# Errors

An error is a cause, a cause with the place where it arose, or two errors that are reported
together.

* `Error.message` words an error, `Error.chain` lists what it is made of, outermost first;
* `Error.is` finds a given error anywhere in the chain.
-/

namespace Rpn

/-- What went wrong, and where. -/
inductive Error where
  | stackEmpty
  | stackFull
  | notImplemented
  | divideByZero
  /-- An expression has more tokens than the tokenizer holds. -/
  | tokenStorage
  | registerInvalid
  /-- A directive has the wrong number of arguments. -/
  | directiveForm
  | directiveInvalid
  | equateDuplicate
  | lineTooLong
  /-- The operator, by number, under which an error arose. -/
  | operator (code : Int64)
  /-- A token that is no operator, register or literal. -/
  | unknownSymbol (token : Bytes)
  | notNumber (text : Bytes)
  | notExpression (text : Bytes)
  /-- A constant expression has no value. -/
  | constant (failure : Constant.Failure)
  /-- An error at a token of an expression, tokens counted from 0. -/
  | atToken (index : Int64) (token : Bytes) (cause : Error)
  /-- An error in the text of a listing. -/
  | inListing (line : Int64) (text : Bytes) (cause : Error)
  /-- An error of a running listing. -/
  | atLine (line : Int64) (cause : Error)
  /-- Two errors that are reported together. -/
  | both (first second : Error)
  /-- The place of a cause that is not given. -/
  | unstated
  deriving DecidableEq, Inhabited, Repr

namespace Error

/-- The wording of an error, given the wording of the failures of constant expressions. -/
def messageWith (wording : Constant.Failure → Bytes) : Error → Bytes
  | .stackEmpty => ascii "stack empty"
  | .stackFull => ascii "stack full"
  | .notImplemented => ascii "operator not implemented"
  | .divideByZero => ascii "divide by zero"
  | .tokenStorage => ascii "token storage exhausted"
  | .registerInvalid => ascii "register invalid"
  | .directiveForm => ascii "directive syntax"
  | .directiveInvalid => ascii "directive invalid"
  | .equateDuplicate => ascii ".equ duplicated"
  | .lineTooLong => ascii "bufio.Scanner: token too long"
  | .operator code => Template.fill (ascii "operator '%v'") [.text (Operator.name code)]
  | .unknownSymbol token =>
    Template.fill (ascii "'%v' is not an operator, register or literal") [.text token]
  | .notNumber text => Template.fill (ascii "'%v' is not a number") [.text text]
  | .notExpression text => Template.fill (ascii "$(%v) is not a valid expression") [.text text]
  | .constant failure => wording failure
  | .atToken index token cause =>
    Template.fill (ascii "token %d '%v' ") [.number index.toInt, .text token] ++
      messageWith wording cause
  | .inListing line text cause =>
    Template.fill (ascii "line %d '%v' ") [.number line.toInt, .text text] ++
      messageWith wording cause
  | .atLine line cause =>
    Template.fill (ascii "line %d ") [.number line.toInt] ++ messageWith wording cause
  | .both first second => messageWith wording first ++ 10 :: messageWith wording second
  | .unstated => ascii "<nil>"

/-- The wording of an error. -/
def message (e : Error) : Bytes :=
  messageWith Constant.Failure.message e

/-- What an error is made of, wrappers before what they wrap. -/
def chain : Error → List Error
  | .both first second => chain first ++ chain second
  | .unstated => []
  | .atToken index token cause => .atToken index token cause :: chain cause
  | .inListing line text cause => .inListing line text cause :: chain cause
  | .atLine line cause => .atLine line cause :: chain cause
  | leaf => [leaf]

/-- Whether an error says what went wrong without reporting one event: a place in a listing
and two errors reported together belong to the event that they report. -/
def isEventless : Error → Bool
  | .inListing .. => false
  | .atLine .. => false
  | .both .. => false
  | .atToken _ _ cause => isEventless cause
  | _ => true

/-- Whether two errors are the same one.  Reports of events are never the same. -/
def same (e target : Error) : Bool :=
  e.isEventless && decide (e = target)

/-- Whether an error is, or wraps, a given one. -/
def is (target : Error) : Error → Bool
  | .both first second => is target first || is target second
  | .unstated => false
  | .atToken index token cause => same (.atToken index token cause) target || is target cause
  | .inListing _ _ cause => is target cause
  | .atLine _ cause => is target cause
  | leaf => same leaf target

/-- Tags a cause with the operator, by number, that raised it. -/
def under (code : Int64) (cause : Error) : Error :=
  .both (.operator code) cause

theorem is_operator_under (code n : Int64) (cause : Error) :
    is (.operator n) (under code cause) = (decide (code = n) || is (.operator n) cause) := by
  simp [under, is, same, isEventless]

end Error

end Rpn
