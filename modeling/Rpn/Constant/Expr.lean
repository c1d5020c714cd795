import Rpn.Constant.Lexeme

/-!
# Syntax of constant expressions

The trees that the text inside `$(...)` stands for, and the statements of a program.  A
comprehension is its loops and conditions from the outside in, around the element at its core.
A chain of `+` is one sum of all its terms.

* `Expr.plus` adds a term to a sum.
-/

namespace Rpn.Constant

/-- The operators in front of an operand. -/
inductive Monadic where
  | plus
  | minus
  | complement
  | not
  deriving DecidableEq, Repr

mutual

/-- An expression. -/
inductive Expr where
  | name (bytes : Bytes)
  | integer (n : Nat)
  /-- The number `mantissa * 10 ^ exponent`. -/
  | real (mantissa : Nat) (exponent : Int)
  | string (bytes : Bytes)
  | list (elements : List Expr)
  | tuple (elements : List Expr)
  /-- The empty dictionary. -/
  | dict
  /-- An expression in brackets. -/
  | paren (inside : Expr)
  /-- The sum of some terms, the last one first. -/
  | sum (terms : List Expr)
  | monadic (op : Monadic) (operand : Expr)
  | dyadic (op : Dyadic) (left right : Expr)
  /-- `whenTrue if condition else whenFalse` -/
  | choice (condition whenTrue whenFalse : Expr)
  | call (function : Expr) (arguments : List Expr)
  | index (sequence position : Expr)
  /-- A list built by a loop over `source`, which is outside the scope of the loop. -/
  | comprehension (var : Bytes) (source : Expr) (body : Loop)

/-- What a comprehension does for each element of its source. -/
inductive Loop where
  /-- Adds an element to the list. -/
  | element (value : Expr)
  /-- Loops over a further source. -/
  | each (var : Bytes) (source : Expr) (body : Loop)
  /-- Goes on only where a condition holds. -/
  | only (condition : Expr) (body : Loop)

end

/-- A statement of a program. -/
inductive Statement where
  | pass
  | expression (value : Expr)
  | assign (name : Bytes) (value : Expr)

/-- The name that a statement assigns. -/
def Statement.assigned? : Statement → Option Bytes
  | .assign name _ => some name
  | _ => none

/-- The variables of the loops inside a comprehension. -/
def Loop.vars : Loop → List Bytes
  | .element _ => []
  | .each var _ body => var :: body.vars
  | .only _ body => body.vars

/-- An expression without the brackets around it. -/
def Expr.unparen : Expr → Expr
  | .paren inside => inside.unparen
  | e => e

/-- The sum of two expressions.  The terms of the left one become terms of the sum. -/
def Expr.plus (left right : Expr) : Expr :=
  match left.unparen with
  | .sum terms => .sum (right.unparen :: terms)
  | first => .sum [right.unparen, first]

/-- The expression that an operator makes of its operands. -/
def Expr.combine (op : Dyadic) (left right : Expr) : Expr :=
  if op = .plus then left.plus right else .dyadic op left right

/-- Whether an expression is a number or a text by itself. -/
def Expr.isLiteral : Expr → Bool
  | .integer _ => true
  | .real _ _ => true
  | .string _ => true
  | _ => false

end Rpn.Constant
