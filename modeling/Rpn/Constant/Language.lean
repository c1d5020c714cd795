import Rpn.Constant.Failure

/-!
# The language of constant expressions

Constant expressions are written in a language of its own, which is not part of the library: what
runs their programs is given from outside, and all that is known of it is what it answers.

* `Constant.Language` — what runs programs;
* `Constant.assignment` — the program that a constant expression is run as.
-/

namespace Rpn.Constant

/-- What a program leaves under a name: an integer, or a value of another kind. -/
inductive Global where
  | integer (n : Int)
  | other
  deriving DecidableEq, Repr

/-- A language in which constant expressions can be written. -/
class Language where
  /-- Runs a program that may use some constants, and stops it when it has taken a number of steps.
  The answer is what the program leaves under each name. -/
  run (limit : Nat) (constant? : Bytes → Option Int) (program : Bytes) :
    Except Failure (Bytes → Option Global)

/-- The number of steps at which a run is stopped. -/
def stepLimit : Nat := 65536

/-- The name that a constant expression is assigned to. -/
def resultName : Bytes := ascii "rc"

/-- The program of a constant expression.  The text is assigned to a name, and may go on with
further statements or turn the assignment into something else. -/
def assignment (text : Bytes) : Bytes :=
  resultName ++ ascii "=" ++ text ++ ascii "\n"

end Rpn.Constant
