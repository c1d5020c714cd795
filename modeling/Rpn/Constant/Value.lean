import Rpn.Constant.Expr
import Rpn.Constant.Real
import Rpn.Constant.Strand

/-!
# Values of constant expressions

Constant expressions compute with integers of any size, doubles, texts, truth values, lists,
tuples, ranges and functions.  Only an integer can be the value of a whole expression.

* `Value.isTrue` tells what counts as true;
* `Value.compare` decides the comparisons: equality is false between kinds, while an order
  between kinds fails, integers and doubles apart;
* `Value.elements?` lists what a loop runs over.
-/

namespace Rpn.Constant

/-- The functions that every expression can call. -/
inductive Builtin where
  | abs
  | int
  | len
  | max
  | min
  | ord
  | range
  deriving DecidableEq, Repr

/-- A value. -/
inductive Value where
  /-- The value that stands for none. -/
  | nothing
  | bool (b : Bool)
  | int (n : Int)
  | real (x : Float)
  | string (text : Strand)
  | list (elements : Array Value)
  | tuple (elements : Array Value)
  /-- The empty dictionary. -/
  | dict
  /-- The integers `start + k * step` for `k` below `size`. -/
  | range (start step : Int) (size : Nat)
  | builtin (function : Builtin)

/-- The comparisons. -/
inductive Comparison where
  | equal
  | notEqual
  | less
  | greater
  | atMost
  | atLeast
  deriving DecidableEq, Repr

/-- Whether a comparison holds of an order. -/
def Comparison.holds : Comparison → Ordering → Bool
  | .equal, o => o == .eq
  | .notEqual, o => o != .eq
  | .less, o => o == .lt
  | .greater, o => o == .gt
  | .atMost, o => o != .gt
  | .atLeast, o => o != .lt

/-- A comparison of values that are the same or not, and have no order. -/
def Comparison.ofSame (comparison : Comparison) (isSame : Bool) : Except Failure Bool :=
  match comparison with
  | .equal => .ok isSame
  | .notEqual => .ok !isSame
  | _ => .error .mismatch

namespace Value

/-- Whether a value counts as true. -/
def isTrue : Value → Bool
  | .nothing => false
  | .bool b => b
  | .int n => n ≠ 0
  | .real x => !(x == 0)
  | .string text => text.size ≠ 0
  | .list elements => !elements.isEmpty
  | .tuple elements => !elements.isEmpty
  | .dict => false
  | .range _ _ size => size ≠ 0
  | .builtin _ => true

/-- Compares two texts. -/
def compareTexts (comparison : Comparison) (s t : Strand) : Bool :=
  match comparison with
  | .equal => s.same t
  | .notEqual => !s.same t
  | comparison => comparison.holds (s.compare t)

/-- Compares two sequences by their first difference from a position on, given a comparison of
the elements.  Both sequences have `n` elements there. -/
def compareFrom (compareElements : Comparison → Value → Value → Except Failure Bool)
    (comparison : Comparison) (xs ys : Array Value) : Nat → Nat → Except Failure Bool
  | 0, _ => .ok (comparison.holds (Ord.compare xs.size ys.size))
  | n + 1, i => do
    let x := xs.getD i .nothing
    let y := ys.getD i .nothing
    if ← compareElements .equal x y then compareFrom compareElements comparison xs ys n (i + 1)
    else
      match comparison with
      | .equal => return false
      | .notEqual => return true
      | _ => compareElements comparison x y

/-- Compares two sequences; those of different lengths are known to differ. -/
def compareSequences (compareElements : Comparison → Value → Value → Except Failure Bool)
    (comparison : Comparison) (xs ys : Array Value) : Except Failure Bool :=
  if xs.size ≠ ys.size ∧ comparison = .equal then .ok false
  else if xs.size ≠ ys.size ∧ comparison = .notEqual then .ok true
  else compareFrom compareElements comparison xs ys (min xs.size ys.size) 0

/-- Compares two values nested at most `depth` deep. -/
def compareTo : Nat → Comparison → Value → Value → Except Failure Bool
  | 0, _, _, _ => .error .outOfRange
  | depth + 1, comparison, x, y =>
    match x, y with
    | .int m, .int n => .ok (comparison.holds (Ord.compare m n))
    | .real x, .real y => .ok (comparison.holds (Real.compareReals x y))
    | .int m, .real y => .ok (comparison.holds (Real.compareInteger m y))
    | .real x, .int n => .ok (comparison.holds (Real.compareInteger n x).swap)
    | .bool a, .bool b => .ok (comparison.holds (Ord.compare a.toNat b.toNat))
    | .string s, .string t => .ok (compareTexts comparison s t)
    | .list xs, .list ys => compareSequences (compareTo depth) comparison xs ys
    | .tuple xs, .tuple ys => compareSequences (compareTo depth) comparison xs ys
    | .nothing, .nothing => comparison.ofSame true
    | .dict, .dict => comparison.ofSame true
    | .range a b m, .range c d n =>
      comparison.ofSame (m = n && (m = 0 || a = c && (m = 1 || b = d)))
    | .builtin f, .builtin g => comparison.ofSame (f = g)
    | _, _ => comparison.ofSame false

/-- How deep values may be nested that are compared. -/
def comparisonDepth : Nat := 10

/-- Compares two values. -/
def compare (comparison : Comparison) (x y : Value) : Except Failure Bool :=
  compareTo comparisonDepth comparison x y

/-- The first elements of what a loop runs over, at most `limit` of them; texts are not run
over. -/
def elements? (limit : Nat) : Value → Except Failure (List Value)
  | .list elements => .ok (elements.take limit).toList
  | .tuple elements => .ok (elements.take limit).toList
  | .dict => .ok []
  | .range start step size =>
    .ok ((List.range (min limit size)).map fun (k : Nat) => .int (start + k * step))
  | _ => .error .mismatch

/-- The length of a value that has one; that of a text counts bytes. -/
def length? : Value → Except Failure Nat
  | .string text => .ok text.size
  | .list elements => .ok elements.size
  | .tuple elements => .ok elements.size
  | .dict => .ok 0
  | .range _ _ size => .ok size
  | _ => .error .mismatch

/-- The number that a value is, cut to an integer. -/
def integer? : Value → Except Failure Int
  | .int n => .ok n
  | .real x =>
    match Real.truncate? x with
    | some n => .ok n
    | none => .error .outOfRange
  | _ => .error .mismatch

/-- A value that must be an integer of 32 bits: a count or a position. -/
def small? : Value → Except Failure Int
  | .int n => if -2147483648 ≤ n ∧ n < 2147483648 then .ok n else .error .outOfRange
  | _ => .error .mismatch

/-- A value that must be an integer of 64 bits. -/
def wide? : Value → Except Failure Int
  | .int n =>
    if -9223372036854775808 ≤ n ∧ n < 9223372036854775808 then .ok n else .error .outOfRange
  | _ => .error .mismatch

end Value

end Rpn.Constant
