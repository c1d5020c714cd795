import Rpn.Constant.Value

/-!
# Operations on values

Arithmetic is exact on integers and goes over to doubles as soon as one operand is a double;
`/` always does.  Quotients and remainders of integers round down.  Sums join texts, lists and
tuples, and products repeat them.

* `Integer.bitAnd`, `Integer.bitOr` and `Integer.bitXor` act on the two's complement of
  integers of any size;
* `Monadic.apply` and `Dyadic.apply` carry out the operators, `and` and `or` apart, which do
  not evaluate both operands.
-/

namespace Rpn.Constant

namespace Integer

/-- The bits of the first number that are not set in the second. -/
def without (m n : Nat) : Nat :=
  m ^^^ (m &&& n)

/-- The bits that two integers share. -/
def bitAnd : Int → Int → Int
  | .ofNat m, .ofNat n => .ofNat (m &&& n)
  | .ofNat m, .negSucc n => .ofNat (without m n)
  | .negSucc m, .ofNat n => .ofNat (without n m)
  | .negSucc m, .negSucc n => .negSucc (m ||| n)

/-- The bits that one of two integers has. -/
def bitOr : Int → Int → Int
  | .ofNat m, .ofNat n => .ofNat (m ||| n)
  | .ofNat m, .negSucc n => .negSucc (without n m)
  | .negSucc m, .ofNat n => .negSucc (without m n)
  | .negSucc m, .negSucc n => .negSucc (m &&& n)

/-- The bits in which two integers differ. -/
def bitXor : Int → Int → Int
  | .ofNat m, .ofNat n => .ofNat (m ^^^ n)
  | .ofNat m, .negSucc n => .negSucc (m ^^^ n)
  | .negSucc m, .ofNat n => .negSucc (m ^^^ n)
  | .negSucc m, .negSucc n => .ofNat (m ^^^ n)

end Integer

/-- The double of an integer operand. -/
def realOperand (n : Int) : Except Failure Float :=
  match Real.ofInteger? n with
  | some x => .ok x
  | none => .error .outOfRange

/-- An operation on two numbers, given on integers and on doubles. -/
def numeric (onIntegers : Int → Int → Except Failure Value)
    (onReals : Float → Float → Except Failure Value) : Value → Value → Except Failure Value
  | .int m, .int n => onIntegers m n
  | .int m, .real y => do onReals (← realOperand m) y
  | .real x, .int n => do onReals x (← realOperand n)
  | .real x, .real y => onReals x y
  | _, _ => .error .mismatch

/-- An operation on two integers. -/
def integral (onIntegers : Int → Int → Except Failure Value) : Value → Value → Except Failure Value
  | .int m, .int n => onIntegers m n
  | _, _ => .error .mismatch

/-- A sum. -/
def sum : Value → Value → Except Failure Value
  | .string s, .string t => .ok (.string (s.append t))
  | .list xs, .list ys => .ok (.list (xs ++ ys))
  | .tuple xs, .tuple ys => .ok (.tuple (xs ++ ys))
  | x, y => numeric (fun m n => .ok (.int (m + n))) (fun a b => .ok (.real (a + b))) x y

/-- The bound on the length of a repeated sequence. -/
def lengthLimit : Nat := 1073741824

/-- How often a sequence of some length is repeated; a count that is not positive gives the empty
sequence. -/
def repetitions (length : Nat) (count : Int) : Except Failure Nat :=
  if length = 0 then .ok 0
  else do
    let count ← Value.small? (.int count)
    if lengthLimit ≤ length * count.toNat then .error .outOfRange else .ok count.toNat

/-- A text repeated. -/
def repeatedText (text : Strand) (n : Int) : Except Failure Value := do
  return .string { text with count := text.count * (← repetitions text.size n) }

/-- Values repeated. -/
def repeatedValues (elements : Array Value) (n : Int) : Except Failure (Array Value) := do
  return repeated elements (← repetitions elements.size n)

/-- A product. -/
def product : Value → Value → Except Failure Value
  | .string text, .int n => repeatedText text n
  | .int n, .string text => repeatedText text n
  | .list xs, .int n => .list <$> repeatedValues xs n
  | .int n, .list xs => .list <$> repeatedValues xs n
  | .tuple xs, .int n => .tuple <$> repeatedValues xs n
  | .int n, .tuple xs => .tuple <$> repeatedValues xs n
  | x, y => numeric (fun m n => .ok (.int (m * n))) (fun a b => .ok (.real (a * b))) x y

/-- An operation on doubles that has no value for the divisor zero. -/
def divided (f : Float → Float → Float) (x y : Float) : Except Failure Value :=
  if y == 0 then .error .zeroDivisor else .ok (.real (f x y))

/-- An operation on integers that has no value for the divisor zero. -/
def dividedIntegers (f : Int → Int → Int) (m n : Int) : Except Failure Value :=
  if n = 0 then .error .zeroDivisor else .ok (.int (f m n))

/-- A quotient as a double. -/
def quotient : Value → Value → Except Failure Value :=
  numeric
    (fun m n => do divided (· / ·) (← realOperand m) (← realOperand n))
    (divided (· / ·))

/-- A quotient rounded down. -/
def floorQuotient : Value → Value → Except Failure Value :=
  numeric (dividedIntegers Int.fdiv) (divided fun x y => (x / y).floor)

/-- The remainder of a quotient rounded down. -/
def remainder : Value → Value → Except Failure Value :=
  numeric (dividedIntegers Int.fmod) (divided Real.modulo)

/-- The bound on the count of a shift to the left. -/
def shiftLimit : Int := 512

/-- An integer shifted to the left. -/
def shiftedLeft : Value → Value → Except Failure Value
  | .int m, y => do
    let count ← Value.small? y
    if count < 0 || shiftLimit ≤ count then .error .outOfRange
    else .ok (.int (Real.scaled m count.toNat))
  | _, _ => .error .mismatch

/-- An integer shifted to the right, rounded down. -/
def shiftedRight : Value → Value → Except Failure Value
  | .int m, y => do
    let count ← Value.small? y
    if count < 0 then .error .outOfRange else .ok (.int (m >>> count.toNat))
  | _, _ => .error .mismatch

/-- The union of bits; that of two empty dictionaries is empty. -/
def union : Value → Value → Except Failure Value
  | .dict, .dict => .ok .dict
  | x, y => integral (fun m n => .ok (.int (Integer.bitOr m n))) x y

/-- Whether one of `n` values from a position on equals a given one. -/
def anyEqual (x : Value) (elements : Array Value) : Nat → Nat → Except Failure Bool
  | 0, _ => .ok false
  | n + 1, i => do
    if ← Value.compare .equal (elements.getD i .nothing) x then return true
    else anyEqual x elements n (i + 1)

/-- Whether a value is a member of another. -/
def isMember (x : Value) : Value → Except Failure Bool
  | .list elements => anyEqual x elements elements.size 0
  | .tuple elements => anyEqual x elements elements.size 0
  | .dict => .ok false
  | .string text =>
    match x with
    | .string needle => .ok (needle.occursIn text)
    | _ => .error .mismatch
  | .range start step size => do
    let n ← x.integer?
    let offset := n - start
    return -2147483648 ≤ n && n < 2147483648 && offset.tmod step = 0 &&
      0 ≤ offset.tdiv step && offset.tdiv step < size
  | _ => .error .mismatch

/-- Carries out an operator on two values. -/
def Dyadic.apply (op : Dyadic) (x y : Value) : Except Failure Value :=
  match op with
  | .plus => sum x y
  | .minus => numeric (fun m n => .ok (.int (m - n))) (fun a b => .ok (.real (a - b))) x y
  | .times => product x y
  | .divide => quotient x y
  | .floorDivide => floorQuotient x y
  | .modulo => remainder x y
  | .shiftLeft => shiftedLeft x y
  | .shiftRight => shiftedRight x y
  | .bitOr => union x y
  | .bitXor => integral (fun m n => .ok (.int (Integer.bitXor m n))) x y
  | .bitAnd => integral (fun m n => .ok (.int (Integer.bitAnd m n))) x y
  | .member => .bool <$> isMember x y
  | .notMember => (fun b => .bool !b) <$> isMember x y
  | .and => .ok (if x.isTrue then y else x)
  | .or => .ok (if x.isTrue then x else y)
  | .equal => .bool <$> Value.compare .equal x y
  | .notEqual => .bool <$> Value.compare .notEqual x y
  | .less => .bool <$> Value.compare .less x y
  | .greater => .bool <$> Value.compare .greater x y
  | .atMost => .bool <$> Value.compare .atMost x y
  | .atLeast => .bool <$> Value.compare .atLeast x y

/-- Carries out an operator on a value. -/
def Monadic.apply (op : Monadic) (x : Value) : Except Failure Value :=
  match op, x with
  | .not, x => .ok (.bool !x.isTrue)
  | .plus, .int n => .ok (.int n)
  | .plus, .real x => .ok (.real x)
  | .minus, .int n => .ok (.int (-n))
  | .minus, .real x => .ok (.real (-x))
  | .complement, .int n => .ok (.int (-n - 1))
  | _, _ => .error .mismatch

/-- The element of a sequence at a position, counted from the end where it is negative. -/
def elementAt (sequence position : Value) : Except Failure Value := do
  if let .dict := sequence then throw .outOfRange
  let size ← sequence.length?
  let k ← position.small?
  let k := if k < 0 then k + size else k
  if k < 0 || size ≤ k then throw .outOfRange
  match sequence with
  | .list elements => return elements.getD k.toNat .nothing
  | .tuple elements => return elements.getD k.toNat .nothing
  | .string text => return .string (text.byteAt k.toNat)
  | .range start step _ => return .int (start + k * step)
  | _ => throw .mismatch

end Rpn.Constant
