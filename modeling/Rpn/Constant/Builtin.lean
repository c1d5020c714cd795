import Rpn.Constant.Operation

/-!
# Functions of constant expressions

* `Builtin.call` carries out a call;
* `predefined` gives the names that are always defined.
-/

namespace Rpn.Constant

/-- The extreme of some values: the first that no later one precedes in the comparison. -/
def extreme (comparison : Comparison) (best : Value) : List Value → Except Failure Value
  | [] => .ok best
  | x :: rest => do
    if ← Value.compare comparison x best then extreme comparison x rest
    else extreme comparison best rest

/-- The extreme of the integers of a range, which is one of its ends. -/
def extremeOfRange (comparison : Comparison) (start step : Int) (size : Nat) :
    Except Failure Value :=
  if size = 0 then .error .outOfRange
  else extreme comparison (.int start) [.int (start + (size - 1) * step)]

/-- The extreme of the elements of a sequence. -/
def extremeOfElements (comparison : Comparison) : List Value → Except Failure Value
  | [] => .error .mismatch
  | x :: rest => extreme comparison x rest

/-- The extreme of several values, or of the elements of one. -/
def extremeOf (comparison : Comparison) : List Value → Except Failure Value
  | [] => .error .mismatch
  | [.range start step size] => extremeOfRange comparison start step size
  | [.list elements] => extremeOfElements comparison elements.toList
  | [.tuple elements] => extremeOfElements comparison elements.toList
  | [_] => .error .mismatch
  | x :: rest => extreme comparison x rest

/-- Reads digits of a base to the end of the text. -/
def digitsOf? (base : Nat) (text : Bytes) : Option Nat :=
  if text = [] || text.any (fun b => !Lexeme.isDigitOf base b) then none
  else some (numeralValue base text)

/-- The base of the base mark at the head of a text, if digits follow. -/
def baseMark? : Bytes → Option Nat
  | zero :: letter :: _ :: _ =>
    if zero = 48 then [((98 : UInt8), 2), (111, 8), (120, 16)].lookup (lowerCase letter)
    else none
  | _ => none

/-- Reads an unsigned integer.  A base mark of the base is skipped.  Base 0 takes the base from
the mark, and is ten without one; then a leading zero may be followed by zeros only. -/
def unsigned? (base : Nat) (text : Bytes) : Option Nat :=
  match baseMark? text with
  | some marked =>
    if base = 0 || base = marked then digitsOf? marked (text.drop 2) else digitsOf? base text
  | none =>
    if base = 0 then
      if 1 < text.length && text.head? = some 48 && text.any (· ≠ 48) then none
      else digitsOf? 10 text
    else digitsOf? base text

/-- Reads an integer with an optional sign. -/
def signed? (base : Nat) (text : Bytes) : Option Int :=
  match text with
  | [] => none
  | first :: rest =>
    if first = 43 then (unsigned? base rest).map Int.ofNat
    else if first = 45 then (unsigned? base rest).map fun n => -Int.ofNat n
    else (unsigned? base text).map Int.ofNat

/-- The integer that a text spells in a base. -/
def integerOfText (bytes : Bytes) (base : Int) : Except Failure Value :=
  if base ≠ 0 ∧ (base < 2 ∨ 36 < base) then .error .outOfRange
  else
    match signed? base.toNat bytes with
    | some n => .ok (.int n)
    | none => .error .outOfRange

/-- The number of integers from `start` on, `step` apart, in front of `stop`. -/
def rangeSize (start stop step : Int) : Nat :=
  if 0 < step then
    if start < stop then ((stop - 1 - start) / step + 1).toNat else 0
  else
    if stop < start then ((start - 1 - stop) / -step + 1).toNat else 0

/-- A range. -/
def rangeOf (start stop step : Int) : Except Failure Value :=
  if step = 0 then .error .outOfRange
  else .ok (.range start step (rangeSize start stop step))

namespace Builtin

/-- Carries out a call. -/
def call (function : Builtin) (arguments : List Value) : Except Failure Value :=
  match function, arguments with
  | .abs, [.int n] => .ok (.int n.natAbs)
  | .abs, [.real x] => .ok (.real x.abs)
  | .int, [.string text] => integerOfText text.toBytes 10
  | .int, [.string text, base] => do integerOfText text.toBytes (← base.small?)
  | .int, [.bool b] => .ok (.int b.toNat)
  | .int, [x] => .int <$> x.integer?
  | .len, [x] => (fun n : Nat => .int n) <$> x.length?
  | .max, values => extremeOf .greater values
  | .min, values => extremeOf .less values
  | .ord, [.string text] =>
    if 4 < text.size then .error .outOfRange
    else
      match text.toBytes, Utf8.decode text.toBytes with
      | [_], none => .ok (.int Utf8.replacement)
      | bytes, some (c, n) => if n = bytes.length then .ok (.int c) else .error .outOfRange
      | _, none => .error .outOfRange
  | .range, [stop] => do rangeOf 0 (← stop.wide?) 1
  | .range, [start, stop] => do rangeOf (← start.wide?) (← stop.wide?) 1
  | .range, [start, stop, step] => do rangeOf (← start.wide?) (← stop.wide?) (← step.wide?)
  | _, _ => .error .mismatch

end Builtin

/-- The names that are always defined, and their values. -/
def predefined : List (Bytes × Value) :=
  [(ascii "None", .nothing), (ascii "True", .bool true), (ascii "False", .bool false),
   (ascii "abs", .builtin .abs), (ascii "int", .builtin .int), (ascii "len", .builtin .len),
   (ascii "max", .builtin .max), (ascii "min", .builtin .min), (ascii "ord", .builtin .ord),
   (ascii "range", .builtin .range)]

end Rpn.Constant
