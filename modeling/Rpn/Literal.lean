import Rpn.Error
import Rpn.Text.Decimal

/-!
# Literals

A literal is an optional `~`, an optional sign and an unsigned number: decimal digits without
a leading zero, or a base mark `0x`, `0o` or `0b` of either case and digits of that base, or a
`0` and octal digits.  A single `_` may stand between two digits and behind a base mark.

* `Literal.natural?` reads the unsigned number, `Literal.integer?` the signed one;
* `Literal.parse?` reads a word: the number must lie between -2^31 and 2^32 - 1, is reduced to
  32 bits, and is complemented where the word begins with `~`;
* `Literal.parse` tells what is no literal.
-/

namespace Rpn.Literal

/-- Whether a text is made of digits of a base, with `_` between them.  `afterDigit` tells
whether a digit or a base mark stands in front: there `_` may follow and the text may end. -/
def areDigits (base : Nat) : Bool → Bytes → Bool
  | afterDigit, [] => afterDigit
  | afterDigit, b :: rest =>
    if b = 95 then afterDigit && areDigits base false rest
    else
      match digitValue? b with
      | some d => d < base && areDigits base true rest
      | none => false

/-- Reads digits of a base up to the end of the text. -/
def digits? (base : Nat) (afterDigit : Bool) (text : Bytes) : Option Nat :=
  if areDigits base afterDigit text then some (numeralValue base (text.filter (· ≠ 95)))
  else none

/-- The base of a base mark, given its letter. -/
def markedBase? (letter : UInt8) : Option Nat :=
  [((98 : UInt8), 2), (111, 8), (120, 16)].lookup (lowerCase letter)

/-- Reads an unsigned number. -/
def natural? (text : Bytes) : Option Nat :=
  match text with
  | [] => none
  | first :: rest =>
    if first = 48 then
      match rest with
      | letter :: digits =>
        match markedBase? letter with
        | some base => if digits = [] then none else digits? base true digits
        | none => digits? 8 true rest
      | [] => some 0
    else digits? 10 false text

/-- Reads a number with an optional sign. -/
def integer? (text : Bytes) : Option Int :=
  match text with
  | [] => none
  | first :: rest =>
    if first = 43 then (natural? rest).map Int.ofNat
    else if first = 45 then (natural? rest).map fun n => -Int.ofNat n
    else (natural? text).map Int.ofNat

/-- The numbers that a word of 32 bits can stand for, signed or unsigned. -/
def inRange (n : Int) : Bool :=
  -2147483648 ≤ n && n ≤ 4294967295

/-- Reads a number within range as a word. -/
def word? (text : Bytes) : Option Int32 :=
  match integer? text with
  | some n => if inRange n then some (Int32.ofInt n) else none
  | none => none

/-- Reads a literal. -/
def parse? (word : Bytes) : Option Int32 :=
  match word with
  | [] => none
  | first :: rest => if first = 126 then (word? rest).map (~~~ ·) else word? word

/-- Reads a literal, or names the text that is none. -/
def parse (word : Bytes) : Except Error Int32 :=
  match parse? word with
  | some value => .ok value
  | none => .error (.notNumber word)

example : parse? (ascii "~0x_fF") = some (-256) := by decide
example : parse? (ascii "4294967295") = some (-1) := by decide +kernel
example : parse? (ascii "08") = none := by decide

end Rpn.Literal
