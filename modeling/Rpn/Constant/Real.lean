/-!
# Doubles in exact arithmetic

A finite double is an integer times a power of two.  What depends on its exact value —
truncation, comparison with integers, remainders — is computed there, and not in rounded
arithmetic.

* `Real.parts?` takes a double apart, `Real.ofParts` puts one together;
* `Real.truncate?`, `Real.compareInteger` and `Real.modulo` are exact.
-/

namespace Rpn.Constant.Real

/-- An integer times a power of two. -/
def scaled (m : Int) (k : Nat) : Int :=
  m * Int.ofNat (Nat.pow 2 k)

/-- The mantissa and the binary exponent of a finite double: 52 bits of fraction, 11 of exponent
and a sign. -/
def parts? (x : Float) : Option (Int × Int) :=
  let bits : Nat := x.toBits.toNat
  let exponent : Nat := bits / 0x10000000000000 % 0x800
  let fraction : Nat := bits % 0x10000000000000
  if exponent = 2047 then none
  else
    let mantissa : Nat := if exponent = 0 then fraction else fraction + 0x10000000000000
    let power : Int := if exponent = 0 then -1074 else Int.ofNat exponent - 1075
    some (if bits < 0x8000000000000000 then Int.ofNat mantissa else -Int.ofNat mantissa, power)

/-- The double `mantissa * 2 ^ power`, for a mantissa of at most 60 significant bits. -/
def ofParts (mantissa power : Int) : Float :=
  let excess := mantissa.natAbs.log2 - 60
  Float.scaleB (Float.ofInt (mantissa.tdiv (scaled 1 excess))) (power + excess)

/-- The double nearest to `mantissa * 10 ^ exponent`. -/
def ofDecimal (mantissa : Nat) (exponent : Int) : Float :=
  if mantissa = 0 then 0 else
    Float.ofScientific mantissa (exponent < 0) exponent.natAbs

/-- The double nearest to an integer, if it is finite.  From `2 ^ 1024` on it is not. -/
def ofInteger? (n : Int) : Option Float :=
  if 1024 ≤ n.natAbs.log2 then none
  else
    let x := Float.ofInt n
    if x.isFinite then some x else none

/-- The integer part of a finite double. -/
def truncate? (x : Float) : Option Int :=
  match parts? x with
  | none => none
  | some (mantissa, power) =>
    if 0 ≤ power then some (scaled mantissa power.toNat)
    else some (mantissa.tdiv (scaled 1 power.natAbs))

/-- How an integer compares with a double; one that is no number is above all others. -/
def compareInteger (n : Int) (x : Float) : Ordering :=
  match parts? x with
  | some (mantissa, power) =>
    if 0 ≤ power then compare n (scaled mantissa power.toNat)
    else compare (scaled n power.natAbs) mantissa
  | none => if x.isNaN || 0 < x then .lt else .gt

/-- How two doubles compare; one that is no number is above all others. -/
def compareReals (x y : Float) : Ordering :=
  if x < y then .lt
  else if y < x then .gt
  else if x == y then .eq
  else if !x.isNaN then .lt
  else if !y.isNaN then .gt
  else .eq

/-- The remainder of a division that truncates, with the sign of `x`. -/
def remainder (x y : Float) : Float :=
  match parts? x, parts? y with
  | some (m, p), some (n, q) =>
    let power := min p q
    ofParts ((scaled m (p - power).toNat).tmod (scaled n (q - power).toNat)) power
  | some _, none => if y.isNaN then y else x
  | none, _ => 0 / 0

/-- The remainder of a division that rounds down, with the sign of `y`. -/
def modulo (x y : Float) : Float :=
  let z := remainder x y
  if (x < 0) ≠ (y < 0) ∧ !(z == 0) then z + y else z

end Rpn.Constant.Real
