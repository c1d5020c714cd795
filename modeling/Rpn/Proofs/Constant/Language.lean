import Mathlib.Data.Int.Bitwise
import Rpn.Expander
import Rpn.Proofs.ExpressionTree
import Rpn.Proofs.Literal.Grammar

/-!
# What is taken of the language of constant expressions

The language of constant expressions is given from outside.  Most of what the expander does is the
same for every language; what depends on it is told of languages that keep one of two promises.

* `Constant.Language.Assigns` — a text is run to an integer;
* `Arithmetic`, `Leaf` and `Formula` — trees of the operators that constant expressions and the
  machine share, with `Formula.bracketed` and `Formula.tree` for the two ways to write them;
* `Constant.Language.ExactArithmetic` — the promise that formulas have their exact values;
* `Constant.Numeral` and `Constant.Prefix` — integer literals, and the operators in front of them;
* `Constant.Language.IntegerLiterals` — the promise that these are the literals;
* `Expander.evaluate_eq_ok_iff` — what the expander makes of an integer.
-/

namespace Rpn

namespace Constant

/-- A constant expression is run to an integer. -/
def Language.Assigns (language : Language) (limit : Nat) (constant? : Bytes → Option Int)
    (text : Bytes) (n : Int) : Prop :=
  ∃ globals, language.run limit constant? (assignment text) = .ok globals ∧
    globals resultName = some (.integer n)

theorem Language.Assigns.unique {language : Language} {limit : Nat} {constant? : Bytes → Option Int}
    {text : Bytes} {m n : Int} (hm : language.Assigns limit constant? text m)
    (hn : language.Assigns limit constant? text n) : m = n := by
  obtain ⟨globals, run, found⟩ := hm
  obtain ⟨others, again, found'⟩ := hn
  obtain rfl : globals = others := Except.ok.inj (run.symm.trans again)
  exact Global.integer.inj (Option.some.inj (found.symm.trans found'))

end Constant

/-! ## Formulas -/

/-- An operator that constant expressions and the machine share. -/
inductive Arithmetic where
  | add
  | sub
  | mul
  | and
  | or
  deriving DecidableEq, Repr

namespace Arithmetic

/-- The operator of the machine. -/
def binary : Arithmetic → BinaryOp
  | .add => .add
  | .sub => .sub
  | .mul => .mul
  | .and => .and
  | .or => .or

/-- The byte that stands for an operator in either. -/
def byte : Arithmetic → UInt8
  | .add => 43
  | .sub => 45
  | .mul => 42
  | .and => 38
  | .or => 124

/-- The value of an operator on integers of any size; bits are those of the two's complement. -/
def exact : Arithmetic → Int → Int → Int
  | .add => (· + ·)
  | .sub => (· - ·)
  | .mul => (· * ·)
  | .and => Int.land
  | .or => Int.lor

theorem mnemonic_binary (op : Arithmetic) : (Operator.binary op.binary).mnemonic = [op.byte] := by
  cases op <;> decide

end Arithmetic

/-- A leaf of a formula: a number, or a name of the language that stands for an integer. -/
inductive Leaf (IsName : Bytes → Prop) (constant? : Bytes → Option Int) where
  | constant (value : Int32)
  | named (name : Bytes) (value : Int) (isName : IsName name) (free : name ≠ Constant.resultName)
      (known : constant? name = some value)

/-- A tree of the operators that constant expressions and the machine share. -/
inductive Formula (IsName : Bytes → Prop) (constant? : Bytes → Option Int) where
  | leaf (a : Leaf IsName constant?)
  | node (op : Arithmetic) (left right : Formula IsName constant?)

section Formula

variable {IsName : Bytes → Prop} {constant? : Bytes → Option Int}

namespace Leaf

/-- A leaf as it is written: a number in base ten, or a name. -/
def text : Leaf IsName constant? → Bytes
  | .constant value => decimal value.toInt
  | .named name .. => name

/-- The integer that a leaf stands for. -/
def value : Leaf IsName constant? → Int
  | .constant value => value.toInt
  | .named _ value .. => value

end Leaf

namespace Formula

/-- A formula with brackets around every operation. -/
def bracketed : Formula IsName constant? → Bytes
  | .leaf a => a.text
  | .node op left right => 40 :: (left.bracketed ++ op.byte :: (right.bracketed ++ [41]))

/-- A formula as an expression of the machine: the right operand is evaluated first. -/
def tree : Formula IsName constant? → Tree (Leaf IsName constant?)
  | .leaf a => .leaf a
  | .node op left right => .node op.binary left.tree right.tree

/-- The value of a formula, computed with integers of any size. -/
def value : Formula IsName constant? → Int
  | .leaf a => a.value
  | .node op left right => op.exact left.value right.value

/-- The number of leaves and operators of a formula. -/
def size : Formula IsName constant? → Nat
  | .leaf _ => 1
  | .node _ left right => left.size + right.size + 1

end Formula

end Formula

namespace Constant

/-- The bytes of names: ASCII letters, digits and `_`, and the bytes of longer characters. -/
def isNameByte (b : UInt8) : Bool :=
  isDigit b || (97 ≤ lowerCase b && lowerCase b ≤ 122) || b = 95 || 128 ≤ b

/-- **Exact arithmetic.**  A language, with some of its names, that computes formulas with integers
of any size.  A leaf takes two steps at most, for a number and its sign, an operator takes one, and
so do storing the result, making the answer of the program and returning it. -/
structure Language.ExactArithmetic (language : Language) (IsName : Bytes → Prop) : Prop where
  name_ne_nil : ∀ name, IsName name → name ≠ []
  name_bytes : ∀ name, IsName name → ∀ b ∈ name, isNameByte b = true
  formula : ∀ (constant? : Bytes → Option Int) (t : Formula IsName constant?) (limit : Nat),
    2 * t.size + 3 < limit → language.Assigns limit constant? t.bracketed t.value

/-- A byte that is no letter, no digit and no `_` does not stand in a name. -/
theorem Language.ExactArithmetic.not_mem {language : Language} {IsName : Bytes → Prop}
    (exact : language.ExactArithmetic IsName) {name : Bytes} (isName : IsName name) {b : UInt8}
    (other : isNameByte b = false) : b ∉ name := by
  intro mem
  rw [exact.name_bytes name isName b mem] at other
  cases other

/-! ## Integer literals -/

open Literal in
/-- The texts of integer literals, without any `_`. -/
inductive Numeral : Bytes → Nat → Prop
  /-- Decimal digits, the first of which is not zero. -/
  | decimal {b : UInt8} {d : Nat} {text : Bytes} {digits : List Nat} :
      DigitOf 10 b d → 0 < d → List.Forall₂ (DigitOf 10) text digits →
      Numeral (b :: text) (positional 10 (d :: digits))
  /-- A base mark and at least one digit. -/
  | marked {letter : UInt8} {base : Nat} {text : Bytes} {digits : List Nat} :
      (letter, base) ∈ baseMarks → List.Forall₂ (DigitOf base) text digits → digits ≠ [] →
      Numeral (48 :: letter :: text) (positional base digits)
  /-- A leading zero stands in front of zeros only. -/
  | zero {text : Bytes} : (∀ b ∈ text, b = 48) → Numeral (48 :: text) 0

/-- The operators in front of an integer. -/
inductive Prefix where
  | plus
  | minus
  | complement
  deriving DecidableEq, Repr

namespace Prefix

/-- The byte that stands for an operator. -/
def byte : Prefix → UInt8
  | .plus => 43
  | .minus => 45
  | .complement => 126

/-- The value of an operator on integers of any size. -/
def exact : Prefix → Int → Int
  | .plus, n => n
  | .minus, n => -n
  | .complement, n => -n - 1

/-- The value of an integer behind operators. -/
def value (ops : List Prefix) (n : Nat) : Int :=
  ops.foldr exact n

end Prefix

/-- **Integer literals.**  A language that reads integer literals of 64 bits behind signs and
complements, in a step each and four more, and refuses whatever else spells an unsigned number: what
has a `_` in it, or a leading zero and another digit than zero. -/
structure Language.IntegerLiterals (language : Language) : Prop where
  numeral : ∀ (limit : Nat) (constant? : Bytes → Option Int) (ops : List Prefix) (text : Bytes)
    (n : Nat), Numeral text n → n < 2 ^ 63 → ops.length + 4 < limit →
    language.Assigns limit constant? (ops.map Prefix.byte ++ text) (Prefix.value ops n)
  refused : ∀ (limit : Nat) (constant? : Bytes → Option Int) (ops : List Prefix) (text : Bytes)
    (m : Nat), Literal.Unsigned text m → (∀ n, ¬ Numeral text n) →
    ∀ k, ¬ language.Assigns limit constant? (ops.map Prefix.byte ++ text) k

end Constant

/-! ## The value of a constant expression -/

/-- The constants are the equates whose text is a literal. -/
theorem Expander.constant?_eq_some_iff {equates : Table Bytes Bytes} {name : Bytes} {n : Int} :
    constant? equates name = some n ↔
      ∃ text value, equates[name]? = some text ∧ Literal.parse? text = some value ∧
        value.toInt = n := by
  rw [constant?, Option.map_eq_some_iff]
  constructor
  · rintro ⟨value, read, same⟩
    obtain ⟨text, found, reads⟩ := Option.bind_eq_some_iff.mp read
    exact ⟨text, value, found, reads, same⟩
  · rintro ⟨text, value, found, reads, same⟩
    exact ⟨value, Option.bind_eq_some_iff.mpr ⟨text, found, reads⟩, same⟩

/-- A constant expression has a value exactly if it is run to an integer within range. -/
theorem Expander.evaluate_eq_ok_iff [language : Constant.Language] {equates : Table Bytes Bytes}
    {text : Bytes} {value : Int32} :
    evaluate equates text = .ok value ↔
      ∃ n, language.Assigns Constant.stepLimit (constant? equates) text n ∧
        Literal.inRange n = true ∧ Int32.ofInt n = value := by
  constructor
  · intro found
    unfold evaluate at found
    split at found
    · cases found
    · next globals run =>
      split at found
      · next n integer =>
        split at found
        · next within => exact ⟨n, ⟨globals, run, integer⟩, within, Except.ok.inj found⟩
        · cases found
      · cases found
  · rintro ⟨n, ⟨globals, run, integer⟩, within, rfl⟩
    unfold evaluate
    simp only [run, integer]
    exact if_pos within

end Rpn
