import Rpn.Proofs.Constant.Reading

/-!
# Literals as constant expressions

A literal inside `$(...)` is read by the rules of constant expressions, which know neither `_`
between digits nor octal numbers without a base mark, and which complement a number before it is
reduced to 32 bits.

* `Literal.Signed.exists_prefixed` — a number with a sign is an unsigned one behind an operator;
* `Literal.Signed.assigns` — what a number is run to, with or without a complement in front;
* `Expander.evaluate_literal` — where the language of constant expressions has their integer literals,
  a literal that has a value as a constant expression has its own, and it has one without `~`,
  without `_` and without a leading zero.
-/

namespace Rpn.Literal

open Constant

variable {text : Bytes}

/-- A number with a sign is an unsigned one behind at most one operator. -/
theorem Signed.exists_prefixed {n : Int} (signed : Signed text n) :
    ∃ ops rest m, text = ops.map Prefix.byte ++ rest ∧ ops.length ≤ 1 ∧ Unsigned rest m ∧
      Prefix.value ops m = n ∧ n.natAbs = m ∧
      (text = rest ∨ text = 43 :: rest ∨ text = 45 :: rest) := by
  cases signed with
  | @plain _ m unsigned =>
    exact ⟨[], text, m, rfl, Nat.zero_le 1, unsigned, rfl, rfl, Or.inl rfl⟩
  | @plus rest m unsigned =>
    exact ⟨[.plus], rest, m, rfl, Nat.le_refl 1, unsigned, rfl, rfl, Or.inr (Or.inl rfl)⟩
  | @minus rest m unsigned =>
    exact ⟨[.minus], rest, m, rfl, Nat.le_refl 1, unsigned, rfl, Int.natAbs_neg m,
      Or.inr (Or.inr rfl)⟩

/-- Whether a word is a number with a leading zero and another digit than zero, behind one sign at
most. -/
def SignedZeroLed (word : Bytes) : Prop :=
  ∃ text, ZeroLed text ∧ (word = text ∨ word = 43 :: text ∨ word = 45 :: text)

/-- What a number with a sign is run to, with at most one operator more in front of it: if it is run
to an integer at all, to its exact value, and to that without a `_` and without a leading zero. -/
theorem Signed.assigns {language : Language} (literals : language.IntegerLiterals) {n : Int}
    {value : Int32} (signed : Signed text n) (reduces : Reduces n value)
    (constant? : Bytes → Option Int) (front : List Prefix) (short : front.length ≤ 1) :
    (∀ k, language.Assigns stepLimit constant? (front.map Prefix.byte ++ text) k →
      k = front.foldr Prefix.exact n) ∧
    (95 ∉ text → ¬ SignedZeroLed text →
      language.Assigns stepLimit constant? (front.map Prefix.byte ++ text)
        (front.foldr Prefix.exact n)) := by
  obtain ⟨ops, rest, m, eq, few, unsigned, same, size, spelled⟩ := signed.exists_prefixed
  have bound : m < 2 ^ 63 := by
    have lower := reduces.lower
    have upper := reduces.upper
    omega
  have all : front.map Prefix.byte ++ text = (front ++ ops).map Prefix.byte ++ rest := by
    rw [eq, List.map_append, List.append_assoc]
  have value : Prefix.value (front ++ ops) m = front.foldr Prefix.exact n := by
    rw [← same, Prefix.value, List.foldr_append]
    rfl
  have steps : (front ++ ops).length + 4 < stepLimit := by
    rw [List.length_append]
    show _ < 65536
    omega
  rw [all, ← value]
  constructor
  · intro k assigned
    by_cases literal : ∃ j, Numeral rest j
    · -- both grammars have the number, and so the same one
      obtain ⟨j, numeral⟩ := literal
      obtain rfl : j = m := numeral.unsigned.unique unsigned
      exact assigned.unique (literals.numeral _ _ _ _ _ numeral bound steps)
    · have other : ∀ j, ¬ Numeral rest j := fun j numeral => literal ⟨j, numeral⟩
      exact absurd assigned (literals.refused _ _ _ _ _ unsigned other k)
  · intro plain notZeroLed
    have numeral : Numeral rest m := by
      refine unsigned.numeral ?_ fun zeroLed => notZeroLed ⟨rest, zeroLed, spelled⟩
      intro mem
      rw [eq] at plain
      exact plain (List.mem_append_right _ mem)
    exact literals.numeral _ _ _ _ _ numeral bound steps

end Rpn.Literal

namespace Rpn.Expander

open Constant

/-- **A literal means the same inside and outside of constant expressions.**  Let the language of
constant expressions have their integer literals.  If a literal has a value as a constant expression,
that is its own value; and it has one unless it holds a `~` or a `_`, or has a leading zero and another
digit than zero, but no base mark. -/
theorem evaluate_literal [language : Language] (literals : language.IntegerLiterals)
    (equates : Table Bytes Bytes) (word : Bytes) (value : Int32)
    (literal : Literal.parse word = .ok value) :
    (∀ v, evaluate equates word = .ok v → v = value) ∧
    (126 ∉ word → 95 ∉ word → ¬ Literal.SignedZeroLed word →
      evaluate equates word = .ok value) := by
  have written := Literal.parse?_eq_some_iff.mp (Literal.parse_eq_ok_iff.mp literal)
  cases written with
  | @plain _ n _ signed reduces =>
    obtain ⟨within, reduced⟩ := Literal.reduces_iff.mp reduces
    obtain ⟨only, always⟩ :=
      signed.assigns literals reduces (constant? equates) [] (Nat.zero_le 1)
    constructor
    · intro v found
      obtain ⟨k, assigned, -, rfl⟩ := evaluate_eq_ok_iff.mp found
      obtain rfl : k = n := only _ assigned
      exact reduced
    · intro _ plain notZeroLed
      exact evaluate_eq_ok_iff.mpr ⟨n, always plain notZeroLed, within, reduced⟩
  | @complement text n value signed reduces =>
    obtain ⟨-, reduced⟩ := Literal.reduces_iff.mp reduces
    obtain ⟨only, -⟩ := signed.assigns literals reduces (constant? equates) [.complement]
      (Nat.le_refl 1)
    constructor
    · intro v found
      obtain ⟨k, assigned, -, rfl⟩ := evaluate_eq_ok_iff.mp found
      obtain rfl : k = -n - 1 := only _ assigned
      rw [ofInt_complement, reduced]
    · intro noTilde
      exact absurd List.mem_cons_self noTilde

attribute [local instance] Constant.interpreter

/-- The least number but one, in hexadecimal digits of either case. -/
theorem evaluate_literal_of_sign :
    Literal.parse (ascii "-0X7fFFffFF") = .ok (-2147483647) ∧
      evaluate ∅ (ascii "-0X7fFFffFF") = .ok (-2147483647) := by
  have literal : Literal.parse (ascii "-0X7fFFffFF") = .ok (-2147483647) := by decide +kernel
  have always := (evaluate_literal integerLiterals_interpreter ∅ _ _ literal).2
  refine ⟨literal, always (by decide) (by decide) ?_⟩
  have bytes : ascii "-0X7fFFffFF" = 45 :: 48 :: 88 :: ascii "7fFFffFF" := by decide
  rw [bytes]
  rintro ⟨text, ⟨digits, rfl, all, -⟩, spelled | spelled | spelled⟩
  · cases spelled
  · cases spelled
  · -- the letter of the base mark is no digit
    have letter : (88 : UInt8) ∈ digits := by
      rw [← (List.cons.inj (List.cons.inj spelled).2).2]
      exact List.mem_cons_self
    exact absurd (all 88 letter) (by decide)

end Rpn.Expander
