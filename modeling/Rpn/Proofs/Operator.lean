import Rpn.Operator
import Rpn.Proofs.Word

/-!
# The exact arithmetic of operators

What an operator gives for two words, told by the integers that they stand for.

* `BinaryOp.Computes` — the rule of each operator: an exact result reduced to 32 bits, a quotient
  rounded toward zero or down, or bits taken together;
* `BinaryOp.compute?_eq_some_iff` — an operator computes the word that its rule allows;
* `BinaryOp.exists_computes` — and there is one such word, but for a quotient by zero.
-/

namespace Rpn.BinaryOp

/-- The results of an operator on the upper word `a` and the lower word `b`. -/
inductive Computes (a b : Int32) : BinaryOp → Int32 → Prop
  | add {r : Int32} : r.toInt ≡ a.toInt + b.toInt [ZMOD 2 ^ 32] → Computes a b .add r
  | sub {r : Int32} : r.toInt ≡ a.toInt - b.toInt [ZMOD 2 ^ 32] → Computes a b .sub r
  | mul {r : Int32} : r.toInt ≡ a.toInt * b.toInt [ZMOD 2 ^ 32] → Computes a b .mul r
  /-- The quotient is rounded toward zero. -/
  | div {r : Int32} :
      b ≠ 0 → r.toInt ≡ a.toInt.tdiv b.toInt [ZMOD 2 ^ 32] → Computes a b .div r
  | shl {r : Int32} :
      r.toInt ≡ b.toInt * 2 ^ (a.toInt % 32).toNat [ZMOD 2 ^ 32] → Computes a b .shl r
  /-- The quotient by a power of two is rounded down. -/
  | shr {r : Int32} : r.toInt = b.toInt.fdiv (2 ^ (a.toInt % 32).toNat) → Computes a b .shr r
  | and {r : Int32} :
      (∀ i < 32, r.toInt.testBit i = (a.toInt.testBit i && b.toInt.testBit i)) →
      Computes a b .and r
  | or {r : Int32} :
      (∀ i < 32, r.toInt.testBit i = (a.toInt.testBit i || b.toInt.testBit i)) →
      Computes a b .or r

variable {op : BinaryOp} {a b r : Int32}

theorem compute?_eq_none_iff : op.compute? a b = none ↔ op = .div ∧ b = 0 := by
  cases op <;> simp [compute?]

/-- What is congruent to an integer is the word that the integer is reduced to. -/
theorem some_eq_iff_modEq {n : Int} {word : Int32} (reduced : Int32.ofInt n = word) :
    some word = some r ↔ r.toInt ≡ n [ZMOD 2 ^ 32] := by
  rw [← reduced, Option.some.injEq, ofInt_eq_iff_modEq]

/-- What has the bits of a word is that word. -/
theorem some_eq_iff_testBit (word : Int32) :
    some word = some r ↔ ∀ i < 32, r.toInt.testBit i = word.toInt.testBit i := by
  have reduced := @ofInt_eq_iff_testBit word.toInt r
  rw [Int32.ofInt_toInt] at reduced
  rw [Option.some.injEq, reduced]

/-- An operator computes the word that its rule allows, and no other word is allowed. -/
theorem compute?_eq_some_iff : op.compute? a b = some r ↔ Computes a b op r := by
  cases op with
  | add =>
    have reduced : Int32.ofInt (a.toInt + b.toInt) = a + b := by
      rw [Int32.ofInt_add, Int32.ofInt_toInt, Int32.ofInt_toInt]
    exact (some_eq_iff_modEq reduced).trans ⟨.add, fun (.add h) => h⟩
  | sub =>
    have reduced : Int32.ofInt (a.toInt - b.toInt) = a - b := by
      rw [Int32.ofInt_sub, Int32.ofInt_toInt, Int32.ofInt_toInt]
    exact (some_eq_iff_modEq reduced).trans ⟨.sub, fun (.sub h) => h⟩
  | mul =>
    have reduced : Int32.ofInt (a.toInt * b.toInt) = a * b := by
      rw [Int32.ofInt_mul, Int32.ofInt_toInt, Int32.ofInt_toInt]
    exact (some_eq_iff_modEq reduced).trans ⟨.mul, fun (.mul h) => h⟩
  | div =>
    by_cases zero : b = 0
    · rw [compute?_eq_none_iff.mpr ⟨rfl, zero⟩]
      exact iff_of_false nofun fun (.div nonzero _) => nonzero zero
    · rw [compute?, if_neg zero, some_eq_iff_modEq (ofInt_tdiv_toInt a b)]
      exact ⟨.div zero, fun (.div _ h) => h⟩
  | shl => exact (some_eq_iff_modEq (ofInt_mul_two_pow a b)).trans ⟨.shl, fun (.shl h) => h⟩
  | shr =>
    have shifted : some (b >>> a) = some r ↔ r.toInt = b.toInt.fdiv (2 ^ shiftCount a) := by
      rw [← toInt_shiftRight, Option.some.injEq, Int32.toInt_inj, eq_comm]
    exact shifted.trans ⟨.shr, fun (.shr h) => h⟩
  | and =>
    have bits : some (a &&& b) = some r ↔
        ∀ i < 32, r.toInt.testBit i = (a.toInt.testBit i && b.toInt.testBit i) := by
      rw [some_eq_iff_testBit]
      exact forall₂_congr fun i lt => by rw [testBit_and a b lt]
    exact bits.trans ⟨.and, fun (.and h) => h⟩
  | or =>
    have bits : some (a ||| b) = some r ↔
        ∀ i < 32, r.toInt.testBit i = (a.toInt.testBit i || b.toInt.testBit i) := by
      rw [some_eq_iff_testBit]
      exact forall₂_congr fun i lt => by rw [testBit_or a b lt]
    exact bits.trans ⟨.or, fun (.or h) => h⟩

/-- An operator has one result, unless it is a quotient by zero. -/
theorem exists_computes (defined : ¬ (op = .div ∧ b = 0)) :
    ∃ r, op.compute? a b = some r ∧ ∀ r', Computes a b op r' ↔ r' = r := by
  obtain ⟨r, computed⟩ := Option.ne_none_iff_exists'.mp (mt compute?_eq_none_iff.mp defined)
  refine ⟨r, computed, fun r' => ?_⟩
  rw [← compute?_eq_some_iff, computed, Option.some.injEq, eq_comm]

end Rpn.BinaryOp
