import Mathlib.Data.Int.Bitwise
import Mathlib.Data.Int.ModEq

/-!
# Words of 32 bits and the integers that they stand for

An integer is reduced to the word that is congruent to it, which is the word of its last 32 bits.

* `ofInt_eq_iff_modEq` and `ofInt_eq_iff_testBit` — the word that an integer is reduced to, told by
  its value and by its bits;
* `ofInt_land`, `ofInt_lor`, `ofInt_complement`, `ofInt_tdiv_toInt` and `ofInt_mul_two_pow` — what
  reduction makes of an operation on integers;
* `toInt_shiftRight` — a shift to the right is a division that rounds down.
-/

namespace Rpn

/-! ## Reduction -/

theorem bmod_modEq (n : Int) : n.bmod (2 ^ 32) ≡ n [ZMOD 2 ^ 32] := by
  show n.bmod (2 ^ 32) % ((2 ^ 32 : Nat) : Int) = n % ((2 ^ 32 : Nat) : Int)
  exact Int.bmod_emod

theorem ofInt_eq_iff_modEq {n : Int} {value : Int32} :
    Int32.ofInt n = value ↔ value.toInt ≡ n [ZMOD 2 ^ 32] := by
  have reduced : (Int32.ofInt n).toInt = n.bmod (2 ^ 32) := Int32.toInt_ofInt
  constructor
  · rintro rfl
    rw [reduced]
    exact bmod_modEq n
  · intro congruent
    have same : Int32.ofInt value.toInt = Int32.ofInt n := by
      rw [← Int32.toInt_inj, Int32.toInt_ofInt, Int32.toInt_ofInt]
      calc value.toInt.bmod Int32.size
          = (value.toInt % 2 ^ 32).bmod Int32.size := (Int.emod_bmod _ _).symm
        _ = (n % 2 ^ 32).bmod Int32.size := congrArg (Int.bmod · _) congruent
        _ = n.bmod Int32.size := Int.emod_bmod _ _
    rw [← same, Int32.ofInt_toInt]

/-! ## Bits -/

theorem getLsbD_ofInt {w : Nat} (n : Int) {i : Nat} (lt : i < w) :
    (BitVec.ofInt w n).getLsbD i = n.testBit i := by
  cases n with
  | ofNat m =>
    show (BitVec.ofNat w m).getLsbD i = m.testBit i
    rw [BitVec.getLsbD_ofNat, decide_eq_true lt, Bool.true_and]
  | negSucc m =>
    rw [BitVec.ofInt_negSucc_eq_not_ofNat, BitVec.getLsbD_not, BitVec.getLsbD_ofNat,
      decide_eq_true lt, Bool.true_and, Bool.true_and]
    rfl

/-- The bits of a word are those of the integer that it stands for. -/
theorem testBit_toInt (word : Int32) {i : Nat} (lt : i < 32) :
    word.toInt.testBit i = word.toBitVec.getLsbD i := by
  have same : BitVec.ofInt 32 word.toInt = word.toBitVec := BitVec.ofInt_toInt
  rw [← getLsbD_ofInt word.toInt lt, same]

/-- An integer is reduced to the word that has its last 32 bits. -/
theorem ofInt_eq_iff_testBit {n : Int} {word : Int32} :
    Int32.ofInt n = word ↔ ∀ i < 32, word.toInt.testBit i = n.testBit i := by
  constructor
  · rintro rfl i lt
    rw [testBit_toInt _ lt, Int32.toBitVec_ofInt, getLsbD_ofInt n lt]
  · intro bits
    rw [← Int32.toBitVec_inj, Int32.toBitVec_ofInt]
    apply BitVec.eq_of_getLsbD_eq
    intro i lt
    rw [getLsbD_ofInt n lt, ← testBit_toInt word lt, bits i lt]

theorem testBit_and (a b : Int32) {i : Nat} (lt : i < 32) :
    (a &&& b).toInt.testBit i = (a.toInt.testBit i && b.toInt.testBit i) := by
  rw [testBit_toInt _ lt, testBit_toInt a lt, testBit_toInt b lt, Int32.toBitVec_and,
    BitVec.getLsbD_and]

theorem testBit_or (a b : Int32) {i : Nat} (lt : i < 32) :
    (a ||| b).toInt.testBit i = (a.toInt.testBit i || b.toInt.testBit i) := by
  rw [testBit_toInt _ lt, testBit_toInt a lt, testBit_toInt b lt, Int32.toBitVec_or,
    BitVec.getLsbD_or]

theorem ofInt_land (m n : Int) : Int32.ofInt (m.land n) = Int32.ofInt m &&& Int32.ofInt n := by
  rw [ofInt_eq_iff_testBit]
  intro i lt
  rw [testBit_and _ _ lt, Int.testBit_land, ofInt_eq_iff_testBit.mp rfl i lt,
    ofInt_eq_iff_testBit.mp rfl i lt]

theorem ofInt_lor (m n : Int) : Int32.ofInt (m.lor n) = Int32.ofInt m ||| Int32.ofInt n := by
  rw [ofInt_eq_iff_testBit]
  intro i lt
  rw [testBit_or _ _ lt, Int.testBit_lor, ofInt_eq_iff_testBit.mp rfl i lt,
    ofInt_eq_iff_testBit.mp rfl i lt]

/-- The complement of an integer is what is one less than its negation. -/
theorem ofInt_complement (n : Int) : Int32.ofInt (-n - 1) = ~~~ Int32.ofInt n := by
  rw [Int32.ofInt_sub, Int32.ofInt_neg, Int32.not_eq_neg_sub]
  rfl

/-! ## Quotients and shifts -/

/-- The quotient of words is that of integers, rounded toward zero; only the least word divided by
-1 has a quotient that is no word. -/
theorem ofInt_tdiv_toInt (a b : Int32) : Int32.ofInt (a.toInt.tdiv b.toInt) = a / b := by
  rw [Int32.ofInt_eq_iff_bmod_eq_toInt, Int32.toInt_div]

/-- How far a shift by a word moves: by its remainder modulo 32, which is never negative. -/
def shiftCount (a : Int32) : Nat :=
  (a.toInt % 32).toNat

theorem toNat_smod_eq_shiftCount (a : Int32) : (a.toBitVec.smod 32).toNat = shiftCount a := by
  have signed : (a.toBitVec.smod 32).toInt = a.toInt % 32 := by
    rw [BitVec.toInt_smod]
    exact Int.fmod_eq_emod_of_nonneg _ (by decide)
  have bounds : 0 ≤ a.toInt % 32 ∧ a.toInt % 32 < 32 :=
    ⟨Int.emod_nonneg _ (by decide), Int.emod_lt_of_pos _ (by decide)⟩
  rw [BitVec.toInt_eq_toNat_cond] at signed
  rw [shiftCount]
  split at signed <;> omega

/-- A shift to the left multiplies. -/
theorem ofInt_mul_two_pow (a b : Int32) :
    Int32.ofInt (b.toInt * 2 ^ shiftCount a) = b <<< a := by
  have moved : (b <<< a).toInt = ((b.toBitVec.toNat : Int) * 2 ^ shiftCount a).bmod (2 ^ 32) := by
    show (b <<< a).toBitVec.toInt = _
    rw [Int32.toBitVec_shiftLeft, BitVec.shiftLeft_eq', toNat_smod_eq_shiftCount,
      BitVec.toInt_shiftLeft, Nat.shiftLeft_eq, Int.natCast_mul, Int.natCast_pow]
    rfl
  have signed : b.toInt ≡ b.toBitVec.toNat [ZMOD 2 ^ 32] := by
    show b.toBitVec.toInt ≡ _ [ZMOD 2 ^ 32]
    rw [BitVec.toInt_eq_toNat_bmod]
    exact bmod_modEq _
  rw [ofInt_eq_iff_modEq, moved]
  calc ((b.toBitVec.toNat : Int) * 2 ^ shiftCount a).bmod (2 ^ 32)
      ≡ b.toBitVec.toNat * 2 ^ shiftCount a [ZMOD 2 ^ 32] := bmod_modEq _
    _ ≡ b.toInt * 2 ^ shiftCount a [ZMOD 2 ^ 32] := signed.symm.mul_right _

/-- A shift to the right divides, and rounds down. -/
theorem toInt_shiftRight (a b : Int32) :
    (b >>> a).toInt = b.toInt.fdiv (2 ^ shiftCount a) := by
  have moved : (b >>> a).toInt = b.toInt >>> shiftCount a := by
    show (b >>> a).toBitVec.toInt = b.toBitVec.toInt >>> shiftCount a
    rw [Int32.toBitVec_shiftRight, BitVec.toInt_sshiftRight', toNat_smod_eq_shiftCount]
  have power : ((2 ^ shiftCount a : Nat) : Int) = 2 ^ shiftCount a := Int.natCast_pow 2 _
  rw [moved, Int.shiftRight_eq_div_pow, ← power, Int.fdiv_eq_ediv_of_nonneg _ (Int.natCast_nonneg _)]

end Rpn
