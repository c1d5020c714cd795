import Rpn.Proofs.Constant.Language

/-!
# Two grammars of unsigned numbers

Integer literals of constant expressions and unsigned numbers of literals are written by two
grammars.  The first is the smaller one, and where it has a text both have the same number for it.

* `Constant.Numeral.unsigned` — an integer literal is an unsigned number;
* `Literal.ZeroLed` — a leading zero, no base mark and another digit than zero;
* `Literal.Unsigned.numeral` — an unsigned number is an integer literal, unless it has a `_` or is led
  by a zero like that.
-/

namespace Rpn

open Literal

variable {base m n : Nat} {text : Bytes} {digits : List Nat}

/-- An unsigned number is read in one way only. -/
theorem Literal.Unsigned.unique (hm : Unsigned text m) (hn : Unsigned text n) : m = n :=
  Option.some.inj ((natural?_eq_some_iff.mpr hm).symm.trans (natural?_eq_some_iff.mpr hn))

/-! ## From the smaller grammar to the larger one -/

theorem Literal.trail_of_forall₂ (h : List.Forall₂ (DigitOf base) text digits) :
    Trail base text digits := by
  induction h with
  | nil => exact .nil
  | cons digit _ ih => exact .digit digit ih

theorem Literal.trail_of_zeros (h : ∀ b ∈ text, b = 48) :
    Trail 8 text (List.replicate text.length 0) := by
  induction text with
  | nil => exact .nil
  | cons b text ih =>
    rw [List.forall_mem_cons] at h
    obtain ⟨rfl, zeros⟩ := h
    have zero : DigitOf 8 48 0 := @DigitOf.figure 8 0 (by decide) (by decide)
    exact .digit zero (ih zeros)

/-- An integer literal is an unsigned number, and the same one. -/
theorem Constant.Numeral.unsigned (numeral : Constant.Numeral text n) : Unsigned text n := by
  cases numeral with
  | decimal digit pos digits => exact .decimal digit pos (trail_of_forall₂ digits)
  | marked mark digits some => exact .marked mark (trail_of_forall₂ digits) some
  | @zero text zeros =>
    have octal := Unsigned.octal (trail_of_zeros zeros)
    rw [positional, List.reverse_replicate, Nat.ofDigits_replicate_zero] at octal
    exact octal

/-! ## From the larger grammar to the smaller one -/

/-- Digits that are not kept apart are digits one by one. -/
theorem Literal.Trail.forall₂ (trail : Trail base text digits) (plain : 95 ∉ text) :
    List.Forall₂ (DigitOf base) text digits := by
  induction trail with
  | nil => exact .nil
  | digit digit _ ih =>
    rw [List.mem_cons, not_or] at plain
    exact .cons digit (ih plain.2)
  | apart => exact absurd List.mem_cons_self plain

/-- Whether a number has a leading zero, no base mark and another digit than zero. -/
def Literal.ZeroLed (text : Bytes) : Prop :=
  ∃ digits, text = 48 :: digits ∧ (∀ b ∈ digits, isDigit b = true) ∧ ∃ b ∈ digits, b ≠ 48

/-- Octal digits are decimal ones. -/
theorem Literal.DigitOf.isDigit_of_le {b : UInt8} {d : Nat} (digit : DigitOf base b d)
    (small : base ≤ 10) : Rpn.isDigit b = true := by
  obtain ⟨value, below⟩ := (digitOf_iff (by omega)).mp digit
  exact ((digitOf_iff (by decide)).mpr ⟨value, by omega⟩ : DigitOf 10 b d).isDigit

/-- An unsigned number without a `_`, and without a leading zero in front of another digit, is an
integer literal. -/
theorem Literal.Unsigned.numeral (unsigned : Unsigned text m) (plain : 95 ∉ text)
    (notZeroLed : ¬ ZeroLed text) : Constant.Numeral text m := by
  have whole := unsigned
  cases unsigned with
  | decimal digit pos trail =>
    rw [List.mem_cons, not_or] at plain
    exact .decimal digit pos (trail.forall₂ plain.2)
  | marked mark trail some =>
    simp only [List.mem_cons, not_or] at plain
    exact .marked mark (trail.forall₂ plain.2.2) some
  | @octal text digits trail =>
    rw [List.mem_cons, not_or] at plain
    have octal := trail.forall₂ plain.2
    have figures : ∀ b ∈ text, isDigit b = true := by
      clear whole notZeroLed trail plain
      induction octal with
      | nil => exact List.forall_mem_nil _
      | cons digit _ ih => exact List.forall_mem_cons.mpr ⟨digit.isDigit_of_le (by decide), ih⟩
    have zeros : ∀ b ∈ text, b = 48 := by
      intro b mem
      by_contra other
      exact notZeroLed ⟨text, rfl, figures, b, mem, other⟩
    have zero : Constant.Numeral (48 :: text) 0 := .zero zeros
    rw [whole.unique zero.unsigned]
    exact zero

end Rpn
