import Rpn.Bytes

/-!
# UTF-8

A text may hold bytes that are no part of a well-formed code point.  Reading goes by code
points all the same: a byte that begins none counts as one code point of one byte.

* `decode` reads the code point at the head of a text, if the head is well formed;
* `width` is the number of bytes to step over, well formed or not;
* `encode` writes a code point.
-/

namespace Rpn.Utf8

/-- Whether a byte can follow the first one of a code point. -/
def isTail (b : UInt8) : Bool :=
  0x80 ≤ b && b ≤ 0xBF

/-- The bytes that may come second after the first byte of a code point of three bytes: no
shorter form, and no surrogate. -/
def isSecondOfThree (a b : UInt8) : Bool :=
  if a = 0xE0 then 0xA0 ≤ b && b ≤ 0xBF
  else if a = 0xED then 0x80 ≤ b && b ≤ 0x9F
  else isTail b

/-- The bytes that may come second after the first byte of a code point of four bytes: no
shorter form, and nothing above U+10FFFF. -/
def isSecondOfFour (a b : UInt8) : Bool :=
  if a = 0xF0 then 0x90 ≤ b && b ≤ 0xBF
  else if a = 0xF4 then 0x80 ≤ b && b ≤ 0x8F
  else isTail b

/-- The code point that two bytes of the right form spell. -/
def pair? : Bytes → Option (Nat × Nat)
  | a :: b :: _ =>
    if isTail b then some ((a.toNat - 0xC0) * 0x40 + (b.toNat - 0x80), 2) else none
  | _ => none

/-- The code point that three bytes of the right form spell. -/
def triple? : Bytes → Option (Nat × Nat)
  | a :: b :: c :: _ =>
    if isSecondOfThree a b && isTail c then
      some (((a.toNat - 0xE0) * 0x40 + (b.toNat - 0x80)) * 0x40 + (c.toNat - 0x80), 3)
    else none
  | _ => none

/-- The code point that four bytes of the right form spell. -/
def quadruple? : Bytes → Option (Nat × Nat)
  | a :: b :: c :: d :: _ =>
    if isSecondOfFour a b && isTail c && isTail d then
      some ((((a.toNat - 0xF0) * 0x40 + (b.toNat - 0x80)) * 0x40 + (c.toNat - 0x80)) * 0x40
        + (d.toNat - 0x80), 4)
    else none
  | _ => none

/-- The code point at the head of a text and its number of bytes, if the head is well formed. -/
def decode (text : Bytes) : Option (Nat × Nat) :=
  match text with
  | [] => none
  | a :: _ =>
    if a < 0x80 then some (a.toNat, 1)
    else if 0xC2 ≤ a && a ≤ 0xDF then pair? text
    else if 0xE0 ≤ a && a ≤ 0xEF then triple? text
    else if 0xF0 ≤ a && a ≤ 0xF4 then quadruple? text
    else none

/-- The number of bytes of the code point at the head of a text, an ill-formed byte counting
as one code point. -/
def width (text : Bytes) : Nat :=
  match decode text with
  | some (_, n) => n
  | none => 1

/-- The replacement character stands for what cannot be read. -/
def replacement : Nat := 0xFFFD

/-- The bytes of a code point. -/
def encode (c : Nat) : Bytes :=
  if c < 0x80 then [c.toUInt8]
  else if c < 0x800 then [(0xC0 + c / 0x40).toUInt8, (0x80 + c % 0x40).toUInt8]
  else if c < 0x10000 then
    [(0xE0 + c / 0x1000).toUInt8, (0x80 + c / 0x40 % 0x40).toUInt8, (0x80 + c % 0x40).toUInt8]
  else
    [(0xF0 + c / 0x40000).toUInt8, (0x80 + c / 0x1000 % 0x40).toUInt8,
      (0x80 + c / 0x40 % 0x40).toUInt8, (0x80 + c % 0x40).toUInt8]

theorem pair?_bounds {text : Bytes} {c n : Nat} (h : pair? text = some (c, n)) :
    n = 2 ∧ 2 ≤ text.length := by
  unfold pair? at h
  split at h
  · split at h
    · simp only [Option.some.injEq, Prod.mk.injEq] at h
      exact ⟨h.2.symm, by simp⟩
    · cases h
  · cases h

theorem triple?_bounds {text : Bytes} {c n : Nat} (h : triple? text = some (c, n)) :
    n = 3 ∧ 3 ≤ text.length := by
  unfold triple? at h
  split at h
  · split at h
    · simp only [Option.some.injEq, Prod.mk.injEq] at h
      exact ⟨h.2.symm, by simp⟩
    · cases h
  · cases h

theorem quadruple?_bounds {text : Bytes} {c n : Nat} (h : quadruple? text = some (c, n)) :
    n = 4 ∧ 4 ≤ text.length := by
  unfold quadruple? at h
  split at h
  · split at h
    · simp only [Option.some.injEq, Prod.mk.injEq] at h
      exact ⟨h.2.symm, by simp⟩
    · cases h
  · cases h

/-- A code point at the head takes at least one byte, and no more than there are. -/
theorem decode_bounds {text : Bytes} {c n : Nat} (h : decode text = some (c, n)) :
    0 < n ∧ n ≤ text.length := by
  unfold decode at h
  split at h
  · cases h
  · split at h
    · simp only [Option.some.injEq, Prod.mk.injEq] at h
      simp [← h.2]
    · split at h
      · have := pair?_bounds h
        omega
      · split at h
        · have := triple?_bounds h
          omega
        · split at h
          · have := quadruple?_bounds h
            omega
          · cases h

theorem width_pos (text : Bytes) : 0 < width text := by
  unfold width
  split
  · exact (decode_bounds ‹_›).1
  · exact Nat.one_pos

example : decode (encode 0x20AC) = some (0x20AC, 3) := by decide
example : decode [0xED, 0xA0, 0x80] = none := by decide

end Rpn.Utf8
