import Rpn.Bytes

/-!
# Numbers as text

* `numeral` writes a natural number in a base up to 16;
* `decimal` writes an integer in base ten, with `-` in front of a negative one;
* `grouped` writes it with a comma after every third digit from the right, as messages do;
* `numeralValue` reads digits back, and `numeralValue_numeral` says that it does.

Digits are read in rounds, each of which joins neighbours in pairs, so that a long number takes
few large multiplications; `numeralValue_eq_foldl` says that this reads them one by one.
-/

namespace Rpn

/-- The digits of a natural number in a base from 2 to 16, the most significant first. -/
def numeral (base n : Nat) : Bytes :=
  (Nat.toDigits base n).map fun c => c.toNat.toUInt8

/-- Joins digits of a base, the least significant first, in pairs to digits of its square. -/
def pairDigits (base : Nat) : List Nat → List Nat
  | low :: high :: rest => (low + base * high) :: pairDigits base rest
  | short => short

/-- The value of digits of a base, the least significant first, read in some rounds. -/
def digitsValue : Nat → Nat → List Nat → Nat
  | _, _, [] => 0
  | _, _, [digit] => digit
  | 0, _, _ => 0
  | rounds + 1, base, digits => digitsValue rounds (base * base) (pairDigits base digits)

/-- The value of a sequence of digits in a base; a byte that is no digit counts as 0. -/
def numeralValue (base : Nat) (digits : Bytes) : Nat :=
  digitsValue digits.length base (digits.reverse.map fun b => (digitValue? b).getD 0)

/-- An integer in base ten. -/
def decimal (n : Int) : Bytes :=
  if n < 0 then 45 :: numeral 10 n.natAbs else numeral 10 n.natAbs

/-- Puts a comma after every third digit of a number written from its last digit on. -/
def separateThousands : Bytes → Bytes
  | a :: b :: c :: d :: rest => a :: b :: c :: 44 :: separateThousands (d :: rest)
  | short => short

/-- An integer in base ten, its digits grouped by thousands. -/
def grouped (n : Int) : Bytes :=
  let digits := (separateThousands (numeral 10 n.natAbs).reverse).reverse
  if n < 0 then 45 :: digits else digits

theorem foldr_pairDigits (base : Nat) (digits : List Nat) :
    (pairDigits base digits).foldr (fun d n => d + base * base * n) 0 =
      digits.foldr (fun d n => d + base * n) 0 := by
  fun_induction pairDigits base digits with
  | case1 low high rest ih =>
    rw [List.foldr_cons, ih, List.foldr_cons, List.foldr_cons, Nat.mul_add, Nat.mul_assoc,
      Nat.add_assoc]
  | case2 short h =>
    match short with
    | [] => rfl
    | [d] => rfl
    | low :: high :: rest => exact absurd rfl (h low high rest)

theorem length_pairDigits (base : Nat) (digits : List Nat) :
    (pairDigits base digits).length = (digits.length + 1) / 2 := by
  fun_induction pairDigits base digits with
  | case1 low high rest ih =>
    simp only [List.length_cons, ih]
    omega
  | case2 short h =>
    match short with
    | [] => rfl
    | [d] => simp only [List.length_cons, List.length_nil]
    | low :: high :: rest => exact absurd rfl (h low high rest)

theorem digitsValue_eq_foldr (rounds base : Nat) (digits : List Nat)
    (h : digits.length ≤ rounds + 1) :
    digitsValue rounds base digits = digits.foldr (fun d n => d + base * n) 0 := by
  fun_induction digitsValue rounds base digits with
  | case1 => rfl
  | case2 => rfl
  | case3 base digits h₀ h₁ =>
    match digits with
    | [] => exact absurd rfl h₀
    | [d] => exact absurd rfl (h₁ d)
    | low :: high :: rest =>
      simp only [List.length_cons] at h
      omega
  | case4 rounds base digits h₀ h₁ ih =>
    rw [ih, foldr_pairDigits]
    rw [length_pairDigits]
    omega

/-- Digits are read one by one. -/
theorem numeralValue_eq_foldl (base : Nat) (digits : Bytes) :
    numeralValue base digits =
      digits.foldl (fun n b => n * base + (digitValue? b).getD 0) 0 := by
  rw [numeralValue, digitsValue_eq_foldr _ _ _ (by simp), List.foldr_map, List.foldr_reverse]
  simp only [Nat.mul_comm base, Nat.add_comm]

theorem numeral_of_lt {base n : Nat} (h : n < base) :
    numeral base n = [(Nat.digitChar n).toNat.toUInt8] := by
  simp [numeral, Nat.toDigits_of_lt_base h]

theorem numeral_append {base n d : Nat} (hb : 1 < base) (hn : 0 < n) (hd : d < base) :
    numeral base n ++ numeral base d = numeral base (base * n + d) := by
  simp [numeral, ← Nat.toDigits_append_toDigits hb hn hd]

theorem digitValue?_digitChar {n : Nat} (h : n < 16) :
    digitValue? (Nat.digitChar n).toNat.toUInt8 = some n := by
  have all : ∀ m : Fin 16, digitValue? (Nat.digitChar m.val).toNat.toUInt8 = some m.val := by
    decide
  exact all ⟨n, h⟩

theorem numeralValue_numeral {base : Nat} (hb : 1 < base) (hb' : base ≤ 16) (n : Nat) :
    numeralValue base (numeral base n) = n := by
  induction n using Nat.strongRecOn with
  | _ n ih =>
    by_cases h : n < base
    · simp [numeral_of_lt h, numeralValue_eq_foldl,
        digitValue?_digitChar (Nat.lt_of_lt_of_le h hb')]
    · have hpos : 0 < n / base := Nat.div_pos (Nat.le_of_not_lt h) (by omega)
      have hd : n % base < base := Nat.mod_lt n (by omega)
      have hlt : n / base < n := Nat.div_lt_self (by omega) hb
      have hval := ih (n / base) hlt
      have hsplit : base * (n / base) + n % base = n := Nat.div_add_mod n base
      rw [← hsplit, ← numeral_append hb hpos hd, numeral_of_lt hd]
      simp only [numeralValue_eq_foldl, List.foldl_append, List.foldl_cons,
        List.foldl_nil] at hval ⊢
      rw [hval, digitValue?_digitChar (Nat.lt_of_lt_of_le hd hb'), Option.getD_some,
        Nat.mul_comm]

end Rpn
