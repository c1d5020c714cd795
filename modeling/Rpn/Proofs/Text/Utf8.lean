import Rpn.Text.Utf8

/-!
# Code points and their bytes

* `Utf8.decode_encode_append` and `Utf8.encode_of_decode` — a code point is read where its bytes
  stand, and nowhere else;
* `Utf8.points` — the code points of a text, where a byte that begins none stands for itself;
* `Utf8.points_append` — code points are found anew from any byte on that is no inner byte of a
  code point, whatever stands in front of it;
* `Utf8.exists_of_points_eq_append` — where an ASCII code point stands among those of a text, the
  bytes are split as well.
-/

namespace Rpn.Utf8

/-! ## One code point -/

theorem toNat_toUInt8_of_lt {n : Nat} (h : n < 256) : n.toUInt8.toNat = n := by
  rw [Nat.toUInt8_eq, UInt8.toNat_ofNat']
  exact Nat.mod_eq_of_lt h

theorem isTail_iff {b : UInt8} : isTail b = true ↔ 128 ≤ b.toNat ∧ b.toNat ≤ 191 := by
  simp [isTail, UInt8.le_iff_toNat_le]

theorem isSecondOfThree_iff {a b : UInt8} :
    isSecondOfThree a b = true ↔ 128 ≤ b.toNat ∧ b.toNat ≤ 191 ∧
      (a.toNat = 0xE0 → 0xA0 ≤ b.toNat) ∧ (a.toNat = 0xED → b.toNat ≤ 0x9F) := by
  simp only [isSecondOfThree, ← UInt8.toNat_inj, UInt8.reduceToNat]
  split
  · simp [UInt8.le_iff_toNat_le]
    omega
  · split
    · simp [UInt8.le_iff_toNat_le]
      omega
    · simp [isTail_iff]
      omega

theorem isSecondOfFour_iff {a b : UInt8} :
    isSecondOfFour a b = true ↔ 128 ≤ b.toNat ∧ b.toNat ≤ 191 ∧
      (a.toNat = 0xF0 → 0x90 ≤ b.toNat) ∧ (a.toNat = 0xF4 → b.toNat ≤ 0x8F) := by
  simp only [isSecondOfFour, ← UInt8.toNat_inj, UInt8.reduceToNat]
  split
  · simp [UInt8.le_iff_toNat_le]
    omega
  · split
    · simp [UInt8.le_iff_toNat_le]
      omega
    · simp [isTail_iff]
      omega

/-- The bytes of a code point at the head of a text, one case for each number of bytes. -/
inductive Head : Bytes → Nat → Nat → Prop
  | one {a : UInt8} {rest : Bytes} : a.toNat < 0x80 → Head (a :: rest) a.toNat 1
  | two {a b : UInt8} {rest : Bytes} :
      0xC2 ≤ a.toNat → a.toNat ≤ 0xDF → isTail b = true →
      Head (a :: b :: rest) ((a.toNat - 0xC0) * 0x40 + (b.toNat - 0x80)) 2
  | three {a b c : UInt8} {rest : Bytes} :
      0xE0 ≤ a.toNat → a.toNat ≤ 0xEF → isSecondOfThree a b = true → isTail c = true →
      Head (a :: b :: c :: rest)
        (((a.toNat - 0xE0) * 0x40 + (b.toNat - 0x80)) * 0x40 + (c.toNat - 0x80)) 3
  | four {a b c d : UInt8} {rest : Bytes} :
      0xF0 ≤ a.toNat → a.toNat ≤ 0xF4 → isSecondOfFour a b = true → isTail c = true →
      isTail d = true →
      Head (a :: b :: c :: d :: rest)
        ((((a.toNat - 0xF0) * 0x40 + (b.toNat - 0x80)) * 0x40 + (c.toNat - 0x80)) * 0x40
          + (d.toNat - 0x80)) 4

section Decode

variable {a : UInt8} (rest : Bytes)

theorem decode_of_lt (h : a.toNat < 0x80) : decode (a :: rest) = some (a.toNat, 1) := by
  simp [decode, UInt8.lt_iff_toNat_lt, h]

theorem decode_eq_pair? (ge : 0xC2 ≤ a.toNat) (le : a.toNat ≤ 0xDF) :
    decode (a :: rest) = pair? (a :: rest) := by
  have not₁ : ¬ a.toNat < 128 := by omega
  simp [decode, UInt8.lt_iff_toNat_lt, UInt8.le_iff_toNat_le, not₁, ge, le]

theorem decode_eq_triple? (ge : 0xE0 ≤ a.toNat) (le : a.toNat ≤ 0xEF) :
    decode (a :: rest) = triple? (a :: rest) := by
  have not₁ : ¬ a.toNat < 128 := by omega
  have not₂ : ¬ a.toNat ≤ 223 := by omega
  simp [decode, UInt8.lt_iff_toNat_lt, UInt8.le_iff_toNat_le, not₁, not₂, ge, le]

theorem decode_eq_quadruple? (ge : 0xF0 ≤ a.toNat) (le : a.toNat ≤ 0xF4) :
    decode (a :: rest) = quadruple? (a :: rest) := by
  have not₁ : ¬ a.toNat < 128 := by omega
  have not₂ : ¬ a.toNat ≤ 223 := by omega
  have not₃ : ¬ a.toNat ≤ 239 := by omega
  simp [decode, UInt8.lt_iff_toNat_lt, UInt8.le_iff_toNat_le, not₁, not₂, not₃, ge, le]

theorem decode_eq_none (ge : 0x80 ≤ a.toNat)
    (other : ¬ (0xC2 ≤ a.toNat ∧ a.toNat ≤ 0xF4)) : decode (a :: rest) = none := by
  have not₁ : ¬ a.toNat < 128 := by omega
  have not₂ : ¬ (194 ≤ a.toNat ∧ a.toNat ≤ 223) := by omega
  have not₃ : ¬ (224 ≤ a.toNat ∧ a.toNat ≤ 239) := by omega
  have not₄ : ¬ (240 ≤ a.toNat ∧ a.toNat ≤ 244) := by omega
  simp only [decode, UInt8.lt_iff_toNat_lt, UInt8.le_iff_toNat_le, UInt8.reduceToNat, if_neg not₁,
    Bool.and_eq_true, decide_eq_true_eq, if_neg not₂, if_neg not₃, if_neg not₄]

/-- How a text is read depends on its first byte. -/
theorem decode_cases (a : UInt8) :
    a.toNat < 0x80 ∨ (0xC2 ≤ a.toNat ∧ a.toNat ≤ 0xDF) ∨ (0xE0 ≤ a.toNat ∧ a.toNat ≤ 0xEF) ∨
      (0xF0 ≤ a.toNat ∧ a.toNat ≤ 0xF4) ∨
      (0x80 ≤ a.toNat ∧ ¬ (0xC2 ≤ a.toNat ∧ a.toNat ≤ 0xF4)) := by
  omega

end Decode

/-- A text is read as a code point exactly if it begins with the bytes of one. -/
theorem decode_eq_some_iff {text : Bytes} {c n : Nat} :
    decode text = some (c, n) ↔ Head text c n := by
  constructor
  · intro h
    cases text with
    | nil => cases h
    | cons a rest =>
      rcases decode_cases a with lt | ⟨ge, le⟩ | ⟨ge, le⟩ | ⟨ge, le⟩ | ⟨ge, other⟩
      · rw [decode_of_lt rest lt] at h
        cases h
        exact .one lt
      · rw [decode_eq_pair? rest ge le] at h
        rcases rest with _ | ⟨b, rest⟩
        · cases h
        · simp only [pair?, Option.ite_none_right_eq_some, Option.some.injEq, Prod.mk.injEq] at h
          obtain ⟨tail, rfl, rfl⟩ := h
          exact .two ge le tail
      · rw [decode_eq_triple? rest ge le] at h
        rcases rest with _ | ⟨b, _ | ⟨d, rest⟩⟩
        · cases h
        · cases h
        · simp only [triple?, Bool.and_eq_true, Option.ite_none_right_eq_some, Option.some.injEq,
            Prod.mk.injEq] at h
          obtain ⟨⟨second, tail⟩, rfl, rfl⟩ := h
          exact .three ge le second tail
      · rw [decode_eq_quadruple? rest ge le] at h
        rcases rest with _ | ⟨b, _ | ⟨d, _ | ⟨e, rest⟩⟩⟩
        · cases h
        · cases h
        · cases h
        · simp only [quadruple?, Bool.and_eq_true, Option.ite_none_right_eq_some,
            Option.some.injEq, Prod.mk.injEq] at h
          obtain ⟨⟨⟨second, tail⟩, tail'⟩, rfl, rfl⟩ := h
          exact .four ge le second tail tail'
      · rw [decode_eq_none rest ge other] at h
        cases h
  · intro h
    cases h with
    | one lt => exact decode_of_lt _ lt
    | two ge le tail => rw [decode_eq_pair? _ ge le, pair?, if_pos tail]
    | three ge le second tail =>
      rw [decode_eq_triple? _ ge le, triple?, second, tail, Bool.and_true, if_pos rfl]
    | four ge le second tail tail' =>
      rw [decode_eq_quadruple? _ ge le, quadruple?, second, tail, tail', Bool.and_true,
        Bool.and_true, if_pos rfl]

theorem toUInt8_toNat (b : UInt8) : b.toNat.toUInt8 = b := by
  rw [Nat.toUInt8_eq, UInt8.ofNat_toNat]

/-- The code point at the head of a text is written as the bytes there. -/
theorem Head.eq_encode_append {text : Bytes} {c n : Nat} (h : Head text c n) :
    text = encode c ++ text.drop n := by
  cases h with
  | one lt => rw [encode, if_pos lt, toUInt8_toNat]; rfl
  | @two a b rest ge le tail =>
    rw [isTail_iff] at tail
    have first : 0xC0 + ((a.toNat - 0xC0) * 0x40 + (b.toNat - 0x80)) / 0x40 = a.toNat := by omega
    have second : 0x80 + ((a.toNat - 0xC0) * 0x40 + (b.toNat - 0x80)) % 0x40 = b.toNat := by omega
    rw [encode, if_neg (by omega), if_pos (by omega), first, second, toUInt8_toNat, toUInt8_toNat]
    rfl
  | @three a b c rest ge le second tail =>
    rw [isTail_iff] at tail
    rw [isSecondOfThree_iff] at second
    generalize eq : ((a.toNat - 0xE0) * 0x40 + (b.toNat - 0x80)) * 0x40 + (c.toNat - 0x80) = n
    have e₁ : 0xE0 + n / 0x1000 = a.toNat := by omega
    have e₂ : 0x80 + n / 0x40 % 0x40 = b.toNat := by omega
    have e₃ : 0x80 + n % 0x40 = c.toNat := by omega
    rw [encode, if_neg (by omega), if_neg (by omega), if_pos (by omega), e₁, e₂, e₃,
      toUInt8_toNat, toUInt8_toNat, toUInt8_toNat]
    rfl
  | @four a b c d rest ge le second tail tail' =>
    rw [isTail_iff] at tail tail'
    rw [isSecondOfFour_iff] at second
    generalize eq : (((a.toNat - 0xF0) * 0x40 + (b.toNat - 0x80)) * 0x40 + (c.toNat - 0x80)) * 0x40
      + (d.toNat - 0x80) = n
    have e₁ : 0xF0 + n / 0x40000 = a.toNat := by omega
    have e₂ : 0x80 + n / 0x1000 % 0x40 = b.toNat := by omega
    have e₃ : 0x80 + n / 0x40 % 0x40 = c.toNat := by omega
    have e₄ : 0x80 + n % 0x40 = d.toNat := by omega
    rw [encode, if_neg (by omega), if_neg (by omega), if_neg (by omega), e₁, e₂, e₃, e₄,
      toUInt8_toNat, toUInt8_toNat, toUInt8_toNat, toUInt8_toNat]
    rfl

/-- The bytes of a character are read as that character, whatever follows them. -/
theorem decode_encode_append {c : Nat} (valid : c.isValidChar) (rest : Bytes) :
    decode (encode c ++ rest) = some (c, (encode c).length) := by
  have bound : c < 0xD800 ∨ (0xDFFF < c ∧ c < 0x110000) := valid
  rw [decode_eq_some_iff]
  unfold encode
  split
  · have e := toNat_toUInt8_of_lt (show c < 256 by omega)
    have head : Head (c.toUInt8 :: rest) _ 1 := .one (by omega)
    rw [e] at head
    exact head
  · split
    · have e₁ := toNat_toUInt8_of_lt (show 0xC0 + c / 0x40 < 256 by omega)
      have e₂ := toNat_toUInt8_of_lt (show 0x80 + c % 0x40 < 256 by omega)
      have head : Head ((0xC0 + c / 0x40).toUInt8 :: (0x80 + c % 0x40).toUInt8 :: rest) _ 2 :=
        .two (by omega) (by omega) (isTail_iff.mpr (by omega))
      have value : (0xC0 + c / 0x40 - 0xC0) * 0x40 + (0x80 + c % 0x40 - 0x80) = c := by omega
      rw [e₁, e₂, value] at head
      exact head
    · split
      · have e₁ := toNat_toUInt8_of_lt (show 0xE0 + c / 0x1000 < 256 by omega)
        have e₂ := toNat_toUInt8_of_lt (show 0x80 + c / 0x40 % 0x40 < 256 by omega)
        have e₃ := toNat_toUInt8_of_lt (show 0x80 + c % 0x40 < 256 by omega)
        have head : Head ((0xE0 + c / 0x1000).toUInt8 :: (0x80 + c / 0x40 % 0x40).toUInt8 ::
            (0x80 + c % 0x40).toUInt8 :: rest) _ 3 :=
          .three (by omega) (by omega) (isSecondOfThree_iff.mpr (by omega))
            (isTail_iff.mpr (by omega))
        have value : ((0xE0 + c / 0x1000 - 0xE0) * 0x40 + (0x80 + c / 0x40 % 0x40 - 0x80)) * 0x40 +
            (0x80 + c % 0x40 - 0x80) = c := by omega
        rw [e₁, e₂, e₃, value] at head
        exact head
      · have e₁ := toNat_toUInt8_of_lt (show 0xF0 + c / 0x40000 < 256 by omega)
        have e₂ := toNat_toUInt8_of_lt (show 0x80 + c / 0x1000 % 0x40 < 256 by omega)
        have e₃ := toNat_toUInt8_of_lt (show 0x80 + c / 0x40 % 0x40 < 256 by omega)
        have e₄ := toNat_toUInt8_of_lt (show 0x80 + c % 0x40 < 256 by omega)
        have head : Head ((0xF0 + c / 0x40000).toUInt8 :: (0x80 + c / 0x1000 % 0x40).toUInt8 ::
            (0x80 + c / 0x40 % 0x40).toUInt8 :: (0x80 + c % 0x40).toUInt8 :: rest) _ 4 :=
          .four (by omega) (by omega) (isSecondOfFour_iff.mpr (by omega))
            (isTail_iff.mpr (by omega)) (isTail_iff.mpr (by omega))
        have value : (((0xF0 + c / 0x40000 - 0xF0) * 0x40 + (0x80 + c / 0x1000 % 0x40 - 0x80)) *
            0x40 + (0x80 + c / 0x40 % 0x40 - 0x80)) * 0x40 + (0x80 + c % 0x40 - 0x80) = c := by
          omega
        rw [e₁, e₂, e₃, e₄, value] at head
        exact head

theorem encode_ne_nil (c : Nat) : encode c ≠ [] := by
  unfold encode
  split
  · exact List.cons_ne_nil _ _
  · split
    · exact List.cons_ne_nil _ _
    · split <;> exact List.cons_ne_nil _ _

/-- A code point is one byte of its own if it is below 128, and bytes from 128 on otherwise. -/
theorem mem_encode {c : Nat} (valid : c.isValidChar) {b : UInt8} (h : b ∈ encode c) :
    b.toNat = c ∨ 0x80 ≤ b.toNat := by
  have bound : c < 0xD800 ∨ (0xDFFF < c ∧ c < 0x110000) := valid
  have large : ∀ n, 0x80 ≤ n → n < 256 → b = n.toUInt8 → 0x80 ≤ b.toNat := by
    rintro n ge lt rfl
    rw [toNat_toUInt8_of_lt lt]
    exact ge
  unfold encode at h
  split at h
  · rw [List.mem_singleton.mp h]
    exact Or.inl (toNat_toUInt8_of_lt (by omega))
  · right
    split at h
    · simp only [List.mem_cons, List.not_mem_nil, or_false] at h
      rcases h with eq | eq <;> exact large _ (by omega) (by omega) eq
    · split at h
      · simp only [List.mem_cons, List.not_mem_nil, or_false] at h
        rcases h with eq | eq | eq <;> exact large _ (by omega) (by omega) eq
      · simp only [List.mem_cons, List.not_mem_nil, or_false] at h
        rcases h with eq | eq | eq | eq <;> exact large _ (by omega) (by omega) eq

/-- A text that does not begin with an inner byte of a code point. -/
def BeginsAnew (text : Bytes) : Prop :=
  ∀ b, text.head? = some b → isTail b = false

theorem pair?_append {a : UInt8} {front text : Bytes} (anew : BeginsAnew text) :
    pair? (a :: front ++ text) = pair? (a :: front) := by
  rcases front with _ | ⟨b, front⟩
  · rcases text with _ | ⟨t, text⟩
    · rfl
    · have no : isTail t = false := anew t rfl
      simp [pair?, no]
  · rfl

theorem triple?_append {a : UInt8} {front text : Bytes} (anew : BeginsAnew text) :
    triple? (a :: front ++ text) = triple? (a :: front) := by
  rcases text with _ | ⟨t, text⟩
  · simp
  · have no : isTail t = false := anew t rfl
    have no' : ∀ a, isSecondOfThree a t = false := by
      intro a
      rw [Bool.eq_false_iff, ne_eq, isSecondOfThree_iff]
      rw [Bool.eq_false_iff, ne_eq, isTail_iff] at no
      omega
    rcases front with _ | ⟨b, _ | ⟨c, front⟩⟩
    · rcases text with _ | ⟨u, text⟩
      · rfl
      · simp [triple?, no']
    · simp [triple?, no]
    · rfl

theorem quadruple?_append {a : UInt8} {front text : Bytes} (anew : BeginsAnew text) :
    quadruple? (a :: front ++ text) = quadruple? (a :: front) := by
  rcases text with _ | ⟨t, text⟩
  · simp
  · have no : isTail t = false := anew t rfl
    have no' : ∀ a, isSecondOfFour a t = false := by
      intro a
      rw [Bool.eq_false_iff, ne_eq, isSecondOfFour_iff]
      rw [Bool.eq_false_iff, ne_eq, isTail_iff] at no
      omega
    rcases front with _ | ⟨b, _ | ⟨c, _ | ⟨d, front⟩⟩⟩
    · rcases text with _ | ⟨u, _ | ⟨v, text⟩⟩
      · rfl
      · rfl
      · simp [quadruple?, no']
    · rcases text with _ | ⟨u, text⟩
      · rfl
      · simp [quadruple?, no]
    · simp [quadruple?, no]
    · rfl

/-- What follows a text and begins anew does not change how the text is read. -/
theorem decode_append {front text : Bytes} (ne : front ≠ []) (anew : BeginsAnew text) :
    decode (front ++ text) = decode front := by
  obtain ⟨a, front, rfl⟩ := List.exists_cons_of_ne_nil ne
  rw [List.cons_append]
  rcases decode_cases a with lt | ⟨ge, le⟩ | ⟨ge, le⟩ | ⟨ge, le⟩ | ⟨ge, other⟩
  · rw [decode_of_lt _ lt, decode_of_lt _ lt]
  · rw [decode_eq_pair? _ ge le, decode_eq_pair? _ ge le]
    exact pair?_append anew
  · rw [decode_eq_triple? _ ge le, decode_eq_triple? _ ge le]
    exact triple?_append anew
  · rw [decode_eq_quadruple? _ ge le, decode_eq_quadruple? _ ge le]
    exact quadruple?_append anew
  · rw [decode_eq_none _ ge other, decode_eq_none _ ge other]

/-! ## The code points of a text -/

/-- The code points behind the first `skip` bytes of a text, where a byte that begins none stands
for itself. -/
def pointsFrom : Nat → Bytes → List (Option Nat)
  | _, [] => []
  | skip + 1, _ :: rest => pointsFrom skip rest
  | 0, b :: rest =>
    match decode (b :: rest) with
    | some (c, n) => some c :: pointsFrom (n - 1) rest
    | none => none :: pointsFrom 0 rest

/-- The code points of a text; `none` is a byte that begins none. -/
def points (text : Bytes) : List (Option Nat) :=
  pointsFrom 0 text

theorem pointsFrom_eq (skip : Nat) (text : Bytes) :
    pointsFrom skip text = points (text.drop skip) := by
  induction text generalizing skip with
  | nil => simp [pointsFrom, points]
  | cons b rest ih =>
    cases skip with
    | zero => rfl
    | succ skip => exact ih skip

@[simp] theorem points_nil : points [] = [] := rfl

theorem points_of_decode_eq_none {b : UInt8} {rest : Bytes} (h : decode (b :: rest) = none) :
    points (b :: rest) = none :: points rest := by
  rw [points, pointsFrom, h, points]

theorem points_of_decode {text : Bytes} {c n : Nat} (h : decode text = some (c, n)) :
    points text = some c :: points (text.drop n) := by
  cases text with
  | nil => cases h
  | cons b rest =>
    have pos := (decode_bounds h).1
    obtain ⟨m, rfl⟩ : ∃ m, n = m + 1 := ⟨n - 1, by omega⟩
    rw [points, pointsFrom, h]
    simp only [Nat.add_sub_cancel, pointsFrom_eq, List.drop_succ_cons]

/-- A text is a code point or a byte that begins none, and then a shorter text. -/
theorem exists_points_eq_cons {text : Bytes} (ne : text ≠ []) :
    ∃ chunk point rest, text = chunk ++ rest ∧ chunk ≠ [] ∧ points text = point :: points rest ∧
      ∀ c, point = some c → chunk = encode c := by
  obtain ⟨b, rest, rfl⟩ := List.exists_cons_of_ne_nil ne
  cases read : decode (b :: rest) with
  | none =>
    refine ⟨[b], none, rest, rfl, List.cons_ne_nil _ _, points_of_decode_eq_none read, ?_⟩
    rintro c ⟨⟩
  | some found =>
    obtain ⟨c, n⟩ := found
    have eq := (decode_eq_some_iff.mp read).eq_encode_append
    refine ⟨encode c, some c, (b :: rest).drop n, eq, ?_, points_of_decode read, ?_⟩
    · unfold encode
      split
      · exact List.cons_ne_nil _ _
      · split
        · exact List.cons_ne_nil _ _
        · split <;> exact List.cons_ne_nil _ _
    · rintro c' ⟨⟩
      rfl

/-- A text is made of code points and bytes that begin none, one after the other. -/
theorem points_induction {P : Bytes → Prop} (nil : P [])
    (more : ∀ chunk point rest, points (chunk ++ rest) = point :: points rest →
      (∀ c, point = some c → chunk = encode c) → P rest → P (chunk ++ rest)) (text : Bytes) :
    P text := by
  induction length : text.length using Nat.strongRecOn generalizing text with
  | _ n ih =>
    subst length
    by_cases ne : text = []
    · rw [ne]
      exact nil
    · obtain ⟨chunk, point, rest, rfl, nonempty, points, bytes⟩ := exists_points_eq_cons ne
      have shorter : rest.length < (chunk ++ rest).length := by
        have pos := List.length_pos_iff.mpr nonempty
        rw [List.length_append]
        omega
      exact more chunk point rest points bytes (ih _ shorter rest rfl)

theorem points_eq_nil_iff {text : Bytes} : points text = [] ↔ text = [] := by
  constructor
  · intro h
    cases text with
    | nil => rfl
    | cons b text =>
      obtain ⟨chunk, point, rest, -, -, points, -⟩ :=
        exists_points_eq_cons (List.cons_ne_nil b text)
      rw [points] at h
      cases h
  · rintro rfl
    rfl

/-- Where a text begins anew its code points are found anew, whatever stands in front. -/
theorem points_append {front text : Bytes} (anew : BeginsAnew text) :
    points (front ++ text) = points front ++ points text := by
  induction length : front.length using Nat.strongRecOn generalizing front with
  | _ n ih =>
    subst length
    cases front with
    | nil => rfl
    | cons b front =>
      have same := decode_append (List.cons_ne_nil b front) anew
      cases read : decode (b :: front) with
      | none =>
        rw [read, List.cons_append] at same
        rw [List.cons_append, points_of_decode_eq_none same, points_of_decode_eq_none read,
          ih front.length (by simp) rfl, List.cons_append]
      | some found =>
        obtain ⟨c, n⟩ := found
        obtain ⟨pos, le⟩ := decode_bounds read
        rw [read] at same
        have shorter : ((b :: front).drop n).length < (b :: front).length := by
          rw [List.length_drop, List.length_cons]
          omega
        rw [points_of_decode same, points_of_decode read, List.drop_append_of_le_length le,
          ih _ shorter rfl, List.cons_append]

/-- A character is found where its bytes stand. -/
theorem points_encode_append {c : Nat} (valid : c.isValidChar) (rest : Bytes) :
    points (encode c ++ rest) = some c :: points rest := by
  rw [points_of_decode (decode_encode_append valid rest), List.drop_left]

/-! ## ASCII bytes -/

section Ascii

variable {c : UInt8} {front rest text chunk : Bytes} {point : Option Nat}

theorem beginsAnew_of_lt (small : c.toNat < 0x80) (rest : Bytes) : BeginsAnew (c :: rest) := by
  rintro _ ⟨⟩
  rw [Bool.eq_false_iff, ne_eq, isTail_iff]
  omega

theorem points_cons_of_lt (small : c.toNat < 0x80) (rest : Bytes) :
    points (c :: rest) = some c.toNat :: points rest :=
  points_of_decode (decode_of_lt rest small)

/-- An ASCII byte is a code point of its own, wherever it stands. -/
theorem points_append_cons (small : c.toNat < 0x80) (front rest : Bytes) :
    points (front ++ c :: rest) = points front ++ some c.toNat :: points rest := by
  rw [points_append (beginsAnew_of_lt small rest), points_cons_of_lt small]

/-- The bytes of a code point below 128 are that byte. -/
theorem encode_toNat (small : c.toNat < 0x80) : encode c.toNat = [c] := by
  rw [encode, if_pos small, toUInt8_toNat]

/-- The code points in front of an ASCII one and behind it are those of the bytes there. -/
theorem exists_of_points_eq_append (small : c.toNat < 0x80) {before after : List (Option Nat)}
    (split : points text = before ++ some c.toNat :: after) :
    ∃ front rest, text = front ++ c :: rest ∧ points front = before ∧ points rest = after := by
  induction text using points_induction generalizing before with
  | nil => exact absurd split (by simp)
  | more chunk point rest found bytes ih =>
    rw [found] at split
    cases before with
    | nil =>
      obtain ⟨rfl, rfl⟩ := List.cons.inj split
      rw [bytes _ rfl, encode_toNat small]
      exact ⟨[], rest, rfl, rfl, rfl⟩
    | cons first before =>
      obtain ⟨rfl, behind⟩ := List.cons.inj split
      obtain ⟨front, last, rfl, rfl, rfl⟩ := ih behind
      refine ⟨chunk ++ front, last, by rw [List.append_assoc], ?_, rfl⟩
      rw [← List.append_assoc, points_append_cons small, points_append_cons small,
        ← List.cons_append] at found
      exact List.append_cancel_right found

/-- A text whose first code point is an ASCII one begins with that byte. -/
theorem exists_of_points_eq_cons (small : c.toNat < 0x80) {after : List (Option Nat)}
    (split : points text = some c.toNat :: after) :
    ∃ rest, text = c :: rest ∧ points rest = after := by
  rw [← List.nil_append (some _ :: _)] at split
  obtain ⟨front, rest, rfl, nothing, behind⟩ := exists_of_points_eq_append small split
  rw [points_eq_nil_iff.mp nothing]
  exact ⟨rest, rfl, behind⟩

/-- The first code point of a text is an ASCII one exactly if the first byte is. -/
theorem head?_points_iff (small : c.toNat < 0x80) :
    (points text).head? = some (some c.toNat) ↔ text.head? = some c := by
  constructor
  · intro first
    obtain ⟨after, split⟩ := List.head?_eq_some_iff.mp first
    obtain ⟨rest, rfl, -⟩ := exists_of_points_eq_cons small split
    rfl
  · intro first
    obtain ⟨rest, rfl⟩ := List.head?_eq_some_iff.mp first
    rw [points_cons_of_lt small, List.head?_cons]

/-- An ASCII byte stands in a text exactly if its code point does. -/
theorem mem_points_iff (small : c.toNat < 0x80) : some c.toNat ∈ points text ↔ c ∈ text := by
  constructor
  · intro mem
    obtain ⟨before, after, split⟩ := List.append_of_mem mem
    obtain ⟨front, rest, rfl, -, -⟩ := exists_of_points_eq_append small split
    simp
  · intro mem
    obtain ⟨front, rest, rfl⟩ := List.append_of_mem mem
    rw [points_append_cons small]
    simp

/-- The bytes of one code point are stepped over at once, where something begins anew behind
them. -/
theorem width_append (single : points chunk = [point]) (anew : BeginsAnew rest) :
    width (chunk ++ rest) = chunk.length := by
  cases chunk with
  | nil => cases single
  | cons b more =>
    have same := decode_append (List.cons_ne_nil b more) anew
    cases read : decode (b :: more) with
    | none =>
      rw [points_of_decode_eq_none read, List.cons.injEq, points_eq_nil_iff] at single
      rw [width, same, read, single.2, List.length_singleton]
    | some found =>
      obtain ⟨c, n⟩ := found
      rw [points_of_decode read, List.cons.injEq, points_eq_nil_iff, List.drop_eq_nil_iff]
        at single
      rw [width, same, read]
      exact Nat.le_antisymm (decode_bounds read).2 single.2

/-- The first code point of a text, and those behind the bytes that are stepped over for it. -/
theorem exists_points_eq_width (ne : text ≠ []) :
    ∃ point, points text = point :: points (text.drop (width text)) := by
  obtain ⟨b, more, rfl⟩ := List.exists_cons_of_ne_nil ne
  cases read : decode (b :: more) with
  | none => exact ⟨none, by rw [points_of_decode_eq_none read, width, read]; rfl⟩
  | some found => exact ⟨some found.1, by rw [points_of_decode read, width, read]⟩

/-- The bytes that are stepped over at once are those of one code point. -/
theorem exists_points_take_width (ne : text ≠ []) (anew : BeginsAnew (text.drop (width text))) :
    ∃ point, points (text.take (width text)) = [point] := by
  obtain ⟨point, first⟩ := exists_points_eq_width ne
  have split : points (text.take (width text) ++ text.drop (width text)) =
      points (text.take (width text)) ++ points (text.drop (width text)) := points_append anew
  rw [List.take_append_drop, first, ← List.singleton_append] at split
  exact ⟨point, (List.append_cancel_right split).symm⟩

/-- The bytes that are stepped over at once hold no ASCII byte but the one that is stepped over by
itself. -/
theorem not_mem_take_width (small : c.toNat < 0x80)
    (other : (points text).head? ≠ some (some c.toNat)) : c ∉ text.take (width text) := by
  intro mem
  cases read : decode text with
  | none =>
    rw [width, read] at mem
    cases text with
    | nil => cases mem
    | cons b rest =>
      obtain rfl : c = b := by simpa using mem
      rw [decode_of_lt rest small] at read
      cases read
  | some found =>
    obtain ⟨d, n⟩ := found
    rw [width, read] at mem
    rw [points_of_decode read, List.head?_cons, ne_eq, Option.some.injEq, Option.some.injEq]
      at other
    have head := decode_eq_some_iff.mp read
    cases head with
    | one =>
      obtain rfl : c = _ := by simpa using mem
      exact other rfl
    | two ge _ tail =>
      rw [isTail_iff] at tail
      simp only [List.take_succ_cons, List.take_zero, List.mem_cons, List.not_mem_nil,
        or_false] at mem
      rcases mem with rfl | rfl <;> omega
    | three ge _ second tail =>
      rw [isTail_iff] at tail
      rw [isSecondOfThree_iff] at second
      simp only [List.take_succ_cons, List.take_zero, List.mem_cons, List.not_mem_nil,
        or_false] at mem
      rcases mem with rfl | rfl | rfl <;> omega
    | four ge _ second tail tail' =>
      rw [isTail_iff] at tail tail'
      rw [isSecondOfFour_iff] at second
      simp only [List.take_succ_cons, List.take_zero, List.mem_cons, List.not_mem_nil,
        or_false] at mem
      rcases mem with rfl | rfl | rfl | rfl <;> omega

end Ascii

end Rpn.Utf8
