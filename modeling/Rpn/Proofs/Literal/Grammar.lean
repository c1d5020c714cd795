import Mathlib.Data.Nat.Digits.Defs
import Rpn.Proofs.Literal
import Rpn.Proofs.Word

/-!
# The grammar of literals

What a literal is, and what it stands for, said without reading it:

* `Literal.DigitOf` and `Literal.Trail` — a digit of a base, and digits behind a digit or a base mark,
  with at most one `_` in front of each;
* `Literal.Unsigned`, `Literal.Signed` and `Literal.Written` — the numbers and the words that a text
  spells;
* `Literal.natural?_eq_some_iff`, `Literal.integer?_eq_some_iff` and `Literal.parse?_eq_some_iff` —
  the readers find exactly these.
-/

namespace Rpn.Literal

/-! ## The grammar -/

/-- The byte of a digit of a base: a figure, or from ten on a letter of either case. -/
inductive DigitOf (base : Nat) : UInt8 → Nat → Prop
  | figure {d : Nat} : d < base → d < 10 → DigitOf base (48 + d).toUInt8 d
  | small {d : Nat} : d < base → 10 ≤ d → DigitOf base (87 + d).toUInt8 d
  | capital {d : Nat} : d < base → 10 ≤ d → DigitOf base (55 + d).toUInt8 d

/-- Digits of a base that stand behind a digit or a base mark: in front of each there may be one
`_`. -/
inductive Trail (base : Nat) : Bytes → List Nat → Prop
  | nil : Trail base [] []
  | digit {b : UInt8} {d : Nat} {text : Bytes} {digits : List Nat} :
      DigitOf base b d → Trail base text digits → Trail base (b :: text) (d :: digits)
  | apart {b : UInt8} {d : Nat} {text : Bytes} {digits : List Nat} :
      DigitOf base b d → Trail base text digits → Trail base (95 :: b :: text) (d :: digits)

/-- The number that digits of a base stand for, the most significant first. -/
def positional (base : Nat) (digits : List Nat) : Nat :=
  Nat.ofDigits base digits.reverse

/-- The letters of base marks, `b`, `o` and `x` of either case, with their bases. -/
def baseMarks : List (UInt8 × Nat) :=
  [(98, 2), (66, 2), (111, 8), (79, 8), (120, 16), (88, 16)]

/-- The texts of unsigned numbers. -/
inductive Unsigned : Bytes → Nat → Prop
  /-- Decimal digits, the first of which is not zero. -/
  | decimal {b : UInt8} {d : Nat} {text : Bytes} {digits : List Nat} :
      DigitOf 10 b d → 0 < d → Trail 10 text digits →
      Unsigned (b :: text) (positional 10 (d :: digits))
  /-- A base mark and at least one digit. -/
  | marked {letter : UInt8} {base : Nat} {text : Bytes} {digits : List Nat} :
      (letter, base) ∈ baseMarks → Trail base text digits → digits ≠ [] →
      Unsigned (48 :: letter :: text) (positional base digits)
  /-- A zero and any number of octal digits. -/
  | octal {text : Bytes} {digits : List Nat} :
      Trail 8 text digits → Unsigned (48 :: text) (positional 8 digits)

/-- The texts of numbers, with one sign at most. -/
inductive Signed : Bytes → Int → Prop
  | plain {text : Bytes} {n : Nat} : Unsigned text n → Signed text n
  | plus {text : Bytes} {n : Nat} : Unsigned text n → Signed (43 :: text) n
  | minus {text : Bytes} {n : Nat} : Unsigned text n → Signed (45 :: text) (-n)

/-- A number within range, and the word that it is reduced to. -/
structure Reduces (n : Int) (value : Int32) : Prop where
  lower : -2 ^ 31 ≤ n
  upper : n ≤ 2 ^ 32 - 1
  congruent : value.toInt ≡ n [ZMOD 2 ^ 32]

/-- The texts of literals: the number counts before the complement. -/
inductive Written : Bytes → Int32 → Prop
  | plain {text : Bytes} {n : Int} {value : Int32} :
      Signed text n → Reduces n value → Written text value
  | complement {text : Bytes} {n : Int} {value : Int32} :
      Signed text n → Reduces n value → Written (126 :: text) (~~~ value)

/-! ## Digits -/

variable {base : Nat} {b : UInt8} {d : Nat} {text : Bytes} {digits : List Nat}

theorem digitOf_iff (small : base ≤ 16) : DigitOf base b d ↔ digitValue? b = some d ∧ d < base := by
  constructor
  · have figures : ∀ d : Fin 10, digitValue? (48 + d.val).toUInt8 = some d.val := by decide
    have letters : ∀ d : Fin 16, 10 ≤ d.val → digitValue? (87 + d.val).toUInt8 = some d.val ∧
        digitValue? (55 + d.val).toUInt8 = some d.val := by decide
    intro digit
    cases digit with
    | figure below lt => exact ⟨figures ⟨d, lt⟩, below⟩
    | small below le => exact ⟨(letters ⟨d, by omega⟩ le).1, below⟩
    | capital below le => exact ⟨(letters ⟨d, by omega⟩ le).2, below⟩
  · have known : ∀ b : Fin 256, ∀ d : Fin 16, digitValue? (UInt8.ofFin b) = some d.val →
        (d.val < 10 ∧ UInt8.ofFin b = (48 + d.val).toUInt8) ∨
        (10 ≤ d.val ∧ (UInt8.ofFin b = (87 + d.val).toUInt8 ∨
          UInt8.ofFin b = (55 + d.val).toUInt8)) := by decide +kernel
    rintro ⟨value, below⟩
    rw [← UInt8.ofFin_toFin b] at value ⊢
    rcases known b.toFin ⟨d, by omega⟩ value with ⟨lt, same⟩ | ⟨le, same | same⟩ <;> rw [same]
    · exact .figure below lt
    · exact .small below le
    · exact .capital below le

theorem DigitOf.ne_underscore (digit : DigitOf base b d) (small : base ≤ 16) : b ≠ 95 := by
  rintro rfl
  cases ((digitOf_iff small).mp digit).1

theorem DigitOf.isDigit (digit : DigitOf 10 b d) : isDigit b = true := by
  have figures : ∀ d : Fin 10, Rpn.isDigit (48 + d.val).toUInt8 = true := by decide
  cases digit with
  | figure _ lt => exact figures ⟨d, lt⟩
  | small lt le => omega
  | capital lt le => omega

theorem DigitOf.filter_cons (digit : DigitOf base b d) (small : base ≤ 16) (text : Bytes) :
    (b :: text).filter (· ≠ 95) = b :: text.filter (· ≠ 95) := by
  have other := digit.ne_underscore small
  simp [other]

theorem areDigits_cons_of_digitOf (digit : DigitOf base b d) (small : base ≤ 16)
    (afterDigit : Bool) : areDigits base afterDigit (b :: text) = areDigits base true text := by
  obtain ⟨value, below⟩ := (digitOf_iff small).mp digit
  simp only [areDigits, if_neg (digit.ne_underscore small), value, decide_eq_true below,
    Bool.true_and]

theorem exists_digitOf_of_areDigits (small : base ≤ 16) {afterDigit : Bool} (other : b ≠ 95)
    (are : areDigits base afterDigit (b :: text) = true) : ∃ d, DigitOf base b d := by
  rw [areDigits, if_neg other] at are
  cases value : digitValue? b with
  | none =>
    rw [value] at are
    cases are
  | some d =>
    rw [value] at are
    have below : d < base := of_decide_eq_true (Bool.and_eq_true _ _ ▸ are).1
    exact ⟨d, (digitOf_iff small).mpr ⟨value, below⟩⟩

theorem Trail.areDigits (trail : Trail base text digits) (small : base ≤ 16) :
    areDigits base true text = true := by
  induction trail with
  | nil => rfl
  | digit digit _ ih => rw [areDigits_cons_of_digitOf digit small, ih]
  | apart digit _ ih =>
    rw [Literal.areDigits, if_pos rfl, areDigits_cons_of_digitOf digit small, ih]
    rfl

/-- Digits that are read behind a digit or a mark follow the grammar; behind a `_` they are such
digits that begin with one. -/
theorem exists_trail_of_areDigits (small : base ≤ 16) (text : Bytes) :
    (areDigits base true text = true → ∃ digits, Trail base text digits) ∧
    (areDigits base false text = true → ∃ digits, Trail base (95 :: text) digits) := by
  induction text with
  | nil => exact ⟨fun _ => ⟨[], .nil⟩, nofun⟩
  | cons b rest ih =>
    by_cases underscore : b = 95
    · subst underscore
      constructor
      · intro are
        exact ih.2 are
      · intro are
        cases are
    · constructor
      · intro are
        obtain ⟨d, digit⟩ := exists_digitOf_of_areDigits small underscore are
        rw [areDigits_cons_of_digitOf digit small] at are
        obtain ⟨digits, trail⟩ := ih.1 are
        exact ⟨d :: digits, .digit digit trail⟩
      · intro are
        obtain ⟨d, digit⟩ := exists_digitOf_of_areDigits small underscore are
        rw [areDigits_cons_of_digitOf digit small] at are
        obtain ⟨digits, trail⟩ := ih.1 are
        exact ⟨d :: digits, .apart digit trail⟩

/-- The value that is read, without regard to `_`, is the positional one. -/
theorem Trail.numeralValue (trail : Trail base text digits) (small : base ≤ 16) :
    numeralValue base (text.filter (· ≠ 95)) = positional base digits := by
  have read : ∀ n, (text.filter (· ≠ 95)).foldl
      (fun n b => n * base + (digitValue? b).getD 0) n =
        digits.foldl (fun n d => n * base + d) n := by
    induction trail with
    | nil => exact fun _ => rfl
    | digit digit _ ih =>
      intro n
      rw [digit.filter_cons small, List.foldl_cons, List.foldl_cons, ih,
        ((digitOf_iff small).mp digit).1, Option.getD_some]
    | apart digit _ ih =>
      intro n
      rw [List.filter_cons_of_neg (by simp), digit.filter_cons small, List.foldl_cons,
        List.foldl_cons, ih, ((digitOf_iff small).mp digit).1, Option.getD_some]
  rw [numeralValue_eq_foldl, read, positional, Nat.ofDigits_eq_foldr, List.foldr_reverse]
  simp only [Nat.cast_id, Nat.mul_comm base, Nat.add_comm]

theorem digits?_true_eq_some_iff (small : base ≤ 16) {n : Nat} :
    digits? base true text = some n ↔ ∃ digits, Trail base text digits ∧ n = positional base digits := by
  constructor
  · intro read
    rw [digits?] at read
    split at read
    · rename_i are
      obtain ⟨digits, trail⟩ := (exists_trail_of_areDigits small text).1 are
      refine ⟨digits, trail, ?_⟩
      rw [← trail.numeralValue small]
      exact (Option.some.inj read).symm
    · cases read
  · rintro ⟨digits, trail, rfl⟩
    rw [digits?, if_pos (trail.areDigits small), trail.numeralValue small]

theorem digits?_cons_of_digitOf (digit : DigitOf base b d) (small : base ≤ 16)
    (afterDigit : Bool) : digits? base afterDigit (b :: text) = digits? base true (b :: text) := by
  rw [digits?, digits?, areDigits_cons_of_digitOf digit small, areDigits_cons_of_digitOf digit small]

/-! ## Unsigned numbers -/

theorem markedBase?_eq_some_iff {letter : UInt8} :
    markedBase? letter = some base ↔ (letter, base) ∈ baseMarks := by
  constructor
  · have known : ∀ b : Fin 256, ∀ base ∈ markedBase? (UInt8.ofFin b),
        (UInt8.ofFin b, base) ∈ baseMarks := by decide +kernel
    intro mark
    exact known letter.toFin base (by rw [UInt8.ofFin_toFin, mark]; rfl)
  · have known : ∀ mark ∈ baseMarks, markedBase? mark.1 = some mark.2 := by decide
    intro mem
    exact known _ mem

theorem le_of_mem_baseMarks {letter : UInt8} (mark : (letter, base) ∈ baseMarks) : base ≤ 16 := by
  have known : ∀ mark ∈ baseMarks, mark.2 ≤ 16 := by decide
  exact known _ mark

/-- No letter of a base mark can stand behind a leading zero as part of an octal number. -/
theorem Trail.markedBase?_eq_none {letter : UInt8} (trail : Trail 8 (letter :: text) digits) :
    markedBase? letter = none := by
  have known : ∀ mark ∈ baseMarks, mark.1 ≠ 95 ∧ ∀ d < 8, digitValue? mark.1 ≠ some d := by decide
  cases marked : markedBase? letter with
  | none => rfl
  | some base =>
    obtain ⟨notUnderscore, notDigit⟩ := known _ (markedBase?_eq_some_iff.mp marked)
    cases trail with
    | digit digit _ =>
      obtain ⟨value, below⟩ := (digitOf_iff (by decide)).mp digit
      exact absurd value (notDigit _ below)
    | apart _ _ => exact absurd rfl notUnderscore

theorem Trail.ne_nil_iff (trail : Trail base text digits) : digits ≠ [] ↔ text ≠ [] := by
  cases trail <;> simp

/-- Decimal digits that do not begin with a zero are a number. -/
theorem unsigned_of_digits?_ten {n : Nat} (nonzero : b ≠ 48)
    (read : digits? 10 false (b :: text) = some n) : Unsigned (b :: text) n := by
  have are : areDigits 10 false (b :: text) = true := by
    rw [digits?] at read
    split at read
    · assumption
    · cases read
  have other : b ≠ 95 := by
    rintro rfl
    cases are
  obtain ⟨d, digit⟩ := exists_digitOf_of_areDigits (by decide) other are
  rw [digits?_cons_of_digitOf digit (by decide), digits?_true_eq_some_iff (by decide)] at read
  obtain ⟨digits, trail, rfl⟩ := read
  cases trail with
  | @digit _ d _ _ digit trail =>
    refine .decimal digit (Nat.pos_of_ne_zero ?_) trail
    rintro rfl
    cases digit with
    | figure _ _ => exact nonzero rfl
    | small _ le => exact absurd le (by decide)
    | capital _ le => exact absurd le (by decide)
  | apart _ _ => exact absurd rfl other

theorem unsigned_of_natural? {n : Nat} (read : natural? text = some n) : Unsigned text n := by
  cases text with
  | nil => cases read
  | cons first rest =>
    rw [natural?.eq_def] at read
    by_cases zero : first = 48
    · subst zero
      cases rest with
      | nil =>
        cases read
        exact .octal .nil
      | cons letter rest =>
        simp only [if_true] at read
        cases marked : markedBase? letter with
        | none =>
          rw [marked] at read
          obtain ⟨digits, trail, rfl⟩ := (digits?_true_eq_some_iff (by decide)).mp read
          exact .octal trail
        | some base =>
          have mark := markedBase?_eq_some_iff.mp marked
          rw [marked] at read
          simp only at read
          split at read
          · cases read
          · rename_i nonempty
            obtain ⟨digits, trail, rfl⟩ :=
              (digits?_true_eq_some_iff (le_of_mem_baseMarks mark)).mp read
            exact .marked mark trail (trail.ne_nil_iff.mpr nonempty)
    · simp only [if_neg zero] at read
      exact unsigned_of_digits?_ten zero read

theorem natural?_of_unsigned {n : Nat} (unsigned : Unsigned text n) : natural? text = some n := by
  cases unsigned with
  | @decimal b d text digits digit pos trail =>
    have nonzero : b ≠ 48 := by
      rintro rfl
      have value := ((digitOf_iff (by decide)).mp digit).1
      have zero : 0 = d := Option.some.inj value
      omega
    rw [natural?.eq_def]
    simp only [if_neg nonzero]
    rw [digits?_cons_of_digitOf digit (by decide), digits?_true_eq_some_iff (by decide)]
    exact ⟨d :: digits, .digit digit trail, rfl⟩
  | @marked letter base text digits mark trail some =>
    rw [natural?.eq_def]
    simp only [if_true, markedBase?_eq_some_iff.mpr mark, if_neg (trail.ne_nil_iff.mp some)]
    exact (digits?_true_eq_some_iff (le_of_mem_baseMarks mark)).mpr ⟨digits, trail, rfl⟩
  | @octal text digits trail =>
    cases text with
    | nil =>
      cases trail
      rfl
    | cons letter rest =>
      rw [natural?.eq_def]
      simp only [if_true, trail.markedBase?_eq_none]
      exact (digits?_true_eq_some_iff (by decide)).mpr ⟨digits, trail, rfl⟩

/-- The unsigned numbers that are read are those of the grammar. -/
theorem natural?_eq_some_iff {n : Nat} : natural? text = some n ↔ Unsigned text n :=
  ⟨unsigned_of_natural?, natural?_of_unsigned⟩

/-! ## Numbers with a sign -/

/-- An unsigned number begins with a figure. -/
theorem Unsigned.exists_cons {n : Nat} (unsigned : Unsigned text n) :
    ∃ b rest, text = b :: rest ∧ isDigit b = true := by
  cases unsigned with
  | decimal digit _ _ => exact ⟨_, _, rfl, digit.isDigit⟩
  | marked _ _ _ => exact ⟨_, _, rfl, rfl⟩
  | octal _ => exact ⟨_, _, rfl, rfl⟩

/-- The numbers that are read are those of the grammar. -/
theorem integer?_eq_some_iff {n : Int} : integer? text = some n ↔ Signed text n := by
  constructor
  · intro read
    cases text with
    | nil => cases read
    | cons first rest =>
      rw [integer?] at read
      split at read
      · rename_i plus
        obtain ⟨k, unsigned, rfl⟩ := Option.map_eq_some_iff.mp read
        rw [plus]
        exact .plus (natural?_eq_some_iff.mp unsigned)
      · split at read
        · rename_i minus
          obtain ⟨k, unsigned, rfl⟩ := Option.map_eq_some_iff.mp read
          rw [minus]
          exact .minus (natural?_eq_some_iff.mp unsigned)
        · obtain ⟨k, unsigned, rfl⟩ := Option.map_eq_some_iff.mp read
          exact .plain (natural?_eq_some_iff.mp unsigned)
  · intro signed
    cases signed with
    | plain unsigned =>
      -- a figure in front is no sign
      obtain ⟨b, rest, rfl, figure⟩ := unsigned.exists_cons
      have notPlus : b ≠ 43 := by
        rintro rfl
        cases figure
      have notMinus : b ≠ 45 := by
        rintro rfl
        cases figure
      rw [integer?, if_neg notPlus, if_neg notMinus, natural?_eq_some_iff.mpr unsigned]
      rfl
    | plus unsigned =>
      rw [integer?, if_pos rfl, natural?_eq_some_iff.mpr unsigned]
      rfl
    | minus unsigned =>
      rw [integer?, if_neg (by decide), if_pos rfl, natural?_eq_some_iff.mpr unsigned]
      rfl

theorem Signed.exists_cons {n : Int} (signed : Signed text n) :
    ∃ b rest, text = b :: rest ∧ b ≠ 126 := by
  cases signed with
  | plain unsigned =>
    obtain ⟨b, rest, rfl, figure⟩ := unsigned.exists_cons
    refine ⟨b, rest, rfl, ?_⟩
    rintro rfl
    cases figure
  | plus _ => exact ⟨43, _, rfl, by decide⟩
  | minus _ => exact ⟨45, _, rfl, by decide⟩

/-! ## Words -/

/-- A number is within range and is reduced to a word, as it is when it is read. -/
theorem reduces_iff {n : Int} {value : Int32} :
    Reduces n value ↔ inRange n = true ∧ Int32.ofInt n = value := by
  rw [ofInt_eq_iff_modEq, inRange, Bool.and_eq_true, decide_eq_true_iff, decide_eq_true_iff]
  constructor
  · rintro ⟨lower, upper, congruent⟩
    exact ⟨⟨lower, upper⟩, congruent⟩
  · rintro ⟨⟨lower, upper⟩, congruent⟩
    exact ⟨lower, upper, congruent⟩

theorem word?_eq_some_iff {value : Int32} :
    word? text = some value ↔ ∃ n, Signed text n ∧ Reduces n value := by
  rw [word?]
  constructor
  · intro read
    split at read
    · rename_i n number
      split at read
      · rename_i within
        exact ⟨n, integer?_eq_some_iff.mp number, reduces_iff.mpr ⟨within, Option.some.inj read⟩⟩
      · cases read
    · cases read
  · rintro ⟨n, signed, reduces⟩
    obtain ⟨within, same⟩ := reduces_iff.mp reduces
    simp only [integer?_eq_some_iff.mpr signed, if_pos within, same]

/-- The literals that are read are those of the grammar. -/
theorem parse?_eq_some_iff {word : Bytes} {value : Int32} :
    parse? word = some value ↔ Written word value := by
  constructor
  · intro read
    cases word with
    | nil => cases read
    | cons first rest =>
      rw [parse?] at read
      split at read
      · rename_i tilde
        obtain ⟨inner, number, rfl⟩ := Option.map_eq_some_iff.mp read
        obtain ⟨n, signed, reduces⟩ := word?_eq_some_iff.mp number
        rw [tilde]
        exact .complement signed reduces
      · obtain ⟨n, signed, reduces⟩ := word?_eq_some_iff.mp read
        exact .plain signed reduces
  · intro written
    cases written with
    | @plain _ n _ signed reduces =>
      have read := word?_eq_some_iff.mpr ⟨n, signed, reduces⟩
      obtain ⟨b, rest, rfl, other⟩ := signed.exists_cons
      rw [parse?, if_neg other]
      exact read
    | @complement text n value signed reduces =>
      rw [parse?, if_pos rfl, word?_eq_some_iff.mpr ⟨n, signed, reduces⟩]
      rfl

theorem parse_eq_ok_iff {word : Bytes} {value : Int32} :
    parse word = .ok value ↔ parse? word = some value := by
  rw [parse]
  cases parse? word <;> simp

end Rpn.Literal
