import Rpn.Constant.Interpreter
import Rpn.Expander
import Rpn.Proofs.Literal.Classification

/-!
# The spellings of a number

A number that is written is read back as itself, whether it is written in base ten, as the expander
does, or behind a base mark.

* `Literal.Spells` — the texts of a number: the one in base ten, and those in another base with a sign,
  a mark and digits of either case;
* `Literal.digits?_map_lowerCase` — the case of a digit does not show;
* `Literal.Signed.parse?_eq` — a text of a number is a literal exactly if the number is within range;
* `Expander.Prints` — the numbers that the expander writes while it expands an expression;
* `Literal.parse_spelling` — what is written as a number is read as that number.
-/

namespace Rpn

/-! ## Letters of either case -/

theorem digitValue?_lowerCase (b : UInt8) : digitValue? (lowerCase b) = digitValue? b := by
  have all : ∀ b : Fin 256,
      digitValue? (lowerCase (UInt8.ofFin b)) = digitValue? (UInt8.ofFin b) := by decide +kernel
  rw [← UInt8.ofFin_toFin b]
  exact all b.toFin

theorem lowerCase_eq_underscore_iff {b : UInt8} : lowerCase b = 95 ↔ b = 95 := by
  have all : ∀ b : Fin 256, lowerCase (UInt8.ofFin b) = 95 ↔ UInt8.ofFin b = 95 := by
    decide +kernel
  rw [← UInt8.ofFin_toFin b]
  exact all b.toFin

namespace Literal

/-- What stands in front of the magnitude of a number: a minus for a negative one, and a plus or
nothing for any other. -/
inductive SignOf : Bytes → Int → Prop
  | none {n : Int} : 0 ≤ n → SignOf [] n
  | plus {n : Int} : 0 ≤ n → SignOf [43] n
  | minus {n : Int} : n ≤ 0 → SignOf [45] n

/-- The texts of a number, in base ten or behind a base mark, without `_`. -/
inductive Spells : Bytes → Int → Prop
  | decimal (n : Int) : Spells (decimal n) n
  /-- The digits are those of the magnitude, each of either case. -/
  | marked {sign digits : Bytes} {letter : UInt8} {base : Nat} {n : Int} :
      SignOf sign n → (letter, base) ∈ baseMarks → digits.map lowerCase = numeral base n.natAbs →
      Spells (sign ++ 48 :: letter :: digits) n

variable {base : Nat} {text : Bytes} {n : Int}

theorem areDigits_map_lowerCase (base : Nat) (afterDigit : Bool) (text : Bytes) :
    areDigits base afterDigit (text.map lowerCase) = areDigits base afterDigit text := by
  induction text generalizing afterDigit with
  | nil => rfl
  | cons b rest ih =>
    simp only [List.map_cons, areDigits, lowerCase_eq_underscore_iff, digitValue?_lowerCase, ih]

theorem numeralValue_map_lowerCase (base : Nat) (text : Bytes) :
    numeralValue base (text.map lowerCase) = numeralValue base text := by
  simp only [numeralValue_eq_foldl, List.foldl_map, digitValue?_lowerCase]

/-- Digits are read without regard to their case. -/
theorem digits?_map_lowerCase (base : Nat) (afterDigit : Bool) (text : Bytes) :
    digits? base afterDigit (text.map lowerCase) = digits? base afterDigit text := by
  have kept : (text.map lowerCase).filter (· ≠ 95) = (text.filter (· ≠ 95)).map lowerCase := by
    rw [List.filter_map]
    congr 2
    funext b
    simp [lowerCase_eq_underscore_iff]
  rw [digits?, digits?, areDigits_map_lowerCase, kept, numeralValue_map_lowerCase]

/-! ## Numbers behind a base mark -/

theorem one_lt_of_mem_baseMarks {letter : UInt8} (mark : (letter, base) ∈ baseMarks) : 1 < base := by
  have known : ∀ mark ∈ baseMarks, 1 < mark.2 := by decide
  exact known _ mark

theorem numeral_ne_nil (large : 1 < base) (m : Nat) : numeral base m ≠ [] := by
  refine numeral_induction (P := fun _ text => text ≠ []) large ?_ ?_ m
  · exact fun d _ => List.cons_ne_nil _ _
  · exact fun m d _ _ _ => by simp

theorem unsigned_of_mark {letter : UInt8} {digits : Bytes} {m : Nat}
    (mark : (letter, base) ∈ baseMarks) (same : digits.map lowerCase = numeral base m) :
    Unsigned (48 :: letter :: digits) m := by
  have large := one_lt_of_mem_baseMarks mark
  have small := le_of_mem_baseMarks mark
  have read : digits? base true digits = some m := by
    rw [← digits?_map_lowerCase, same]
    exact digits?_numeral large small m true (Or.inl rfl)
  have nonempty : digits ≠ [] := by
    rintro rfl
    exact numeral_ne_nil large m same.symm
  obtain ⟨values, trail, rfl⟩ := (digits?_true_eq_some_iff small).mp read
  exact .marked mark trail (trail.ne_nil_iff.mpr nonempty)

theorem SignOf.signed {sign : Bytes} (signOf : SignOf sign n) (unsigned : Unsigned text n.natAbs) :
    Signed (sign ++ text) n := by
  cases signOf with
  | none nonneg =>
    have signed : Signed text n.natAbs := .plain unsigned
    rwa [Int.natAbs_of_nonneg nonneg] at signed
  | plus nonneg =>
    have signed : Signed (43 :: text) n.natAbs := .plus unsigned
    rwa [Int.natAbs_of_nonneg nonneg] at signed
  | minus nonpos =>
    have signed : Signed (45 :: text) (-n.natAbs) := .minus unsigned
    rwa [Int.ofNat_natAbs_of_nonpos nonpos, neg_neg] at signed

/-- A spelling of a number is one of the texts that the grammar knows for it. -/
theorem Spells.signed (spells : Spells text n) : Signed text n := by
  cases spells with
  | decimal => exact integer?_eq_some_iff.mp (integer?_decimal n)
  | marked signOf mark same => exact signOf.signed (unsigned_of_mark mark same)

/-! ## Words -/

/-- A text of a number is a literal exactly if the number is within range. -/
theorem Signed.parse?_eq (signed : Signed text n) :
    parse? text = if inRange n then some (Int32.ofInt n) else none := by
  obtain ⟨b, rest, rfl, other⟩ := signed.exists_cons
  rw [parse?, if_neg other, word?, integer?_eq_some_iff.mpr signed]

/-- A `~` in front of a word that begins with none takes the complement. -/
theorem parse?_complement {word : Bytes} (plain : word.head? ≠ some 126) :
    parse? (126 :: word) = (parse? word).map (~~~ ·) := by
  cases word with
  | nil => rfl
  | cons b rest =>
    have other : b ≠ 126 := fun same => plain (congrArg some same)
    rw [parse?, if_pos rfl, parse?, if_neg other]

end Literal

/-! ## Numbers that the expander writes -/

/-- The numbers that an expander writes while it expands an expression, with the words that they
stand for: a quoted character becomes its byte, and a constant expression its value. -/
inductive Expander.Prints [Constant.Language] (ex : Expander) (expr : Bytes) : Bytes → Int32 → Prop
  | character {source : Bytes} {b : UInt8} :
      .hit source ∈ pieces quoteMatch? expr → quotedByte? ((source.drop 1).dropLast) = some b →
      Prints ex expr (quotedNumber source) (Int32.ofNat b.toNat)
  | constant {source text : Bytes} {value : Int32} :
      .hit source ∈ pieces constantMatch? (resolveQuotes expr) →
      evaluate ex.table ((source.drop 2).dropLast) = .ok value →
      foldPiece ex.table (.hit source) = .ok text → Prints ex expr text value

/-- Whatever is written is a word in base ten. -/
theorem Expander.Prints.eq_decimal [Constant.Language] {ex : Expander} {expr text : Bytes}
    {value : Int32} (prints : ex.Prints expr text value) : text = decimal value.toInt := by
  cases prints with
  | @character source b _ byte =>
    have below : b.toNat < 2 ^ 31 := Nat.lt_trans b.toNat_lt (by decide)
    rw [quotedNumber, byte, Int32.toInt_ofNat_of_lt below]
  | constant _ found written =>
    rw [foldPiece, found] at written
    cases written
    rfl

/-- A word in base ten is a literal of that word, and no mnemonic. -/
theorem Symbol.classify_decimal (value : Int32) :
    classify (decimal value.toInt) = .literal value ∧
      Operator.ofMnemonic? (decimal value.toInt) = none ∧
      Register.ofMnemonic? (decimal value.toInt) = none :=
  have read := Literal.parse?_decimal value
  ⟨classify_of_parse? read, ofMnemonic?_of_parse? read⟩

/-- **What is written as a number is read as that number.**  Every word in base ten, and so whatever
number the expander writes, is classified as a literal of that word and is no mnemonic.  A spelling of
a number between -2^31 and 2^32 - 1 is read as the one word that is congruent to it, and a spelling of
any other number is told not to be one.  A `~` in front of a word takes the complement of what the word
is read as, and cannot make a literal of a word that is none. -/
theorem Literal.parse_spelling [Constant.Language] :
    (∀ value : Int32, Symbol.classify (decimal value.toInt) = .literal value ∧
      Operator.ofMnemonic? (decimal value.toInt) = none ∧
      Register.ofMnemonic? (decimal value.toInt) = none) ∧
    (∀ (ex : Expander) expr text value, ex.Prints expr text value → text = decimal value.toInt) ∧
    (∀ text n, Spells text n →
      (-2 ^ 31 ≤ n ∧ n ≤ 2 ^ 32 - 1 → ∃ value, parse text = .ok value ∧
        ∀ word : Int32, word.toInt ≡ n [ZMOD 2 ^ 32] ↔ word = value) ∧
      (n < -2 ^ 31 ∨ 2 ^ 32 - 1 < n → parse text = .error (.notNumber text))) ∧
    ∀ word : Bytes, word.head? ≠ some 126 →
      (∀ value, parse word = .ok value → parse (126 :: word) = .ok (~~~ value)) ∧
      ∀ error, parse word = .error error →
        parse (126 :: word) = .error (.notNumber (126 :: word)) := by
  refine ⟨Symbol.classify_decimal, fun _ _ _ _ prints => prints.eq_decimal, ?_, ?_⟩
  · intro text n spells
    have read := spells.signed.parse?_eq
    constructor
    · rintro ⟨lower, upper⟩
      have within : inRange n = true := by
        rw [inRange, Bool.and_eq_true]
        exact ⟨decide_eq_true lower, decide_eq_true upper⟩
      refine ⟨Int32.ofInt n, ?_, fun word => ?_⟩
      · rw [parse, read, if_pos within]
      · rw [← ofInt_eq_iff_modEq, eq_comm]
    · intro outside
      have beyond : ¬ inRange n = true := by
        rw [inRange, Bool.and_eq_true, decide_eq_true_iff, decide_eq_true_iff]
        omega
      rw [parse, read, if_neg beyond]
  · intro word plain
    rw [parse, parse, parse?_complement plain]
    cases parse? word with
    | none =>
      refine ⟨?_, fun _ _ => rfl⟩
      intro value read
      cases read
    | some inner =>
      constructor
      · intro value read
        cases read
        rfl
      · intro error refused
        cases refused

attribute [local instance] Constant.interpreter

/-- A constant expression is written as 14, the digits behind a mark are of either case, and the
number behind 2^32 - 1 is none. -/
theorem Literal.parse_spelling_of_either_case :
    Symbol.classify (ascii "14") = .literal 14 ∧
      (∃ value, parse (ascii "-0X1aF") = .ok value ∧ parse (ascii "~-0X1aF") = .ok (~~~ value) ∧
        ∀ word : Int32, word.toInt ≡ -431 [ZMOD 2 ^ 32] ↔ word = value) ∧
      parse (ascii "4294967296") = .error (.notNumber (ascii "4294967296")) := by
  obtain ⟨classified, printed, read, complement⟩ := parse_spelling
  have found : Expander.Piece.hit (ascii "$(2*(3+4))") ∈
      Expander.pieces Expander.constantMatch? (ascii "eax,$(2*(3+4))") := by decide +kernel
  have prints : ({} : Expander).Prints (ascii "eax,$(2*(3+4))") (ascii "14") 14 :=
    .constant found (by decide +kernel) (by decide +kernel)
  have fourteen := printed _ _ _ _ prints
  have mark : ((88 : UInt8), 16) ∈ baseMarks := by decide
  have digits : (ascii "1aF").map lowerCase = numeral 16 (-431 : Int).natAbs := by decide
  have negative : Spells (ascii "-0X1aF") (-431) := .marked (.minus (by decide)) mark digits
  obtain ⟨value, value_read, unique⟩ := (read _ _ negative).1 (by decide)
  have large : Spells (ascii "4294967296") 4294967296 := .decimal 4294967296
  refine ⟨?_, ⟨value, value_read, ?_, unique⟩, (read _ _ large).2 (by decide)⟩
  · rw [fourteen]
    exact (classified 14).1
  · exact (complement (ascii "-0X1aF") (by decide)).1 value value_read

end Rpn
