import Rpn.Proofs.Constant.Identifier

/-!
# The lexemes of formulas

* `Stops` — the texts behind which a number or a name is complete;
* `Constant.Lexeme.number_numeral` and `Constant.Lexeme.read_identifier` — numbers and names are
  read back in front of such texts;
* `Formula.lexemes` — the lexemes of a formula in brackets;
* `Formula.scanFrom_bracketed` — the lexemes of a formula are found in its text, whatever follows;
* `Constant.Lexeme.scan_assignment` — the lexemes of a program that assigns a text to a name;
* `Formula.scan_assignment` — and so those of a program that assigns a formula.
-/

namespace Rpn

/-- The bytes behind which a number or a name is complete: operators, the closing bracket, the mark
of an assignment and the newline. -/
def stopBytes : Bytes :=
  [10, 38, 41, 42, 43, 45, 61, 124]

/-- The texts behind which a number or a name is complete. -/
def Stops (text : Bytes) : Prop :=
  ∃ b rest, text = b :: rest ∧ b ∈ stopBytes

/-- The texts in front of which digits end: there a number is complete, or a name begins. -/
def EndsDigits (text : Bytes) : Prop :=
  ∃ b rest, text = b :: rest ∧ b ∈ 95 :: stopBytes

theorem Stops.endsDigits {text : Bytes} (stops : Stops text) : EndsDigits text := by
  obtain ⟨b, rest, eq, known⟩ := stops
  exact ⟨b, rest, eq, List.mem_cons_of_mem 95 known⟩

/-- The bytes of the marks that formulas, signs and assignments hold. -/
def markBytes : Bytes :=
  [38, 40, 41, 42, 43, 45, 61, 124, 126]

/-- The bytes at which no lexeme begins: the end of the text, white space, comments and joints of
lines. -/
def skippedBytes : Bytes :=
  [0, 9, 10, 13, 32, 35, 92]

/-- What is checked of all bytes of a list holds of each. -/
theorem of_all {P : UInt8 → Prop} [DecidablePred P] {bytes : Bytes}
    (h : (bytes.all fun b => decide (P b)) = true) : ∀ b ∈ bytes, P b :=
  fun b mem => of_decide_eq_true (List.all_eq_true.mp h b mem)

/-- The operator of constant expressions. -/
def Arithmetic.dyadic : Arithmetic → Constant.Dyadic
  | .add => .plus
  | .sub => .minus
  | .mul => .times
  | .and => .bitAnd
  | .or => .bitOr

theorem Arithmetic.stops (op : Arithmetic) (text : Bytes) : Stops (op.byte :: text) := by
  refine ⟨op.byte, text, rfl, ?_⟩
  cases op <;> decide

namespace Constant.Lexeme

/-! ## Numbers -/

theorem takeWhile_isDigit {digits text : Bytes} (h : ∀ b ∈ digits, isDigit b = true)
    (ends : EndsDigits text) :
    (digits ++ text).takeWhile isDigit = digits ∧ (digits ++ text).dropWhile isDigit = text := by
  obtain ⟨b, rest, rfl, known⟩ := ends
  have all : ∀ b ∈ 95 :: stopBytes, isDigit b = false := of_all (by decide)
  have other := all b known
  rw [List.takeWhile_append_of_pos h, List.dropWhile_append_of_pos h]
  simp [other]

theorem decimalNumber_eq (digits : Bytes) {text : Bytes} (ends : EndsDigits text) :
    decimalNumber digits text =
      if digits.head? = some 48 && digits.any (· ≠ 48) then .error .malformed
      else .ok (.integer (numeralValue 10 digits), text) := by
  obtain ⟨b, rest, rfl, known⟩ := ends
  have all : ∀ b ∈ 95 :: stopBytes, b ≠ 46 ∧ lowerCase b ≠ 101 := of_all (by decide)
  obtain ⟨noPoint, noExponent⟩ := all b known
  simp only [decimalNumber, if_neg noPoint, if_neg noExponent, decimalNumber.integral]

/-- A number is decimal unless it begins with a zero and a letter that marks another base. -/
theorem number_of_not_marked {b c : UInt8} (rest : Bytes)
    (h : b = 48 → lowerCase c ≠ 120 ∧ lowerCase c ≠ 111 ∧ lowerCase c ≠ 98) :
    number (b :: c :: rest) =
      decimalNumber ((b :: c :: rest).takeWhile isDigit) ((b :: c :: rest).dropWhile isDigit) := by
  by_cases zero : b = 48
  · obtain ⟨noHex, noOctal, noBinary⟩ := h zero
    simp only [number, noHex, noOctal, noBinary, decide_false, Bool.and_false, Bool.false_eq_true,
      if_false]
  · simp only [number, zero, decide_false, Bool.false_and, Bool.false_eq_true, if_false]

/-- Digits that no letter follows are a decimal number; behind a leading zero there may be zeros
only. -/
theorem number_digits {digits text : Bytes} (ne : digits ≠ [])
    (h : ∀ b ∈ digits, isDigit b = true) (ends : EndsDigits text) :
    number (digits ++ text) =
      if digits.head? = some 48 && digits.any (· ≠ 48) then .error .malformed
      else .ok (.integer (numeralValue 10 digits), text) := by
  obtain ⟨taken, dropped⟩ := takeWhile_isDigit h ends
  have decimal : number (digits ++ text) =
      decimalNumber ((digits ++ text).takeWhile isDigit) ((digits ++ text).dropWhile isDigit) := by
    obtain ⟨b, more, rfl⟩ := List.exists_cons_of_ne_nil ne
    -- the second byte is a digit, or one at which digits end
    cases more with
    | nil =>
      obtain ⟨c, rest, rfl, known⟩ := ends
      have all : ∀ c ∈ 95 :: stopBytes,
          lowerCase c ≠ 120 ∧ lowerCase c ≠ 111 ∧ lowerCase c ≠ 98 := of_all (by decide)
      exact number_of_not_marked rest fun _ => all c known
    | cons c more =>
      have all : ∀ d : Fin 256, isDigit (UInt8.ofFin d) = true →
          lowerCase (UInt8.ofFin d) ≠ 120 ∧ lowerCase (UInt8.ofFin d) ≠ 111 ∧
            lowerCase (UInt8.ofFin d) ≠ 98 := by decide +kernel
      have other := all c.toFin (by rw [UInt8.ofFin_toFin]; exact h c (by simp))
      rw [UInt8.ofFin_toFin] at other
      exact number_of_not_marked (more ++ text) fun _ => other
  rw [decimal, taken, dropped, decimalNumber_eq digits ends]

/-- A number in base ten is read back. -/
theorem number_numeral (n : Nat) {text : Bytes} (stops : Stops text) :
    number (numeral 10 n ++ text) = .ok (.integer n, text) := by
  have digits : ∀ b ∈ numeral 10 n, isDigit b = true := fun b => Literal.isDigit_of_mem_numeral
  obtain ⟨b, rest, eq, -⟩ := Literal.exists_numeral_ten_eq_cons n
  have ne : numeral 10 n ≠ [] := by
    rw [eq]
    exact List.cons_ne_nil b rest
  -- no leading zeros, so that the digits are decimal
  have plain : ¬ ((numeral 10 n).head? = some 48 && (numeral 10 n).any (· ≠ 48)) = true := by
    rcases Nat.eq_zero_or_pos n with rfl | pos
    · decide
    · have all : ∀ m : Fin 10, 0 < m.val → digitByte m.val ≠ 48 := by decide
      obtain ⟨d, more, eq, low, high⟩ := exists_numeral_eq_cons (by decide : 1 < 10) pos
      have first : digitByte d ≠ 48 := all ⟨d, high⟩ low
      simp [eq, first]
  rw [number_digits ne digits stops.endsDigits, if_neg plain,
    numeralValue_numeral (by decide) (by decide)]

/-! ## Names -/

theorem nameFrom_skip (seen front text : Bytes) :
    nameFrom seen front.length (front ++ text) = nameFrom (front.reverse ++ seen) 0 text := by
  induction front generalizing seen with
  | nil => rfl
  | cons b front ih =>
    rw [List.length_cons, List.cons_append, nameFrom, ih, List.reverse_cons, List.append_assoc]
    rfl

theorem nameFrom_encode {c : Char} (point : isNamePoint c.toNat = true) (seen text : Bytes) :
    nameFrom seen 0 (Utf8.encode c.toNat ++ text) =
      nameFrom ((Utf8.encode c.toNat).reverse ++ seen) 0 text := by
  have decoded : Utf8.decode (Utf8.encode c.toNat ++ text) =
      some (c.toNat, (Utf8.encode c.toNat).length) := Utf8.decode_encode_append c.valid text
  obtain ⟨b, front, eq⟩ := List.exists_cons_of_ne_nil (Utf8.encode_ne_nil c.toNat)
  rw [eq, List.cons_append] at decoded ⊢
  rw [nameFrom, decoded]
  simp only [point, if_true, List.length_cons, Nat.add_sub_cancel]
  rw [nameFrom_skip, List.reverse_cons, List.append_assoc]
  rfl

theorem nameFrom_stops {text : Bytes} (stops : Stops text) (seen : Bytes) :
    nameFrom seen 0 text = (seen.reverse, text) := by
  obtain ⟨b, rest, rfl, known⟩ := stops
  have all : ∀ b ∈ stopBytes, b.toNat < 0x80 ∧ isNamePoint b.toNat = false :=
    of_all (by decide +kernel)
  obtain ⟨small, other⟩ := all b known
  rw [nameFrom, Utf8.decode_of_lt rest small]
  simp [other]

theorem nameFrom_flatMap {points : List Char} (h : ∀ c ∈ points, isNamePoint c.toNat = true)
    {text : Bytes} (stops : Stops text) (seen : Bytes) :
    nameFrom seen 0 (points.flatMap (fun c => Utf8.encode c.toNat) ++ text) =
      (seen.reverse ++ points.flatMap (fun c => Utf8.encode c.toNat), text) := by
  induction points generalizing seen with
  | nil => simp [nameFrom_stops stops]
  | cons c points ih =>
    rw [List.forall_mem_cons] at h
    rw [List.flatMap_cons, List.append_assoc, nameFrom_encode h.1, ih h.2]
    simp

/-- A name is read back. -/
theorem word_identifier {name : Bytes} (h : IsIdentifier name) {text : Bytes} (stops : Stops text) :
    word (name ++ text) = .ok (.identifier name, text) := by
  obtain ⟨first, rest, eq, start, others⟩ := h.spelled
  have points : ∀ c ∈ first :: rest, isNamePoint c.toNat = true := by
    rw [List.forall_mem_cons]
    exact ⟨by rw [isNamePoint, start, Bool.or_true], others⟩
  have name_eq : nameFrom [] 0 (name ++ text) = (name, text) := by
    rw [eq, nameFrom_flatMap points stops]
    rfl
  have unknown : keywords.lookup name = none := by
    rw [List.lookup_eq_none_iff]
    intro entry mem
    have other : name ≠ entry.1 := by
      rintro rfl
      exact h.not_keyword (List.mem_map_of_mem mem)
    exact bne_iff_ne.mpr other
  have allowed : refusedWords.contains name = false := by
    rw [Bool.eq_false_iff, ne_eq, List.contains_iff_mem]
    exact h.not_refused
  simp only [word, name_eq, unknown, allowed]
  rfl

/-- A byte below 128 that cannot begin a name is not the first byte of one. -/
theorem ne_of_isNameStart {b : UInt8} (h : isNameStart b.toNat = true ∨ 128 ≤ b.toNat) {c : UInt8}
    (small : c.toNat < 128) (other : isNameStart c.toNat = false) : b ≠ c := by
  rintro rfl
  rcases h with start | large
  · rw [other] at start
    cases start
  · omega

/-- A name is read as one: its first byte begins no number and no quoted text. -/
theorem read_identifier {name : Bytes} (h : IsIdentifier name) {text : Bytes}
    (stops : Stops text) : read (name ++ text) = .ok (.identifier name, text) := by
  have whole := word_identifier h stops
  have decoded : ∃ c n, Utf8.decode (name ++ text) = some (c, n) ∧ isNameStart c = true := by
    obtain ⟨first, rest, eq, start, -⟩ := h.spelled
    refine ⟨first.toNat, (Utf8.encode first.toNat).length, ?_, start⟩
    rw [eq, List.flatMap_cons, List.append_assoc]
    exact Utf8.decode_encode_append first.valid _
  obtain ⟨c, n, decoded, start⟩ := decoded
  obtain ⟨b, rest, rfl, head⟩ := h.exists_cons
  have noDigit : isDigit b = false := by
    have all : ∀ d : Fin 256, isDigit (UInt8.ofFin d) = true →
        d.val < 128 ∧ isNameStart d.val = false := by decide +kernel
    rw [Bool.eq_false_iff]
    intro digit
    obtain ⟨small, other⟩ := all b.toFin (by rw [UInt8.ofFin_toFin]; exact digit)
    exact ne_of_isNameStart head small other rfl
  have noQuote : b ≠ 34 := ne_of_isNameStart head (by decide) (by decide +kernel)
  have noQuote' : b ≠ 39 := ne_of_isNameStart head (by decide) (by decide +kernel)
  have noPoint : b ≠ 46 := ne_of_isNameStart head (by decide) (by decide +kernel)
  rw [List.cons_append] at whole decoded ⊢
  rw [read]
  simp only [noQuote, noQuote', noPoint, noDigit, decoded, start, decide_false, Bool.or_self,
    Bool.false_eq_true, if_false, if_true]
  exact whole

/-! ## Marks -/

/-- The marks of formulas, signs and assignments are read as marks. -/
theorem read_mark {b : UInt8} (h : b ∈ markBytes)
    (text : Bytes) : read (b :: text) = mark (b :: text) := by
  have all : ∀ b ∈ markBytes, b ≠ 34 ∧ b ≠ 39 ∧ b ≠ 46 ∧
      isDigit b = false ∧ b.toNat < 0x80 ∧ isNameStart b.toNat = false :=
    of_all (by decide +kernel)
  obtain ⟨noQuote, noQuote', noPoint, noDigit, small, noStart⟩ := all b h
  rw [read, Utf8.decode_of_lt text small]
  simp only [noQuote, noQuote', noPoint, noDigit, noStart, decide_false, Bool.or_self,
    Bool.false_eq_true, if_false]

/-- The byte of an operator is the whole mark, unless `=` follows, or another `*`. -/
theorem read_operator (op : Arithmetic) {c : UInt8} (noEqual : c ≠ 61) (noStar : c ≠ 42)
    (text : Bytes) : read (op.byte :: c :: text) = .ok (.dyadic op.dyadic, c :: text) := by
  rw [read_mark (by cases op <;> decide)]
  cases op <;>
    simp [mark, marks, ascii, Arithmetic.byte, Arithmetic.dyadic, noEqual.symm, noStar.symm]

theorem read_opening (text : Bytes) : read (40 :: text) = .ok (.opening .round, text) := by
  rw [read_mark (by decide)]
  simp [mark, marks, ascii]

theorem read_closing (text : Bytes) : read (41 :: text) = .ok (.closing .round, text) := by
  rw [read_mark (by decide)]
  simp [mark, marks, ascii]

theorem read_assign {c : UInt8} (noEqual : c ≠ 61) (text : Bytes) :
    read (61 :: c :: text) = .ok (.assign, c :: text) := by
  rw [read_mark (by decide)]
  simp [mark, marks, ascii, noEqual.symm]

/-! ## Lexemes one by one -/

/-- At any other byte than those that are skipped, a lexeme is read. -/
theorem scanFrom_eq {b : UInt8} (plain : b ∉ skippedBytes) (rest : Bytes) (fuel depth : Nat)
    (atStart : Bool) :
    scanFrom (fuel + 1) depth atStart (b :: rest) = (do
      let (lexeme, next) ← read (b :: rest)
      let depth ← depthAfter depth lexeme
      let lexemes ← scanFrom fuel depth false next
      return lexeme :: lexemes) := by
  simp only [skippedBytes, List.mem_cons, List.not_mem_nil, or_false, not_or] at plain
  obtain ⟨noNul, noTab, noLine, noReturn, noBlank, noComment, noJoint⟩ := plain
  have noSpace : isSpace b = false := by simp [isSpace, noTab, noBlank]
  have skipped : skipSpace (b :: rest) = b :: rest := by
    simp [skipSpace, noSpace, noComment]
  have within : afterNewline? (b :: rest) = none := by
    simp [afterNewline?, noLine, noReturn]
  rw [scanFrom, skipped]
  simp only [if_neg noNul, within, List.head?_cons, Option.map_some, Option.getD_some, noSpace,
    Bool.and_false, Bool.false_eq_true, if_false, if_neg noJoint]

/-- The scan goes on behind a lexeme that is read. -/
theorem scanFrom_lexeme {b : UInt8} {rest next : Bytes} {lexeme : Lexeme} {depth depth' : Nat}
    (plain : b ∉ skippedBytes) (found : read (b :: rest) = .ok (lexeme, next))
    (nested : depthAfter depth lexeme = .ok depth') (fuel : Nat) (atStart : Bool) :
    scanFrom (fuel + 1) depth atStart (b :: rest) =
      (scanFrom fuel depth' false next).map (lexeme :: ·) := by
  rw [scanFrom_eq plain, found]
  show (depthAfter depth lexeme >>= fun depth => scanFrom fuel depth false next >>= fun lexemes =>
    pure (lexeme :: lexemes)) = _
  rw [nested]
  show (scanFrom fuel depth' false next >>= fun lexemes => pure (lexeme :: lexemes)) = _
  cases scanFrom fuel depth' false next <;> rfl

theorem scanFrom_read {b : UInt8} {rest next : Bytes} {lexeme : Lexeme} {lexemes : List Lexeme}
    {depth depth' fuel : Nat} (plain : b ∉ skippedBytes)
    (found : read (b :: rest) = .ok (lexeme, next)) (nested : depthAfter depth lexeme = .ok depth')
    (later : scanFrom fuel depth' false next = .ok lexemes) (atStart : Bool) :
    scanFrom (fuel + 1) depth atStart (b :: rest) = .ok (lexeme :: lexemes) := by
  rw [scanFrom_lexeme plain found nested, later]
  rfl

theorem not_mem_skippedBytes {b : UInt8} (digit : isDigit b = true) : b ∉ skippedBytes := by
  have all : ∀ c ∈ skippedBytes, isDigit c = false := of_all (by decide)
  intro mem
  rw [all b mem] at digit
  cases digit

/-- A digit begins a number. -/
theorem read_digit {b : UInt8} (digit : isDigit b = true) (rest : Bytes) :
    read (b :: rest) = number (b :: rest) := by
  have all : ∀ d : Fin 256, isDigit (UInt8.ofFin d) = true →
      UInt8.ofFin d ≠ 34 ∧ UInt8.ofFin d ≠ 39 := by decide +kernel
  obtain ⟨noQuote, noQuote'⟩ := all b.toFin (by rw [UInt8.ofFin_toFin]; exact digit)
  rw [UInt8.ofFin_toFin] at noQuote noQuote'
  rw [read]
  simp only [noQuote, noQuote', digit, decide_false, Bool.or_self, Bool.false_eq_true, if_false,
    if_true]

/-- A number in base ten is read at its first digit. -/
theorem exists_read_numeral (n : Nat) {text : Bytes} (stops : Stops text) :
    ∃ b rest, numeral 10 n = b :: rest ∧ isDigit b = true ∧
      read (b :: rest ++ text) = .ok (.integer n, text) := by
  obtain ⟨b, rest, eq, -⟩ := Literal.exists_numeral_ten_eq_cons n
  have digit : isDigit b = true := by
    apply Literal.isDigit_of_mem_numeral
    rw [eq]
    exact List.mem_cons_self
  refine ⟨b, rest, eq, digit, ?_⟩
  have value := number_numeral n stops
  rw [eq, List.cons_append] at value
  rw [List.cons_append, read_digit digit]
  exact value

end Constant.Lexeme

open Constant Lexeme

/-! ## Leaves and formulas -/

variable {constant? : Bytes → Option Int}

/-- The lexemes of a leaf; the sign of a number is one by itself. -/
def Leaf.lexemes : Leaf IsIdentifier constant? → List Lexeme
  | .constant value =>
    if value.toInt < 0 then [.dyadic .minus, .integer value.toInt.natAbs]
    else [.integer value.toInt.natAbs]
  | .named name .. => [.identifier name]

/-- The lexemes of a formula in brackets. -/
def Formula.lexemes : Formula IsIdentifier constant? → List Lexeme
  | .leaf a => a.lexemes
  | .node op left right =>
    .opening .round :: (left.lexemes ++ .dyadic op.dyadic :: (right.lexemes ++ [.closing .round]))

/-- The first byte of a leaf is a minus, a digit, or one that begins a name. -/
theorem Leaf.exists_cons (a : Leaf IsIdentifier constant?) :
    ∃ b rest, a.text = b :: rest ∧ b ≠ 42 ∧ b ≠ 61 := by
  cases a with
  | constant value =>
    obtain ⟨b, rest, eq⟩ := List.exists_cons_of_ne_nil (Literal.decimal_ne_nil value.toInt)
    have inside : b ∈ decimal value.toInt := by
      rw [eq]
      exact List.mem_cons_self
    refine ⟨b, rest, eq, ?_, ?_⟩
    · rintro rfl
      exact Literal.not_mem_decimal (by decide) (by decide) _ inside
    · rintro rfl
      exact Literal.not_mem_decimal (by decide) (by decide) _ inside
  | named name value identifier =>
    obtain ⟨b, rest, eq, head⟩ := identifier.exists_cons
    exact ⟨b, rest, eq, ne_of_isNameStart head (by decide) (by decide +kernel),
      ne_of_isNameStart head (by decide) (by decide +kernel)⟩

theorem Formula.exists_cons (t : Formula IsIdentifier constant?) :
    ∃ b rest, t.bracketed = b :: rest ∧ b ≠ 42 ∧ b ≠ 61 := by
  cases t with
  | leaf a => exact a.exists_cons
  | node op left right => exact ⟨40, _, rfl, by decide, by decide⟩

section Scan

variable {rest : Bytes} {fuel depth : Nat} {lexemes : List Lexeme}

theorem scanFrom_numeral (n : Nat) (stops : Stops rest)
    (later : scanFrom fuel depth false rest = .ok lexemes) :
    scanFrom (fuel + 1) depth false (numeral 10 n ++ rest) = .ok (.integer n :: lexemes) := by
  obtain ⟨b, more, eq, digit, found⟩ := exists_read_numeral n stops
  rw [eq]
  exact scanFrom_read (not_mem_skippedBytes digit) found rfl later false

theorem scanFrom_operator (op : Arithmetic) {c : UInt8} (noStar : c ≠ 42) (noEqual : c ≠ 61)
    (later : scanFrom fuel depth false (c :: rest) = .ok lexemes) :
    scanFrom (fuel + 1) depth false (op.byte :: c :: rest) =
      .ok (.dyadic op.dyadic :: lexemes) := by
  have plain : op.byte ∉ skippedBytes := by cases op <;> decide
  exact scanFrom_read plain (read_operator op noEqual noStar rest) rfl later false

theorem scanFrom_identifier {name : Bytes} (identifier : IsIdentifier name) (stops : Stops rest)
    (later : scanFrom fuel depth false rest = .ok lexemes) (atStart : Bool) :
    scanFrom (fuel + 1) depth atStart (name ++ rest) = .ok (.identifier name :: lexemes) := by
  have found := read_identifier identifier stops
  obtain ⟨b, more, rfl, head⟩ := identifier.exists_cons
  have plain : b ∉ skippedBytes := by
    have all : ∀ c ∈ skippedBytes,
        c.toNat < 128 ∧ isNameStart c.toNat = false := of_all (by decide +kernel)
    intro mem
    exact ne_of_isNameStart head (all b mem).1 (all b mem).2 rfl
  exact scanFrom_read plain found rfl later atStart

/-- The lexemes of a leaf are found in its text. -/
theorem Leaf.scanFrom_text (a : Leaf IsIdentifier constant?) (stops : Stops rest)
    (later : scanFrom fuel depth false rest = .ok lexemes) :
    scanFrom (a.lexemes.length + fuel) depth false (a.text ++ rest) =
      .ok (a.lexemes ++ lexemes) := by
  cases a with
  | constant value =>
    have digits := scanFrom_numeral value.toInt.natAbs stops later
    rw [text, decimal, Leaf.lexemes]
    split
    · -- the minus is an operator in front of the digits
      obtain ⟨b, more, eq, digit, -⟩ := exists_read_numeral value.toInt.natAbs stops
      have noStar : b ≠ 42 := by
        rintro rfl
        cases digit
      have noEqual : b ≠ 61 := by
        rintro rfl
        cases digit
      rw [eq, List.cons_append] at digits ⊢
      rw [List.length_cons, List.length_singleton, Nat.add_comm]
      exact scanFrom_operator .sub noStar noEqual digits
    · rw [List.length_singleton, Nat.add_comm]
      exact digits
  | named name value identifier =>
    rw [Leaf.lexemes, List.length_singleton, Nat.add_comm]
    exact scanFrom_identifier identifier stops later false

/-- **The lexemes of a formula are found in its text**, whatever follows. -/
theorem Formula.scanFrom_bracketed (t : Formula IsIdentifier constant?) (stops : Stops rest)
    (later : scanFrom fuel depth false rest = .ok lexemes) :
    scanFrom (t.lexemes.length + fuel) depth false (t.bracketed ++ rest) =
      .ok (t.lexemes ++ lexemes) := by
  induction t generalizing rest fuel depth lexemes with
  | leaf a => exact a.scanFrom_text stops later
  | node op left right ihl ihr =>
    have closed : scanFrom (fuel + 1) (depth + 1) false (41 :: rest) =
        .ok (.closing .round :: lexemes) :=
      scanFrom_read (by decide) (read_closing rest) rfl later false
    have second := ihr ⟨41, rest, rfl, by decide⟩ closed
    have behind : scanFrom (right.lexemes.length + (fuel + 1) + 1) (depth + 1) false
        (op.byte :: (right.bracketed ++ 41 :: rest)) =
        .ok (.dyadic op.dyadic :: (right.lexemes ++ .closing .round :: lexemes)) := by
      obtain ⟨c, more, eq, noStar, noEqual⟩ := right.exists_cons
      rw [eq, List.cons_append] at second ⊢
      exact scanFrom_operator op noStar noEqual second
    have first := ihl (op.stops _) behind
    have opened := scanFrom_read (by decide) (read_opening _) rfl first false
    have count : (node op left right).lexemes.length + fuel =
        left.lexemes.length + (right.lexemes.length + (fuel + 1) + 1) + 1 := by
      simp only [Formula.lexemes, List.length_cons, List.length_append, List.length_nil]
      omega
    rw [count]
    simpa [Formula.lexemes, bracketed] using opened

end Scan

/-- Every lexeme takes a byte at least. -/
theorem Formula.length_lexemes_le (t : Formula IsIdentifier constant?) :
    t.lexemes.length ≤ t.bracketed.length := by
  induction t with
  | leaf a =>
    cases a with
    | constant value =>
      obtain ⟨b, more, eq, -⟩ := Literal.exists_numeral_ten_eq_cons value.toInt.natAbs
      simp only [bracketed, Leaf.text, decimal, eq, Formula.lexemes, Leaf.lexemes]
      split <;> simp
    | named name value identifier =>
      obtain ⟨b, more, eq, -⟩ := identifier.exists_cons
      simp [bracketed, Formula.lexemes, Leaf.lexemes, Leaf.text, eq]
  | node op left right ihl ihr =>
    simp only [bracketed, Formula.lexemes, List.length_cons, List.length_append, List.length_nil]
    omega

theorem isIdentifier_resultName : IsIdentifier resultName where
  spelled := by
    refine ⟨'r', ['c'], by decide, by decide +kernel, ?_⟩
    rw [List.forall_mem_singleton]
    decide +kernel
  not_keyword := by decide
  not_refused := by decide

/-- The lexemes of a program that assigns a text to a name are those of the text behind two more,
and a third at the end of the line. -/
theorem Constant.Lexeme.scan_assignment {b : UInt8} (noEqual : b ≠ 61) (rest : Bytes) :
    scan (assignment (b :: rest)) =
      (scanFrom ((b :: rest).length + 3) 0 false (b :: rest ++ [10])).map
        fun lexemes => .identifier resultName :: .assign :: lexemes := by
  have name : resultName = [114, 99] := by decide
  have text : assignment (b :: rest) = 114 :: 99 :: 61 :: b :: (rest ++ [10]) := by
    simp [assignment, ascii, name]
  have count : (114 :: 99 :: 61 :: b :: (rest ++ [10])).length + 1 =
      (b :: rest).length + 3 + 1 + 1 := by
    simp only [List.length_append, List.length_cons, List.length_nil]
  have named := read_identifier isIdentifier_resultName
    ⟨61, b :: (rest ++ [10]), rfl, by decide⟩
  have assigned := read_assign noEqual (rest ++ [10])
  rw [name, List.cons_append, List.singleton_append] at named
  rw [scan, text, count, scanFrom_lexeme (by decide) named rfl,
    scanFrom_lexeme (by decide) assigned rfl, ← List.cons_append, name]
  cases scanFrom ((b :: rest).length + 3) 0 false (b :: rest ++ [10]) <;> rfl

/-- The lexemes of a program that assigns a formula to a name. -/
theorem Formula.scan_assignment (t : Formula IsIdentifier constant?) :
    scan (assignment t.bracketed) =
      .ok (.identifier resultName :: .assign :: (t.lexemes ++ [.newline])) := by
  have le := t.length_lexemes_le
  obtain ⟨spare, eq⟩ := Nat.exists_eq_add_of_le le
  have ended : scanFrom (spare + 3) 0 false [10] = .ok [.newline] := rfl
  have formula := t.scanFrom_bracketed ⟨10, [], rfl, by decide⟩ ended
  rw [← Nat.add_assoc, ← eq] at formula
  obtain ⟨b, rest, text, -, noEqual⟩ := t.exists_cons
  rw [text] at formula ⊢
  rw [Lexeme.scan_assignment noEqual, formula]
  rfl

end Rpn
