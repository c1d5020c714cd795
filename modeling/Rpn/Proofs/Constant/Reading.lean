import Rpn.Proofs.Constant.Numeral
import Rpn.Proofs.Constant.Prefixed

/-!
# What the interpreter reads of a number

The interpreter reads digits up to the first `_`, from which on it reads a name.  It refuses decimal
digits that are led by a zero, unless all of them are zeros.

* `Literal.Trail.exists_split` — digits up to the first `_`;
* `Literal.Reading` — what is read of a number, with `Literal.Reading.of_digits` and
  `Literal.Reading.of_marked` for the digits without and with a base mark;
* `Literal.reading_of_numeral` — an integer literal is read as a whole;
* `Literal.Unsigned.exists_reading` — any other unsigned number is refused, or cut at a `_`;
* `Constant.integerLiterals_interpreter` — so the interpreter has the integer literals that languages
  have in general.
-/

namespace Rpn

namespace Literal

open Constant Lexeme

variable {base m n : Nat} {text next : Bytes} {digits : List Nat}

/-! ## Digits up to the first `_` -/

/-- What follows the digits that are read of a number: nothing, or a name that begins with `_`. -/
inductive Unread : Bytes → Prop
  | nil : Unread []
  | name {rest : Bytes} : IsIdentifier (95 :: rest) → Unread (95 :: rest)

theorem Unread.endsDigits {back : Bytes} (unread : Unread back) (stops : Stops next) :
    EndsDigits (back ++ next) := by
  cases unread with
  | nil => exact stops.endsDigits
  | @name rest => exact ⟨95, rest ++ next, rfl, List.mem_cons_self⟩

theorem isDigitOf_iff {b : UInt8} :
    isDigitOf base b = true ↔ ∃ d, digitValue? b = some d ∧ d < base := by
  rw [isDigitOf]
  cases digitValue? b <;> simp

/-- A `_` and then digits and further `_` are a name. -/
theorem isIdentifier_underscore {rest : Bytes}
    (h : ∀ b ∈ rest, b = 95 ∨ isDigitOf base b = true) : IsIdentifier (95 :: rest) := by
  have digits : ∀ c : Fin 256, (digitValue? (UInt8.ofFin c)).isSome = true →
      c.val < 128 ∧ isNamePoint c.val = true := by decide +kernel
  have points : ∀ b ∈ rest, b.toNat < 128 ∧ isNamePoint b.toNat = true := by
    intro b mem
    rcases h b mem with rfl | digit
    · decide +kernel
    · obtain ⟨d, value, -⟩ := isDigitOf_iff.mp digit
      exact digits b.toFin (by rw [UInt8.ofFin_toFin, value]; rfl)
  have keywords : ∀ name ∈ keywords.map Prod.fst, name.head? ≠ some 95 := by decide
  have refused : ∀ name ∈ refusedWords, name.head? ≠ some 95 := by decide
  refine .of_small ?_ (by decide +kernel) (fun b mem => (points b mem).2)
    (fun mem => keywords _ mem rfl) (fun mem => refused _ mem rfl)
  rw [List.forall_mem_cons]
  exact ⟨by decide, fun b mem => (points b mem).1⟩

theorem DigitOf.isDigitOf {b : UInt8} {d : Nat} (digit : DigitOf base b d) (small : base ≤ 16) :
    isDigitOf base b = true :=
  isDigitOf_iff.mpr ⟨d, (digitOf_iff small).mp digit⟩

theorem Trail.mem (trail : Trail base text digits) (small : base ≤ 16) :
    ∀ b ∈ text, b = 95 ∨ isDigitOf base b = true := by
  induction trail with
  | nil => exact List.forall_mem_nil _
  | digit digit _ ih => exact List.forall_mem_cons.mpr ⟨Or.inr (digit.isDigitOf small), ih⟩
  | apart digit _ ih =>
    exact List.forall_mem_cons.mpr ⟨Or.inl rfl,
      List.forall_mem_cons.mpr ⟨Or.inr (digit.isDigitOf small), ih⟩⟩

/-- Digits up to the first `_`, from which on there is a name. -/
theorem Trail.exists_split (trail : Trail base text digits) (small : base ≤ 16) :
    ∃ lead back, text = lead ++ back ∧ (∀ b ∈ lead, isDigitOf base b = true) ∧ Unread back := by
  have known := trail.mem small
  clear trail
  induction text with
  | nil => exact ⟨[], [], rfl, List.forall_mem_nil _, .nil⟩
  | cons b text ih =>
    rw [List.forall_mem_cons] at known
    rcases known.1 with rfl | digit
    · exact ⟨[], 95 :: text, rfl, List.forall_mem_nil _, .name (isIdentifier_underscore known.2)⟩
    · obtain ⟨lead, back, rfl, all, unread⟩ := ih known.2
      exact ⟨b :: lead, back, rfl, List.forall_mem_cons.mpr ⟨digit, all⟩, unread⟩

/-! ## Numbers -/

theorem not_mem_of_isDigitOf {lead : Bytes} (h : ∀ b ∈ lead, isDigitOf base b = true) :
    95 ∉ lead := by
  intro mem
  obtain ⟨d, value, -⟩ := isDigitOf_iff.mp (h 95 mem)
  cases value

/-- Digits end where no digit of any base stands. -/
theorem takeWhile_isDigitOf {lead : Bytes} (h : ∀ b ∈ lead, isDigitOf base b = true)
    (ends : EndsDigits next) : (lead ++ next).takeWhile (isDigitOf base) = lead ∧
      (lead ++ next).dropWhile (isDigitOf base) = next := by
  obtain ⟨b, rest, rfl, known⟩ := ends
  have all : ∀ b ∈ 95 :: stopBytes, digitValue? b = none := of_all (by decide)
  have other : isDigitOf base b = false := by rw [isDigitOf, all b known]
  rw [List.takeWhile_append_of_pos h, List.dropWhile_append_of_pos h]
  simp [other]

/-- The bound on the integers of a base, if there is one. -/
def baseLimit? (base : Nat) : Option Nat :=
  if base = 16 then none else some wordLimit

theorem number_marked {letter : UInt8} (mark : (letter, base) ∈ baseMarks) {lead : Bytes}
    (h : ∀ b ∈ lead, isDigitOf base b = true) (ends : EndsDigits next) :
    number (48 :: letter :: (lead ++ next)) =
      if lead = [] || (baseLimit? base).any (· ≤ Rpn.numeralValue base lead) then .error .malformed
      else .ok (.integer (Rpn.numeralValue base lead), next) := by
  have based : number (48 :: letter :: (lead ++ next)) =
      basedInteger base (baseLimit? base) (lead ++ next) := by
    simp only [baseMarks, List.mem_cons, Prod.mk.injEq, List.not_mem_nil, or_false] at mark
    rcases mark with ⟨rfl, rfl⟩ | ⟨rfl, rfl⟩ | ⟨rfl, rfl⟩ | ⟨rfl, rfl⟩ | ⟨rfl, rfl⟩ | ⟨rfl, rfl⟩ <;>
      rfl
  obtain ⟨taken, dropped⟩ := takeWhile_isDigitOf h ends
  rw [based, basedInteger, taken, dropped]

theorem isDigit_of_isDigitOf_ten {b : UInt8} (h : isDigitOf 10 b = true) : isDigit b = true := by
  obtain ⟨d, value, below⟩ := isDigitOf_iff.mp h
  exact ((digitOf_iff (by decide)).mpr ⟨value, below⟩ : DigitOf 10 b d).isDigit

/-- What is read of the text of a number: `read`, in front of `back`. -/
structure Reading (text : Bytes) (read : Except Failure Nat) (back : Bytes) : Prop where
  unread : Unread back
  number : ∀ next, Stops next →
    number (text ++ next) = read.map fun k => (Lexeme.integer k, back ++ next)

/-- What is read of decimal digits in front of `back`. -/
theorem Reading.of_digits {lead back : Bytes} (ne : lead ≠ []) (all : ∀ b ∈ lead, isDigit b = true)
    (unread : Unread back) :
    Reading (lead ++ back)
      (if lead.head? = some 48 && lead.any (· ≠ 48) then .error .malformed
        else .ok (numeralValue 10 lead)) back where
  unread := unread
  number := by
    intro next stops
    rw [List.append_assoc, number_digits ne all (unread.endsDigits stops)]
    split <;> rfl

/-- What is read of a base mark and digits in front of `back`. -/
theorem Reading.of_marked {letter : UInt8} (mark : (letter, base) ∈ baseMarks) {lead back : Bytes}
    (all : ∀ b ∈ lead, isDigitOf base b = true) (unread : Unread back) :
    Reading (48 :: letter :: (lead ++ back))
      (if lead = [] || (baseLimit? base).any (· ≤ numeralValue base lead) then .error .malformed
        else .ok (numeralValue base lead)) back where
  unread := unread
  number := by
    intro next stops
    have read := number_marked mark all (unread.endsDigits stops)
    rw [← List.append_assoc] at read
    show Lexeme.number (48 :: letter :: (lead ++ back ++ next)) = _
    rw [read]
    split <;> rfl

/-! ## Integer literals -/

theorem forall_isDigitOf (h : List.Forall₂ (DigitOf base) text digits) (small : base ≤ 16) :
    ∀ b ∈ text, isDigitOf base b = true := by
  induction h with
  | nil => exact List.forall_mem_nil _
  | cons digit _ ih => exact List.forall_mem_cons.mpr ⟨digit.isDigitOf small, ih⟩

/-- Digits one by one are read at once. -/
theorem numeralValue_of_forall₂ (h : List.Forall₂ (DigitOf base) text digits) (small : base ≤ 16) :
    Rpn.numeralValue base text = positional base digits := by
  have all : text.filter (· ≠ 95) = text := by
    rw [List.filter_eq_self]
    intro b mem
    rw [decide_eq_true_iff]
    rintro rfl
    exact not_mem_of_isDigitOf (forall_isDigitOf h small) mem
  rw [← (trail_of_forall₂ h).numeralValue small, all]

theorem numeralValue_zeros {lead : Bytes} (h : ∀ b ∈ lead, b = 48) :
    numeralValue base lead = 0 := by
  rw [numeralValue_eq_foldl]
  induction lead with
  | nil => rfl
  | cons b lead ih =>
    rw [List.forall_mem_cons] at h
    rw [List.foldl_cons, h.1, Nat.zero_mul]
    exact ih h.2

/-- An integer literal of 64 bits is read as a whole. -/
theorem reading_of_numeral (numeral : Numeral text n) (bound : n < wordLimit) :
    Reading text (.ok n) [] := by
  cases numeral with
  | @decimal b d text digits digit pos rest =>
    have whole : List.Forall₂ (DigitOf 10) (b :: text) (d :: digits) := .cons digit rest
    have figures : ∀ c ∈ b :: text, isDigit c = true :=
      fun c mem => isDigit_of_isDigitOf_ten (forall_isDigitOf whole (by decide) c mem)
    have nonzero : b ≠ 48 := by
      rintro rfl
      have value := ((digitOf_iff (by decide)).mp digit).1
      exact Nat.ne_of_gt pos (Option.some.inj value).symm
    have read := Reading.of_digits (List.cons_ne_nil b text) figures .nil
    rw [List.append_nil, if_neg (by simp [nonzero]), numeralValue_of_forall₂ whole (by decide)] at read
    exact read
  | @marked letter base text digits mark rest some =>
    have small := le_of_mem_baseMarks mark
    have ne : text ≠ [] := (trail_of_forall₂ rest).ne_nil_iff.mp some
    have value := numeralValue_of_forall₂ rest small
    have fits : ¬ (text = [] || (baseLimit? base).any (· ≤ numeralValue base text)) = true := by
      rw [value, baseLimit?]
      split <;> simp [ne, bound]
    have read := Reading.of_marked mark (forall_isDigitOf rest small) .nil
    rw [List.append_nil, if_neg fits, value] at read
    exact read
  | @zero text zeros =>
    have all : ∀ b ∈ 48 :: text, b = 48 := List.forall_mem_cons.mpr ⟨rfl, zeros⟩
    have figures : ∀ b ∈ 48 :: text, isDigit b = true := by
      intro b mem
      rw [all b mem]
      rfl
    have plain : ¬ ((48 :: text).head? = some 48 && (48 :: text).any (· ≠ 48)) = true := by
      simpa using zeros
    have read := Reading.of_digits (List.cons_ne_nil 48 text) figures .nil
    rw [List.append_nil, if_neg plain, numeralValue_zeros all] at read
    exact read

/-- Any other unsigned number is refused, or cut at a `_`. -/
theorem Unsigned.exists_reading (unsigned : Unsigned text m) (other : ∀ n, ¬ Numeral text n) :
    ∃ read back, Reading text read back ∧ (back = [] → ∃ failure, read = .error failure) := by
  cases unsigned with
  | @decimal b d text digits digit pos trail =>
    obtain ⟨lead, back, rfl, all, unread⟩ := trail.exists_split (by decide)
    have figures : ∀ c ∈ b :: lead, isDigit c = true :=
      List.forall_mem_cons.mpr ⟨digit.isDigit, fun c mem => isDigit_of_isDigitOf_ten (all c mem)⟩
    refine ⟨_, back, Reading.of_digits (List.cons_ne_nil b lead) figures unread, ?_⟩
    rintro rfl
    rw [List.append_nil] at trail other
    exact absurd (.decimal digit pos (trail.forall₂ (not_mem_of_isDigitOf all))) (other _)
  | @marked letter base text digits mark trail some =>
    obtain ⟨lead, back, rfl, all, unread⟩ := trail.exists_split (le_of_mem_baseMarks mark)
    refine ⟨_, back, .of_marked mark all unread, ?_⟩
    rintro rfl
    rw [List.append_nil] at trail other
    exact absurd (.marked mark (trail.forall₂ (not_mem_of_isDigitOf all)) some) (other _)
  | @octal text digits trail =>
    obtain ⟨lead, back, rfl, all, unread⟩ := trail.exists_split (by decide)
    have figures : ∀ c ∈ 48 :: lead, isDigit c = true := by
      refine List.forall_mem_cons.mpr ⟨rfl, fun c mem => isDigit_of_isDigitOf_ten ?_⟩
      obtain ⟨d, value, below⟩ := isDigitOf_iff.mp (all c mem)
      exact isDigitOf_iff.mpr ⟨d, value, Nat.lt_trans below (by decide)⟩
    refine ⟨_, back, Reading.of_digits (List.cons_ne_nil 48 lead) figures unread, ?_⟩
    -- without a `_` the digits are not zeros only, and are refused
    rintro rfl
    refine ⟨.malformed, if_pos ?_⟩
    by_contra zeros
    refine other 0 (.zero ?_)
    simpa using zeros

/-! ## Programs -/

/-- The lexemes of what follows the digits that are read. -/
def nameLexemes (back : Bytes) : List Lexeme :=
  if back = [] then [] else [.identifier back]

theorem Unread.scanFrom {back : Bytes} (unread : Unread back) (fuel : Nat) :
    scanFrom (fuel + 3) 0 false (back ++ [10]) = .ok (nameLexemes back ++ [.newline]) := by
  cases unread with
  | nil => rfl
  | @name rest identifier =>
    have ended : Lexeme.scanFrom (fuel + 2) 0 false [10] = .ok [.newline] := rfl
    rw [nameLexemes, if_neg (List.cons_ne_nil 95 rest)]
    exact scanFrom_identifier identifier ⟨10, [], rfl, by decide⟩ ended false

variable {read : Except Failure Nat} {back : Bytes}

/-- The lexemes of a program that assigns a number behind operators. -/
theorem Reading.scan_prefixed (reading : Reading text read back) (unsigned : Unsigned text m)
    (ops : List Prefix) :
    scan (assignment (ops.map Prefix.byte ++ text)) =
      read.map fun k => .identifier resultName :: .assign ::
        (Prefix.lexemes ops k ++ (nameLexemes back ++ [.newline])) := by
  obtain ⟨b, rest, rfl, digit⟩ := unsigned.exists_cons
  have noEqual : b ≠ 61 := by
    rintro rfl
    cases digit
  have noStar : b ≠ 42 := by
    rintro rfl
    cases digit
  obtain ⟨c, more, eq, noEqual', -⟩ := Prefix.exists_bytes_append ops noEqual noStar rest
  -- behind the operators, one lexeme is the number and at most two more follow
  have count : (c :: more).length + 3 = ops.length + (rest.length + 3 + 1) := by
    rw [← eq, List.length_append, List.length_map, List.length_cons]
    omega
  have text : c :: more ++ [10] = ops.map Prefix.byte ++ b :: (rest ++ [10]) := by
    rw [← eq, List.append_assoc, List.cons_append]
  have number := reading.number [10] ⟨10, [], rfl, by decide⟩
  rw [List.cons_append] at number
  rw [eq, scan_assignment noEqual', count, text, Prefix.scanFrom_bytes ops noEqual noStar,
    scanFrom_eq (not_mem_skippedBytes digit), read_digit digit, number]
  cases read with
  | error failure => rfl
  | ok k =>
    show Except.map _ (Except.map _ (scanFrom (rest.length + 3) 0 false (back ++ [10]) >>= _)) = _
    rw [reading.unread.scanFrom rest.length]
    simp [Except.map, Prefix.lexemes, bind, Except.bind, pure, Except.pure]

end Literal

open Literal

/-- **The interpreter has the integer literals of 64 bits**, and refuses other numbers. -/
theorem Constant.integerLiterals_interpreter : interpreter.IntegerLiterals where
  numeral := by
    intro limit constant? ops text n numeral bound enough
    have scanned := (reading_of_numeral numeral bound).scan_prefixed numeral.unsigned ops
    exact assigns_prefixed scanned enough
  refused := by
    intro limit constant? ops text m unsigned other k
    obtain ⟨read, back, reading, whole⟩ := unsigned.exists_reading other
    have scanned := reading.scan_prefixed unsigned ops
    cases read with
    | error failure =>
      have refused : Grammar.program (assignment (ops.map Prefix.byte ++ text)) =
          .error failure := by
        rw [Grammar.program, scanned]
        rfl
      exact not_assigns_of_program refused k
    | ok n =>
      have cut : back ≠ [] := by
        intro nil
        obtain ⟨failure, refused⟩ := whole nil
        cases refused
      rw [nameLexemes, if_neg cut] at scanned
      exact not_assigns_of_program (program_of_name scanned) k

end Rpn
