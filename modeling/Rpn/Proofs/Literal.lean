import Rpn.Proofs.Tokens
import Rpn.Symbol

/-!
# Literals and the numbers they stand for

* `numeral_induction` — a numeral grows by one digit at its end;
* `Literal.parse?_decimal` — a number within range, written in base ten, is a literal of that
  number;
* `Literal.mem_of_parse?` — the bytes that a literal can hold, so that `isToken_of_parse?`
  finds no comma in one;
* `Symbol.classify_of_parse?` — a literal is classified as what it is, whichever table is tried
  first.
-/

namespace Rpn

/-! ## Numerals -/

/-- The byte of a digit below 16. -/
def digitByte (d : Nat) : UInt8 :=
  (Nat.digitChar d).toNat.toUInt8

theorem digitValue?_digitByte {d : Nat} (h : d < 16) : digitValue? (digitByte d) = some d :=
  digitValue?_digitChar h

theorem digitByte_ne_underscore {d : Nat} (h : d < 16) : digitByte d ≠ 95 := by
  intro e
  have value := digitValue?_digitByte h
  rw [e] at value
  cases value

/-- A numeral grows by one digit at its end. -/
theorem numeral_induction {base : Nat} (hb : 1 < base) {P : Nat → Bytes → Prop}
    (single : ∀ d, d < base → P d [digitByte d])
    (more : ∀ n d, 0 < n → d < base → P n (numeral base n) →
      P (base * n + d) (numeral base n ++ [digitByte d])) (n : Nat) :
    P n (numeral base n) := by
  induction n using Nat.strongRecOn with
  | _ n ih =>
    by_cases h : n < base
    · rw [numeral_of_lt h]
      exact single n h
    · have hpos : 0 < n / base := Nat.div_pos (Nat.le_of_not_lt h) (by omega)
      have hd : n % base < base := Nat.mod_lt n (by omega)
      have hlt : n / base < n := Nat.div_lt_self (by omega) hb
      have grown := more (n / base) (n % base) hpos hd (ih (n / base) hlt)
      have split : base * (n / base) + n % base = n := Nat.div_add_mod n base
      rw [split] at grown
      rw [← split, ← numeral_append hb hpos hd, split, numeral_of_lt hd]
      exact grown

theorem mem_numeral {base : Nat} (hb : 1 < base) (n : Nat) :
    ∀ b ∈ numeral base n, ∃ d, d < base ∧ b = digitByte d := by
  refine numeral_induction (P := fun _ text => ∀ b ∈ text, ∃ d, d < base ∧ b = digitByte d) hb
    ?_ ?_ n
  · intro d hd b hmem
    exact ⟨d, hd, List.mem_singleton.1 hmem⟩
  · intro n d _ hd ih b hmem
    rcases List.mem_append.1 hmem with hmem | hmem
    · exact ih b hmem
    · exact ⟨d, hd, List.mem_singleton.1 hmem⟩

/-- The numeral of a positive number begins with a digit other than zero. -/
theorem exists_numeral_eq_cons {base : Nat} (hb : 1 < base) {n : Nat} (hn : 0 < n) :
    ∃ d rest, numeral base n = digitByte d :: rest ∧ 0 < d ∧ d < base := by
  revert hn
  refine numeral_induction (P := fun n text => 0 < n →
    ∃ d rest, text = digitByte d :: rest ∧ 0 < d ∧ d < base) hb ?_ ?_ n
  · intro d hd hpos
    exact ⟨d, [], rfl, hpos, hd⟩
  · intro n d hn _ ih _
    obtain ⟨d', rest, eq, hpos, hlt⟩ := ih hn
    exact ⟨d', rest ++ [digitByte d], by rw [eq]; rfl, hpos, hlt⟩

namespace Literal

/-! ## Numbers in base ten -/

theorem areDigits_of_forall {base : Nat} {text : Bytes}
    (h : ∀ b ∈ text, b ≠ 95 ∧ ∃ d, d < base ∧ digitValue? b = some d) (afterDigit : Bool)
    (reaches : afterDigit = true ∨ text ≠ []) : areDigits base afterDigit text = true := by
  induction text generalizing afterDigit with
  | nil =>
    rcases reaches with rfl | ne
    · rfl
    · exact absurd rfl ne
  | cons b rest ih =>
    obtain ⟨ne, d, hd, value⟩ := h b List.mem_cons_self
    have tail := ih (fun c hc => h c (List.mem_cons_of_mem b hc)) true (Or.inl rfl)
    simp only [areDigits, if_neg ne, value, tail, Bool.and_true, decide_eq_true hd]

theorem digits?_numeral {base : Nat} (hb : 1 < base) (hb' : base ≤ 16) (n : Nat)
    (afterDigit : Bool) (reaches : afterDigit = true ∨ numeral base n ≠ []) :
    digits? base afterDigit (numeral base n) = some n := by
  have all : ∀ b ∈ numeral base n, b ≠ 95 ∧ ∃ d, d < base ∧ digitValue? b = some d := by
    intro b hmem
    obtain ⟨d, hd, rfl⟩ := mem_numeral hb n b hmem
    have hd' : d < 16 := Nat.lt_of_lt_of_le hd hb'
    exact ⟨digitByte_ne_underscore hd', d, hd, digitValue?_digitByte hd'⟩
  have plain : (numeral base n).filter (· ≠ 95) = numeral base n := by
    rw [List.filter_eq_self]
    intro b hmem
    exact decide_eq_true (all b hmem).1
  rw [digits?, areDigits_of_forall all afterDigit reaches, if_pos rfl, plain,
    numeralValue_numeral hb hb']

theorem natural?_numeral_ten (n : Nat) : natural? (numeral 10 n) = some n := by
  rcases Nat.eq_zero_or_pos n with rfl | hn
  · rfl
  · obtain ⟨d, rest, eq, hpos, hlt⟩ := exists_numeral_eq_cons (by decide : 1 < 10) hn
    have first : digitByte d ≠ 48 := by
      have all : ∀ m : Fin 10, 0 < m.val → digitByte m.val ≠ 48 := by decide
      exact all ⟨d, hlt⟩ hpos
    have value := digits?_numeral (by decide : 1 < 10) (by decide) n false
      (Or.inr (by rw [eq]; exact List.cons_ne_nil _ _))
    rw [eq] at value ⊢
    simp only [natural?, if_neg first]
    exact value

/-- The first byte of a number in base ten is none of the marks that may stand in front of a
literal. -/
theorem exists_numeral_ten_eq_cons (n : Nat) :
    ∃ b rest, numeral 10 n = b :: rest ∧ b ≠ 43 ∧ b ≠ 45 ∧ b ≠ 126 := by
  have all : ∀ m : Fin 10, digitByte m.val ≠ 43 ∧ digitByte m.val ≠ 45 ∧ digitByte m.val ≠ 126 := by
    decide
  rcases Nat.eq_zero_or_pos n with rfl | hn
  · exact ⟨48, [], rfl, by decide⟩
  · obtain ⟨d, rest, eq, -, hlt⟩ := exists_numeral_eq_cons (by decide : 1 < 10) hn
    exact ⟨digitByte d, rest, eq, all ⟨d, hlt⟩⟩

theorem integer?_decimal (n : Int) : integer? (decimal n) = some n := by
  rw [decimal]
  split
  · rename_i neg
    rw [integer?, if_neg (by decide), if_pos rfl, natural?_numeral_ten]
    show some (-Int.ofNat n.natAbs) = some n
    congr 1
    show -(n.natAbs : Int) = n
    omega
  · rename_i nonneg
    obtain ⟨b, rest, eq, ne₁, ne₂, -⟩ := exists_numeral_ten_eq_cons n.natAbs
    have value := natural?_numeral_ten n.natAbs
    rw [eq] at value ⊢
    rw [integer?, if_neg ne₁, if_neg ne₂, value]
    show some (n.natAbs : Int) = some n
    congr 1
    omega

/-- A number within range, in base ten, is a literal of that number reduced to 32 bits. -/
theorem parse?_decimal_of_inRange {n : Int} (h : inRange n = true) :
    parse? (decimal n) = some (Int32.ofInt n) := by
  have value : word? (decimal n) = some (Int32.ofInt n) := by
    rw [word?, integer?_decimal]
    exact if_pos h
  have first : ∃ b rest, decimal n = b :: rest ∧ b ≠ 126 := by
    rw [decimal]
    split
    · exact ⟨45, _, rfl, by decide⟩
    · obtain ⟨b, rest, eq, -, -, ne⟩ := exists_numeral_ten_eq_cons n.natAbs
      exact ⟨b, rest, eq, ne⟩
  obtain ⟨b, rest, eq, ne⟩ := first
  rw [eq] at value ⊢
  rw [parse?, if_neg ne]
  exact value

/-- A word in base ten is a literal of that word. -/
theorem parse?_decimal (n : Int32) : parse? (decimal n.toInt) = some n := by
  have lower : -2147483648 ≤ n.toInt := n.le_toInt
  have upper : n.toInt < 2147483648 := n.toInt_lt
  have within : inRange n.toInt = true := by
    rw [inRange, Bool.and_eq_true]
    exact ⟨decide_eq_true lower, decide_eq_true (by omega)⟩
  rw [parse?_decimal_of_inRange within, Int32.ofInt_toInt]

/-! ## The bytes of a number -/

theorem isDigit_of_mem_numeral {n : Nat} {b : UInt8} (h : b ∈ numeral 10 n) :
    isDigit b = true := by
  have all : ∀ d : Fin 10, isDigit (digitByte d.val) = true := by decide
  obtain ⟨d, lt, rfl⟩ := mem_numeral (by decide) n b h
  exact all ⟨d, lt⟩

theorem mem_decimal {n : Int} {b : UInt8} (h : b ∈ decimal n) : b = 45 ∨ isDigit b = true := by
  rw [decimal] at h
  split at h
  · rcases List.mem_cons.mp h with rfl | h
    · exact Or.inl rfl
    · exact Or.inr (isDigit_of_mem_numeral h)
  · exact Or.inr (isDigit_of_mem_numeral h)

theorem decimal_ne_nil (n : Int) : decimal n ≠ [] := by
  rw [decimal]
  split
  · exact List.cons_ne_nil _ _
  · obtain ⟨b, rest, eq, -⟩ := exists_numeral_ten_eq_cons n.natAbs
    rw [eq]
    exact List.cons_ne_nil _ _

/-- A byte that is neither a digit nor a minus does not stand in a number. -/
theorem not_mem_decimal {b : UInt8} (digit : isDigit b = false) (minus : b ≠ 45) (n : Int) :
    b ∉ decimal n := by
  intro h
  rcases mem_decimal h with rfl | h
  · exact minus rfl
  · rw [digit] at h
    cases h

/-! ## The bytes of a literal -/

/-- The bytes that a literal can hold: digits and letters, `_`, the signs and `~`. -/
def InAlphabet (b : UInt8) : Prop :=
  (digitValue? b).isSome ∨ b = 95 ∨ b = 43 ∨ b = 45 ∨ b = 126

theorem inAlphabet_of_areDigits {base : Nat} {afterDigit : Bool} {text : Bytes}
    (h : areDigits base afterDigit text = true) : ∀ b ∈ text, InAlphabet b := by
  induction text generalizing afterDigit with
  | nil =>
    intro b hmem
    cases hmem
  | cons c rest ih =>
    rw [areDigits] at h
    intro b hmem
    by_cases underscore : c = 95
    · rw [if_pos underscore, Bool.and_eq_true] at h
      rcases List.mem_cons.1 hmem with rfl | hmem
      · exact Or.inr (Or.inl underscore)
      · exact ih h.2 b hmem
    · rw [if_neg underscore] at h
      cases value : digitValue? c with
      | none =>
        rw [value] at h
        cases h
      | some d =>
        rw [value] at h
        rcases List.mem_cons.1 hmem with rfl | hmem
        · exact Or.inl (by rw [value]; rfl)
        · exact ih (Bool.and_eq_true _ _ ▸ h).2 b hmem

theorem inAlphabet_of_digits? {base : Nat} {afterDigit : Bool} {text : Bytes} {n : Nat}
    (h : digits? base afterDigit text = some n) : ∀ b ∈ text, InAlphabet b := by
  rw [digits?] at h
  split at h
  · rename_i are
    exact inAlphabet_of_areDigits are
  · cases h

theorem inAlphabet_of_markedBase? {letter : UInt8} {base : Nat}
    (h : markedBase? letter = some base) : InAlphabet letter := by
  have all : ∀ b : Fin 256, markedBase? (UInt8.ofFin b) ≠ none →
      (digitValue? (UInt8.ofFin b)).isSome := by decide +kernel
  exact Or.inl (all letter.toFin (by rw [UInt8.ofFin_toFin, h]; exact Option.some_ne_none base))

theorem inAlphabet_of_natural? {text : Bytes} {n : Nat} (h : natural? text = some n) :
    ∀ b ∈ text, InAlphabet b := by
  match text with
  | [] => cases h
  | first :: rest =>
    rw [natural?.eq_def] at h
    by_cases zero : first = 48
    · subst zero
      have leading : InAlphabet 48 := Or.inl rfl
      match rest with
      | [] =>
        intro b hmem
        rw [List.mem_singleton.1 hmem]
        exact leading
      | letter :: digits =>
        simp only [if_true] at h
        refine List.forall_mem_cons.2 ⟨leading, ?_⟩
        cases mark : markedBase? letter with
        | none =>
          rw [mark] at h
          exact inAlphabet_of_digits? h
        | some base =>
          rw [mark] at h
          refine List.forall_mem_cons.2 ⟨inAlphabet_of_markedBase? mark, ?_⟩
          simp only at h
          split at h
          · cases h
          · exact inAlphabet_of_digits? h
    · simp only [if_neg zero] at h
      exact inAlphabet_of_digits? h

theorem inAlphabet_of_integer? {text : Bytes} {n : Int} (h : integer? text = some n) :
    ∀ b ∈ text, InAlphabet b := by
  match text with
  | [] => cases h
  | first :: rest =>
    rw [integer?] at h
    by_cases plus : first = 43
    · rw [if_pos plus] at h
      obtain ⟨k, hk, -⟩ := Option.map_eq_some_iff.1 h
      exact List.forall_mem_cons.2
        ⟨Or.inr (Or.inr (Or.inl plus)), inAlphabet_of_natural? hk⟩
    · rw [if_neg plus] at h
      by_cases minus : first = 45
      · rw [if_pos minus] at h
        obtain ⟨k, hk, -⟩ := Option.map_eq_some_iff.1 h
        exact List.forall_mem_cons.2
          ⟨Or.inr (Or.inr (Or.inr (Or.inl minus))), inAlphabet_of_natural? hk⟩
      · rw [if_neg minus] at h
        obtain ⟨k, hk, -⟩ := Option.map_eq_some_iff.1 h
        exact inAlphabet_of_natural? hk

theorem inAlphabet_of_word? {text : Bytes} {value : Int32} (h : word? text = some value) :
    ∀ b ∈ text, InAlphabet b := by
  rw [word?] at h
  cases hn : integer? text with
  | none =>
    rw [hn] at h
    cases h
  | some n => exact inAlphabet_of_integer? hn

/-- The bytes of a literal are in its alphabet. -/
theorem mem_of_parse? {word : Bytes} {value : Int32} (h : parse? word = some value) :
    ∀ b ∈ word, InAlphabet b := by
  match word with
  | [] => cases h
  | first :: rest =>
    rw [parse?] at h
    by_cases tilde : first = 126
    · rw [if_pos tilde] at h
      obtain ⟨v, hv, -⟩ := Option.map_eq_some_iff.1 h
      exact List.forall_mem_cons.2
        ⟨Or.inr (Or.inr (Or.inr (Or.inr tilde))), inAlphabet_of_word? hv⟩
    · rw [if_neg tilde] at h
      exact inAlphabet_of_word? h

theorem isToken_of_parse? {word : Bytes} {value : Int32} (h : parse? word = some value) :
    IsToken 44 word where
  nonempty := by
    rintro rfl
    cases h
  no_delimiter hmem := absurd (mem_of_parse? h 44 hmem) (by unfold InAlphabet; decide)
  no_nul hmem := absurd (mem_of_parse? h 0 hmem) (by unfold InAlphabet; decide)

end Literal

namespace Symbol

/-- A literal is no mnemonic, so neither table of mnemonics finds it. -/
theorem ofMnemonic?_of_parse? {token : Bytes} {value : Int32}
    (h : Literal.parse? token = some value) :
    Operator.ofMnemonic? token = none ∧ Register.ofMnemonic? token = none := by
  have other : ∀ name ∈ mnemonics, name ≠ token := by
    rintro name hmem rfl
    rw [parse?_mnemonics name hmem] at h
    cases h
  constructor
  · cases found : Operator.ofMnemonic? token with
    | none => rfl
    | some op =>
      have eq := Operator.ofMnemonic?_eq_some_iff.1 found
      have hmem : op.mnemonic ∈ mnemonics :=
        List.mem_append_left _ (List.mem_map_of_mem (Operator.mem_all op))
      exact absurd eq.symm (other op.mnemonic hmem)
  · cases found : Register.ofMnemonic? token with
    | none => rfl
    | some r =>
      have eq := Register.ofMnemonic?_eq_some_iff.1 found
      have hmem : r.mnemonic ∈ mnemonics :=
        List.mem_append_right _ (List.mem_map_of_mem (Register.mem_all r))
      exact absurd eq.symm (other r.mnemonic hmem)

/-- A literal is classified as what it is, whichever table is tried first. -/
theorem classify_of_parse? {token : Bytes} {value : Int32}
    (h : Literal.parse? token = some value) : classify token = .literal value := by
  obtain ⟨noOperator, noRegister⟩ := ofMnemonic?_of_parse? h
  rw [classify, noOperator, noRegister, h]

end Symbol

end Rpn
