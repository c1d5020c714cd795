import Rpn.Proofs.Literal.Grammar

/-!
# Literals among the symbols

No literal is a mnemonic, so that a token has one meaning, whichever table is asked first.

* `Symbol.classifyBy` — classification by tables in some order, and `Symbol.classifyBy_of_perm` that
  the order does not show;
* `Symbol.classify_eq_literal_iff` — the tokens that are classified as literals are those that are
  read as such;
* `Literal.parse_grammar` — reading and classifying agree with the grammar.
-/

namespace Rpn

namespace Symbol

/-- The tables of symbols, in the order in which they are tried. -/
def tables : List (Bytes → Option Symbol) :=
  [fun token => (Operator.ofMnemonic? token).map .operator,
    fun token => (Register.ofMnemonic? token).map .register,
    fun token => (Literal.parse? token).map .literal]

/-- What the first of some tables that knows a token says of it. -/
def classifyBy (order : List (Bytes → Option Symbol)) (token : Bytes) : Symbol :=
  (order.findSome? fun table => table token).getD .unknown

/-- A table that knows a token says of it what classification says. -/
theorem classify_of_mem_tables {table : Bytes → Option Symbol} (mem : table ∈ tables)
    {token : Bytes} {symbol : Symbol} (known : table token = some symbol) :
    classify token = symbol := by
  simp only [tables, List.mem_cons, List.not_mem_nil, or_false] at mem
  rcases mem with rfl | rfl | rfl
  · obtain ⟨op, found, rfl⟩ := Option.map_eq_some_iff.mp known
    rw [Operator.ofMnemonic?_eq_some_iff.mp found, classify_operator]
  · obtain ⟨r, found, rfl⟩ := Option.map_eq_some_iff.mp known
    rw [Register.ofMnemonic?_eq_some_iff.mp found, classify_register]
  · obtain ⟨value, found, rfl⟩ := Option.map_eq_some_iff.mp known
    exact classify_of_parse? found

/-- The order in which the tables are tried does not show. -/
theorem classifyBy_of_perm {order : List (Bytes → Option Symbol)} (same : order.Perm tables)
    (token : Bytes) : classifyBy order token = classify token := by
  rw [classifyBy]
  cases found : order.findSome? fun table => table token with
  | some symbol =>
    obtain ⟨table, mem, known⟩ := List.exists_of_findSome?_eq_some found
    exact (classify_of_mem_tables (same.mem_iff.mp mem) known).symm
  | none =>
    rw [List.findSome?_eq_none_iff] at found
    have unknown : ∀ table ∈ tables, table token = none := fun table mem =>
      found table (same.mem_iff.mpr mem)
    simp only [tables, List.forall_mem_cons, Option.map_eq_none_iff] at unknown
    obtain ⟨noOperator, noRegister, noLiteral, -⟩ := unknown
    exact (classify_eq_unknown_iff.mpr ⟨noOperator, noRegister, noLiteral⟩).symm

theorem classify_eq_literal_iff {token : Bytes} {value : Int32} :
    classify token = .literal value ↔ Literal.parse? token = some value := by
  constructor
  · intro kind
    rw [classify] at kind
    split at kind
    · cases kind
    · split at kind
      · cases kind
      · split at kind
        · rename_i found
          cases kind
          exact found
        · cases kind
  · exact classify_of_parse?

end Symbol

/-- **A literal is what the grammar says.**  A word is read as a value exactly if it spells that value:
a `~` or none, a sign or none, and a number in base ten, or behind a base mark or a zero, that lies
between -2^31 and 2^32 - 1 and is reduced to 32 bits.  Every other word is told not to be a number.
No mnemonic spells a literal, so a word is classified as a literal exactly if it is read as one, and
that in whatever order the tables are tried. -/
theorem Literal.parse_grammar (word : Bytes) :
    (∀ value, parse word = .ok value ↔ Written word value) ∧
    ((∀ value, ¬ Written word value) → parse word = .error (.notNumber word)) ∧
    (word ∈ Symbol.mnemonics → ∀ value, ¬ Written word value) ∧
    (∀ value, Symbol.classify word = .literal value ↔ parse word = .ok value) ∧
    ∀ order, order.Perm Symbol.tables → Symbol.classifyBy order word = Symbol.classify word := by
  refine ⟨?_, ?_, ?_, ?_, ?_⟩
  · intro value
    rw [parse_eq_ok_iff, parse?_eq_some_iff]
  · intro unwritten
    rw [parse]
    cases read : parse? word with
    | none => rfl
    | some value => exact absurd (parse?_eq_some_iff.mp read) (unwritten value)
  · intro mem value written
    have read := parse?_eq_some_iff.mpr written
    rw [Symbol.parse?_mnemonics word mem] at read
    cases read
  · intro value
    rw [parse_eq_ok_iff]
    exact Symbol.classify_eq_literal_iff
  · intro order same
    exact Symbol.classifyBy_of_perm same word

/-- The complement of -127 in base sixteen is a literal, whichever table is tried first, and the name
of a register is none. -/
theorem Literal.parse_grammar_of_complement :
    let word := ascii "~-0X_7f"
    Written word 126 ∧ parse word = .ok 126 ∧
      Symbol.classifyBy Symbol.tables.reverse word = .literal 126 ∧
      parse (ascii "eax") = .error (.notNumber (ascii "eax")) := by
  intro word
  have seven : DigitOf 16 55 7 := DigitOf.figure (d := 7) (by decide) (by decide)
  have fifteen : DigitOf 16 102 15 := DigitOf.small (d := 15) (by decide) (by decide)
  have unsigned : Unsigned (ascii "0X_7f") 127 :=
    .marked (by decide) (.apart seven (.digit fifteen .nil)) (by decide)
  have reduces : Reduces (-127) (-127) := ⟨by decide, by decide, rfl⟩
  have written : Written word 126 := .complement (.minus unsigned) reduces
  obtain ⟨reads, -, -, classifies, anyOrder⟩ := parse_grammar word
  have read : parse word = .ok 126 := (reads 126).mpr written
  obtain ⟨-, refused, mnemonic, -, -⟩ := parse_grammar (ascii "eax")
  refine ⟨written, read, ?_, refused (mnemonic (by decide))⟩
  rw [anyOrder _ (List.reverse_perm Symbol.tables)]
  exact (classifies 126).mpr read

end Rpn
