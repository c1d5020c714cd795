import Rpn.Proofs.Constant.Running
import Rpn.Proofs.Expander.Passes
import Rpn.Proofs.Machine.LockStep
import Rpn.Proofs.Word

/-!
# Constant expressions and the machine agree

A formula can be folded to a constant, or evaluated by the machine.  Folding computes with integers
of any size and looks at the range once, at the end; the machine reduces every value to 32 bits.

* `Arithmetic.compute?_ofInt` — reduction to 32 bits respects the operators of formulas;
* `Formula.value?_tree` — so the machine computes the value of a formula, reduced;
* `Formula.expand_text` — what expansion makes of a formula written for the machine;
* `Expander.evaluate_agrees` — where the language of constant expressions computes exactly, folding
  succeeds exactly within the range of 32-bit words, signed or unsigned, and then gives the answer of
  the machine.
-/

namespace Rpn

/-! ## Reduction to 32 bits -/

/-- Reduction to 32 bits respects the operators of formulas. -/
theorem Arithmetic.compute?_ofInt (op : Arithmetic) (m n : Int) :
    op.binary.compute? (Int32.ofInt m) (Int32.ofInt n) = some (Int32.ofInt (op.exact m n)) := by
  cases op with
  | add => exact congrArg some (Int32.ofInt_add m n).symm
  | sub => exact congrArg some (Int32.ofInt_sub m n).symm
  | mul => exact congrArg some (Int32.ofInt_mul m n).symm
  | and => exact congrArg some (ofInt_land m n).symm
  | or => exact congrArg some (ofInt_lor m n).symm

section Formula

variable {IsName : Bytes → Prop} {constant? : Bytes → Option Int}

/-- The word that a leaf stands for. -/
def Leaf.word (a : Leaf IsName constant?) : Int32 :=
  Int32.ofInt a.value

/-- The machine computes the value of a formula, reduced to 32 bits. -/
theorem Formula.value?_tree (t : Formula IsName constant?) :
    t.tree.value? Leaf.word = some (Int32.ofInt t.value) := by
  induction t with
  | leaf a => rfl
  | node op left right ihl ihr =>
    rw [tree, Tree.value?_node ihr ihl, op.compute?_ofInt]
    rfl

theorem Formula.length_words (t : Formula IsName constant?) (spell : Leaf IsName constant? → Bytes) :
    (t.tree.words spell).length = t.size := by
  induction t with
  | leaf a => rfl
  | node op left right ihl ihr =>
    simp only [tree, Tree.words, List.length_append, ihl, ihr, List.length_singleton, size]
    omega

end Formula

/-! ## A formula expanded -/

section Expanded

variable {IsName : Bytes → Prop} {equates : Table Bytes Bytes}

namespace Leaf

/-- What a leaf becomes by expansion: the text of an equate. -/
def expanded : Leaf IsName (Expander.constant? equates) → Bytes
  | .constant value => decimal value.toInt
  | .named name .. => Expander.replacement equates name

theorem parse?_expanded (a : Leaf IsName (Expander.constant? equates)) :
    Literal.parse? a.expanded = some a.word := by
  cases a with
  | constant value =>
    rw [word, Leaf.value, Int32.ofInt_toInt]
    exact Literal.parse?_decimal value
  | named name n isName free known =>
    obtain ⟨text, value, found, reads, rfl⟩ := Expander.constant?_eq_some_iff.mp known
    rw [expanded, Expander.replacement, found, word, Leaf.value, Int32.ofInt_toInt]
    exact reads

/-- An expanded leaf is read as a literal of its word, whatever the registers hold. -/
theorem reads_expanded (registers : Registers) :
    Tree.Reads registers (@expanded IsName equates) word fun _ => Register.noCode := by
  intro a m _
  rw [Machine.step, Symbol.classify_of_parse? a.parse?_expanded]

end Leaf

/-- Only the names of equates are replaced. -/
theorem Formula.map_replacement_words (t : Formula IsName (Expander.constant? equates))
    (numerals : ∀ v : Int32, equates[decimal v.toInt]? = none)
    (operators : ∀ op : Operator, equates[op.mnemonic]? = none) :
    (t.tree.words Leaf.text).map (Expander.replacement equates) = t.tree.words Leaf.expanded := by
  induction t with
  | leaf a =>
    cases a with
    | constant value =>
      simp [tree, Tree.words, Leaf.text, Leaf.expanded, Expander.replacement, numerals]
    | named name n isName => simp [tree, Tree.words, Leaf.text, Leaf.expanded]
  | node op left right ihl ihr =>
    simp [tree, Tree.words, ihl, ihr, Expander.replacement, operators]

/-- **The machine evaluates a formula to its value, reduced to 32 bits**, also where values on the
way are out of range. -/
theorem Formula.eval_expanded (t : Formula IsName (Expander.constant? equates))
    (short : t.size ≤ tokenLimit) {depth : UInt64}
    (deep : t.tree.need ≤ (Machine.ofDepth depth).values.capacity) :
    ∃ m, (Machine.ofDepth depth).eval (t.tree.text Leaf.expanded) =
      (m, .ok (Int32.ofInt t.value)) := by
  have isToken : ∀ a : Leaf IsName (Expander.constant? equates), IsToken 44 a.expanded :=
    fun a => Literal.isToken_of_parse? a.parse?_expanded
  have words : tokens (Machine.ofDepth depth).delimiter (t.tree.text Leaf.expanded) =
      t.tree.words Leaf.expanded :=
    Tree.tokens_text isToken t.tree rfl
  have count : (tokens (Machine.ofDepth depth).delimiter (t.tree.text Leaf.expanded)).length ≤
      tokenLimit := by
    rw [words, t.length_words]
    exact short
  have fits : (Machine.ofDepth depth).values.size + t.tree.need ≤
      (Machine.ofDepth depth).values.capacity := by
    show 0 + t.tree.need ≤ _
    omega
  have steps := Tree.steps_words (Leaf.reads_expanded _) t.tree rfl
    (Machine.lockStep_ofDepth depth).aligned t.value?_tree fits 0
  rw [Machine.eval_of_length_le _ count, words, steps]
  exact ⟨_, rfl⟩

end Expanded

/-! ## Expansion -/

section Expansion

variable [language : Constant.Language] {IsName : Bytes → Prop} {equates : Table Bytes Bytes}

theorem Leaf.isToken_text (exact : language.ExactArithmetic IsName)
    (a : Leaf IsName (Expander.constant? equates)) : IsToken 44 a.text := by
  cases a with
  | constant value => exact Literal.isToken_of_parse? (Literal.parse?_decimal value)
  | named name n isName =>
    exact ⟨exact.name_ne_nil name isName, exact.not_mem isName rfl, exact.not_mem isName rfl⟩

/-- A leaf holds neither a quote nor a dollar, with which the passes of expansion begin. -/
theorem Leaf.not_mem_text (exact : language.ExactArithmetic IsName)
    (a : Leaf IsName (Expander.constant? equates)) {b : UInt8} (h : b = 36 ∨ b = 39) :
    b ∉ a.text := by
  cases a with
  | constant value =>
    rcases h with rfl | rfl
    · exact Literal.not_mem_decimal (by decide) (by decide) _
    · exact Literal.not_mem_decimal (by decide) (by decide) _
  | named name n isName =>
    rcases h with rfl | rfl
    · exact exact.not_mem isName rfl
    · exact exact.not_mem isName rfl

theorem Formula.not_mem_text (exact : language.ExactArithmetic IsName)
    (t : Formula IsName (Expander.constant? equates)) {b : UInt8} (h : b = 36 ∨ b = 39) :
    b ∉ t.tree.text Leaf.text := by
  have words : ∀ word ∈ t.tree.words Leaf.text, b ∉ word := by
    induction t with
    | leaf a =>
      rw [tree, Tree.words, List.forall_mem_singleton]
      exact a.not_mem_text exact h
    | node op left right ihl ihr =>
      have operator : b ∉ (Operator.binary op.binary).mnemonic := by
        rw [op.mnemonic_binary]
        rcases h with rfl | rfl <;> cases op <;> decide
      intro word mem
      rw [tree, Tree.words, List.mem_append, List.mem_append, List.mem_singleton] at mem
      rcases mem with (mem | mem) | rfl
      · exact ihr word mem
      · exact ihl word mem
      · exact operator
  intro mem
  rcases mem_intercalate mem with comma | ⟨word, known, inside⟩
  · rcases h with rfl | rfl <;> exact absurd comma (by decide)
  · exact words word known inside

/-- What expansion makes of a formula written for the machine. -/
theorem Formula.expand_text (exact : language.ExactArithmetic IsName)
    (t : Formula IsName (Expander.constant? equates))
    (numerals : ∀ v : Int32, equates[decimal v.toInt]? = none)
    (operators : ∀ op : Operator, equates[op.mnemonic]? = none)
    {delimiter : UInt8} (comma : effectiveDelimiter delimiter = 44) :
    Expander.expandWith equates delimiter (t.tree.text Leaf.text) =
      .ok (t.tree.text Leaf.expanded) := by
  have noConstant : ¬ [36, 40] <:+: t.tree.text Leaf.text := by
    intro inside
    exact t.not_mem_text exact (Or.inl rfl) (inside.mem (by simp : (36 : UInt8) ∈ [36, 40]))
  have encoded : Utf8.encode (44 : UInt8).toNat = [44] := by decide
  rw [Expander.expandWith_of_plain (t.not_mem_text exact (Or.inr rfl)) noConstant, Expander.substitute,
    comma, encoded, Tree.tokens_text (Leaf.isToken_text exact) t.tree comma,
    t.map_replacement_words numerals operators]
  rfl

end Expansion

/-! ## The two evaluations -/

namespace Expander

/-- **Constant expressions and the machine agree.**  Let the language of constant expressions compute
formulas exactly.  Where no number in base ten and no operator is the name of an equate, a formula of
not too many tokens is folded exactly if its value lies between `-2 ^ 31` and `2 ^ 32 - 1`.  The machine
then answers the same word to the expanded expression, on stacks that are deep enough. -/
theorem evaluate_agrees [language : Constant.Language] {IsName : Bytes → Prop}
    (exact : language.ExactArithmetic IsName) (ex : Expander)
    (numerals : ∀ v : Int32, ex.table[decimal v.toInt]? = none)
    (operators : ∀ op : Operator, ex.table[op.mnemonic]? = none)
    (t : Formula IsName (constant? ex.table)) (short : (t.tree.words Leaf.text).length ≤ tokenLimit) :
    ((∃ v, evaluate ex.table t.bracketed = .ok v) ↔
      -2 ^ 31 ≤ t.value ∧ t.value ≤ 2 ^ 32 - 1) ∧
    ∀ v, evaluate ex.table t.bracketed = .ok v →
      ∀ depth : UInt64, t.tree.need ≤ (Machine.ofDepth depth).values.capacity →
        ∃ expr m,
          (ex.expand (Machine.ofDepth depth).delimiter (t.tree.text Leaf.text)).2 = .ok expr ∧
          (Machine.ofDepth depth).eval expr = (m, .ok v) := by
  rw [t.length_words] at short
  have steps : 2 * t.size + 3 < Constant.stepLimit := by
    simp only [tokenLimit, Constant.stepLimit] at *
    omega
  have assigned := exact.formula (constant? ex.table) t Constant.stepLimit steps
  have range : Literal.inRange t.value = true ↔ -2 ^ 31 ≤ t.value ∧ t.value ≤ 2 ^ 32 - 1 := by
    simp [Literal.inRange]
  -- the integer that a value is reduced from can only be that of the formula
  have folded : ∀ v, evaluate ex.table t.bracketed = .ok v ↔
      Literal.inRange t.value = true ∧ Int32.ofInt t.value = v := by
    intro v
    rw [evaluate_eq_ok_iff]
    constructor
    · rintro ⟨n, found, within⟩
      rwa [found.unique assigned] at within
    · intro within
      exact ⟨t.value, assigned, within⟩
  constructor
  · rw [← range]
    constructor
    · rintro ⟨v, found⟩
      exact ((folded v).mp found).1
    · intro within
      exact ⟨_, (folded _).mpr ⟨within, rfl⟩⟩
  · intro v found depth deep
    obtain ⟨-, rfl⟩ := (folded v).mp found
    obtain ⟨m, ran⟩ := t.eval_expanded short deep
    exact ⟨_, m, t.expand_text exact numerals operators rfl, ran⟩

attribute [local instance] Constant.interpreter

/-- `2147483647 * 2` is no word, but less `-1` it is an unsigned one. -/
theorem evaluate_agrees_of_unsigned :
    let ex : Expander := Expander.equate {} (ascii "N") (ascii "0xFFFFFFFF")
    evaluate ex.table (ascii "((2147483647*2)-N)") = .ok (-1) ∧
      ∃ expr m, (ex.expand 44 (ascii "N,2,2147483647,*,-")).2 = .ok expr ∧
        (Machine.ofDepth 3).eval expr = (m, .ok (-1)) := by
  intro ex
  have others : ∀ name, name ≠ ascii "N" → ex.table[name]? = none := by
    intro name other
    show ((∅ : Table Bytes Bytes).insert (ascii "N") (ascii "0xFFFFFFFF"))[name]? = none
    rw [Table.getElem?_put, if_neg other.symm]
    simp
  have numerals : ∀ v : Int32, ex.table[decimal v.toInt]? = none := by
    intro v
    refine others _ fun same => ?_
    have inside : (78 : UInt8) ∈ decimal v.toInt := by
      rw [same]
      decide
    exact Literal.not_mem_decimal (by decide) (by decide) _ inside
  have operators : ∀ op : Operator, ex.table[op.mnemonic]? = none := by
    intro op
    refine others _ ?_
    have all : ∀ op ∈ Operator.all, op.mnemonic ≠ ascii "N" := by decide
    exact all op op.mem_all
  have identifier : IsIdentifier (ascii "N") :=
    ⟨⟨'N', [], by decide, by decide +kernel, List.forall_mem_nil _⟩, by decide, by decide⟩
  have found : ex.table[ascii "N"]? = some (ascii "0xFFFFFFFF") := by
    show ((∅ : Table Bytes Bytes).insert (ascii "N") (ascii "0xFFFFFFFF"))[ascii "N"]? = _
    rw [Table.getElem?_put, if_pos rfl]
  have known : constant? ex.table (ascii "N") = some (-1) :=
    constant?_eq_some_iff.mpr ⟨_, -1, found, by decide +kernel, by decide⟩
  let t : Formula IsIdentifier (constant? ex.table) :=
    .node .sub (.node .mul (.leaf (.constant 2147483647)) (.leaf (.constant 2)))
      (.leaf (.named (ascii "N") (-1) identifier (by decide) known))
  have size : t.size = 5 := rfl
  have value : t.value = 4294967295 := by
    show (2147483647 : Int32).toInt * (2 : Int32).toInt - (-1) = 4294967295
    decide
  have agrees := evaluate_agrees Constant.exactArithmetic_interpreter ex numerals operators t
    (by rw [t.length_words, size]; decide)
  have folded : evaluate ex.table (ascii "((2147483647*2)-N)") = .ok (-1) := by decide +kernel
  exact ⟨folded, agrees.2 (-1) folded 3 (by show 3 ≤ _; decide)⟩

end Expander

end Rpn
