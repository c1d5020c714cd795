import Rpn.Proofs.Literal
import Rpn.Proofs.Machine.Effect
import Rpn.Proofs.Tokens

/-!
# Expressions as trees

An expression that leaves one value is a tree written from the leaves up: an operator behind its
two operands.  A tree has a value of its own, and needs a number of places on the stack.

* `Tree` — trees over any kind of leaf, with `Tree.words` and `Tree.text`, `Tree.value?` and
  `Tree.need`;
* `Tree.steps_words` and `Tree.steps_words_error` — the tokens of a tree leave its value on top
  exactly if it has one and there are places enough, whatever is underneath;
* `Operand` — constants and registers as leaves, and `eval_tree` for the texts of their trees.
-/

namespace Rpn

/-- An expression as a tree.  The lower operand is evaluated first and lies below the upper
one. -/
inductive Tree (α : Type) where
  | leaf (a : α)
  | node (op : BinaryOp) (upper lower : Tree α)
  deriving DecidableEq, Repr

namespace Tree

variable {α : Type}

/-- The tokens of a tree, an operator behind its operands. -/
def words (spell : α → Bytes) : Tree α → List Bytes
  | .leaf a => [spell a]
  | .node op upper lower =>
    lower.words spell ++ upper.words spell ++ [(Operator.binary op).mnemonic]

/-- The tokens of a tree joined by commas. -/
def text (spell : α → Bytes) (t : Tree α) : Bytes :=
  [44].intercalate (t.words spell)

/-- The value of a tree, unless it divides by zero somewhere. -/
def value? (value : α → Int32) : Tree α → Option Int32
  | .leaf a => some (value a)
  | .node op upper lower =>
    match lower.value? value, upper.value? value with
    | some b, some a => op.compute? a b
    | _, _ => none

/-- The number of places on the stack that the evaluation of a tree takes. -/
def need : Tree α → Nat
  | .leaf _ => 1
  | .node _ upper lower => max lower.need (1 + upper.need)

/-- The number of the register that the value of a tree was read from. -/
def origin (origin : α → Int64) : Tree α → Int64
  | .leaf a => origin a
  | .node .. => Register.noCode

theorem need_pos (t : Tree α) : 0 < t.need := by
  induction t with
  | leaf a => exact Nat.one_pos
  | node op upper lower _ ihl => exact Nat.lt_of_lt_of_le ihl (Nat.le_max_left _ _)

theorem value?_node {value : α → Int32} {op : BinaryOp} {upper lower : Tree α} {a b : Int32}
    (hb : lower.value? value = some b) (ha : upper.value? value = some a) :
    (node op upper lower).value? value = op.compute? a b := by
  rw [value?, hb, ha]

theorem exists_of_value?_node {value : α → Int32} {op : BinaryOp} {upper lower : Tree α}
    {v : Int32} (h : (node op upper lower).value? value = some v) :
    ∃ a b, upper.value? value = some a ∧ lower.value? value = some b ∧
      op.compute? a b = some v := by
  rw [value?] at h
  cases hb : lower.value? value with
  | none =>
    rw [hb] at h
    cases h
  | some b =>
    cases ha : upper.value? value with
    | none =>
      rw [hb, ha] at h
      cases h
    | some a =>
      rw [hb, ha] at h
      exact ⟨a, b, rfl, rfl, h⟩

/-! ## The tokens of a tree on a machine -/

/-- How leaves are written and what they stand for while the registers hold given words: the token
of a leaf pushes its value and its origin. -/
def Reads (registers : Registers) (spell : α → Bytes) (value : α → Int32) (origin : α → Int64) :
    Prop :=
  ∀ (a : α) (m : Machine), m.registers = registers →
    m.step (spell a) = m.push (value a) (origin a)

section Steps

variable {registers : Registers} {spell : α → Bytes} {value : α → Int32} {origin : α → Int64}

open Machine

/-- A tree that has a value and places enough pushes its value. -/
theorem steps_words (reads : Reads registers spell value origin) (t : Tree α) {m : Machine}
    (regs : m.registers = registers) (aligned : m.Aligned) {v : Int32}
    (hv : t.value? value = some v) (fits : m.values.size + t.need ≤ m.values.capacity)
    (index : Nat) :
    m.steps index (t.words spell) = (m.above v (originWord (t.origin origin)), .ok ()) := by
  induction t generalizing m v index with
  | leaf a =>
    have room : m.values.size < m.values.capacity := fits
    rw [value?] at hv
    cases hv
    simp only [words, steps, reads a m regs, aligned.push_eq, if_pos room]
    rfl
  | node op upper lower ihu ihl =>
    obtain ⟨a, b, ha, hb, hc⟩ := exists_of_value?_node hv
    have fits' : m.values.size + max lower.need (1 + upper.need) ≤ m.values.capacity := fits
    have room : m.values.size < m.values.capacity := by
      have pos := lower.need_pos
      omega
    have fitsUpper : m.values.size + 1 + upper.need ≤ m.values.capacity := by omega
    have hl := ihl regs aligned hb (by omega) index
    have hu := ihu (m := m.above b (originWord (lower.origin origin))) regs
      (aligned.above room _ _) ha fitsUpper (index + (lower.words spell).length)
    have operands : m.steps index (lower.words spell ++ upper.words spell) =
        ((m.above b (originWord (lower.origin origin))).above a
          (originWord (upper.origin origin)), .ok ()) := by
      rw [steps_append_of_ok hl]
      exact hu
    rw [words, steps_append_of_ok operands]
    simp only [steps, aligned.step_binary room, hc]
    rfl

/-- A tree without a value, or without places enough, makes some token fail. -/
theorem steps_words_error (reads : Reads registers spell value origin) (t : Tree α) {m : Machine}
    (regs : m.registers = registers) (aligned : m.Aligned)
    (h : t.value? value = none ∨ m.values.capacity < m.values.size + t.need) (index : Nat) :
    ∃ m' e, m.steps index (t.words spell) = (m', .error e) := by
  induction t generalizing m index with
  | leaf a =>
    have full : ¬ m.values.size < m.values.capacity := by
      rcases h with h | h
      · cases h
      · exact Nat.not_lt.2 (Nat.le_of_lt_succ h)
    refine ⟨m, .atToken (Int64.ofNat index) (spell a) .stackFull, ?_⟩
    simp only [words, steps, reads a m regs, aligned.push_eq, if_neg full]
  | node op upper lower ihu ihl =>
    rw [words, List.append_assoc]
    -- the first of lower operand, upper operand and operator that fails
    by_cases lowerFails : lower.value? value = none ∨
        m.values.capacity < m.values.size + lower.need
    · obtain ⟨m', e, eq⟩ := ihl regs aligned lowerFails index
      exact ⟨m', e, steps_append_of_error eq _⟩
    · rw [not_or, Nat.not_lt] at lowerFails
      obtain ⟨b, hb⟩ := Option.ne_none_iff_exists'.1 lowerFails.1
      have room : m.values.size < m.values.capacity := by
        have pos := lower.need_pos
        omega
      rw [steps_append_of_ok (steps_words reads lower regs aligned hb lowerFails.2 index)]
      have aligned₁ := aligned.above room b (originWord (lower.origin origin))
      by_cases upperFails : upper.value? value = none ∨
          m.values.capacity < m.values.size + 1 + upper.need
      · obtain ⟨m', e, eq⟩ := ihu (m := m.above b (originWord (lower.origin origin))) regs
          aligned₁ upperFails (index + (lower.words spell).length)
        exact ⟨m', e, steps_append_of_error eq _⟩
      · rw [not_or, Nat.not_lt] at upperFails
        obtain ⟨a, ha⟩ := Option.ne_none_iff_exists'.1 upperFails.1
        have hc : op.compute? a b = none := by
          rw [← value?_node hb ha]
          rcases h with h | h
          · exact h
          · rw [need] at h
            omega
        rw [steps_append_of_ok (steps_words reads upper (m := m.above b _) regs aligned₁ ha
          upperFails.2 _)]
        have failed := aligned.step_binary room op a (originWord (upper.origin origin)) b
          (originWord (lower.origin origin))
        rw [hc] at failed
        simp only [steps, failed]
        exact ⟨m, _, rfl⟩

end Steps

theorem isToken_of_mem_words {spell : α → Bytes} (h : ∀ a, IsToken 44 (spell a)) (t : Tree α) :
    ∀ word ∈ t.words spell, IsToken 44 word := by
  induction t with
  | leaf a => exact List.forall_mem_singleton.2 (h a)
  | node op upper lower ihu ihl =>
    have mnemonic : IsToken 44 (Operator.binary op).mnemonic := by
      cases op <;> exact ⟨by decide, by decide, by decide⟩
    intro word hmem
    rcases List.mem_append.1 hmem with hmem | hmem
    · rcases List.mem_append.1 hmem with hmem | hmem
      · exact ihl word hmem
      · exact ihu word hmem
    · rw [List.mem_singleton.1 hmem]
      exact mnemonic

theorem tokens_text {spell : α → Bytes} (h : ∀ a, IsToken 44 (spell a)) (t : Tree α)
    {delimiter : UInt8} (comma : effectiveDelimiter delimiter = 44) :
    tokens delimiter (t.text spell) = t.words spell := by
  have joined := tokens_intercalate delimiter (comma ▸ isToken_of_mem_words h t)
  rw [comma] at joined
  exact joined

end Tree

/-! ## Constants and registers -/

/-- A leaf of an expression: a constant or a register. -/
inductive Operand where
  | constant (value : Int32)
  | register (r : Register)
  deriving DecidableEq, Repr

namespace Operand

/-- The token of an operand, a constant in base ten. -/
def text : Operand → Bytes
  | .constant value => decimal value.toInt
  | .register r => r.mnemonic

/-- The value of an operand while the registers hold given words. -/
def value (registers : Registers) : Operand → Int32
  | .constant value => value
  | .register r => registers.get r

/-- The number of the register that an operand is read from. -/
def origin : Operand → Int64
  | .constant _ => Register.noCode
  | .register r => r.code

theorem isToken_text (a : Operand) : IsToken 44 a.text := by
  cases a with
  | constant value => exact Literal.isToken_of_parse? (Literal.parse?_decimal value)
  | register r => cases r <;> exact ⟨by decide, by decide, by decide⟩

theorem reads (registers : Registers) :
    Tree.Reads registers text (value registers) origin := by
  rintro (v | r) m rfl
  · have known := Symbol.classify_of_parse? (Literal.parse?_decimal v)
    rw [Machine.step, text, known]
    rfl
  · rw [Machine.step, text, Symbol.classify_register]
    rfl

end Operand

open Machine in
/-- **The text of a tree computes its value.**  On a machine with equally high and equally deep
stacks, an expression of not too many tokens succeeds exactly if its tree has a value and the
stacks have places enough.  The value then lies on what was there before, beside the register that
it was read from, and nothing else has changed. -/
theorem eval_tree (t : Tree Operand) (m : Machine)
    (short : (t.words Operand.text).length ≤ tokenLimit)
    (comma : effectiveDelimiter m.delimiter = 44) (aligned : m.Aligned) :
    ((∃ m' v, m.eval (t.text Operand.text) = (m', .ok v)) ↔
      (∃ v, t.value? (Operand.value m.registers) = some v) ∧
        m.values.size + t.need ≤ m.values.capacity) ∧
    ∀ m' v, m.eval (t.text Operand.text) = (m', .ok v) →
      t.value? (Operand.value m.registers) = some v ∧
      m'.values.toList = m.values.toList ++ [v] ∧
      m'.origins.toList = m.origins.toList ++ [originWord (t.origin Operand.origin)] ∧
      m'.clearStacks = m.clearStacks := by
  have words := Tree.tokens_text Operand.isToken_text t comma
  have run := m.eval_of_length_le (words.symm ▸ short)
  rw [words] at run
  have reads := Operand.reads m.registers
  by_cases h : (∃ v, t.value? (Operand.value m.registers) = some v) ∧
      m.values.size + t.need ≤ m.values.capacity
  · obtain ⟨⟨v, hv⟩, fits⟩ := h
    rw [Tree.steps_words reads t rfl aligned hv fits 0] at run
    have eq : m.eval (t.text Operand.text) =
        (m.above v (originWord (t.origin Operand.origin)), .ok v) := run
    refine ⟨⟨fun _ => ⟨⟨v, hv⟩, fits⟩, fun _ => ⟨_, v, eq⟩⟩, ?_⟩
    intro m' v' eq'
    rw [eq] at eq'
    cases eq'
    exact ⟨hv, Stack.toList_above _ _, Stack.toList_above _ _, rfl⟩
  · have fails : t.value? (Operand.value m.registers) = none ∨
        m.values.capacity < m.values.size + t.need := by
      rw [not_and_or, Nat.not_le] at h
      rcases h with h | h
      · exact Or.inl (Option.eq_none_iff_forall_ne_some.2 fun v hv => h ⟨v, hv⟩)
      · exact Or.inr h
    obtain ⟨m₁, e, failed⟩ := Tree.steps_words_error reads t rfl aligned fails 0
    rw [failed] at run
    have eq : m.eval (t.text Operand.text) = (m₁, .error e) := run
    have never : ∀ m' v, m.eval (t.text Operand.text) ≠ (m', .ok v) := by
      intro m' v eq'
      rw [eq] at eq'
      cases eq'
    exact ⟨⟨fun ⟨m', v, eq'⟩ => absurd eq' (never m' v), fun possible => absurd possible h⟩,
      fun m' v eq' => absurd eq' (never m' v)⟩

/-- `-3,eax,*,7,-` just fits on stacks of depth two: `7 - (eax * -3)`. -/
theorem eval_tree_of_depth_two :
    let t : Tree Operand :=
      .node .sub (.leaf (.constant 7)) (.node .mul (.leaf (.register .eax)) (.leaf (.constant (-3))))
    let m : Machine := { Machine.ofDepth 2 with registers := Registers.set {} .eax 5 }
    t.text Operand.text = ascii "-3,eax,*,7,-" ∧
      ∃ m', m.eval (t.text Operand.text) = (m', .ok 22) ∧ m'.values.toList = [22] := by
  intro t m
  have spec := eval_tree t m (by decide) rfl ⟨rfl, rfl, by decide⟩
  have hv : t.value? (Operand.value m.registers) = some 22 := by decide
  obtain ⟨m', v, eq⟩ := spec.1.2 ⟨⟨22, hv⟩, by decide⟩
  obtain ⟨hv', top, -⟩ := spec.2 m' v eq
  obtain rfl : v = 22 := Option.some.inj (hv'.symm.trans hv)
  exact ⟨by decide, m', eq, top⟩

end Rpn
