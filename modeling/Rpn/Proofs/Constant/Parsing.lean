import Rpn.Proofs.Constant.Lexing

/-!
# Formulas read from their lexemes

The readers of the grammar take fuel.  What they read is told here for any amount of it from some
bound on, and a bound of sixteen for each lexeme holds for every formula.

* `Constant.Grammar.level_of_operand` and `Constant.Grammar.level_operation` — an operand, and an
  operation on two operands, at any level of the grammar;
* `Constant.Grammar.program_assignment` — an operand that is assigned to a name;
* `Formula.expr` — the expression that a formula is read as;
* `Formula.operand_lexemes` — a formula is read back from its lexemes;
* `Formula.program_assignment` — and so is a whole program that assigns it.
-/

namespace Rpn

namespace Constant.Grammar

/-- Lexemes in front of which an expression of operators of level `n` and above ends. -/
inductive EndsAt (n : Nat) : List Lexeme → Prop
  | closing (bracket : Bracket) (rest : List Lexeme) : EndsAt n (.closing bracket :: rest)
  | newline (rest : List Lexeme) : EndsAt n (.newline :: rest)
  | assign (rest : List Lexeme) : EndsAt n (.assign :: rest)
  | operator {op : Dyadic} (rest : List Lexeme) : op.level < n → EndsAt n (.dyadic op :: rest)

theorem EndsAt.mono {m n : Nat} {lexemes : List Lexeme} (h : EndsAt m lexemes) (le : m ≤ n) :
    EndsAt n lexemes := by
  cases h with
  | closing bracket rest => exact .closing bracket rest
  | newline rest => exact .newline rest
  | assign rest => exact .assign rest
  | operator rest lt => exact .operator rest (Nat.lt_of_lt_of_le lt le)

/-- No operator of the level follows there. -/
theorem EndsAt.operations_eq {n : Nat} {lexemes : List Lexeme} (h : EndsAt n lexemes) (fuel : Nat)
    (isFirst : Bool) (left : Expr) :
    operations (fuel + 1) n isFirst left lexemes = .ok (left, lexemes) := by
  cases h with
  | closing bracket rest => rfl
  | newline rest => rfl
  | assign rest => rfl
  | @operator op rest lt =>
    rw [operations]
    show (if op.level < n then _ else _) = _
    rw [if_pos lt]
    rfl

/-- No call and no index follows there. -/
theorem EndsAt.accesses_eq {n : Nat} {lexemes : List Lexeme} (h : EndsAt n lexemes) (fuel : Nat)
    (e : Expr) : accesses (fuel + 1) e lexemes = .ok (e, lexemes) := by
  cases h <;> rfl

section Levels

variable {k n : Nat} {lexemes rest : List Lexeme} {e : Expr}

/-- At a level of operators, the next level is read first. -/
theorem level_succ (below : n < operandLevel) (head : lexemes.head? ≠ some .negation) (fuel : Nat) :
    level (fuel + 1) n lexemes = (do
      let (left, lexemes) ← level fuel (n + 1) lexemes
      operations fuel n true left lexemes) := by
  rw [level.eq_def]
  simp only [if_neg (Nat.not_le.mpr below)]
  split
  · exact absurd rfl head
  · rfl

/-- An operand is read at every level, where no operation follows. -/
theorem level_of_operand_of (h : ∀ fuel, k ≤ fuel → operand fuel lexemes = .ok (e, rest))
    (head : lexemes.head? ≠ some .negation) (le : n ≤ operandLevel)
    (ends : ∀ m, n ≤ m → ∀ fuel, operations (fuel + 1) m true e rest = .ok (e, rest))
    {fuel : Nat} (enough : k + 1 + (operandLevel - n) ≤ fuel) :
    level fuel n lexemes = .ok (e, rest) := by
  induction gap : operandLevel - n generalizing n fuel with
  | zero =>
    obtain ⟨fuel, rfl⟩ : ∃ f, fuel = f + 1 := ⟨fuel - 1, by omega⟩
    rw [level.eq_def]
    simp only [if_pos (show operandLevel ≤ n by omega)]
    exact h fuel (by omega)
  | succ gap ih =>
    obtain ⟨fuel, rfl⟩ : ∃ f, fuel = f + 1 + 1 := ⟨fuel - 2, by omega⟩
    have next : level (fuel + 1) (n + 1) lexemes = .ok (e, rest) :=
      ih (by omega) (fun m le => ends m (by omega)) (by omega) (by omega)
    rw [level_succ (by omega) head, next]
    exact ends n (Nat.le_refl n) fuel

theorem level_of_operand (h : ∀ fuel, k ≤ fuel → operand fuel lexemes = .ok (e, rest))
    (head : lexemes.head? ≠ some .negation) (le : n ≤ operandLevel) (ends : EndsAt n rest)
    {fuel : Nat} (enough : k + 1 + (operandLevel - n) ≤ fuel) :
    level fuel n lexemes = .ok (e, rest) :=
  level_of_operand_of h head le (fun _ le fuel => (ends.mono le).operations_eq fuel true e) enough

/-- An operation is read at its own level and at every weaker one. -/
theorem level_operation {op : Dyadic} {left right : List Lexeme} {l r : Expr}
    (hl : ∀ fuel, k ≤ fuel → ∀ tail, EndsAt operandLevel tail →
      operand fuel (left ++ tail) = .ok (l, tail))
    (hr : ∀ fuel, k ≤ fuel → ∀ tail, EndsAt operandLevel tail →
      operand fuel (right ++ tail) = .ok (r, tail))
    (headl : ∀ tail, (left ++ tail).head? ≠ some .negation)
    (headr : ∀ tail, (right ++ tail).head? ≠ some .negation)
    (le : n ≤ op.level) (ends : EndsAt 0 rest) {fuel : Nat}
    (enough : k + 2 + (operandLevel - n) ≤ fuel) :
    level fuel n (left ++ .dyadic op :: (right ++ rest)) = .ok (.combine op l r, rest) := by
  have limit : op.level < operandLevel := by cases op <;> decide
  induction gap : op.level - n generalizing n fuel with
  | zero =>
    obtain rfl : n = op.level := by omega
    obtain ⟨fuel, rfl⟩ : ∃ f, fuel = f + 1 + 1 := ⟨fuel - 2, by omega⟩
    -- the left operand ends in front of the operator, the right one in front of the rest
    have first : level (fuel + 1) (op.level + 1) (left ++ .dyadic op :: (right ++ rest)) =
        .ok (l, .dyadic op :: (right ++ rest)) := by
      refine level_of_operand (fun f hf => hl f hf _ (.operator _ limit)) (headl _) limit
        (.operator _ (Nat.lt_succ_self _)) ?_
      omega
    have second : level fuel (op.level + 1) (right ++ rest) = .ok (r, rest) := by
      refine level_of_operand (fun f hf => hr f hf _ (ends.mono (Nat.zero_le _))) (headr _) limit
        (ends.mono (Nat.zero_le _)) ?_
      omega
    obtain ⟨fuel, rfl⟩ : ∃ f, fuel = f + 1 := ⟨fuel - 1, by omega⟩
    rw [level_succ limit (headl _), first]
    show operations (fuel + 1 + 1) op.level true l (.dyadic op :: (right ++ rest)) = _
    rw [operations]
    show (if op.level < op.level then _ else
      if (!true && decide (op.level = comparisonLevel)) = true then _ else _) = _
    rw [if_neg (Nat.lt_irrefl _), if_neg (by simp), second]
    exact (ends.mono (Nat.zero_le _)).operations_eq fuel false _
  | succ gap ih =>
    obtain ⟨fuel, rfl⟩ : ∃ f, fuel = f + 1 + 1 := ⟨fuel - 2, by omega⟩
    have next : level (fuel + 1) (n + 1) (left ++ .dyadic op :: (right ++ rest)) =
        .ok (.combine op l r, rest) := ih (by omega) (by omega) (by omega)
    rw [level_succ (by omega) (headl _), next]
    exact (ends.mono (Nat.zero_le n)).operations_eq fuel true _

/-- An expression is neither a choice nor a part of a tuple, where neither `if` nor a comma
follows. -/
theorem expressions_of_level_of {fuel : Nat} (h : level fuel 0 lexemes = .ok (e, rest))
    (noChoice : rest.head? ≠ some .ifWord) (noComma : rest.head? ≠ some .comma) (mayTrail : Bool) :
    expressions (fuel + 2) mayTrail lexemes = .ok (e, rest) := by
  have tested : test (fuel + 1) lexemes = .ok (e, rest) := by
    rw [test, h]
    cases rest with
    | nil => rfl
    | cons x rest => cases x <;> first | rfl | exact absurd rfl noChoice
  rw [expressions, tested]
  cases rest with
  | nil => rfl
  | cons x rest => cases x <;> first | rfl | exact absurd rfl noComma

theorem expressions_of_level {fuel : Nat} (h : level fuel 0 lexemes = .ok (e, rest))
    (ends : EndsAt 0 rest) (mayTrail : Bool) :
    expressions (fuel + 2) mayTrail lexemes = .ok (e, rest) :=
  expressions_of_level_of h (by cases ends <;> simp) (by cases ends <;> simp) mayTrail

/-- An expression in brackets is an operand where no call and no index follows. -/
theorem operand_brackets {fuel : Nat} (head : lexemes.head? ≠ some (.closing .round))
    (h : expressions fuel true lexemes = .ok (e, .closing .round :: rest)) (ends : EndsAt n rest) :
    operand (fuel + 2) (.opening .round :: lexemes) = .ok (.paren e, rest) := by
  have bracketed : atom (fuel + 1) (.opening .round :: lexemes) = .ok (.paren e, rest) := by
    rw [atom, h]
    · rfl
    · rintro tail rfl
      exact head rfl
  show (atom (fuel + 1) (.opening .round :: lexemes) >>= _) = _
  rw [bracketed]
  exact ends.accesses_eq fuel _

end Levels

/-! ## Assignments -/

/-- The name that is assigned is read in front of the mark of the assignment. -/
theorem expressions_resultName {fuel : Nat} (enough : 15 ≤ fuel) (rest : List Lexeme) :
    expressions fuel false (.identifier resultName :: .assign :: rest) =
      .ok (.name resultName, .assign :: rest) := by
  obtain ⟨fuel, rfl⟩ : ∃ f, fuel = f + 2 := ⟨fuel - 2, by omega⟩
  have operand : ∀ fuel, 2 ≤ fuel → operand fuel (.identifier resultName :: .assign :: rest) =
      .ok (.name resultName, .assign :: rest) := by
    intro fuel enough
    obtain ⟨fuel, rfl⟩ : ∃ f, fuel = f + 2 := ⟨fuel - 2, by omega⟩
    rfl
  have read : level fuel 0 (.identifier resultName :: .assign :: rest) =
      .ok (.name resultName, .assign :: rest) := by
    refine level_of_operand operand (by simp) (Nat.zero_le operandLevel) (.assign rest) ?_
    simp only [operandLevel]
    omega
  exact expressions_of_level read (.assign rest) false

/-- An expression behind the mark of an assignment is what is assigned. -/
theorem statement_assignment {fuel : Nat} {lexemes rest : List Lexeme} {e : Expr}
    (enough : 15 ≤ fuel) (h : expressions fuel false lexemes = .ok (e, rest)) :
    statement fuel (.identifier resultName :: .assign :: lexemes) =
      .ok (.assign resultName e, rest) := by
  show (expressions fuel false (.identifier resultName :: .assign :: lexemes) >>= _) = _
  rw [expressions_resultName enough]
  show (expressions fuel false lexemes >>= _) = _
  rw [h]
  rfl

/-- An operand that is assigned to a name up to the end of the line is read as such, where sixteen
units of fuel are enough for each of its lexemes. -/
theorem program_assignment {text : Bytes} {lexemes : List Lexeme} {e : Expr}
    (scanned : Lexeme.scan text =
      .ok (.identifier resultName :: .assign :: (lexemes ++ [.newline])))
    (h : ∀ fuel, 16 * lexemes.length ≤ fuel →
      operand fuel (lexemes ++ [.newline]) = .ok (e, [.newline]))
    (head : (lexemes ++ [Lexeme.newline]).head? ≠ some .negation) :
    program text = .ok [.assign resultName e] := by
  have read : level (16 * lexemes.length + 77) 0 (lexemes ++ [.newline]) =
      .ok (e, [.newline]) := by
    refine level_of_operand h head (Nat.zero_le operandLevel) (.newline []) ?_
    simp only [operandLevel]
    omega
  have stated := statement_assignment (by omega) (expressions_of_level read (.newline []) false)
  have fuel : 16 * ((.identifier resultName :: .assign :: (lexemes ++ [.newline]) :
      List Lexeme).length + 2) = 16 * lexemes.length + 77 + 2 + 1 := by
    simp only [List.length_cons, List.length_append, List.length_nil]
    omega
  rw [program, scanned]
  show statements _ _ = _
  rw [fuel]
  show (statement _ (.identifier resultName :: _) >>= _) = _
  rw [stated]
  rfl

end Constant.Grammar

open Constant Grammar

variable {constant? : Bytes → Option Int}

/-- The expression that a leaf is read as. -/
def Leaf.expr : Leaf IsIdentifier constant? → Expr
  | .constant value =>
    if value.toInt < 0 then .monadic .minus (.integer value.toInt.natAbs)
    else .integer value.toInt.natAbs
  | .named name .. => .name name

/-- The expression that a formula is read as. -/
def Formula.expr : Formula IsIdentifier constant? → Expr
  | .leaf a => a.expr
  | .node op left right => .paren (.combine op.dyadic left.expr right.expr)

/-- The lexemes of a formula begin with neither `not` nor a closing bracket. -/
theorem Formula.exists_lexemes_eq_cons (t : Formula IsIdentifier constant?) :
    ∃ x rest, t.lexemes = x :: rest ∧ x ≠ .negation ∧ x ≠ .closing .round := by
  cases t with
  | leaf a =>
    cases a with
    | constant value =>
      rw [lexemes, Leaf.lexemes]
      split
      · exact ⟨_, _, rfl, by simp, by simp⟩
      · exact ⟨_, _, rfl, by simp, by simp⟩
    | named name => exact ⟨_, _, rfl, by simp, by simp⟩
  | node op left right => exact ⟨_, _, rfl, by simp, by simp⟩

theorem Formula.head?_lexemes (t : Formula IsIdentifier constant?) (rest : List Lexeme) :
    (t.lexemes ++ rest).head? ≠ some .negation ∧
      (t.lexemes ++ rest).head? ≠ some (.closing .round) := by
  obtain ⟨x, more, eq, noNegation, noBracket⟩ := t.exists_lexemes_eq_cons
  simp [eq, noNegation, noBracket]

/-- A leaf is read back from its lexemes. -/
theorem Leaf.operand_lexemes (a : Leaf IsIdentifier constant?) {rest : List Lexeme} {n : Nat}
    (ends : EndsAt n rest) (fuel : Nat) :
    operand (fuel + 3) (a.lexemes ++ rest) = .ok (a.expr, rest) := by
  have digits : ∀ m, operand (fuel + 2) (.integer m :: rest) = .ok (.integer m, rest) := by
    intro m
    show accesses (fuel + 1) (.integer m) rest = _
    exact ends.accesses_eq fuel _
  cases a with
  | constant value =>
    rw [lexemes, expr]
    split
    · show (operand (fuel + 2) (.integer value.toInt.natAbs :: rest) >>= _) = _
      rw [digits]
      rfl
    · show accesses (fuel + 2) (.integer value.toInt.natAbs) rest = _
      exact ends.accesses_eq (fuel + 1) _
  | named name =>
    show accesses (fuel + 2) (.name name) rest = _
    exact ends.accesses_eq (fuel + 1) _

/-- **A formula is read back from its lexemes**, with sixteen units of fuel for each of them. -/
theorem Formula.operand_lexemes (t : Formula IsIdentifier constant?) {rest : List Lexeme}
    {n fuel : Nat} (ends : EndsAt n rest) (enough : 16 * t.lexemes.length ≤ fuel) :
    operand fuel (t.lexemes ++ rest) = .ok (t.expr, rest) := by
  induction t generalizing rest n fuel with
  | leaf a =>
    obtain ⟨x, more, eq, -⟩ := (leaf a).exists_lexemes_eq_cons
    rw [eq, List.length_cons] at enough
    obtain ⟨fuel, rfl⟩ : ∃ f, fuel = f + 3 := ⟨fuel - 3, by omega⟩
    exact a.operand_lexemes ends fuel
  | node op left right ihl ihr =>
    simp only [lexemes, List.length_cons, List.length_append, List.length_nil] at enough
    obtain ⟨fuel, rfl⟩ : ∃ f, fuel = f + 4 := ⟨fuel - 4, by omega⟩
    have inside : level fuel 0
        (left.lexemes ++ .dyadic op.dyadic :: (right.lexemes ++ .closing .round :: rest)) =
        .ok (.combine op.dyadic left.expr right.expr, .closing .round :: rest) := by
      refine level_operation (k := 16 * max left.lexemes.length right.lexemes.length)
        (fun f hf tail ends => ihl ends ?_) (fun f hf tail ends => ihr ends ?_)
        (fun tail => (left.head?_lexemes tail).1) (fun tail => (right.head?_lexemes tail).1)
        (Nat.zero_le _) (.closing .round rest) ?_
      · omega
      · omega
      · simp only [operandLevel]
        omega
    have whole := expressions_of_level inside (.closing .round rest) true
    simpa [lexemes, expr] using operand_brackets (left.head?_lexemes _).2 whole ends

/-- A program that assigns a formula to a name is read as such. -/
theorem Formula.program_assignment (t : Formula IsIdentifier constant?) :
    program (assignment t.bracketed) =
      .ok [.assign resultName t.expr] :=
  Grammar.program_assignment t.scan_assignment
    (fun _ enough => t.operand_lexemes (.newline (n := 0) []) enough) (t.head?_lexemes _).1

end Rpn
