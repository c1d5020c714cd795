import Rpn.Proofs.Constant.Running

/-!
# An integer behind signs and complements

The interpreter reads `+`, `-` and `~` in front of an operand as operators, any number of them.

* `Constant.Prefix.scanFrom_bytes`, `Constant.Prefix.operand_lexemes`, `Constant.Prefix.emits` and
  `Constant.Prefix.pushes` — an integer behind such operators, read, compiled and run;
* `Constant.assigns_prefixed` — it is run to its exact value, where the line ends there;
* `Constant.program_of_name` — where a name follows instead, there is no program to run.
-/

namespace Rpn.Constant

namespace Prefix

/-- The lexeme of an operator; signs are those of sums. -/
def lexeme : Prefix → Lexeme
  | .plus => .dyadic .plus
  | .minus => .dyadic .minus
  | .complement => .complement

/-- The operator of expressions. -/
def monadic : Prefix → Monadic
  | .plus => .plus
  | .minus => .minus
  | .complement => .complement

/-- The expression of an integer behind operators. -/
def expr (ops : List Prefix) (n : Nat) : Expr :=
  ops.foldr (fun op e => .monadic op.monadic e) (.integer n)

/-- The code of an integer behind operators. -/
def code (ops : List Prefix) (n : Nat) : List Instruction :=
  ops.foldr (fun op code => code ++ [.monadic op.monadic]) [.push (.int n)]

/-! ## Lexemes -/

open Lexeme

theorem read_byte (op : Prefix) {c : UInt8} (noEqual : c ≠ 61) (noStar : c ≠ 42) (text : Bytes) :
    read (op.byte :: c :: text) = .ok (op.lexeme, c :: text) := by
  cases op with
  | plus => exact read_operator .add noEqual noStar text
  | minus => exact read_operator .sub noEqual noStar text
  | complement =>
    show read (126 :: c :: text) = _
    rw [read_mark (by decide)]
    simp [mark, marks, ascii, lexeme]

/-- Behind operators there is a byte as well that makes no other mark of them. -/
theorem exists_bytes_append (ops : List Prefix) {b : UInt8} (noEqual : b ≠ 61) (noStar : b ≠ 42)
    (rest : Bytes) :
    ∃ c more, ops.map byte ++ b :: rest = c :: more ∧ c ≠ 61 ∧ c ≠ 42 := by
  cases ops with
  | nil => exact ⟨b, rest, rfl, noEqual, noStar⟩
  | cons op ops =>
    refine ⟨op.byte, ops.map byte ++ b :: rest, rfl, ?_, ?_⟩
    · cases op <;> decide
    · cases op <;> decide

/-- The lexemes of operators are found in front of any text that they do not join. -/
theorem scanFrom_bytes (ops : List Prefix) {b : UInt8} (noEqual : b ≠ 61) (noStar : b ≠ 42)
    (rest : Bytes) (fuel depth : Nat) :
    scanFrom (ops.length + fuel) depth false (ops.map byte ++ b :: rest) =
      (scanFrom fuel depth false (b :: rest)).map (ops.map lexeme ++ ·) := by
  induction ops with
  | nil =>
    rw [List.length_nil, Nat.zero_add]
    show scanFrom fuel depth false (b :: rest) = _
    cases scanFrom fuel depth false (b :: rest) <;> rfl
  | cons op ops ih =>
    obtain ⟨c, more, eq, noEqual', noStar'⟩ := exists_bytes_append ops noEqual noStar rest
    have plain : op.byte ∉ skippedBytes := by cases op <;> decide
    have found := op.read_byte noEqual' noStar' more
    have level : depthAfter depth op.lexeme = .ok depth := by cases op <;> rfl
    rw [eq] at ih
    rw [List.map_cons, List.cons_append, eq, List.length_cons, Nat.add_right_comm,
      scanFrom_lexeme plain found level, ih]
    cases scanFrom fuel depth false (b :: rest) <;> rfl

/-! ## The expression -/

open Grammar

/-- Operators are read in front of an operand. -/
theorem operand_lexemes (ops : List Prefix) {lexemes rest : List Lexeme} {n fuel : Nat}
    (h : operand fuel lexemes = .ok (.integer n, rest)) :
    operand (ops.length + fuel) (ops.map lexeme ++ lexemes) = .ok (expr ops n, rest) := by
  induction ops with
  | nil =>
    rw [List.length_nil, Nat.zero_add]
    exact h
  | cons op ops ih =>
    rw [List.length_cons, Nat.add_right_comm]
    cases op with
    | plus =>
      show (operand (ops.length + fuel) (ops.map lexeme ++ lexemes) >>= _) = _
      rw [ih]
      rfl
    | minus =>
      show (operand (ops.length + fuel) (ops.map lexeme ++ lexemes) >>= _) = _
      rw [ih]
      rfl
    | complement =>
      show (operand (ops.length + fuel) (ops.map lexeme ++ lexemes) >>= _) = _
      rw [ih]
      rfl

/-- The lexemes of an integer behind operators. -/
def lexemes (ops : List Prefix) (n : Nat) : List Lexeme :=
  ops.map lexeme ++ [.integer n]

/-- An integer behind operators is an operand, where no call and no index follows. -/
theorem operand_integer (ops : List Prefix) (n : Nat) {rest : List Lexeme}
    (ends : ∀ fuel e, accesses (fuel + 1) e rest = .ok (e, rest)) (fuel : Nat)
    (enough : ops.length + 3 ≤ fuel) :
    operand fuel (lexemes ops n ++ rest) = .ok (expr ops n, rest) := by
  obtain ⟨fuel, rfl⟩ := Nat.exists_eq_add_of_le enough
  have read : operand (fuel + 3) (.integer n :: rest) = .ok (.integer n, rest) := by
    show (accesses (fuel + 2) (.integer n) rest) = _
    exact ends (fuel + 1) _
  have whole := operand_lexemes ops read
  rw [lexemes, List.append_assoc, Nat.add_assoc, Nat.add_comm 3 fuel]
  exact whole

theorem head?_lexemes (ops : List Prefix) (n : Nat) (rest : List Lexeme) :
    (lexemes ops n ++ rest).head? ≠ some .negation := by
  cases ops with
  | nil => simp [lexemes]
  | cons op ops => cases op <;> simp [lexemes, lexeme]

/-! ## Code -/

/-- The compiler makes the code of an integer behind operators. -/
theorem emits (ops : List Prefix) (n : Nat) (scope : Scope) :
    Emits ((expr ops n).emit scope .value) (code ops n) () := by
  induction ops with
  | nil => exact (emits_emitInteger n).settle
  | cons op ops ih =>
    cases op with
    | plus => exact ih.seq (emits_emitSized (.monadic .plus) 1).settle
    | minus => exact ih.seq (emits_emitSized (.monadic .minus) 1).settle
    | complement => exact ih.seq (emits_emitSized (.monadic .complement) 1).settle

/-- Its code puts the value on the stack. -/
theorem pushes (ops : List Prefix) (n : Nat) : Pushes (code ops n) (.int (value ops n)) := by
  induction ops with
  | nil => exact pushes_push (.int n)
  | cons op ops ih =>
    cases op with
    | plus => exact ih.monadic rfl
    | minus => exact ih.monadic rfl
    | complement => exact ih.monadic rfl

theorem length_code (ops : List Prefix) (n : Nat) : (code ops n).length = ops.length + 1 := by
  induction ops with
  | nil => rfl
  | cons op ops ih =>
    show (code ops n ++ [Instruction.monadic op.monadic]).length = _
    rw [List.length_append, ih]
    rfl

end Prefix

open Prefix Lexeme

variable {constant? : Bytes → Option Int} {text : Bytes} {ops : List Prefix} {n limit : Nat}

/-- An integer behind operators is run to its exact value. -/
theorem assigns_prefixed
    (scanned : scan (assignment text) =
      .ok (.identifier resultName :: .assign :: (lexemes ops n ++ [.newline])))
    (enough : ops.length + 4 < limit) :
    interpreter.Assigns limit constant? text (value ops n) := by
  have read : Grammar.program (assignment text) = .ok [.assign resultName (expr ops n)] := by
    refine Grammar.program_assignment scanned (fun fuel enough => ?_) (head?_lexemes ops n _)
    refine operand_integer ops n (fun fuel e => rfl) fuel ?_
    simp only [lexemes, List.length_append, List.length_map, List.length_singleton] at enough
    omega
  refine assigns_of_emits read (emits ops n _) (pushes ops n) ?_
  rw [length_code]
  exact enough

/-- A program that is not read assigns nothing. -/
theorem not_assigns_of_program {failure : Failure}
    (refused : Grammar.program (assignment text) = .error failure) (k : Int) :
    ¬ interpreter.Assigns limit constant? text k := by
  intro assigned
  obtain ⟨globals, run, -⟩ := assigned
  have failed : interpreter.run limit constant? (assignment text) = .error failure := by
    show (Grammar.program (assignment text) >>= _) = _
    rw [refused]
    rfl
  rw [failed] at run
  cases run

/-- Where a name stands right behind the integer, the text is no expression. -/
theorem program_of_name {name : Bytes}
    (scanned : scan (assignment text) =
      .ok (.identifier resultName :: .assign ::
        (lexemes ops n ++ [.identifier name, .newline]))) :
    Grammar.program (assignment text) = .error .malformed := by
  let rest : List Lexeme := [.identifier name, .newline]
  have read : Grammar.level (16 * (lexemes ops n).length + 93) 0 (lexemes ops n ++ rest) =
      .ok (expr ops n, rest) := by
    refine Grammar.level_of_operand_of (operand_integer ops n fun _ _ => rfl) (head?_lexemes ops n _)
      (Nat.zero_le _) (fun _ _ _ => rfl) ?_
    simp only [lexemes, List.length_append, List.length_map, List.length_singleton,
      Grammar.operandLevel]
    omega
  have stated := Grammar.statement_assignment (by omega)
    (Grammar.expressions_of_level_of read (by simp [rest]) (by simp [rest]) false)
  have fuel : 16 * ((.identifier resultName :: .assign :: (lexemes ops n ++ rest) :
      List Lexeme).length + 2) = 16 * (lexemes ops n).length + 93 + 2 + 1 := by
    simp only [List.length_cons, List.length_append, rest, List.length_nil]
    omega
  rw [Grammar.program, scanned]
  show Grammar.statements _ _ = _
  rw [fuel]
  show (Grammar.statement _ (.identifier resultName :: _) >>= _) = _
  rw [stated]
  rfl

end Rpn.Constant
