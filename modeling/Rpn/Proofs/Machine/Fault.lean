import Rpn.Proofs.Machine.FirstFault

/-!
# Why an expression can fail

On stacks that are equally high, the errors of an expression are few: there are too many tokens, or
there is no token and no value, or a token fails for one of the reasons that its kind allows.

* `Machine.TokenFault` — why a token can fail;
* `Machine.Aligned.step_fault` and `Machine.Aligned.steps_fault` — what fails has such a fault, a
  token and tokens in order;
* `Machine.Aligned.eval_fault` — every way in which an expression fails;
* `Machine.Aligned.eval_stackEmpty_iff` — when no token is to blame;
* `Machine.FailsAt.unknown_iff` and `Machine.TokenFault.is_operator_iff` — what the cause tells of the
  token;
* `Machine.eval_failure` — when an expression fails, where, and what it leaves.
-/

namespace Rpn.Machine

/-- Why a token can fail: nobody knows it, there is no room for its value, or it is an operator that
lacks a value, is not carried out, or divides by zero. -/
inductive TokenFault : Bytes → Error → Prop
  | unknown {token : Bytes} :
      Symbol.classify token = .unknown → TokenFault token (.unknownSymbol token)
  | full {token : Bytes} : Operator.ofMnemonic? token = none → TokenFault token .stackFull
  | operator {op : Operator} {cause : Error} :
      cause = .stackEmpty ∨ cause = .notImplemented ∨ cause = .divideByZero →
      TokenFault op.mnemonic (.under op.code cause)

variable {m before after : Machine} {token : Bytes} {words : List Bytes} {place : Nat}
  {e cause : Error}

/-! ## Tokens -/

theorem ofMnemonic?_of_classify (other : ∀ op, Symbol.classify token ≠ .operator op) :
    Operator.ofMnemonic? token = none := by
  cases found : Operator.ofMnemonic? token with
  | none => rfl
  | some op =>
    have kind : Symbol.classify token = .operator op := by
      rw [Symbol.classify, found]
    exact absurd kind (other op)

theorem push_error {value : Int32} {origin : Int64}
    (failed : (m.push value origin).2 = .error e) : e = .stackFull := by
  rcases push_cases m value origin with eq | eq <;> rw [eq] at failed <;> cases failed
  rfl

/-- A token that fails has a fault. -/
theorem Aligned.step_fault (h : m.Aligned) (failed : (m.step token).2 = .error e) :
    TokenFault token e := by
  cases kind : Symbol.classify token with
  | operator op =>
    rw [step_of_operator kind] at failed
    rcases applied : (m.apply op.code).2 with e' | value <;> rw [applied] at failed <;> cases failed
    obtain ⟨cause, rfl, known⟩ := h.apply_error applied
    rw [Symbol.classify_eq_operator_iff.mp kind]
    exact .operator known
  | register r =>
    rw [step, kind] at failed
    rw [push_error failed]
    exact .full (ofMnemonic?_of_classify (by simp [kind]))
  | literal value =>
    rw [step, kind] at failed
    rw [push_error failed]
    exact .full (ofMnemonic?_of_classify (by simp [kind]))
  | unknown =>
    rw [step, kind] at failed
    cases failed
    exact .unknown kind

theorem FailsAt.tokenFault (h : FailsAt m words place before token e after) (aligned : m.Aligned) :
    TokenFault token e :=
  (h.passed.aligned aligned).step_fault (by rw [h.failed])

/-- Tokens in order fail at one of them, which has a fault. -/
theorem Aligned.steps_fault (h : m.Aligned) {index : Nat}
    (failed : (m.steps index words).2 = .error e) :
    ∃ i token cause, e = .atToken i token cause ∧ token ∈ words ∧ TokenFault token cause := by
  have stopped : m.steps index words = ((m.steps index words).1, .error e) := by rw [← failed]
  obtain ⟨place, before, token, cause, rfl, first⟩ := steps_eq_error_iff.mp stopped
  exact ⟨_, token, cause, rfl, List.mem_of_getElem? first.found, first.tokenFault h⟩

theorem Aligned.size_pos_of_steps (h : m.Aligned) {index : Nat}
    (done : (m.steps index words).2 = .ok ()) (some : words ≠ []) :
    0 < (m.steps index words).1.values.size := by
  rcases h.steps_height index words with ⟨-, i, failed⟩ | simulated
  · rw [done] at failed
    cases failed
  · rw [done] at simulated
    exact heightSteps_pos simulated.symm some

/-! ## Expressions -/

section Expressions

variable {expr : Bytes}

/-- Every way in which an expression fails. -/
theorem Aligned.eval_fault (h : m.Aligned) (failed : (m.eval expr).2 = .error e) :
    (e = .tokenStorage ∧ tokenLimit < (tokens m.delimiter expr).length) ∨
    (e = .stackEmpty ∧ tokens m.delimiter expr = [] ∧ m.values.size = 0) ∨
    ∃ i token cause, e = .atToken i token cause ∧ token ∈ tokens m.delimiter expr ∧
      TokenFault token cause := by
  rcases Nat.lt_or_ge tokenLimit (tokens m.delimiter expr).length with long | short
  · rw [m.eval_of_length_gt long] at failed
    cases failed
    exact Or.inl ⟨rfl, long⟩
  · rcases ran : m.steps 0 (tokens m.delimiter expr) with ⟨m', cause | _⟩
    · rw [eval_of_steps_error short ran] at failed
      cases failed
      exact Or.inr (Or.inr (h.steps_fault (by rw [ran])))
    · rw [eval_of_steps_ok short ran] at failed
      rcases m'.top_cases with ⟨empty, eq⟩ | ⟨-, value, eq⟩ <;> rw [eq] at failed <;> cases failed
      refine Or.inr (Or.inl ⟨rfl, ?_⟩)
      by_cases none : tokens m.delimiter expr = []
      · rw [none] at ran
        cases ran
        exact ⟨none, empty⟩
      · have pos := h.size_pos_of_steps (by rw [ran]) none
        rw [ran] at pos
        exact absurd empty (Nat.ne_of_gt pos)

/-- An expression fails without blaming a token for an empty stack exactly if it has no token and
finds no value. -/
theorem Aligned.eval_stackEmpty_iff (h : m.Aligned) :
    (m.eval expr).2 = .error .stackEmpty ↔ tokens m.delimiter expr = [] ∧ m.values.size = 0 := by
  constructor
  · intro failed
    rcases h.eval_fault failed with ⟨other, -⟩ | ⟨-, found⟩ | ⟨i, token, cause, other, -⟩
    · cases other
    · exact found
    · cases other
  · rintro ⟨none, empty⟩
    have short : (tokens m.delimiter expr).length ≤ tokenLimit := by simp [none]
    rw [m.eval_of_length_le short, none]
    show m.top = .error .stackEmpty
    rw [top, Stack.peek?_of_size_eq_zero empty]

end Expressions

/-! ## The kind of the token -/

theorem mnemonic_injective {op op' : Operator} (same : op.mnemonic = op'.mnemonic) : op = op' := by
  have found := Operator.ofMnemonic?_mnemonic op
  rw [same, Operator.ofMnemonic?_mnemonic] at found
  exact (Option.some.inj found).symm

/-- The cause of a token blames an operator exactly if the token is its mnemonic. -/
theorem TokenFault.is_operator_iff (fault : TokenFault token cause) (n : Int64) :
    Error.is (.operator n) cause = true ↔ ∃ op : Operator, op.code = n ∧ token = op.mnemonic := by
  have unmatched : Operator.ofMnemonic? token = none →
      ¬ ∃ op : Operator, op.code = n ∧ token = op.mnemonic := by
    rintro none ⟨op, -, rfl⟩
    rw [Operator.ofMnemonic?_mnemonic] at none
    cases none
  cases fault with
  | unknown unknown =>
    have other := unmatched (Symbol.classify_eq_unknown_iff.mp unknown).1
    exact iff_of_false (by simp [Error.is, Error.same]) other
  | full none => exact iff_of_false (by simp [Error.is, Error.same]) (unmatched none)
  | @operator op cause known =>
    have alone : Error.is (.operator n) cause = false := by
      rcases known with rfl | rfl | rfl <;> rfl
    rw [Error.is_operator_under, alone, Bool.or_false, decide_eq_true_iff]
    constructor
    · rintro rfl
      exact ⟨op, rfl, rfl⟩
    · rintro ⟨op', rfl, same⟩
      rw [mnemonic_injective same]

/-- The cause is that nobody knows the token exactly if it is no operator, register or literal. -/
theorem FailsAt.unknown_iff (h : FailsAt m words place before token cause after)
    (aligned : m.Aligned) :
    cause = .unknownSymbol token ↔ Operator.ofMnemonic? token = none ∧
      Register.ofMnemonic? token = none ∧ Literal.parse? token = none := by
  rw [← Symbol.classify_eq_unknown_iff]
  constructor
  · rintro rfl
    cases h.tokenFault aligned with
    | unknown unknown => exact unknown
  · intro unknown
    have failed := h.failed
    rw [step, unknown] at failed
    cases failed
    rfl

/-- A token that nobody knows changes nothing. -/
theorem FailsAt.eq_of_unknown (h : FailsAt m words place before token (.unknownSymbol token) after)
    (aligned : m.Aligned) : after = before := by
  have unknown := Symbol.classify_eq_unknown_iff.mpr ((h.unknown_iff aligned).mp rfl)
  have failed := h.failed
  rw [step, unknown] at failed
  cases failed
  rfl

/-- **An expression tells where it fails.**  On stacks that are equally high, an expression of too many
tokens is refused, and changes nothing; without a token and without a value the stack is empty, and 0
is shown; and a token is blamed exactly if it is the first that fails, with its place and its cause,
and the machine is what that token left.  The cause is that nobody knows the token exactly if it is
no operator, register or literal, and then it changed nothing; an operator is named by the cause
exactly if the token is its mnemonic. -/
theorem eval_failure (aligned : m.Aligned) (expr : Bytes) :
    let words := tokens m.delimiter expr
    ((m.eval expr).2 = .error .tokenStorage ↔ tokenLimit < words.length) ∧
    (tokenLimit < words.length → (m.eval expr).1 = m) ∧
    ((m.eval expr).2 = .error .stackEmpty ↔ words = [] ∧ m.values.toList = []) ∧
    ((m.eval expr).2 = .error .stackEmpty → m.evalShown expr = 0) ∧
    (∀ after i token cause, m.eval expr = (after, .error (.atToken i token cause)) ↔
      words.length ≤ tokenLimit ∧
        ∃ (place : Nat) (before : Machine), i.toInt = place ∧
          FailsAt m words place before token cause after) ∧
    ∀ place before token cause after, FailsAt m words place before token cause after →
      (cause = .unknownSymbol token ↔ Operator.ofMnemonic? token = none ∧
        Register.ofMnemonic? token = none ∧ Literal.parse? token = none) ∧
      (cause = .unknownSymbol token → after = before) ∧
      ∀ n, Error.is (.operator n) cause = true ↔
        ∃ op : Operator, op.code = n ∧ token = op.mnemonic := by
  intro words
  have empty_iff : m.values.toList = [] ↔ m.values.size = 0 := by
    rw [← List.length_eq_zero_iff, Stack.length_toList]
  refine ⟨⟨?_, ?_⟩, ?_, ?_, ?_, ?_, ?_⟩
  · intro failed
    rcases aligned.eval_fault failed with ⟨-, long⟩ | ⟨other, -⟩ | ⟨_, _, _, other, -⟩
    · exact long
    · cases other
    · cases other
  · intro long
    rw [m.eval_of_length_gt long]
  · intro long
    rw [m.eval_of_length_gt long]
  · rw [empty_iff]
    exact aligned.eval_stackEmpty_iff
  · intro failed
    rw [evalShown, failed]
  · intro after i token cause
    exact eval_eq_atToken_iff
  · intro place before token cause after h
    refine ⟨h.unknown_iff aligned, ?_, (h.tokenFault aligned).is_operator_iff⟩
    rintro rfl
    exact h.eq_of_unknown aligned

/-- In `3,0,1,/,x` the quotient is to blame, and not the unknown token behind it; the 3 is left. -/
theorem eval_failure_of_quotient :
    let m : Machine := ofDepth 4
    let expr := ascii "3,0,1,/,x"
    let cause := Error.under 3 .divideByZero
    m.Aligned ∧ (m.eval expr).2 = .error (.atToken 3 (ascii "/") cause) ∧
      (m.eval expr).1.values.toList = [3] ∧
      ∃ before, FailsAt m (tokens m.delimiter expr) 3 before (ascii "/") cause (m.eval expr).1 := by
  intro m expr cause
  have aligned : m.Aligned := ⟨rfl, rfl, by decide⟩
  have answer : (m.eval expr).2 = .error (.atToken 3 (ascii "/") cause) := by decide
  have failed : m.eval expr = ((m.eval expr).1, .error (.atToken 3 (ascii "/") cause)) := by
    rw [← answer]
  obtain ⟨-, -, -, -, blamed, -⟩ := eval_failure aligned expr
  obtain ⟨-, place, before, index, h⟩ := (blamed _ _ _ _).mp failed
  obtain rfl : place = 3 := Int.ofNat.inj index.symm
  exact ⟨aligned, answer, by decide, before, h⟩

end Rpn.Machine
