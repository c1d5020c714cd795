import Rpn.Proofs.Machine.FirstFault
import Rpn.Proofs.Tokens

/-!
# Expressions joined by a delimiter

An expression behind another is evaluated on the stacks that the other left, as if it stood alone;
only the places of its tokens are counted on.

* `Error.delayed` — an error of a token that is counted further on, and `Machine.steps_delayed` for
  tokens in order;
* `Machine.eval_append` — two expressions joined by the delimiter are evaluated one after the other.
-/

namespace Rpn

/-- An error at a token, counted from a place that is further on; any other error is the same. -/
def Error.delayed (count : Nat) : Error → Error
  | .atToken index token cause => .atToken (index + Int64.ofNat count) token cause
  | e => e

namespace Machine

variable {m : Machine} {front rest : Bytes}

/-- Tokens that are counted from a later place do the same, and tell a later place. -/
theorem steps_delayed (m : Machine) (index count : Nat) (words : List Bytes) :
    m.steps (index + count) words =
      ((m.steps index words).1, (m.steps index words).2.mapError (Error.delayed count)) := by
  induction words generalizing m index with
  | nil => rfl
  | cons token words ih =>
    rw [steps, steps]
    rcases m.step token with ⟨m₁, cause | _⟩
    · show (m₁, _) = (m₁, Except.error (Error.atToken _ token cause))
      rw [Int64.ofNat_add]
    · show m₁.steps (index + count + 1) words = _
      rw [Nat.add_right_comm, ih]

theorem mapError_delayed_top (m : Machine) (count : Nat) :
    m.top.mapError (Error.delayed count) = m.top := by
  rcases m.top_cases with ⟨-, eq⟩ | ⟨-, value, eq⟩ <;> rw [eq] <;> rfl

theorem delimiter_eval (m : Machine) (expr : Bytes) : (m.eval expr).1.delimiter = m.delimiter :=
  delimiter_of_clearStacks_eq (m.clearStacks_eval expr)

/-- No place that is told wraps around when it is counted on. -/
theorem toInt_delayed {expr token : Bytes} {i : Int64} {cause : Error} {count : Nat}
    (short : count + (tokens m.delimiter expr).length ≤ tokenLimit)
    (failed : (m.eval expr).2 = .error (.atToken i token cause)) :
    (i + Int64.ofNat count).toInt = i.toInt + count := by
  have answer : m.eval expr = ((m.eval expr).1, .error (.atToken i token cause)) := by
    rw [← failed]
  obtain ⟨-, place, before, index, h⟩ := eval_eq_atToken_iff.mp answer
  have inside := h.place_lt
  have same : i = Int64.ofNat place := by
    rw [← Int64.toInt_inj, index, toInt_ofNat_of_lt_tokenLimit (by omega)]
  rw [index, same, ← Int64.ofNat_add, toInt_ofNat_of_lt_tokenLimit (by omega)]
  exact Int.natCast_add place count

/-- An expression that stops at a token stops there whatever is behind. -/
theorem eval_append_of_error {m' : Machine} {e : Error}
    (joined : tokens m.delimiter (front ++ effectiveDelimiter m.delimiter :: rest) =
      tokens m.delimiter front ++ tokens m.delimiter rest)
    (short : (tokens m.delimiter front).length + (tokens m.delimiter rest).length ≤ tokenLimit)
    (ran : m.steps 0 (tokens m.delimiter front) = (m', .error e)) :
    m.eval (front ++ effectiveDelimiter m.delimiter :: rest) = (m', .error e) := by
  apply eval_of_steps_error
  · rw [joined, List.length_append]
    exact short
  · rw [joined]
    exact steps_append_of_error ran _

/-- What stands behind an expression whose tokens all succeed is evaluated on what they leave. -/
theorem eval_append_of_ok {m' : Machine}
    (joined : tokens m.delimiter (front ++ effectiveDelimiter m.delimiter :: rest) =
      tokens m.delimiter front ++ tokens m.delimiter rest)
    (short : (tokens m.delimiter front).length + (tokens m.delimiter rest).length ≤ tokenLimit)
    (ran : m.steps 0 (tokens m.delimiter front) = (m', .ok ()))
    (same : m'.delimiter = m.delimiter) :
    m.eval (front ++ effectiveDelimiter m.delimiter :: rest) =
      ((m'.eval rest).1, (m'.eval rest).2.mapError (.delayed (tokens m.delimiter front).length)) := by
  have short' : (tokens m'.delimiter rest).length ≤ tokenLimit := by
    rw [same]
    omega
  have whole : (tokens m.delimiter (front ++ effectiveDelimiter m.delimiter :: rest)).length ≤
      tokenLimit := by
    rw [joined, List.length_append]
    exact short
  have run : m.steps 0 (tokens m.delimiter (front ++ effectiveDelimiter m.delimiter :: rest)) =
      ((m'.steps 0 (tokens m'.delimiter rest)).1, (m'.steps 0 (tokens m'.delimiter rest)).2.mapError
        (Error.delayed (tokens m.delimiter front).length)) := by
    rw [joined, steps_append_of_ok ran, steps_delayed, same]
  rcases ran' : m'.steps 0 (tokens m'.delimiter rest) with ⟨m₂, e | _⟩ <;> rw [ran'] at run
  · rw [eval_of_steps_error short' ran']
    exact eval_of_steps_error whole run
  · rw [eval_of_steps_ok short' ran', mapError_delayed_top]
    exact eval_of_steps_ok whole run

/-- **Expressions that are joined are evaluated one after the other.**  Join two expressions by the
delimiter of a machine, the first without a NUL.  If the first stops at a token, so do both together,
on the same machine.  Otherwise both together do and answer what the second does on the machine that
the first left; only the place of a token that it blames is larger, by the number of tokens of the
first. -/
theorem eval_append (m : Machine) {front rest : Bytes} (noNul : (0 : UInt8) ∉ front)
    (short : (tokens m.delimiter front).length + (tokens m.delimiter rest).length ≤ tokenLimit) :
    let whole := m.eval (front ++ effectiveDelimiter m.delimiter :: rest)
    let first := m.eval front
    let second := first.1.eval rest
    let count := (tokens m.delimiter front).length
    (∀ i token cause, first.2 = .error (.atToken i token cause) → whole = first) ∧
    ((∀ i token cause, first.2 ≠ .error (.atToken i token cause)) →
      whole = (second.1, second.2.mapError (.delayed count)) ∧
      ∀ i token cause, second.2 = .error (.atToken i token cause) →
        (i + Int64.ofNat count).toInt = i.toInt + count) := by
  intro whole first second count
  have joined := tokens_append m.delimiter noNul rest
  have short' : (tokens m.delimiter front).length ≤ tokenLimit := by omega
  have unmoved : first.1.delimiter = m.delimiter := m.delimiter_eval front
  rcases ran : m.steps 0 (tokens m.delimiter front) with ⟨m', e | _⟩
  · have stopped : first = (m', .error e) := eval_of_steps_error short' ran
    have both : whole = (m', .error e) := eval_append_of_error joined short ran
    constructor
    · intro _ _ _ _
      rw [both, stopped]
    · intro other
      obtain ⟨_, _, token, cause, rfl, -⟩ := steps_eq_error_iff.mp ran
      exact absurd (congrArg Prod.snd stopped) (other _ token cause)
  · have passed : first = (m', m'.top) := eval_of_steps_ok short' ran
    have left : m' = first.1 := (congrArg Prod.fst passed).symm
    constructor
    · intro i token cause failed
      rw [passed] at failed
      exact absurd failed (m'.top_ne_atToken i token cause)
    · intro _
      subst left
      refine ⟨eval_append_of_ok joined short ran unmoved, ?_⟩
      intro i token cause failed
      exact toInt_delayed (unmoved ▸ short) failed

/-- Behind `7,,` the second sum of `,eax,+,+` finds one value, as it does when the two are joined,
where it is the fourth token. -/
theorem eval_append_of_underflow :
    let m : Machine := ofDepth 3
    let front := ascii "7,,"
    let rest := ascii ",eax,+,+" ++ 0 :: ascii ",9"
    let cause := Error.under 0 .stackEmpty
    (0 : UInt8) ∉ front ∧
      ((m.eval front).1.eval rest).2 = .error (.atToken 2 (ascii "+") cause) ∧
      m.eval (front ++ 44 :: rest) =
        (((m.eval front).1.eval rest).1, .error (.atToken 3 (ascii "+") cause)) := by
  intro m front rest cause
  have noNul : (0 : UInt8) ∉ front := by decide
  have short : (tokens m.delimiter front).length + (tokens m.delimiter rest).length ≤ tokenLimit := by
    decide
  have passed : (m.eval front).2 = .ok 7 := by decide
  have second : ((m.eval front).1.eval rest).2 = .error (.atToken 2 (ascii "+") cause) := by decide
  have both := ((eval_append m noNul short).2 (by simp [passed])).1
  rw [second] at both
  exact ⟨noNul, second, both⟩

end Machine

end Rpn
