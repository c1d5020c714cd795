import Mathlib.Control.Monad.Basic
import Rpn.Proofs.Machine.Effect

/-!
# What an expression reads

An expression reads the registers that its tokens name, and writes nothing but the stacks.

* `Machine.fitted` — a machine with another register file, and talkative or not;
* `Machine.Blind` — what is done without a look at the registers, as operators are: `blind_apply`;
* `Machine.step_fitted` and `Machine.steps_fitted` — a token, and tokens in order, see no register
  that they do not name;
* `Machine.eval_reads` — two machines that agree on the registers an expression names evaluate it
  alike.
-/

namespace Rpn.Machine

/-- A machine with another register file, and talkative or not. -/
def fitted (m : Machine) (registers : Registers) (verbose : Bool) : Machine :=
  { m with registers, verbose }

/-- An act does the same whatever the registers hold, and leaves them alone. -/
def Blind {α : Type} (act : Machine → Machine × α) : Prop :=
  ∀ m registers verbose,
    act (m.fitted registers verbose) = ((act m).1.fitted registers verbose, (act m).2)

variable {registers : Registers} {token : Bytes}

theorem Blind.of_eq {α : Type} {act : Machine → Machine × α} (blind : Blind act) {m m' : Machine}
    {answer : α} (done : act m = (m', answer)) (registers : Registers) (verbose : Bool) :
    act (m.fitted registers verbose) = (m'.fitted registers verbose, answer) := by
  rw [blind, done]

/-! ## Operators -/

theorem blind_push (value : Int32) (origin : Int64) : Blind (·.push value origin) := by
  intro m registers verbose
  simp only [push, fitted]
  cases m.values.push? value with
  | none => rfl
  | some values => cases m.origins.push? (originWord origin) <;> rfl

theorem blind_pop : Blind pop := by
  intro m registers verbose
  simp only [pop, fitted]
  cases m.values.pop? with
  | none => rfl
  | some popped =>
    simp only
    cases m.origins.pop? <;> rfl

theorem blind_binary (op : BinaryOp) : Blind (·.binary op) := by
  intro m registers verbose
  simp only [binary]
  rcases popped : m.pop with ⟨m₁, e | ⟨a, _⟩⟩
  · simp only [blind_pop.of_eq popped]
  · rcases popped' : m₁.pop with ⟨m₂, e | ⟨b, _⟩⟩
    · simp only [blind_pop.of_eq popped, blind_pop.of_eq popped', popped']
    · simp only [blind_pop.of_eq popped, blind_pop.of_eq popped', popped']
      cases op.compute? a b with
      | none => rfl
      | some result =>
        rcases pushed : m₂.push result Register.noCode with ⟨m₃, e | _⟩
        · simp only [(blind_push result Register.noCode).of_eq pushed, pushed]
        · simp only [(blind_push result Register.noCode).of_eq pushed, pushed]
          rfl

theorem blind_apply (code : Int64) : Blind (·.apply code) := by
  intro m registers verbose
  rcases kind : Operator.ofCode? code with _ | op | direction
  · simp only [apply_of_none kind]
    rfl
  · simp only [apply_of_binary kind, blind_binary op m]
  · simp only [apply_of_rotate kind]

/-! ## Tokens -/

/-- A token sees no register that it does not name. -/
theorem step_fitted {m : Machine}
    (agree : ∀ r : Register, r.mnemonic = token → registers.get r = m.registers.get r)
    (verbose : Bool) :
    (m.fitted registers verbose).step token =
      ((m.step token).1.fitted registers verbose, (m.step token).2) := by
  rw [step, step]
  cases kind : Symbol.classify token with
  | operator op => simp only [blind_apply op.code m]
  | register r =>
    have read : (m.fitted registers verbose).registers.get r = m.registers.get r :=
      agree r (Symbol.classify_eq_register_iff.mp kind).symm
    simp only [read]
    exact blind_push (m.registers.get r) r.code m registers verbose
  | literal value => exact blind_push value Register.noCode m registers verbose
  | unknown => rfl

/-- Tokens in order see no register that they do not name. -/
theorem steps_fitted {m : Machine} {words : List Bytes}
    (agree : ∀ r : Register, r.mnemonic ∈ words → registers.get r = m.registers.get r)
    (verbose : Bool) (index : Nat) :
    (m.fitted registers verbose).steps index words =
      ((m.steps index words).1.fitted registers verbose, (m.steps index words).2) := by
  induction words generalizing m index with
  | nil => rfl
  | cons token rest ih =>
    have first := step_fitted (fun r named => agree r (named ▸ List.mem_cons_self)) verbose
    have unmoved : (m.step token).1.registers = m.registers :=
      registers_of_clearStacks_eq ((clearStacks_kept m.clearStacks).step rfl token)
    rw [steps, steps, first]
    rcases stepped : m.step token with ⟨m₁, e | _⟩
    · rfl
    · rw [stepped] at unmoved
      refine ih (fun r named => ?_) (index + 1)
      rw [unmoved]
      exact agree r (List.mem_cons_of_mem token named)

/-! ## Expressions -/

/-- An expression sees no register that none of its tokens names. -/
theorem eval_fitted {m : Machine} {expr : Bytes}
    (agree : ∀ r : Register, r.mnemonic ∈ tokens m.delimiter expr →
      registers.get r = m.registers.get r) (verbose : Bool) :
    (m.fitted registers verbose).eval expr =
      ((m.eval expr).1.fitted registers verbose, (m.eval expr).2) := by
  rcases Nat.lt_or_ge tokenLimit (tokens m.delimiter expr).length with long | short
  · rw [m.eval_of_length_gt long]
    exact (m.fitted registers verbose).eval_of_length_gt long
  · have ran := steps_fitted agree verbose 0
    rcases stepped : m.steps 0 (tokens m.delimiter expr) with ⟨m₁, e | _⟩ <;> rw [stepped] at ran
    · rw [eval_of_steps_error short stepped]
      exact eval_of_steps_error short ran
    · rw [eval_of_steps_ok short stepped]
      exact eval_of_steps_ok short ran

/-- **An expression reads what it names, and writes the stacks.**  Evaluated on two machines with equal
stacks and one delimiter, whose registers agree wherever a token of the expression names them, it
gives the same answer and leaves equal stacks.  However it ends, the registers, the limits of the
stacks and the delimiter are what they were. -/
theorem eval_reads (m : Machine) (expr : Bytes) :
    (∀ m' : Machine, m'.values = m.values → m'.origins = m.origins → m'.delimiter = m.delimiter →
      (∀ r : Register, r.mnemonic ∈ tokens m.delimiter expr →
        m'.registers.get r = m.registers.get r) →
      (m'.eval expr).2 = (m.eval expr).2 ∧ m'.evalShown expr = m.evalShown expr ∧
        (m'.eval expr).1.values = (m.eval expr).1.values ∧
        (m'.eval expr).1.origins = (m.eval expr).1.origins) ∧
    (m.eval expr).1.registers = m.registers ∧
    (m.eval expr).1.values.limit = m.values.limit ∧
    (m.eval expr).1.origins.limit = m.origins.limit ∧
    (m.eval expr).1.delimiter = m.delimiter := by
  have unmoved := m.clearStacks_eval expr
  refine ⟨?_, registers_of_clearStacks_eq unmoved, ?_, ?_, delimiter_of_clearStacks_eq unmoved⟩
  · intro m' values origins delimiter agree
    have refit : m' = m.fitted m'.registers m'.verbose := by
      rw [fitted, ← values, ← origins, ← delimiter]
    have ran : m'.eval expr = ((m.eval expr).1.fitted m'.registers m'.verbose, (m.eval expr).2) := by
      rw [refit]
      exact eval_fitted agree m'.verbose
    rw [evalShown, evalShown, ran]
    exact ⟨rfl, rfl, rfl, rfl⟩
  · exact congrArg (fun c => c.values.limit) unmoved
  · exact congrArg (fun c => c.origins.limit) unmoved

/-- The product of 7 and `ebx` does not show what `eax` holds, nor does the token that nobody knows,
with which both evaluations end. -/
theorem eval_reads_of_ebx :
    let m : Machine := { ofDepth 3 with registers := Registers.set {} .ebx 6 }
    let m' : Machine := { m with registers := m.registers.set .eax 5, verbose := true }
    let expr := ascii "7,ebx,*,x,ebx"
    let e := Error.atToken 3 (ascii "x") (.unknownSymbol (ascii "x"))
    m'.registers ≠ m.registers ∧
      (∀ r : Register, r.mnemonic ∈ tokens m.delimiter expr →
        m'.registers.get r = m.registers.get r) ∧
      (m'.eval expr).2 = .error e ∧ (m'.eval expr).1.values.toList = [42] ∧
      (m'.eval expr).1.registers = m'.registers := by
  intro m m' expr e
  have agree : ∀ r : Register, r.mnemonic ∈ tokens m.delimiter expr →
      m'.registers.get r = m.registers.get r := by
    intro r named
    have other : r ≠ .eax := by
      rintro rfl
      exact absurd named (by decide)
    rw [Registers.get_set, if_neg other]
  have answer : (m.eval expr).2 = .error e := by decide
  have left : (m.eval expr).1.values.toList = [42] := by decide
  obtain ⟨same, -, values, -⟩ := (eval_reads m expr).1 m' rfl rfl rfl agree
  refine ⟨by decide, agree, same.trans answer, ?_, (eval_reads m' expr).2.1⟩
  rw [values, left]

end Rpn.Machine
