import Mathlib.Data.List.Forall2
import Rpn.Proofs.Machine.Height

/-!
# Where the values on the stack were read

Beside every value stands the number of a register or that of none.  On stacks that an expression
filled, a register that is named holds the value; and the value of the whole expression was read in
the register that is its last token, if that is one.

* `Machine.Sourced` — beside every value stands where it was read, with `Machine.sourced_kept`;
* `Machine.step_eq_above` and `Machine.steps_eq_above` — what a token, and tokens in order, leave on
  top;
* `Machine.origin_of_eval` — the value of an expression is named after its last token;
* `Machine.Sourced.eq_get_of_origin` — a register that is named holds the value.
-/

namespace Rpn

namespace Register

theorem code_injective {r r' : Register} (same : r.code = r'.code) : r = r' := by
  have found := ofCode?_code r
  rw [same, ofCode?_code] at found
  exact (Option.some.inj found).symm

theorem code_ne_noCode (r : Register) : r.code ≠ noCode := by
  cases r <;> decide

theorem lookup_eq_code_iff {token : Bytes} {r : Register} :
    lookup token = r.code ↔ token = r.mnemonic := by
  rw [← ofMnemonic?_eq_some_iff, lookup]
  cases ofMnemonic? token with
  | none => simp [(code_ne_noCode r).symm]
  | some r' => simpa using ⟨code_injective, congrArg code⟩

/-- The register that a token looks up is the one that it means. -/
theorem lookup_eq_registerCode (token : Bytes) :
    lookup token = (Symbol.classify token).registerCode := by
  have operators (op : Operator) : lookup op.mnemonic = noCode := by
    rcases op with op | direction
    · cases op <;> decide
    · cases direction <;> decide
  rw [Symbol.classify]
  cases operator : Operator.ofMnemonic? token with
  | some op =>
    rw [Operator.ofMnemonic?_eq_some_iff.mp operator]
    exact operators op
  | none =>
    rw [lookup]
    cases ofMnemonic? token with
    | some r => rfl
    | none => cases Literal.parse? token <;> rfl

end Register

namespace Machine

/-- Beside every value stands where it was read. -/
def Sourced (m : Machine) : Prop :=
  List.Forall₂ (fun value origin => ReadIn m.registers value origin.toInt64) m.values.data
    m.origins.data

variable {m m' : Machine} {value word : Int32} {token expr : Bytes} {words : List Bytes}

theorem sourced_of_empty (values : m.values.toList = []) (origins : m.origins.toList = []) :
    m.Sourced := by
  rw [Sourced, List.reverse_eq_nil_iff.mp values, List.reverse_eq_nil_iff.mp origins]
  exact .nil

theorem sourced_above_iff :
    (m.above value word).Sourced ↔ ReadIn m.registers value word.toInt64 ∧ m.Sourced :=
  List.forall₂_cons

theorem Sourced.size_eq (h : m.Sourced) : m.origins.size = m.values.size := by
  rw [m.origins.size_eq, m.values.size_eq]
  exact h.length_eq.symm

theorem Sourced.origin_above (h : (m.above value word).Sourced) :
    (m.above value word).origin = word.toInt64 :=
  Machine.origin_above (sourced_above_iff.mp h).2.size_eq value word

/-- What stands at a place of the stacks was read where the number beside it tells. -/
theorem Sourced.readIn (h : m.Sourced) {k : Nat} (value_eq : m.values.toList[k]? = some value)
    (word_eq : m.origins.toList[k]? = some word) : ReadIn m.registers value word.toInt64 := by
  obtain ⟨-, each⟩ := List.forall₂_iff_get.mp (List.rel_reverse h)
  obtain ⟨inside, rfl⟩ := List.getElem?_eq_some_iff.mp value_eq
  obtain ⟨inside', rfl⟩ := List.getElem?_eq_some_iff.mp word_eq
  exact each k inside inside'

/-! ## Tokens -/

/-- The numbers of the registers, and that of none, are not cut. -/
theorem toInt64_originWord_lookup (token : Bytes) :
    (originWord (Register.lookup token)).toInt64 = Register.lookup token := by
  rw [Register.lookup]
  cases Register.ofMnemonic? token with
  | none => decide
  | some r => cases r <;> decide

theorem ReadIn.originWord {registers : Registers} {origin : Int64}
    (h : ReadIn registers value origin) :
    ReadIn registers value (originWord origin).toInt64 := by
  rcases h with rfl | ⟨r, rfl, same⟩
  · exact Or.inl (by decide)
  · refine Or.inr ⟨r, ?_, same⟩
    cases r <;> decide

theorem sourced_kept : KeptByTokens Sourced where
  push m value origin read h := by
    rcases push_cases m value origin with eq | eq <;> rw [eq]
    · exact sourced_above_iff.mpr ⟨read.originWord, h⟩
    · exact h
  pop m h := by
    rcases Nat.eq_zero_or_pos m.values.size with empty | pos
    · rw [pop_of_size_eq_zero empty]
      exact h
    · obtain ⟨m₀, value, word, rfl⟩ := exists_eq_above h.size_eq pos
      exact (sourced_above_iff.mp h).2

theorem push_eq_above {origin : Int64} (done : m.push value origin = (m', .ok ())) :
    m' = m.above value (originWord origin) := by
  rcases push_cases m value origin with eq | eq <;> rw [eq] at done <;> cases done
  rfl

/-- The result of an operator was read in no register. -/
theorem binary_eq_above {op : BinaryOp} {result : Int32}
    (done : m.binary op = (m', .ok result)) :
    ∃ m₀ value, m' = above m₀ value (originWord Register.noCode) := by
  rw [binary] at done
  rcases popped : m.pop with ⟨m₁, e | ⟨a, _⟩⟩ <;> rw [popped] at done
  · cases done
  · rcases popped' : m₁.pop with ⟨m₂, e | ⟨b, _⟩⟩ <;> simp only [popped'] at done
    · cases done
    · cases computed : op.compute? a b with
      | none =>
        rw [computed] at done
        cases done
      | some value =>
        simp only [computed] at done
        rcases pushed : m₂.push value Register.noCode with ⟨m₃, e | _⟩ <;>
          simp only [pushed] at done
        · cases done
        · obtain ⟨rfl, -⟩ := Prod.mk.inj done
          exact ⟨m₂, value, push_eq_above pushed⟩

/-- A token that succeeds leaves a value on top, beside the number of the register that it means. -/
theorem step_eq_above (done : m.step token = (m', .ok ())) :
    ∃ m₀ value, m' = above m₀ value (originWord (Register.lookup token)) := by
  rw [Register.lookup_eq_registerCode]
  cases kind : Symbol.classify token with
  | operator op =>
    rw [step_of_operator kind] at done
    cases op with
    | binary op =>
      rw [apply_of_binary (Operator.ofCode?_code (.binary op))] at done
      rcases computed : m.binary op with ⟨m₁, e | result⟩ <;> rw [computed] at done <;> cases done
      exact binary_eq_above computed
    | rotate direction =>
      rw [apply_of_rotate (Operator.ofCode?_code (.rotate direction))] at done
      cases done
  | register r =>
    rw [step, kind] at done
    exact ⟨m, _, push_eq_above done⟩
  | literal value =>
    rw [step, kind] at done
    exact ⟨m, _, push_eq_above done⟩
  | unknown =>
    rw [step, kind] at done
    cases done

/-- So do tokens in order, the last of them. -/
theorem steps_eq_above {index : Nat} (done : m.steps index words = (m', .ok ()))
    (last : words.getLast? = some token) :
    ∃ m₀ value, m' = above m₀ value (originWord (Register.lookup token)) := by
  induction words generalizing m index with
  | nil => cases last
  | cons first rest ih =>
    rw [steps] at done
    rcases stepped : m.step first with ⟨m₁, e | _⟩ <;> rw [stepped] at done
    · cases done
    · cases rest with
      | nil =>
        cases last
        cases done
        exact step_eq_above stepped
      | cons next rest =>
        rw [List.getLast?_cons_cons] at last
        exact ih done last

/-! ## Expressions -/

/-- An expression that succeeds answers what its tokens leave on top. -/
theorem steps_of_eval (done : m.eval expr = (m', .ok value)) :
    m.steps 0 (tokens m.delimiter expr) = (m', .ok ()) ∧ m'.top = .ok value := by
  rcases Nat.lt_or_ge tokenLimit (tokens m.delimiter expr).length with long | short
  · rw [m.eval_of_length_gt long] at done
    cases done
  · rw [m.eval_of_length_le short] at done
    rcases ran : m.steps 0 (tokens m.delimiter expr) with ⟨m₁, e | _⟩ <;> rw [ran] at done
    · cases done
    · obtain ⟨rfl, top⟩ := Prod.mk.inj done
      exact ⟨rfl, top⟩

/-- A value on top that was read in a register is what that register holds. -/
theorem Sourced.eq_get_of_origin (h : m.Sourced) (top : m.top = .ok value) {r : Register}
    (read : m.origin = r.code) : value = m.registers.get r := by
  rcases Nat.eq_zero_or_pos m.values.size with empty | pos
  · rw [Machine.top, Stack.peek?_of_size_eq_zero empty] at top
    cases top
  · obtain ⟨m₀, value', word, rfl⟩ := exists_eq_above h.size_eq pos
    obtain rfl : value' = value := Except.ok.inj top
    rw [h.origin_above] at read
    rcases (sourced_above_iff.mp h).1 with none | ⟨r', known, same⟩
    · exact absurd (read.symm.trans none) r.code_ne_noCode
    · obtain rfl := Register.code_injective (read.symm.trans known)
      exact same

/-- An expression that succeeds on empty stacks has a token. -/
theorem tokens_ne_nil_of_eval (empty : m.values.toList = [])
    (done : m.eval expr = (m', .ok value)) : tokens m.delimiter expr ≠ [] := by
  intro none
  obtain ⟨ran, top⟩ := steps_of_eval done
  rw [none] at ran
  obtain ⟨rfl, -⟩ := Prod.mk.inj ran
  rw [Machine.top, Stack.peek?, List.reverse_eq_nil_iff.mp empty] at top
  cases top

/-- The value of an expression is named after its last token. -/
theorem origin_of_eval (values : m.values.toList = []) (origins : m.origins.toList = [])
    (done : m.eval expr = (m', .ok value)) :
    ∃ token, (tokens m.delimiter expr).getLast? = some token ∧
      m'.origin = Register.lookup token := by
  have some := tokens_ne_nil_of_eval values done
  have last := List.getLast?_eq_some_getLast some
  have after := sourced_kept.eval (sourced_of_empty values origins) expr
  rw [done] at after
  obtain ⟨m₀, value', rfl⟩ := steps_eq_above (steps_of_eval done).1 last
  exact ⟨_, last, by rw [after.origin_above, toInt64_originWord_lookup]⟩

end Machine

end Rpn
