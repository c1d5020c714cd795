import Rpn.Proofs.Machine.Effect
import Rpn.Proofs.Operator

/-!
# What an operator does to the stacks

On stacks that are equally high an operator takes the two values on top, and puts its exact result
there, reduced to 32 bits.  What lies below keeps its value and its origin.

* `Machine.Aligned.exists_above_above` — stacks with two values on top are lower stacks with two
  values more;
* `Machine.Aligned.apply_two` and `Machine.Aligned.apply_few` — an operator that finds two values, and
  one that does not;
* `Machine.apply_exact` — all that an application does.
-/

namespace Rpn.Machine

variable {m : Machine} {op : BinaryOp} {below : List Int32} {a b : Int32}

@[simp] theorem values_above (m : Machine) (value origin : Int32) :
    (m.above value origin).values.toList = m.values.toList ++ [value] :=
  m.values.toList_above value

@[simp] theorem origins_above (m : Machine) (value origin : Int32) :
    (m.above value origin).origins.toList = m.origins.toList ++ [origin] :=
  m.origins.toList_above origin

/-- Stacks with two values on top are lower ones with two values more, beside which stands where they
were read. -/
theorem Aligned.exists_above_above (h : m.Aligned) (two : m.values.toList = below ++ [b, a]) :
    ∃ (m₀ : Machine) (a' b' : Int32), m = (m₀.above b b').above a a' ∧
      m₀.values.toList = below ∧ m₀.origins.toList = m.origins.toList.take below.length := by
  have size : m.values.size = below.length + 2 := by
    rw [← Stack.length_toList, two, List.length_append]
    rfl
  obtain ⟨m₁, top, a', rfl⟩ := h.exists_eq_above (by omega)
  have size₁ : m₁.values.size + 1 = below.length + 2 := size
  obtain ⟨m₀, next, b', rfl⟩ := h.of_above.exists_eq_above (by omega)
  have values : m₀.values.toList ++ [next, top] = below ++ [b, a] := by
    rw [← two, values_above, values_above, List.append_assoc]
    rfl
  obtain ⟨rfl, tops⟩ := List.append_inj' values rfl
  cases tops
  refine ⟨m₀, a', b', rfl, rfl, ?_⟩
  have level : m₀.values.toList.length = m₀.origins.toList.length := by
    rw [Stack.length_toList, Stack.length_toList, h.of_above.of_above.size_eq]
  rw [level, origins_above, origins_above, List.append_assoc, List.take_left]

/-- An operator that finds two values replaces them by its result, which was read in no register; a
quotient by zero only takes them. -/
theorem Aligned.apply_two (h : m.Aligned) (two : m.values.toList = below ++ [b, a]) (op : BinaryOp) :
    let code := (Operator.binary op).code
    let origins := m.origins.toList.take below.length
    (∀ r, op.compute? a b = some r →
      (m.apply code).2 = .ok r ∧ (m.apply code).1.values.toList = below ++ [r] ∧
        (m.apply code).1.origins.toList = origins ++ [originWord Register.noCode]) ∧
    (op.compute? a b = none →
      (m.apply code).2 = .error (.under code .divideByZero) ∧
        (m.apply code).1.values.toList = below ∧ (m.apply code).1.origins.toList = origins) := by
  intro code origins
  obtain ⟨m₀, a', b', rfl, values, sources⟩ := h.exists_above_above two
  have room : m₀.values.size < m₀.values.capacity := h.of_above.size_le
  have applied := apply_of_binary (Operator.ofCode?_code (.binary op)) ((m₀.above b b').above a a')
  rw [h.of_above.of_above.binary_above_above room] at applied
  constructor
  · intro r computed
    rw [computed] at applied
    rw [applied]
    refine ⟨rfl, ?_, ?_⟩
    · rw [values_above, values]
    · rw [origins_above, sources]
  · intro none
    rw [none] at applied
    rw [applied]
    exact ⟨rfl, values, sources⟩

/-- An operator that finds fewer than two values leaves none. -/
theorem Aligned.apply_few (h : m.Aligned) (few : m.values.toList.length < 2) (op : BinaryOp) :
    let code := (Operator.binary op).code
    (m.apply code).2 = .error (.under code .stackEmpty) ∧
      (m.apply code).1.values.toList = [] ∧ (m.apply code).1.origins.toList = [] := by
  intro code
  have applied := apply_of_binary (Operator.ofCode?_code (.binary op)) m
  rw [Stack.length_toList] at few
  have after := aligned_kept.apply h code
  have emptied : (m.apply code).1.values.size = 0 ∧
      (m.apply code).2 = .error (.under code .stackEmpty) := by
    rcases h.binary_cases op with
      ⟨empty, eq⟩ | ⟨m₀, _, _, rfl, empty, eq⟩ | ⟨m₀, _, _, _, _, rfl, -, -⟩
    · rw [applied, eq]
      exact ⟨empty, rfl⟩
    · rw [applied, eq]
      exact ⟨empty, rfl⟩
    · exact absurd few (Nat.not_lt.mpr (Nat.le_add_left 2 _))
  refine ⟨emptied.2, ?_, ?_⟩
  · rw [← List.length_eq_zero_iff, Stack.length_toList, emptied.1]
  · rw [← List.length_eq_zero_iff, Stack.length_toList, after.size_eq, emptied.1]

/-- **An operator computes exactly, and reduces to 32 bits.**  On stacks that are equally high it
replaces the two values on top by the one word that its rule allows, beside which no register is
named, and answers that word.  A quotient by zero only takes the two values; where there are fewer
than two, none is left; and a rotation changes nothing.  Values below keep their place and where they
were read, and nothing but the stacks is changed. -/
theorem apply_exact (aligned : m.Aligned) :
    (∀ (op : BinaryOp) (below : List Int32) (a b : Int32), m.values.toList = below ++ [b, a] →
      let code := (Operator.binary op).code
      let after := (m.apply code).1
      let origins := m.origins.toList.take below.length
      (¬ (op = .div ∧ b = 0) →
        ∃ r, (∀ r', BinaryOp.Computes a b op r' ↔ r' = r) ∧ (m.apply code).2 = .ok r ∧
          after.values.toList = below ++ [r] ∧
          after.origins.toList = origins ++ [originWord Register.noCode]) ∧
      (op = .div ∧ b = 0 →
        (m.apply code).2 = .error (.under code .divideByZero) ∧
          after.values.toList = below ∧ after.origins.toList = origins)) ∧
    (∀ op : BinaryOp, m.values.toList.length < 2 →
      let code := (Operator.binary op).code
      (m.apply code).2 = .error (.under code .stackEmpty) ∧
        (m.apply code).1.values.toList = [] ∧ (m.apply code).1.origins.toList = []) ∧
    (∀ direction : Rotation,
      let code := (Operator.rotate direction).code
      m.apply code = (m, .error (.under code .notImplemented))) ∧
    ∀ code, (m.apply code).1.clearStacks = m.clearStacks := by
  refine ⟨?_, ?_, ?_, ?_⟩
  · intro op below a b two code after origins
    obtain ⟨done, zero⟩ := aligned.apply_two two op
    constructor
    · intro defined
      obtain ⟨r, computed, only⟩ := BinaryOp.exists_computes defined
      exact ⟨r, only, done r computed⟩
    · intro undefined
      exact zero (BinaryOp.compute?_eq_none_iff.mpr undefined)
  · intro op few
    exact aligned.apply_few few op
  · intro direction
    exact apply_of_rotate (Operator.ofCode?_code (.rotate direction)) m
  · intro code
    exact (clearStacks_kept m.clearStacks).apply rfl code

/-- The least word divided by -1 is the least word again, the only one that is congruent to the
quotient 2^31; the 7 below, which was read in `ebx`, stays. -/
theorem apply_exact_of_least :
    let m : Machine := (((ofDepth 3).above 7 1).above (-1) 9).above Int32.minValue 0
    m.Aligned ∧ m.values.toList = [7] ++ [-1, Int32.minValue] ∧
      BinaryOp.Computes Int32.minValue (-1) .div Int32.minValue ∧
      (m.apply 3).2 = .ok Int32.minValue ∧
      (m.apply 3).1.values.toList = [7, Int32.minValue] ∧
      (m.apply 3).1.origins.toList = [1, 9] := by
  intro m
  have aligned : m.Aligned := ⟨rfl, rfl, by decide⟩
  have two : m.values.toList = [7] ++ [-1, Int32.minValue] := by decide
  obtain ⟨r, only, done, values, origins⟩ :=
    ((apply_exact aligned).1 .div [7] Int32.minValue (-1) two).1 (by decide)
  have computes : BinaryOp.Computes Int32.minValue (-1) .div Int32.minValue :=
    .div (by decide) (by decide)
  obtain rfl : Int32.minValue = r := (only _).mp computes
  exact ⟨aligned, two, computes, done, values, origins⟩

end Rpn.Machine
