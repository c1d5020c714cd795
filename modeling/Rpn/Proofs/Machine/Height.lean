import Mathlib.Control.Monad.Basic
import Rpn.Proofs.Machine.Effect
import Rpn.Proofs.Operator

/-!
# The height of the stacks tells how an expression ends

Apart from divisions by zero, whether a token succeeds depends on its kind and on the number of words
on the stacks, and on no word itself.  So a run can be simulated on the height alone.

* `Machine.heightStep` and `Machine.heightSteps` — the simulation;
* `Machine.DividesByZero` — a division by zero is carried out on the way;
* `Machine.Aligned.step_height` and `Machine.Aligned.steps_height` — a token, and tokens in order,
  either divide by zero or end as they are simulated;
* `Machine.eval_height` — the same for expressions, and for two machines of one height.
-/

namespace Rpn.Machine

/-- What a token does to stacks of a height that have room for `room` words: the height that it
leaves, and why it fails.  Of a register or a literal only the kind counts. -/
def heightStep (room height : Nat) (token : Bytes) : Nat × Except Error Unit :=
  match Symbol.classify token with
  | .register _ | .literal _ =>
    if height < room then (height + 1, .ok ()) else (height, .error .stackFull)
  | .operator (.binary op) =>
    if 2 ≤ height then (height - 1, .ok ())
    else (0, .error (.under (Operator.binary op).code .stackEmpty))
  | .operator (.rotate direction) =>
    (height, .error (.under (Operator.rotate direction).code .notImplemented))
  | .unknown => (height, .error (.unknownSymbol token))

/-- Simulates tokens up to the first that fails, counting from `index`. -/
def heightSteps (room height index : Nat) : List Bytes → Nat × Except Error Unit
  | [] => (height, .ok ())
  | token :: rest =>
    match heightStep room height token with
    | (height, .error e) => (height, .error (.atToken (Int64.ofNat index) token e))
    | (height, .ok ()) => heightSteps room height (index + 1) rest

/-- While tokens are evaluated, a division is carried out whose lower operand is zero. -/
inductive DividesByZero : Machine → List Bytes → Prop
  | here {m : Machine} {rest : List Bytes} {a : Int32} {below : List Int32} :
      m.values.data = a :: 0 :: below → DividesByZero m (ascii "/" :: rest)
  | later {m m' : Machine} {token : Bytes} {rest : List Bytes} :
      m.step token = (m', .ok ()) → DividesByZero m' rest → DividesByZero m (token :: rest)

/-- The error of a division by zero. -/
def quotientError : Error :=
  .under (Operator.binary .div).code .divideByZero

variable {m : Machine}

/-! ## One token -/

theorem capacity_step (m : Machine) (token : Bytes) :
    (m.step token).1.values.capacity = m.values.capacity := by
  have same := (clearStacks_kept m.clearStacks).step rfl token
  exact congrArg (fun c => c.values.capacity) same

theorem Aligned.push_height (h : m.Aligned) (value : Int32) (origin : Int64) :
    ((m.push value origin).1.values.size, (m.push value origin).2) =
      if m.values.size < m.values.capacity then (m.values.size + 1, .ok ())
      else (m.values.size, .error .stackFull) := by
  rw [h.push_eq]
  split <;> rfl

/-- An operator divides by zero, or ends as the height tells. -/
theorem Aligned.binary_height (h : m.Aligned) (op : BinaryOp) :
    (op = .div ∧ (∃ a below, m.values.data = a :: 0 :: below) ∧
      (m.binary op).2 = .error .divideByZero) ∨
    (2 ≤ m.values.size ∧ (m.binary op).1.values.size = m.values.size - 1 ∧
      ∃ result, (m.binary op).2 = .ok result) ∨
    (m.values.size < 2 ∧ (m.binary op).1.values.size = 0 ∧
      (m.binary op).2 = .error .stackEmpty) := by
  rcases h.binary_cases op with
    ⟨empty, eq⟩ | ⟨m₀, a, a', rfl, empty, eq⟩ | ⟨m₀, a, a', b, b', rfl, -, eq⟩
  · rw [eq]
    exact Or.inr (Or.inr ⟨by omega, empty, rfl⟩)
  · have size : (m₀.above a a').values.size = m₀.values.size + 1 := rfl
    rw [eq]
    exact Or.inr (Or.inr ⟨by omega, empty, rfl⟩)
  · rw [eq]
    cases computed : op.compute? a b with
    | none =>
      obtain ⟨rfl, rfl⟩ := BinaryOp.compute?_eq_none_iff.mp computed
      exact Or.inl ⟨rfl, ⟨a, m₀.values.data, rfl⟩, rfl⟩
    | some result => exact Or.inr (Or.inl ⟨Nat.le_add_left 2 _, rfl, result, rfl⟩)

theorem step_of_operator {token : Bytes} {op : Operator}
    (kind : Symbol.classify token = .operator op) (m : Machine) :
    m.step token = ((m.apply op.code).1, (m.apply op.code).2.map fun _ => ()) := by
  rw [step, kind]

/-- A token divides by zero, or ends as it is simulated. -/
theorem Aligned.step_height (h : m.Aligned) (token : Bytes) :
    (token = ascii "/" ∧ (∃ a below, m.values.data = a :: 0 :: below) ∧
      (m.step token).2 = .error quotientError) ∨
    ((m.step token).1.values.size, (m.step token).2) =
      heightStep m.values.capacity m.values.size token := by
  cases kind : Symbol.classify token with
  | register r =>
    rw [step, heightStep, kind]
    exact Or.inr (h.push_height _ _)
  | literal value =>
    rw [step, heightStep, kind]
    exact Or.inr (h.push_height _ _)
  | unknown =>
    rw [step, heightStep, kind]
    exact Or.inr rfl
  | operator op =>
    rw [step_of_operator kind, heightStep, kind]
    cases op with
    | rotate direction =>
      rw [apply_of_rotate (Operator.ofCode?_code (.rotate direction))]
      exact Or.inr rfl
    | binary op =>
      rw [apply_of_binary (Operator.ofCode?_code (.binary op))]
      rcases h.binary_height op with
        ⟨rfl, operands, failed⟩ | ⟨enough, size, result, done⟩ | ⟨few, size, failed⟩
      · refine Or.inl ⟨Symbol.classify_eq_operator_iff.mp kind, operands, ?_⟩
        rw [failed]
        rfl
      · simp only [size, done, if_pos enough]
        exact Or.inr rfl
      · simp only [size, failed, if_neg (Nat.not_le.mpr few)]
        exact Or.inr rfl

/-- A token that succeeds leaves something on the stack. -/
theorem heightStep_pos {room height height' : Nat} {token : Bytes}
    (done : heightStep room height token = (height', .ok ())) : 0 < height' := by
  rw [heightStep] at done
  split at done
  · split at done
    · cases done
      exact Nat.succ_pos height
    · cases done
  · split at done
    · cases done
      exact Nat.succ_pos height
    · cases done
  · split at done
    · next enough =>
      cases done
      omega
    · cases done
  · cases done
  · cases done

/-! ## Tokens in order -/

/-- The simulation fails at a token. -/
theorem heightSteps_error {room height index : Nat} {words : List Bytes} {e : Error}
    (failed : (heightSteps room height index words).2 = .error e) :
    ∃ i token cause, e = .atToken i token cause := by
  induction words generalizing height index with
  | nil => cases failed
  | cons token rest ih =>
    rw [heightSteps] at failed
    rcases stepped : heightStep room height token with ⟨height', cause | _⟩ <;>
      rw [stepped] at failed
    · cases failed
      exact ⟨_, token, cause, rfl⟩
    · exact ih failed

/-- Tokens that all succeed leave something on the stack, unless there is none of them. -/
theorem heightSteps_pos {room height height' index : Nat} {words : List Bytes}
    (done : heightSteps room height index words = (height', .ok ())) (some : words ≠ []) :
    0 < height' := by
  induction words generalizing height index with
  | nil => exact absurd rfl some
  | cons token rest ih =>
    rw [heightSteps] at done
    rcases stepped : heightStep room height token with ⟨height₁, cause | _⟩ <;> rw [stepped] at done
    · cases done
    · cases rest with
      | nil =>
        cases done
        exact heightStep_pos stepped
      | cons next rest => exact ih done (List.cons_ne_nil next rest)

/-- Tokens divide by zero on the way, or end as they are simulated. -/
theorem Aligned.steps_height (h : m.Aligned) (index : Nat) (words : List Bytes) :
    (m.DividesByZero words ∧
      ∃ i, (m.steps index words).2 = .error (.atToken i (ascii "/") quotientError)) ∨
    ((m.steps index words).1.values.size, (m.steps index words).2) =
      heightSteps m.values.capacity m.values.size index words := by
  induction words generalizing m index with
  | nil => exact Or.inr rfl
  | cons token rest ih =>
    have aligned := aligned_kept.step h token
    have capacity := capacity_step m token
    have first := h.step_height token
    rw [steps, heightSteps]
    rcases stepped : m.step token with ⟨m₁, e | _⟩ <;> rw [stepped] at aligned capacity first
    · rcases first with ⟨rfl, ⟨a, below, operands⟩, failed⟩ | simulated
      · cases failed
        exact Or.inl ⟨.here operands, _, rfl⟩
      · rw [← simulated]
        exact Or.inr rfl
    · rcases first with ⟨-, -, failed⟩ | simulated
      · cases failed
      · rw [← simulated]
        rcases ih aligned (index + 1) with ⟨divides, failed⟩ | others
        · exact Or.inl ⟨.later stepped divides, failed⟩
        · rw [capacity] at others
          exact Or.inr others

/-! ## Expressions -/

theorem top_cases (m : Machine) :
    (m.values.size = 0 ∧ m.top = .error .stackEmpty) ∨
      (0 < m.values.size ∧ ∃ value, m.top = .ok value) := by
  rcases Nat.eq_zero_or_pos m.values.size with empty | pos
  · refine Or.inl ⟨empty, ?_⟩
    rw [top, Stack.peek?_of_size_eq_zero empty]
  · obtain ⟨values, value, eq⟩ := Stack.exists_eq_above pos
    refine Or.inr ⟨pos, value, ?_⟩
    rw [top, eq]
    rfl

/-- An expression divides by zero on the way, or ends as its tokens are simulated: where none of them
fails, it answers what lies on top. -/
theorem Aligned.eval_simulated (h : m.Aligned) {expr : Bytes}
    (short : (tokens m.delimiter expr).length ≤ tokenLimit) :
    (m.DividesByZero (tokens m.delimiter expr) ∧
      ∃ i, (m.eval expr).2 = .error (.atToken i (ascii "/") quotientError)) ∨
    ∃ answer, heightSteps m.values.capacity m.values.size 0 (tokens m.delimiter expr) =
        ((m.eval expr).1.values.size, answer) ∧
      (∀ e, answer = .error e → (m.eval expr).2 = .error e) ∧
      (answer = .ok () → (m.eval expr).2 = (m.eval expr).1.top) := by
  have heights := h.steps_height 0 (tokens m.delimiter expr)
  rcases ran : m.steps 0 (tokens m.delimiter expr) with ⟨m', e | _⟩ <;> rw [ran] at heights
  · rw [eval_of_steps_error short ran]
    rcases heights with ⟨divides, i, failed⟩ | simulated
    · exact Or.inl ⟨divides, i, congrArg Except.error (Except.error.inj failed)⟩
    · refine Or.inr ⟨.error e, simulated.symm, ?_, nofun⟩
      intro e' same
      cases same
      rfl
  · rw [eval_of_steps_ok short ran]
    rcases heights with ⟨-, i, failed⟩ | simulated
    · cases failed
    · exact Or.inr ⟨.ok (), simulated.symm, nofun, fun _ => rfl⟩

/-- An expression that does not divide by zero fails at a token exactly if the simulation does. -/
theorem Aligned.eval_error_iff (h : m.Aligned) {expr : Bytes}
    (short : (tokens m.delimiter expr).length ≤ tokenLimit)
    (undivided : ¬ m.DividesByZero (tokens m.delimiter expr)) (i : Int64) (token : Bytes)
    (e : Error) :
    (m.eval expr).2 = .error (.atToken i token e) ↔
      (heightSteps m.values.capacity m.values.size 0 (tokens m.delimiter expr)).2 =
        .error (.atToken i token e) := by
  rcases h.eval_simulated short with ⟨divides, -⟩ | ⟨answer, eq, failed, done⟩
  · exact absurd divides undivided
  · rw [eq]
    refine ⟨?_, failed _⟩
    intro told
    cases answer with
    | error e' =>
      rw [failed e' rfl] at told
      exact congrArg Except.error (Except.error.inj told)
    | ok _ =>
      -- an expression none of whose tokens fails tells no token
      rw [done rfl] at told
      rcases top_cases (m.eval expr).1 with ⟨-, eq⟩ | ⟨-, value, eq⟩ <;> rw [eq] at told <;>
        cases told

/-- Two machines of one height and depth succeed both or fail alike, unless one divides by zero. -/
theorem Aligned.eval_alike {m₂ : Machine} (h : m.Aligned) (h₂ : m₂.Aligned) {expr : Bytes}
    (short : (tokens m.delimiter expr).length ≤ tokenLimit)
    (size : m₂.values.size = m.values.size) (capacity : m₂.values.capacity = m.values.capacity)
    (same : tokens m₂.delimiter expr = tokens m.delimiter expr) :
    (∃ i, (m.eval expr).2 = .error (.atToken i (ascii "/") quotientError)) ∨
    (∃ i, (m₂.eval expr).2 = .error (.atToken i (ascii "/") quotientError)) ∨
    (∃ v v₂, (m.eval expr).2 = .ok v ∧ (m₂.eval expr).2 = .ok v₂) ∨
    (∃ i token e, (m.eval expr).2 = .error (.atToken i token e) ∧
      (m₂.eval expr).2 = .error (.atToken i token e)) ∨
    (tokens m.delimiter expr = [] ∧ m.values.size = 0 ∧
      (m.eval expr).2 = .error .stackEmpty ∧ (m₂.eval expr).2 = .error .stackEmpty) := by
  have short₂ : (tokens m₂.delimiter expr).length ≤ tokenLimit := same ▸ short
  rcases h.eval_simulated short with ⟨-, divided⟩ | ⟨answer, eq, failed, done⟩
  · exact Or.inl divided
  · rcases h₂.eval_simulated short₂ with ⟨-, divided⟩ | ⟨answer₂, eq₂, failed₂, done₂⟩
    · exact Or.inr (Or.inl divided)
    · -- both runs have the same simulation
      rw [size, capacity, same, eq] at eq₂
      obtain ⟨heights, rfl⟩ := Prod.mk.inj eq₂
      refine Or.inr (Or.inr ?_)
      cases answer with
      | error e =>
        obtain ⟨i, token, cause, rfl⟩ := heightSteps_error (congrArg Prod.snd eq)
        exact Or.inr (Or.inl ⟨i, token, cause, failed _ rfl, failed₂ _ rfl⟩)
      | ok _ =>
        rw [done rfl, done₂ rfl]
        rcases top_cases (m.eval expr).1 with ⟨empty, top⟩ | ⟨pos, value, top⟩ <;>
          rcases top_cases (m₂.eval expr).1 with ⟨empty₂, top₂⟩ | ⟨pos₂, value₂, top₂⟩
        · have none : tokens m.delimiter expr = [] := by
            by_contra some
            exact absurd empty (Nat.ne_of_gt (heightSteps_pos eq some))
          rw [none] at eq
          have start : m.values.size = (m.eval expr).1.values.size := congrArg Prod.fst eq
          exact Or.inr (Or.inr ⟨none, start.trans empty, top, top₂⟩)
        · omega
        · omega
        · exact Or.inl ⟨value, value₂, top, top₂⟩

theorem DividesByZero.mem {words : List Bytes} (h : m.DividesByZero words) : ascii "/" ∈ words := by
  induction h with
  | here _ => exact List.mem_cons_self
  | later _ _ ih => exact List.mem_cons_of_mem _ ih

/-- **The height of the stacks tells how an expression ends.**  Unless it divides by zero, an
expression of not too many tokens fails at the token and for the cause that the simulation tells, and
leaves stacks of the simulated height.  So two machines of one height and depth, whatever their
registers and the words on their stacks, succeed both or fail alike, unless one of them divides by
zero: at one token for one cause, or both for an expression without tokens on empty stacks. -/
theorem eval_height (aligned : m.Aligned) {expr : Bytes}
    (short : (tokens m.delimiter expr).length ≤ tokenLimit) :
    (¬ m.DividesByZero (tokens m.delimiter expr) →
      let simulated := heightSteps m.values.capacity m.values.size 0 (tokens m.delimiter expr)
      (∀ i token e, (m.eval expr).2 = .error (.atToken i token e) ↔
        simulated.2 = .error (.atToken i token e)) ∧
      (simulated.2 = .ok () → (m.eval expr).2 = (m.eval expr).1.top) ∧
      (m.eval expr).1.values.toList.length = simulated.1 ∧
      (m.eval expr).1.origins.toList.length = simulated.1) ∧
    ∀ m₂ : Machine, m₂.Aligned → m₂.values.size = m.values.size →
      m₂.values.capacity = m.values.capacity →
      tokens m₂.delimiter expr = tokens m.delimiter expr →
      (∃ i, (m.eval expr).2 = .error (.atToken i (ascii "/") quotientError)) ∨
      (∃ i, (m₂.eval expr).2 = .error (.atToken i (ascii "/") quotientError)) ∨
      (∃ v v₂, (m.eval expr).2 = .ok v ∧ (m₂.eval expr).2 = .ok v₂) ∨
      (∃ i token e, (m.eval expr).2 = .error (.atToken i token e) ∧
        (m₂.eval expr).2 = .error (.atToken i token e)) ∨
      (tokens m.delimiter expr = [] ∧ m.values.size = 0 ∧
        (m.eval expr).2 = .error .stackEmpty ∧ (m₂.eval expr).2 = .error .stackEmpty) := by
  constructor
  · intro undivided simulated
    refine ⟨aligned.eval_error_iff short undivided, ?_⟩
    rcases aligned.eval_simulated short with ⟨divides, -⟩ | ⟨answer, eq, -, done⟩
    · exact absurd divides undivided
    · have sim : simulated = ((m.eval expr).1.values.size, answer) := eq
      rw [sim, Stack.length_toList, Stack.length_toList]
      exact ⟨done, rfl, (aligned_kept.eval aligned expr).size_eq⟩
  · intro m₂ aligned₂ size capacity same
    exact aligned.eval_alike aligned₂ short size capacity same

/-- The second sum of `7,eax,+,+` finds one value, which is gone afterwards; and so it is on a
machine that has another word in its register. -/
theorem eval_height_of_underflow :
    let m : Machine := ofDepth 2
    let m₂ : Machine := { m with registers := Registers.set {} .eax 5 }
    let expr := ascii "7,eax,+,+"
    let e := Error.atToken 3 (ascii "+") (.under 0 .stackEmpty)
    (m.eval expr).2 = .error e ∧ (m.eval expr).1.values.toList.length = 0 ∧
      (m₂.eval expr).2 = .error e := by
  intro m m₂ expr e
  have aligned : m.Aligned := ⟨rfl, rfl, by decide⟩
  have aligned₂ : m₂.Aligned := ⟨rfl, rfl, by decide⟩
  have short : (tokens m.delimiter expr).length ≤ tokenLimit := by decide
  have undivided : ¬ m.DividesByZero (tokens m.delimiter expr) := fun divides =>
    absurd divides.mem (by decide)
  have undivided₂ : ¬ m₂.DividesByZero (tokens m₂.delimiter expr) := fun divides =>
    absurd divides.mem (by decide)
  obtain ⟨told, -, height, -⟩ := (eval_height aligned short).1 undivided
  obtain ⟨told₂, -⟩ := (eval_height aligned₂ short).1 undivided₂
  exact ⟨(told 3 _ _).mpr (by decide), height.trans (by decide), (told₂ 3 _ _).mpr (by decide)⟩

end Rpn.Machine
