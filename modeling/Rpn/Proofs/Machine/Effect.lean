import Rpn.Machine

/-!
# What an operation does to a machine

Every operation of a machine is a sequence of pushes and pops.  So what each push and each pop
keeps is kept by operators, tokens and whole expressions, whether they succeed or fail.

* `Machine.Kept` — a property that pushes and pops keep, with `Kept.apply`, `Kept.step` and
  `Kept.eval` for what is made of them, and `Machine.KeptByTokens` the same for the pushes that a
  token can make;
* `Machine.clearStacks_eval` — an evaluation changes nothing but the words on the two stacks;
* `Machine.Aligned` — the two stacks are equally high, equally deep and not overfull, with
  `aligned_kept`;
* `Machine.above` — a machine with one value more, and what the operations do on such a
  machine (`Aligned.push_eq`, `pop_above`, `Aligned.binary_above_above`).
-/

namespace Rpn

namespace Stack

/-! ## A stack with one word more -/

theorem size_succ_eq (s : Stack) (word : Int32) : s.size + 1 = (word :: s.data).length := by
  rw [s.size_eq, List.length_cons]

/-- A stack with a word more on top, whatever its limit. -/
def above (s : Stack) (word : Int32) : Stack :=
  ⟨word :: s.data, s.limit, s.size + 1, s.size_succ_eq word⟩

theorem toList_above (s : Stack) (word : Int32) :
    (s.above word).toList = s.toList ++ [word] := by
  simp only [toList, above, List.reverse_cons]

theorem length_toList (s : Stack) : s.toList.length = s.size := by
  rw [toList, List.length_reverse, s.size_eq]

theorem push?_of_lt {s : Stack} (h : s.size < s.capacity) (word : Int32) :
    s.push? word = some (s.above word) := by
  have notFull : s.isFull = false := by
    simpa [isFull] using h
  rw [push?, notFull]
  rfl

theorem peek?_of_size_eq_zero {s : Stack} (h : s.size = 0) : s.peek? = none := by
  have empty : s.data = [] := List.eq_nil_of_length_eq_zero (s.size_eq.symm.trans h)
  rw [peek?, empty]
  rfl

/-- A stack that holds something is another stack with a word more. -/
theorem exists_eq_above {s : Stack} (h : 0 < s.size) : ∃ (t : Stack) (word : Int32), s = t.above word := by
  obtain ⟨data, limit, size, size_eq⟩ := s
  cases data with
  | nil =>
    subst size_eq
    exact absurd h (Nat.lt_irrefl 0)
  | cons word data =>
    refine ⟨⟨data, limit, data.length, rfl⟩, word, ?_⟩
    subst size_eq
    rfl

end Stack

namespace Machine

/-! ## What pushes and pops keep -/

/-- A property of machines that every push and every pop keeps, also one that fails. -/
structure Kept (P : Machine → Prop) : Prop where
  push : ∀ m value origin, P m → P (m.push value origin).1
  pop : ∀ m, P m → P m.pop.1

/-- A value that was read in the register with a number, or in none. -/
def ReadIn (registers : Registers) (value : Int32) (origin : Int64) : Prop :=
  origin = Register.noCode ∨ ∃ r : Register, origin = r.code ∧ value = registers.get r

/-- A property of machines that every pop keeps, and every push of what can be read. -/
structure KeptByTokens (P : Machine → Prop) : Prop where
  push : ∀ m value origin, ReadIn m.registers value origin → P m → P (m.push value origin).1
  pop : ∀ m, P m → P m.pop.1

section KeptByTokens

variable {P : Machine → Prop} (kept : KeptByTokens P) {m : Machine}

include kept

theorem KeptByTokens.binary (h : P m) (op : BinaryOp) : P (m.binary op).1 := by
  have h₁ := kept.pop m h
  rw [Machine.binary]
  -- the machine after each of the two pops and the push, in the order of the operation
  rcases hp₁ : m.pop with ⟨m₁, e | ⟨a, _⟩⟩ <;> rw [hp₁] at h₁
  · exact h₁
  · have h₂ := kept.pop m₁ h₁
    rcases hp₂ : m₁.pop with ⟨m₂, e | ⟨b, _⟩⟩ <;> rw [hp₂] at h₂
    · simpa only [hp₂] using h₂
    · simp only [hp₂]
      cases op.compute? a b with
      | none => exact h₂
      | some result =>
        have h₃ := kept.push m₂ result Register.noCode (Or.inl rfl) h₂
        rcases hp₃ : m₂.push result Register.noCode with ⟨m₃, e | _⟩ <;> rw [hp₃] at h₃
        · simpa only [hp₃] using h₃
        · simpa only [hp₃] using h₃

theorem KeptByTokens.apply (h : P m) (code : Int64) : P (m.apply code).1 := by
  rw [Machine.apply]
  rcases Operator.ofCode? code with _ | op | direction
  · exact h
  · exact kept.binary h op
  · exact h

theorem KeptByTokens.step (h : P m) (token : Bytes) : P (m.step token).1 := by
  rw [Machine.step]
  cases Symbol.classify token with
  | operator op => exact kept.apply h op.code
  | register r => exact kept.push m _ _ (Or.inr ⟨r, rfl, rfl⟩) h
  | literal value => exact kept.push m _ _ (Or.inl rfl) h
  | unknown => exact h

theorem KeptByTokens.steps (h : P m) (index : Nat) (tokens : List Bytes) :
    P (m.steps index tokens).1 := by
  induction tokens generalizing m index with
  | nil => exact h
  | cons token rest ih =>
    have h₁ := kept.step h token
    rw [Machine.steps]
    rcases hs : m.step token with ⟨m₁, e | _⟩ <;> rw [hs] at h₁
    · exact h₁
    · exact ih h₁ (index + 1)

theorem KeptByTokens.eval (h : P m) (expr : Bytes) : P (m.eval expr).1 := by
  rw [Machine.eval]
  cases tokenize m.delimiter 0 expr with
  | error e => exact h
  | ok tokens =>
    have h₁ := kept.steps h 0 tokens
    rcases hs : m.steps 0 tokens with ⟨m₁, e | _⟩ <;> rw [hs] at h₁
    · simpa only [hs] using h₁
    · simpa only [hs] using h₁

end KeptByTokens

section Kept

variable {P : Machine → Prop} (kept : Kept P) {m : Machine}

include kept

theorem Kept.byTokens : KeptByTokens P where
  push m value origin _ := kept.push m value origin
  pop := kept.pop

theorem Kept.apply (h : P m) (code : Int64) : P (m.apply code).1 :=
  kept.byTokens.apply h code

theorem Kept.step (h : P m) (token : Bytes) : P (m.step token).1 :=
  kept.byTokens.step h token

theorem Kept.eval (h : P m) (expr : Bytes) : P (m.eval expr).1 :=
  kept.byTokens.eval h expr

end Kept

/-! ## Everything but the words on the stacks -/

/-- A machine with a value more, and the word that tells where it was read. -/
def above (m : Machine) (value origin : Int32) : Machine :=
  { m with values := m.values.above value, origins := m.origins.above origin }

@[simp] theorem clearStacks_above (m : Machine) (value origin : Int32) :
    (m.above value origin).clearStacks = m.clearStacks := rfl

theorem push_of_lt {m : Machine} (hv : m.values.size < m.values.capacity)
    (ho : m.origins.size < m.origins.capacity) (value : Int32) (origin : Int64) :
    m.push value origin = (m.above value (originWord origin), .ok ()) := by
  rw [push, Stack.push?_of_lt hv, Stack.push?_of_lt ho]
  rfl

theorem push_of_full {m : Machine}
    (h : m.values.capacity ≤ m.values.size ∨ m.origins.capacity ≤ m.origins.size)
    (value : Int32) (origin : Int64) : m.push value origin = (m, .error .stackFull) := by
  rw [push]
  rcases h with hv | ho
  · rw [Stack.push?_eq_none_iff.2 hv]
  · rw [Stack.push?_eq_none_iff.2 ho]
    cases m.values.push? value <;> rfl

/-- A push puts both words on, or is refused and changes nothing. -/
theorem push_cases (m : Machine) (value : Int32) (origin : Int64) :
    m.push value origin = (m.above value (originWord origin), .ok ()) ∨
      m.push value origin = (m, .error .stackFull) := by
  rcases Nat.lt_or_ge m.values.size m.values.capacity with hv | hv
  · rcases Nat.lt_or_ge m.origins.size m.origins.capacity with ho | ho
    · exact Or.inl (push_of_lt hv ho value origin)
    · exact Or.inr (push_of_full (Or.inr ho) value origin)
  · exact Or.inr (push_of_full (Or.inl hv) value origin)

theorem pop_above (m : Machine) (value origin : Int32) :
    (m.above value origin).pop = (m, .ok (value, origin.toInt64)) := rfl

theorem origin_above {m : Machine} (size_eq : m.origins.size = m.values.size)
    (value word : Int32) : (m.above value word).origin = word.toInt64 := by
  have same : (m.above value word).origins.size = (m.above value word).values.size :=
    congrArg (· + 1) size_eq
  rw [origin, if_pos same]
  rfl

theorem pop_of_size_eq_zero {m : Machine} (h : m.values.size = 0) :
    m.pop = (m, .error .stackEmpty) := by
  rw [pop, Stack.pop?, Stack.peek?_of_size_eq_zero h]
  rfl

theorem clearStacks_push (m : Machine) (value : Int32) (origin : Int64) :
    (m.push value origin).1.clearStacks = m.clearStacks := by
  rcases push_cases m value origin with h | h
  · rw [h, clearStacks_above]
  · rw [h]

theorem clearStacks_pop (m : Machine) : m.pop.1.clearStacks = m.clearStacks := by
  obtain ⟨delimiter, registers, values, origins, verbose⟩ := m
  rcases Nat.eq_zero_or_pos values.size with hv | hv
  · rw [pop_of_size_eq_zero hv]
  · obtain ⟨values, value, rfl⟩ := Stack.exists_eq_above hv
    -- the stack of origins may be empty where the stack of values is not
    rcases Nat.eq_zero_or_pos origins.size with ho | ho
    · rw [pop]
      simp only [Stack.pop?, Stack.peek?_of_size_eq_zero ho]
      rfl
    · obtain ⟨origins, origin, rfl⟩ := Stack.exists_eq_above ho
      rfl

/-- Pushes and pops leave alone whatever emptying the stacks leaves. -/
theorem clearStacks_kept (c : Machine) : Kept fun m => m.clearStacks = c where
  push m value origin h := (clearStacks_push m value origin).trans h
  pop m h := (clearStacks_pop m).trans h

/-- An evaluation changes nothing but the words on the two stacks. -/
theorem clearStacks_eval (m : Machine) (expr : Bytes) :
    (m.eval expr).1.clearStacks = m.clearStacks :=
  (clearStacks_kept m.clearStacks).eval rfl expr

section ClearStacks

variable {m m' : Machine} (same : m'.clearStacks = m.clearStacks)

include same

theorem registers_of_clearStacks_eq : m'.registers = m.registers :=
  (congrArg Machine.registers same :)

theorem delimiter_of_clearStacks_eq : m'.delimiter = m.delimiter :=
  (congrArg Machine.delimiter same :)

theorem verbose_of_clearStacks_eq : m'.verbose = m.verbose :=
  (congrArg Machine.verbose same :)

end ClearStacks

/-! ## Machines whose stacks are equally high -/

/-- The two stacks hold equally many words, can hold equally many, and hold no more than that. -/
structure Aligned (m : Machine) : Prop where
  size_eq : m.origins.size = m.values.size
  capacity_eq : m.origins.capacity = m.values.capacity
  size_le : m.values.size ≤ m.values.capacity

theorem Aligned.above {m : Machine} (h : m.Aligned) (room : m.values.size < m.values.capacity)
    (value origin : Int32) : (m.above value origin).Aligned where
  size_eq := congrArg (· + 1) h.size_eq
  capacity_eq := h.capacity_eq
  size_le := room

theorem Aligned.of_above {m : Machine} {value origin : Int32}
    (h : (m.above value origin).Aligned) : m.Aligned where
  size_eq := Nat.succ.inj h.size_eq
  capacity_eq := h.capacity_eq
  size_le := Nat.le_of_succ_le h.size_le

/-- A machine with a value on its stack is another one with a value more. -/
theorem exists_eq_above {m : Machine} (size_eq : m.origins.size = m.values.size)
    (pos : 0 < m.values.size) :
    ∃ (m₀ : Machine) (value origin : Int32), m = m₀.above value origin := by
  obtain ⟨delimiter, registers, values, origins, verbose⟩ := m
  have pos' : 0 < origins.size := size_eq.symm ▸ pos
  obtain ⟨values, value, rfl⟩ := Stack.exists_eq_above pos
  obtain ⟨origins, origin, rfl⟩ := Stack.exists_eq_above pos'
  exact ⟨⟨delimiter, registers, values, origins, verbose⟩, value, origin, rfl⟩

theorem Aligned.exists_eq_above {m : Machine} (h : m.Aligned) (pos : 0 < m.values.size) :
    ∃ (m₀ : Machine) (value origin : Int32), m = m₀.above value origin :=
  Machine.exists_eq_above h.size_eq pos

theorem Aligned.push_eq {m : Machine} (h : m.Aligned) (value : Int32) (origin : Int64) :
    m.push value origin =
      if m.values.size < m.values.capacity then (m.above value (originWord origin), .ok ())
      else (m, .error .stackFull) := by
  split
  · rename_i room
    have room' : m.origins.size < m.origins.capacity := by
      rw [h.size_eq, h.capacity_eq]
      exact room
    exact push_of_lt room room' value origin
  · rename_i full
    exact push_of_full (Or.inl (Nat.le_of_not_lt full)) value origin

theorem aligned_kept : Kept Aligned where
  push m value origin h := by
    rw [h.push_eq]
    split
    · rename_i room
      exact h.above room value (originWord origin)
    · exact h
  pop m h := by
    rcases Nat.eq_zero_or_pos m.values.size with empty | pos
    · rw [pop_of_size_eq_zero empty]
      exact h
    · obtain ⟨m₀, value, origin, rfl⟩ := h.exists_eq_above pos
      exact h.of_above

/-! ## Operators on machines with values -/

theorem binary_of_size_eq_zero {m : Machine} (h : m.values.size = 0) (op : BinaryOp) :
    m.binary op = (m, .error .stackEmpty) := by
  rw [binary, pop_of_size_eq_zero h]

theorem binary_above_of_size_eq_zero {m : Machine} (h : m.values.size = 0) (op : BinaryOp)
    (a origin : Int32) : (m.above a origin).binary op = (m, .error .stackEmpty) := by
  simp only [binary, pop_above, pop_of_size_eq_zero h]

/-- An operator replaces the two values on top, `a` above `b`, by its value, or takes them off
where it has none. -/
theorem Aligned.binary_above_above {m : Machine} (h : m.Aligned)
    (room : m.values.size < m.values.capacity) (op : BinaryOp) (a a' b b' : Int32) :
    ((m.above b b').above a a').binary op =
      match op.compute? a b with
      | none => (m, .error .divideByZero)
      | some result => (m.above result (originWord Register.noCode), .ok result) := by
  simp only [binary, pop_above]
  cases op.compute? a b with
  | none => rfl
  | some result =>
    simp only [h.push_eq, if_pos room]
    rfl

/-- What an operator finds: no value, one value or two. -/
theorem Aligned.binary_cases {m : Machine} (h : m.Aligned) (op : BinaryOp) :
    (m.values.size = 0 ∧ m.binary op = (m, .error .stackEmpty)) ∨
    (∃ (m₀ : Machine) (a a' : Int32), m = m₀.above a a' ∧ m₀.values.size = 0 ∧
      m.binary op = (m₀, .error .stackEmpty)) ∨
    (∃ (m₀ : Machine) (a a' b b' : Int32), m = (m₀.above b b').above a a' ∧ m₀.Aligned ∧
      m.binary op =
        match op.compute? a b with
        | none => (m₀, .error .divideByZero)
        | some result => (m₀.above result (originWord Register.noCode), .ok result)) := by
  rcases Nat.eq_zero_or_pos m.values.size with empty | pos
  · exact Or.inl ⟨empty, binary_of_size_eq_zero empty op⟩
  · obtain ⟨m₁, a, a', rfl⟩ := h.exists_eq_above pos
    rcases Nat.eq_zero_or_pos m₁.values.size with empty | pos
    · exact Or.inr (Or.inl ⟨m₁, a, a', rfl, empty, binary_above_of_size_eq_zero empty op a a'⟩)
    · have h₁ := h.of_above
      obtain ⟨m₀, b, b', rfl⟩ := h₁.exists_eq_above pos
      have h₀ := h₁.of_above
      have room : m₀.values.size < m₀.values.capacity := h₁.size_le
      exact Or.inr (Or.inr ⟨m₀, a, a', b, b', rfl, h₀, h₀.binary_above_above room op a a' b b'⟩)

/-- An operator that fails lacks a value or divides by zero; there is always room for its
result. -/
theorem Aligned.binary_error {m : Machine} (h : m.Aligned) {op : BinaryOp} {e : Error}
    (failed : (m.binary op).2 = .error e) : e = .stackEmpty ∨ e = .divideByZero := by
  rcases h.binary_cases op with ⟨-, eq⟩ | ⟨_, _, _, -, -, eq⟩ | ⟨_, a, _, b, _, -, -, eq⟩
  · rw [eq] at failed
    exact Or.inl (Except.error.inj failed).symm
  · rw [eq] at failed
    exact Or.inl (Except.error.inj failed).symm
  · rw [eq] at failed
    cases hc : op.compute? a b with
    | none =>
      rw [hc] at failed
      exact Or.inr (Except.error.inj failed).symm
    | some result =>
      rw [hc] at failed
      cases failed

theorem apply_of_binary {code : Int64} {op : BinaryOp}
    (h : Operator.ofCode? code = some (.binary op)) (m : Machine) :
    m.apply code = ((m.binary op).1, (m.binary op).2.mapError (Error.under code)) := by
  rw [apply, h]

theorem apply_of_rotate {code : Int64} {direction : Rotation}
    (h : Operator.ofCode? code = some (.rotate direction)) (m : Machine) :
    m.apply code = (m, .error (.under code .notImplemented)) := by
  rw [apply, h]
  rfl

theorem apply_of_none {code : Int64} (h : Operator.ofCode? code = none) (m : Machine) :
    m.apply code = (m, m.top.mapError (Error.under code)) := by
  rw [apply, h]

/-- The token of an operator on a machine with two values more. -/
theorem Aligned.step_binary {m : Machine} (h : m.Aligned)
    (room : m.values.size < m.values.capacity) (op : BinaryOp) (a a' b b' : Int32) :
    ((m.above b b').above a a').step (Operator.binary op).mnemonic =
      match op.compute? a b with
      | none => (m, .error (.under (Operator.binary op).code .divideByZero))
      | some result => (m.above result (originWord Register.noCode), .ok ()) := by
  simp only [step, Symbol.classify_operator, apply_of_binary (Operator.ofCode?_code (.binary op)),
    h.binary_above_above room]
  cases op.compute? a b with
  | none => rfl
  | some result => rfl

theorem steps_append_of_ok {m m' : Machine} {index : Nat} {front : List Bytes}
    (h : m.steps index front = (m', .ok ())) (rest : List Bytes) :
    m.steps index (front ++ rest) = m'.steps (index + front.length) rest := by
  rw [steps_append, h]

theorem steps_append_of_error {m m' : Machine} {index : Nat} {front : List Bytes} {e : Error}
    (h : m.steps index front = (m', .error e)) (rest : List Bytes) :
    m.steps index (front ++ rest) = (m', .error e) := by
  rw [steps_append, h]

/-- An expression of not too many tokens is evaluated token by token. -/
theorem eval_of_length_le (m : Machine) {expr : Bytes}
    (short : (tokens m.delimiter expr).length ≤ tokenLimit) :
    m.eval expr =
      match m.steps 0 (tokens m.delimiter expr) with
      | (m', .error e) => (m', .error e)
      | (m', .ok ()) => (m', m'.top) := by
  have limit : effectiveTokenLimit 0 = tokenLimit := rfl
  rcases ran : m.steps 0 (tokens m.delimiter expr) with ⟨m', e | _⟩ <;>
    simp only [eval, tokenize_eq, limit, if_pos short, ran]

theorem eval_of_length_gt (m : Machine) {expr : Bytes}
    (long : tokenLimit < (tokens m.delimiter expr).length) :
    m.eval expr = (m, .error .tokenStorage) := by
  have limit : effectiveTokenLimit 0 = tokenLimit := rfl
  simp only [eval, tokenize_eq, limit, if_neg (Nat.not_le.mpr long)]

theorem eval_of_steps_ok {m m' : Machine} {expr : Bytes}
    (short : (tokens m.delimiter expr).length ≤ tokenLimit)
    (ran : m.steps 0 (tokens m.delimiter expr) = (m', .ok ())) : m.eval expr = (m', m'.top) := by
  rw [m.eval_of_length_le short, ran]

theorem eval_of_steps_error {m m' : Machine} {expr : Bytes} {e : Error}
    (short : (tokens m.delimiter expr).length ≤ tokenLimit)
    (ran : m.steps 0 (tokens m.delimiter expr) = (m', .error e)) : m.eval expr = (m', .error e) := by
  rw [m.eval_of_length_le short, ran]

/-- The causes for which an application fails, each under the number of its operator. -/
theorem Aligned.apply_error {m : Machine} (h : m.Aligned) {code : Int64} {e : Error}
    (failed : (m.apply code).2 = .error e) :
    ∃ cause, e = .under code cause ∧
      (cause = .stackEmpty ∨ cause = .notImplemented ∨ cause = .divideByZero) := by
  rcases hop : Operator.ofCode? code with _ | op | direction
  · rw [apply_of_none hop] at failed
    rcases Nat.eq_zero_or_pos m.values.size with empty | pos
    · rw [top, Stack.peek?_of_size_eq_zero empty] at failed
      exact ⟨.stackEmpty, (Except.error.inj failed).symm, Or.inl rfl⟩
    · obtain ⟨m₀, value, origin, rfl⟩ := h.exists_eq_above pos
      cases failed
  · rw [apply_of_binary hop] at failed
    cases hb : (m.binary op).2 with
    | ok result =>
      rw [hb] at failed
      cases failed
    | error cause =>
      rw [hb] at failed
      refine ⟨cause, (Except.error.inj failed).symm, ?_⟩
      rcases h.binary_error hb with rfl | rfl
      · exact Or.inl rfl
      · exact Or.inr (Or.inr rfl)
  · rw [apply_of_rotate hop] at failed
    exact ⟨.notImplemented, (Except.error.inj failed).symm, Or.inr (Or.inl rfl)⟩

end Machine

end Rpn
