import Mathlib.Algebra.Group.Nat.Defs
import Rpn.Proofs.Machine.Effect

/-!
# The two stacks of a machine move in step

Values and origins are kept on two stacks that different calls change, and a call may stop
half-way.  Over every run of a machine, failed calls included, the two stacks stay equally high,
under one limit.

* `Machine.Call` — the calls that a run is made of, and `Machine.perform` the machine after one;
* `Machine.LockStep` — the invariant, with the step lemma `LockStep.perform` and the run lemma
  `lockStep_performAll`;
* `Machine.performAll_stacks` — what it means for the stacks, for operators and for pops.
-/

namespace Rpn

namespace Stack

/-- The number of words that a stack made for a depth can hold: the depth itself, except that 0
and what is no positive 64-bit limit select the default. -/
def roomOfDepth (depth : UInt64) : Nat :=
  if depth = 0 ∨ 2 ^ 63 ≤ depth.toNat then defaultDepth else depth.toNat

theorem capacity_ofDepth (depth : UInt64) : (ofDepth depth).capacity = roomOfDepth depth := by
  have toInt_eq : depth.toInt64.toInt =
      if 2 * depth.toNat < 2 ^ 64 then (depth.toNat : Int) else depth.toNat - 2 ^ 64 := by
    show depth.toBitVec.toInt = _
    rw [BitVec.toInt_eq_toNat_cond]
    rfl
  have bound : depth.toNat < 2 ^ 64 := depth.toNat_lt
  have zero_iff : depth = 0 ↔ depth.toNat = 0 := by
    rw [← UInt64.toNat_inj]
    rfl
  have nonpos_iff : depth.toInt64 ≤ 0 ↔ depth = 0 ∨ 2 ^ 63 ≤ depth.toNat := by
    rw [Int64.le_iff_toInt_le, toInt_eq, Int64.toInt_zero, zero_iff]
    split <;> omega
  simp only [capacity, ofDepth, roomOfDepth, nonpos_iff]
  split
  · rfl
  · rename_i h
    rw [toInt_eq, if_pos (by omega)]
    exact Int.toNat_natCast _

end Stack

namespace Machine

/-! ## Calls -/

/-- A call that changes a machine, whether it succeeds or fails. -/
inductive Call where
  | push (value : Int32) (origin : Int64)
  | pop
  | apply (code : Int64)
  | step (token : Bytes)
  | eval (expr : Bytes)
  | zeroRegisters
  | reset
  /-- Writes the register with a number, if there is one. -/
  | setRegister (code : Int64) (value : Int32)
  | setDelimiter (delimiter : UInt8)
  deriving DecidableEq, Repr

/-- The machine after a call. -/
def perform (m : Machine) : Call → Machine
  | .push value origin => (m.push value origin).1
  | .pop => m.pop.1
  | .apply code => (m.apply code).1
  | .step token => (m.step token).1
  | .eval expr => (m.eval expr).1
  | .zeroRegisters => m.zeroRegisters
  | .reset => m.reset
  | .setRegister code value =>
    match Register.ofCode? code with
    | some r => { m with registers := m.registers.set r value }
    | none => m
  | .setDelimiter delimiter => { m with delimiter }

/-- The machine after calls in order. -/
def performAll (m : Machine) (calls : List Call) : Machine :=
  calls.foldl perform m

/-! ## The invariant -/

/-- The stacks are equally high and not overfull, and both have the limit of a depth. -/
structure LockStep (depth : UInt64) (m : Machine) : Prop where
  aligned : m.Aligned
  values_limit : m.values.limit = depth.toInt64
  origins_limit : m.origins.limit = depth.toInt64

theorem lockStep_ofDepth (depth : UInt64) : LockStep depth (ofDepth depth) where
  aligned := ⟨rfl, rfl, Nat.zero_le _⟩
  values_limit := rfl
  origins_limit := rfl

/-- Limits are part of what emptying the stacks leaves, so they go with it. -/
theorem LockStep.of_clearStacks_eq {depth : UInt64} {m m' : Machine} (h : LockStep depth m)
    (aligned : m'.Aligned) (same : m'.clearStacks = m.clearStacks) : LockStep depth m' where
  aligned := aligned
  values_limit := (congrArg (fun c => c.values.limit) same).trans h.values_limit
  origins_limit := (congrArg (fun c => c.origins.limit) same).trans h.origins_limit

theorem lockStep_kept (depth : UInt64) : Kept (LockStep depth) where
  push m value origin h :=
    h.of_clearStacks_eq (aligned_kept.push m value origin h.aligned)
      (clearStacks_push m value origin)
  pop m h := h.of_clearStacks_eq (aligned_kept.pop m h.aligned) (clearStacks_pop m)

theorem LockStep.perform {depth : UInt64} {m : Machine} (h : LockStep depth m) (call : Call) :
    LockStep depth (m.perform call) := by
  have kept := lockStep_kept depth
  cases call with
  | push value origin => exact kept.push m value origin h
  | pop => exact kept.pop m h
  | apply code => exact kept.apply h code
  | step token => exact kept.step h token
  | eval expr => exact kept.eval h expr
  | zeroRegisters => exact ⟨⟨h.aligned.size_eq, h.aligned.capacity_eq, h.aligned.size_le⟩, h.2, h.3⟩
  | reset => exact ⟨⟨rfl, h.aligned.capacity_eq, Nat.zero_le _⟩, h.2, h.3⟩
  | setRegister code value =>
    rw [Machine.perform]
    cases Register.ofCode? code with
    | none => exact h
    | some r => exact ⟨⟨h.aligned.size_eq, h.aligned.capacity_eq, h.aligned.size_le⟩, h.2, h.3⟩
  | setDelimiter delimiter =>
    exact ⟨⟨h.aligned.size_eq, h.aligned.capacity_eq, h.aligned.size_le⟩, h.2, h.3⟩

theorem lockStep_performAll {depth : UInt64} {m : Machine} (h : LockStep depth m)
    (calls : List Call) : LockStep depth (m.performAll calls) := by
  induction calls generalizing m with
  | nil => exact h
  | cons call rest ih => exact ih (h.perform call)

/-! ## What it means -/

theorem LockStep.capacity_eq {depth : UInt64} {m : Machine} (h : LockStep depth m) :
    m.values.capacity = Stack.roomOfDepth depth := by
  rw [← Stack.capacity_ofDepth, Stack.capacity, h.values_limit]
  rfl

/-- A pop takes the origin from the stack of origins, never by default. -/
theorem Aligned.pop_origin {m : Machine} (h : m.Aligned) {value : Int32} {origin : Int64}
    (popped : m.pop.2 = .ok (value, origin)) :
    ∃ word, m.origins.peek? = some word ∧ origin = word.toInt64 := by
  rcases Nat.eq_zero_or_pos m.values.size with empty | pos
  · rw [pop_of_size_eq_zero empty] at popped
    cases popped
  · obtain ⟨m₀, value₀, word, rfl⟩ := h.exists_eq_above pos
    rw [pop_above] at popped
    cases popped
    exact ⟨word, rfl, rfl⟩

/-- No cause of a failed application is a full stack. -/
theorem Aligned.not_stackFull_of_apply {m : Machine} (h : m.Aligned) {code : Int64} {e : Error}
    (failed : (m.apply code).2 = .error e) : Error.is .stackFull e = false := by
  obtain ⟨cause, rfl, rfl | rfl | rfl⟩ := h.apply_error failed
  · rfl
  · rfl
  · rfl

/-- **The two stacks move in step.**  After any calls on a machine made for a depth, its stacks
hold equally many words under one limit, and no more than the depth allows; so no operator ever
finds a stack full, and a pop finds an origin for every value. -/
theorem performAll_stacks (depth : UInt64) (calls : List Call) :
    let m := (ofDepth depth).performAll calls
    m.values.toList.length = m.origins.toList.length ∧
    m.values.limit = m.origins.limit ∧
    m.values.toList.length ≤ Stack.roomOfDepth depth ∧
    (∀ (code : Int64) (e : Error), (m.apply code).2 = .error e → Error.is .stackFull e = false) ∧
    (∀ (value : Int32) (origin : Int64), m.pop.2 = .ok (value, origin) →
      ∃ word, m.origins.peek? = some word ∧ origin = word.toInt64) := by
  intro m
  have h : LockStep depth m := lockStep_performAll (lockStep_ofDepth depth) calls
  rw [Stack.length_toList, Stack.length_toList, ← h.capacity_eq]
  refine ⟨h.aligned.size_eq.symm, h.values_limit.trans h.origins_limit.symm, h.aligned.size_le,
    ?_, ?_⟩
  · intro code e failed
    exact h.aligned.not_stackFull_of_apply failed
  · intro value origin popped
    exact h.aligned.pop_origin popped

end Machine

end Rpn
