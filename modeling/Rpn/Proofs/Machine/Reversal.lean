import Mathlib.Algebra.Group.Int.Defs
import Mathlib.Algebra.Group.Nat.Defs
import Rpn.Proofs.Machine.Effect

/-!
# Pops undo pushes

What a push puts on the two stacks the next pop takes off again, and answers.  An origin is a number
of 64 bits and is kept in a word, so it comes back reduced to 32 bits.

* `Machine.recalled` — the number that an origin comes back as, with `recalled_eq_self_iff` for those
  that come back as they were, and `recalled_code` for the registers;
* `Machine.PopUndoes` — what it is for a pop to undo a push;
* `Machine.pushAll` and `Machine.popAll` — pushes and pops in order;
* `Machine.pops_undo_pushes` — pops undo pushes, one or many, but for the reduction of origins.
-/

namespace Rpn.Machine

/-! ## Origins -/

/-- The number that an origin comes back as. -/
def recalled (origin : Int64) : Int64 :=
  (originWord origin).toInt64

theorem toInt_recalled (origin : Int64) : (recalled origin).toInt = origin.toInt.bmod (2 ^ 32) := by
  rw [recalled, originWord, Int32.toInt_toInt64, Int64.toInt_toInt32]

/-- An origin comes back as it was exactly if it is a number of 32 bits. -/
theorem recalled_eq_self_iff {origin : Int64} :
    recalled origin = origin ↔ -2 ^ 31 ≤ origin.toInt ∧ origin.toInt < 2 ^ 31 := by
  rw [← Int64.toInt_inj, toInt_recalled, Int.bmod_eq_iff (by decide)]
  constructor
  · rintro ⟨least, most, -⟩
    exact ⟨least, most⟩
  · rintro ⟨least, most⟩
    exact ⟨least, most, by simp⟩

/-- The number of a register, as that of none, comes back as it was. -/
theorem recalled_code (r : Register) : recalled r.code = r.code := by
  cases r <;> decide

theorem recalled_noCode : recalled Register.noCode = Register.noCode := by decide

/-! ## One push and one pop -/

variable {m m₁ m₂ : Machine}

/-- The next pop undoes a push: the push succeeds, its origin is told, and the pop answers the pair
and leaves the machine as it was. -/
def PopUndoes (m : Machine) (value : Int32) (origin : Int64) : Prop :=
  ∃ m', m.push value origin = (m', .ok ()) ∧ m'.origin = origin ∧ m'.pop = (m, .ok (value, origin))

/-- Where there is room, a pop undoes a push but for the reduction of the origin. -/
theorem Aligned.pop_push (aligned : m.Aligned) (room : m.values.size < m.values.capacity)
    (value : Int32) (origin : Int64) :
    ∃ m', m.push value origin = (m', .ok ()) ∧ m'.origin = recalled origin ∧
      m'.pop = (m, .ok (value, recalled origin)) := by
  refine ⟨m.above value (originWord origin), ?_, ?_, ?_⟩
  · rw [aligned.push_eq, if_pos room]
  · exact origin_above aligned.size_eq value (originWord origin)
  · exact pop_above m value (originWord origin)

theorem Aligned.popUndoes_iff (aligned : m.Aligned) (room : m.values.size < m.values.capacity)
    (value : Int32) (origin : Int64) : PopUndoes m value origin ↔ recalled origin = origin := by
  obtain ⟨m', pushed, told, popped⟩ := aligned.pop_push room value origin
  constructor
  · rintro ⟨_, pushed', told', -⟩
    obtain rfl := (Prod.mk.inj (pushed.symm.trans pushed')).1
    exact told.symm.trans told'
  · intro same
    rw [same] at told popped
    exact ⟨m', pushed, told, popped⟩

/-! ## Many -/

/-- Pushes pairs in order, up to the first that is refused. -/
def pushAll (m : Machine) : List (Int32 × Int64) → Machine × Except Error Unit
  | [] => (m, .ok ())
  | (value, origin) :: rest =>
    match m.push value origin with
    | (m, .error e) => (m, .error e)
    | (m, .ok ()) => pushAll m rest

/-- Pops a number of pairs, up to the first pop that fails. -/
def popAll (m : Machine) : Nat → Machine × Except Error (List (Int32 × Int64))
  | 0 => (m, .ok [])
  | n + 1 =>
    match m.pop with
    | (m, .error e) => (m, .error e)
    | (m, .ok pair) =>
      match popAll m n with
      | (m, .error e) => (m, .error e)
      | (m, .ok pairs) => (m, .ok (pair :: pairs))

/-- One pop more behind others. -/
theorem popAll_succ {n : Nat} {pairs : List (Int32 × Int64)} {pair : Int32 × Int64}
    (popped : m.popAll n = (m₁, .ok pairs)) (next : m₁.pop = (m₂, .ok pair)) :
    m.popAll (n + 1) = (m₂, .ok (pairs ++ [pair])) := by
  induction n generalizing m pairs with
  | zero =>
    cases popped
    simp only [popAll, next, List.nil_append]
  | succ n ih =>
    rw [popAll] at popped ⊢
    rcases first : m.pop with ⟨m', e | top⟩
    · simp only [first] at popped
      cases popped
    · rcases others : m'.popAll n with ⟨m'', e | below⟩
      · simp only [first, others] at popped
        cases popped
      · simp only [first, others] at popped
        cases popped
        simp only [ih others, List.cons_append]

/-- Where there is room for all, as many pops undo pushes, from the last to the first. -/
theorem Aligned.popAll_pushAll (aligned : m.Aligned) (pairs : List (Int32 × Int64))
    (room : m.values.size + pairs.length ≤ m.values.capacity) :
    ∃ m', m.pushAll pairs = (m', .ok ()) ∧
      m'.popAll pairs.length =
        (m, .ok (pairs.map fun pair => (pair.1, recalled pair.2)).reverse) := by
  induction pairs generalizing m with
  | nil => exact ⟨m, rfl, rfl⟩
  | cons pair pairs ih =>
    rw [List.length_cons] at room
    have first : m.values.size < m.values.capacity := by omega
    -- the others are pushed on the machine with the first pair more
    have others : (m.values.size + 1) + pairs.length ≤ m.values.capacity := by omega
    obtain ⟨m', pushed, popped⟩ :=
      ih (aligned.above first pair.1 (originWord pair.2)) others
    refine ⟨m', ?_, ?_⟩
    · simp only [pushAll, aligned.push_eq, if_pos first]
      exact pushed
    · rw [List.length_cons, List.map_cons, List.reverse_cons]
      exact popAll_succ popped (pop_above m pair.1 (originWord pair.2))

/-- **Pops undo pushes, but for the reduction of origins to 32 bits.**  On stacks that are equally
high and have room, a push succeeds; the machine then tells its origin, reduced to 32 bits, and the
next pop answers the value and this origin and restores the machine.  The same holds for pairs in
order, which are popped from the last to the first.  An origin that is a number of 32 bits, as the
numbers of the registers are, comes back as it was, and no other does. -/
theorem pops_undo_pushes {m : Machine} (aligned : m.Aligned) :
    (∀ value origin, m.values.size < m.values.capacity →
      ∃ m', m.push value origin = (m', .ok ()) ∧ m'.origin = recalled origin ∧
        m'.pop = (m, .ok (value, recalled origin))) ∧
    (∀ pairs : List (Int32 × Int64), m.values.size + pairs.length ≤ m.values.capacity →
      ∃ m', m.pushAll pairs = (m', .ok ()) ∧
        m'.popAll pairs.length =
          (m, .ok (pairs.map fun pair => (pair.1, recalled pair.2)).reverse)) ∧
    (∀ origin : Int64, (recalled origin).toInt = origin.toInt.bmod (2 ^ 32)) ∧
    (∀ value origin, m.values.size < m.values.capacity →
      (PopUndoes m value origin ↔ -2 ^ 31 ≤ origin.toInt ∧ origin.toInt < 2 ^ 31)) ∧
    (∀ r : Register, recalled r.code = r.code) ∧ recalled Register.noCode = Register.noCode := by
  refine ⟨?_, ?_, toInt_recalled, ?_, recalled_code, recalled_noCode⟩
  · intro value origin room
    exact aligned.pop_push room value origin
  · intro pairs room
    exact aligned.popAll_pushAll pairs room
  · intro value origin room
    exact (aligned.popUndoes_iff room value origin).trans recalled_eq_self_iff

/-- On stacks for three words, two pushes above a 7 from `ebp` are undone, the first of them with an
origin that is no register. -/
theorem pops_undo_pushes_of_two :
    let m := (ofDepth 3).above 7 8
    let pairs : List (Int32 × Int64) := [(-1, -5), (2, Register.eax.code)]
    m.Aligned ∧ ∃ m', m.pushAll pairs = (m', .ok ()) ∧ m'.popAll 2 = (m, .ok pairs.reverse) := by
  intro m pairs
  have aligned : m.Aligned := ⟨rfl, rfl, by decide⟩
  exact ⟨aligned, (pops_undo_pushes aligned).2.1 pairs (by decide)⟩

/-- An origin of more than 32 bits comes back as the number of a register. -/
theorem not_popUndoes_of_wide :
    let m := ofDepth 1
    let origin : Int64 := 0x100000003
    m.Aligned ∧ m.values.size < m.values.capacity ∧ ¬ PopUndoes m 5 origin ∧
      (m.push 5 origin).2 = .ok () ∧ (m.push 5 origin).1.origin = Register.edx.code ∧
      (m.push 5 origin).1.pop = (m, .ok (5, Register.edx.code)) ∧ Register.edx.code ≠ origin := by
  intro m origin
  have aligned : m.Aligned := ⟨rfl, rfl, Nat.zero_le _⟩
  have room : m.values.size < m.values.capacity := by decide
  have cut : recalled origin = Register.edx.code := by decide
  have other : Register.edx.code ≠ origin := by decide
  obtain ⟨m', pushed, told, popped⟩ := aligned.pop_push room 5 origin
  rw [cut] at told popped
  refine ⟨aligned, room, ?_, ?_, ?_, ?_, other⟩
  · rw [aligned.popUndoes_iff room, cut]
    exact other
  · rw [pushed]
  · rw [pushed]
    exact told
  · rw [pushed]
    exact popped

end Rpn.Machine
