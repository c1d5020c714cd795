import Mathlib.Data.List.Induction
import Rpn.Constant.Interpreter
import Rpn.Expander

/-!
# Equates by their history

An expander has the equates of its last reset and what was defined since, and a reset brings back
the latest predefines.  An expansion makes a reset of its own where there is no table yet.

* `Expander.Call` — what is done to an expander, with `Expander.perform`, `Expander.performAll` and
  `Expander.answers` for the state that it leaves and for what the expansions answer;
* `Expander.latest` — what the latest of some calls gives a name;
* `Expander.LastReset` — calls divided at the last reset among them, and `exists_lastReset`, that
  there is one where there is a table;
* `Expander.getElem?_of_lastReset` — the equates, read off the calls in front of that reset and those
  behind it;
* `Expander.answers_reset` — without direct writes another reset is not noticed;
* `Expander.equates_of_history` — all of this together.
-/

namespace Rpn.Expander

/-! ## Calls -/

/-- What is done to an expander. -/
inductive Call where
  | predefine (name value : Bytes)
  | reset
  | expand (delimiter : UInt8) (expr : Bytes)
  /-- Writes an entry into the table of equates itself. -/
  | write (name value : Bytes)
  deriving DecidableEq, Repr

/-- The expander after a call. -/
def perform [Constant.Language] (ex : Expander) : Call → Expander
  | .predefine name value => ex.predefine name value
  | .reset => ex.reset
  | .expand delimiter expr => (ex.expand delimiter expr).1
  | .write name value => ex.equate name value

/-- The expander after calls in order. -/
def performAll [Constant.Language] (ex : Expander) (calls : List Call) : Expander :=
  calls.foldl perform ex

/-- The answer of a call, if it is an expansion. -/
def answer? [Constant.Language] (ex : Expander) : Call → Option (Except Error Bytes)
  | .expand delimiter expr => some (ex.expand delimiter expr).2
  | _ => none

/-- The answers of the expansions among calls, in order. -/
def answers [Constant.Language] (ex : Expander) : List Call → List (Except Error Bytes)
  | [] => []
  | call :: rest => (ex.answer? call).toList ++ answers (ex.perform call) rest

/-- Whether a call writes into the table of equates itself. -/
def Call.isWrite : Call → Bool
  | .write _ _ => true
  | _ => false

/-- Calls that write into a table of equates only where there is one. -/
def Permitted [Constant.Language] (ex : Expander) : List Call → Prop
  | [] => True
  | call :: rest =>
    (call.isWrite = true → ex.equates.isSome = true) ∧ Permitted (ex.perform call) rest

/-- What a call predefines a name to be. -/
def Call.predefined? (name : Bytes) : Call → Option Bytes
  | .predefine name' value => if name' = name then some value else none
  | _ => none

/-- What a call defines a name to be where there is a table. -/
def Call.defined? (name : Bytes) : Call → Option Bytes
  | .predefine name' value => if name' = name then some value else none
  | .write name' value => if name' = name then some value else none
  | _ => none

/-- What the latest of some calls gives, of those that give anything. -/
def latest (given? : Call → Option Bytes) (calls : List Call) : Option Bytes :=
  calls.reverse.findSome? given?

/-- Whether a call is a reset behind others: one that is asked for, or that of an expansion which
finds no table. -/
def Call.Resets [Constant.Language] (front : List Call) : Call → Prop
  | .reset => True
  | .expand _ _ => (performAll {} front).equates = none
  | _ => False

/-- Calls divided at the last reset among them.  An expansion behind a reset finds a table. -/
structure LastReset [Constant.Language] (calls front : List Call) (call : Call)
    (back : List Call) : Prop where
  eq : calls = front ++ call :: back
  resets : call.Resets front
  last : .reset ∉ back

/-! ## What calls leave -/

theorem latest_concat (given? : Call → Option Bytes) (calls : List Call) (call : Call) :
    latest given? (calls ++ [call]) = (given? call).or (latest given? calls) := by
  rw [latest, List.reverse_append, List.reverse_singleton, List.singleton_append,
    List.findSome?_cons]
  cases given? call <;> rfl

theorem predefines_ready (ex : Expander) : ex.ready.predefines = ex.predefines := by
  rw [ready]
  split <;> rfl

section Language

variable [Constant.Language] {ex ex' : Expander} {calls front back : List Call} {call : Call}
  {name : Bytes} {equates : Table Bytes Bytes}

theorem performAll_concat (ex : Expander) (calls : List Call) (call : Call) :
    ex.performAll (calls ++ [call]) = (ex.performAll calls).perform call := by
  rw [performAll, List.foldl_append]
  rfl

theorem performAll_append (ex : Expander) (front back : List Call) :
    ex.performAll (front ++ back) = (ex.performAll front).performAll back :=
  List.foldl_append

theorem answers_append (ex : Expander) (front back : List Call) :
    ex.answers (front ++ back) = ex.answers front ++ (ex.performAll front).answers back := by
  induction front generalizing ex with
  | nil => rfl
  | cons call front ih =>
    rw [List.cons_append, answers, ih, answers, List.append_assoc]
    rfl

theorem permitted_append :
    ex.Permitted (front ++ back) ↔ ex.Permitted front ∧ (ex.performAll front).Permitted back := by
  induction front generalizing ex with
  | nil => exact (Iff.of_eq (true_and _)).symm
  | cons call front ih =>
    rw [List.cons_append, Permitted, Permitted, ih, and_assoc]
    rfl

/-- What a call leaves of the predefines depends on nothing else. -/
theorem predefines_perform (same : ex'.predefines = ex.predefines) (call : Call) :
    (ex'.perform call).predefines = (ex.perform call).predefines := by
  cases call with
  | predefine name value => exact congrArg (·.insert name value) same
  | reset => exact same
  | expand delimiter expr =>
    show ex'.ready.predefines = ex.ready.predefines
    rw [predefines_ready, predefines_ready, same]
  | write name value => exact same

/-- The predefines are what the calls last predefined. -/
theorem getElem?_predefines (calls : List Call) (name : Bytes) :
    (performAll {} calls).predefines[name]? = latest (Call.predefined? name) calls := by
  induction calls using List.reverseRecOn with
  | nil => exact Std.ExtTreeMap.getElem?_empty
  | append_singleton calls call ih =>
    rw [performAll_concat, latest_concat, ← ih]
    cases call with
    | predefine name' value =>
      show ((performAll {} calls).predefines.insert name' value)[name]? = _
      rw [Table.getElem?_put, Call.predefined?]
      split <;> rfl
    | reset => rfl
    | expand delimiter expr =>
      show (performAll {} calls).ready.predefines[name]? = _
      rw [predefines_ready]
      rfl
    | write name' value => rfl

/-- One call other than a reset changes a table by what it defines. -/
theorem getElem?_perform (known : ex.equates = some equates) (other : call ≠ .reset) :
    ∃ equates', (ex.perform call).equates = some equates' ∧
      ∀ name : Bytes, equates'[name]? = (call.defined? name).or equates[name]? := by
  cases call with
  | predefine name' value =>
    refine ⟨equates.insert name' value, ?_, ?_⟩
    · show ex.equates.map _ = _
      rw [known, Option.map_some]
    · intro name
      rw [Table.getElem?_put, Call.defined?]
      split <;> rfl
  | reset => exact absurd rfl other
  | expand delimiter expr =>
    refine ⟨equates, ?_, fun _ => rfl⟩
    show ex.ready.equates = _
    rw [ready, known, Option.isSome_some, if_pos rfl, known]
  | write name' value =>
    refine ⟨equates.insert name' value, ?_, ?_⟩
    · show some (ex.table.insert name' value) = _
      rw [table, known, Option.getD_some]
    · intro name
      rw [Table.getElem?_put, Call.defined?]
      split <;> rfl

/-- Without a reset the latest definition holds, or else what the table had. -/
theorem getElem?_performAll (known : ex.equates = some equates) (noReset : .reset ∉ calls) :
    ∃ equates', (ex.performAll calls).equates = some equates' ∧
      ∀ name : Bytes,
        equates'[name]? = (latest (Call.defined? name) calls).or equates[name]? := by
  induction calls using List.reverseRecOn with
  | nil => exact ⟨equates, known, fun _ => rfl⟩
  | append_singleton calls call ih =>
    rw [List.mem_append, not_or] at noReset
    obtain ⟨equates', known', found⟩ := ih noReset.1
    have other : call ≠ .reset := fun same => noReset.2 (by rw [same]; exact List.mem_singleton_self _)
    obtain ⟨equates'', known'', found'⟩ := getElem?_perform known' other
    refine ⟨equates'', by rw [performAll_concat, known''], fun name => ?_⟩
    rw [found', found, latest_concat, Option.or_assoc]

/-! ## The last reset -/

/-- A reset leaves the predefines. -/
theorem Call.Resets.equates_eq (resets : call.Resets front) :
    ((performAll {} front).perform call).equates = some (performAll {} front).predefines := by
  cases call with
  | predefine name value => exact resets.elim
  | reset => rfl
  | expand delimiter expr =>
    have none : (performAll {} front).equates = none := resets
    show (performAll {} front).ready.equates = _
    rw [ready, none]
    rfl
  | write name value => exact resets.elim

/-- The equates are what was last defined behind the last reset, or else last predefined in front
of it. -/
theorem getElem?_of_lastReset (known : (performAll {} calls).equates = some equates)
    (divided : LastReset calls front call back) (name : Bytes) :
    equates[name]? =
      (latest (Call.defined? name) back).or (latest (Call.predefined? name) front) := by
  obtain ⟨rfl, resets, last⟩ := divided
  obtain ⟨equates', known', found⟩ := getElem?_performAll resets.equates_eq last
  have whole : performAll {} (front ++ call :: back) =
      ((performAll {} front).perform call).performAll back :=
    performAll_append {} front (call :: back)
  rw [whole, known'] at known
  obtain rfl := Option.some.inj known
  rw [found, getElem?_predefines]

theorem LastReset.concat (divided : LastReset calls front call back) {later : Call}
    (other : later ≠ .reset) : LastReset (calls ++ [later]) front call (back ++ [later]) where
  eq := by rw [divided.eq, List.append_assoc, List.cons_append]
  resets := divided.resets
  last := by
    rw [List.mem_append, List.mem_singleton, not_or]
    exact ⟨divided.last, other.symm⟩

/-- Where there is a table there was a reset. -/
theorem exists_lastReset (permitted : Permitted {} calls)
    (known : (performAll {} calls).equates ≠ none) :
    ∃ front call back, LastReset calls front call back := by
  induction calls using List.reverseRecOn with
  | nil => exact absurd rfl known
  | append_singleton calls call ih =>
    obtain ⟨permitted, ⟨allowed, -⟩⟩ := permitted_append.mp permitted
    by_cases resets : call.Resets calls
    · exact ⟨calls, call, [], rfl, resets, List.not_mem_nil⟩
    · -- the call made no table, so there was one
      have before : (performAll {} calls).equates ≠ none := by
        intro none
        rw [performAll_concat] at known
        cases call with
        | predefine name value => exact known (congrArg (Option.map _) none)
        | reset => exact resets trivial
        | expand delimiter expr => exact resets none
        | write name value =>
          have some := allowed rfl
          rw [none] at some
          cases some
      have other : call ≠ .reset := by
        rintro rfl
        exact resets trivial
      obtain ⟨front, made, back, divided⟩ := ih permitted before
      exact ⟨front, made, back ++ [call], divided.concat other⟩

/-! ## Histories without direct writes -/

/-- The table, where there is one, holds the predefines and nothing else. -/
def InStep (ex : Expander) : Prop :=
  ex.table = ex.predefines

theorem InStep.perform (inStep : ex.InStep) (noWrite : call.isWrite = false) :
    (ex.perform call).InStep := by
  obtain ⟨_ | equates, predefines, verbose⟩ := ex
  · cases call with
    | write name value => cases noWrite
    | _ => rfl
  · obtain rfl : equates = predefines := inStep
    cases call with
    | write name value => cases noWrite
    | _ => rfl

theorem InStep.performAll (inStep : ex.InStep) (noWrite : ∀ call ∈ calls, call.isWrite = false) :
    (ex.performAll calls).InStep := by
  induction calls generalizing ex with
  | nil => exact inStep
  | cons call calls ih =>
    rw [List.forall_mem_cons] at noWrite
    exact ih (inStep.perform noWrite.1) noWrite.2

/-- Without direct writes expansions see nothing but the predefines. -/
theorem InStep.answers_eq (inStep : ex.InStep) (inStep' : ex'.InStep)
    (same : ex'.predefines = ex.predefines) (noWrite : ∀ call ∈ calls, call.isWrite = false) :
    ex'.answers calls = ex.answers calls := by
  induction calls generalizing ex ex' with
  | nil => rfl
  | cons call calls ih =>
    rw [List.forall_mem_cons] at noWrite
    have others := ih (inStep.perform noWrite.1) (inStep'.perform noWrite.1)
      (predefines_perform same call) noWrite.2
    have answered : ex'.answer? call = ex.answer? call := by
      cases call with
      | expand delimiter expr =>
        have table : ex'.table = ex.table := by rw [inStep', inStep, same]
        show some (expandWith ex'.table delimiter expr) = some (expandWith ex.table delimiter expr)
        rw [table]
      | _ => rfl
    rw [answers, answers, answered, others]

/-- Without direct writes another reset changes no answer. -/
theorem answers_reset (noWrite : ∀ call ∈ front ++ back, call.isWrite = false) :
    answers {} (front ++ .reset :: back) = answers {} (front ++ back) := by
  rw [List.forall_mem_append] at noWrite
  have zero : InStep {} := rfl
  have inStep : (performAll {} front).InStep := zero.performAll noWrite.1
  have again : (performAll {} front).reset.answers back = (performAll {} front).answers back :=
    inStep.answers_eq rfl rfl noWrite.2
  rw [answers_append, answers_append, ← again]
  rfl

/-- **The latest definition holds, across resets.**  Let an expander begin with nothing, and let it be
predefined, reset, used and, where it has a table, written to, in any order.  Where it has a table
there was a reset, and a name means what it was last defined to be behind the last reset, or else what
it was last predefined to be in front of that, or else nothing.  A reset leaves what was last
predefined, and nothing that was written.  And where nothing is written, another reset, wherever it
is made, changes no answer. -/
theorem equates_of_history {calls : List Call} (permitted : Permitted {} calls) :
    (∀ equates, (performAll {} calls).equates = some equates →
      (∃ front call back, LastReset calls front call back) ∧
      ∀ front call back, LastReset calls front call back → ∀ name : Bytes,
        equates[name]? =
          (latest (Call.defined? name) back).or (latest (Call.predefined? name) front)) ∧
    (∃ equates, (performAll {} (calls ++ [.reset])).equates = some equates ∧
      ∀ name : Bytes, equates[name]? = latest (Call.predefined? name) calls) ∧
    ∀ front back, calls = front ++ back → (∀ call ∈ calls, call.isWrite = false) →
      answers {} (front ++ .reset :: back) = answers {} calls := by
  refine ⟨?_, ?_, ?_⟩
  · intro equates known
    have some : (performAll {} calls).equates ≠ none := by
      rw [known]
      exact Option.some_ne_none equates
    exact ⟨exists_lastReset permitted some, fun front call back divided name =>
      getElem?_of_lastReset known divided name⟩
  · rw [performAll_concat]
    exact ⟨_, rfl, getElem?_predefines calls⟩
  · rintro front back rfl noWrite
    exact answers_reset noWrite

end Language

attribute [local instance] Constant.interpreter

/-- A name that is written holds as long as no reset is made, which the first expansion makes but the
second does not. -/
theorem equates_of_history_of_five :
    let calls : List Call := [.predefine (ascii "A") (ascii "1"), .expand 0 (ascii "A"),
      .write (ascii "B") (ascii "2"), .predefine (ascii "B") (ascii "3"), .expand 32 (ascii "A B")]
    let calls' : List Call := calls ++ [.write (ascii "B") (ascii "4")]
    Permitted {} calls' ∧
      ∃ equates equates' : Table Bytes Bytes, (performAll {} calls').equates = some equates ∧
        equates[ascii "B"]? = some (ascii "4") ∧
        (performAll {} (calls' ++ [.reset])).equates = some equates' ∧
        equates'[ascii "B"]? = some (ascii "3") := by
  intro calls calls'
  have permitted : Permitted {} calls' :=
    ⟨nofun, nofun, fun _ => rfl, nofun, nofun, fun _ => rfl, trivial⟩
  obtain ⟨held, ⟨equates', known', left⟩, -⟩ := equates_of_history permitted
  have divided : LastReset calls' [.predefine (ascii "A") (ascii "1")] (.expand 0 (ascii "A"))
      (calls'.drop 2) := ⟨rfl, rfl, by decide⟩
  refine ⟨permitted, _, equates', rfl, ?_, known', ?_⟩
  · rw [(held _ rfl).2 _ _ _ divided]
    decide
  · rw [left]
    decide

end Rpn.Expander
