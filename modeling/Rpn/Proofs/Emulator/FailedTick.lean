import Mathlib.Control.Monad.Basic
import Rpn.Constant.Interpreter
import Rpn.Proofs.Emulator.Effect

/-!
# A tick that fails

A line that fails leaves the emulator at that line, and can be tried again with the same outcome.

* `Emulator.execute_again` — a failed line fails again, and changes nothing more;
* `Emulator.tick_again` — so does a failed tick;
* `Emulator.tick_error_spec` — what a failed tick answers and leaves alone, and any number of
  ticks after it.
-/

namespace Rpn.Emulator

/-- Ticks a number of times, and lists the answers. -/
def tickTimes [Constant.Language] : Nat → Emulator → Emulator × List (Except Error Bool)
  | 0, emu => (emu, [])
  | n + 1, emu =>
    let (emu, answer) := emu.tick
    let (emu, answers) := tickTimes n emu
    (emu, answer :: answers)

section Language

variable [Constant.Language] {emu emu' : Emulator} {e : Error}

/-- What lies on the stacks does not matter to an expression that expands. -/
theorem HasTable.evaluate_of_clearStacks_eq (table : emu.HasTable) {machine : Machine}
    (same : machine.clearStacks = emu.machine.clearStacks) {text expr : Bytes}
    (expanded : emu.setting.expansion text = .ok expr) (number : Int64) :
    ({ emu with machine } : Emulator).evaluate number text = emu.evaluate number text := by
  have delimiter := Machine.delimiter_of_clearStacks_eq same
  simp only [Emulator.evaluate, delimiter, table.expand_of_eq expanded, same]

/-- A line that failed fails again, and changes nothing more. -/
theorem execute_again (table : emu.HasTable) {line : Line}
    (failed : emu.execute line = (emu', .error e)) : emu'.execute line = (emu', .error e) := by
  cases table.lineEffect failed with
  | refused _ => exact failed
  | failed eq expanded ran =>
    rw [execute, eq] at failed ⊢
    exact (table.evaluate_of_clearStacks_eq (clearStacks_of_eval ran) expanded _).trans failed

/-- A tick that failed fails again, and changes nothing more. -/
theorem tick_again (table : emu.HasTable) (failed : emu.tick = (emu', .error e)) :
    emu'.tick = (emu', .error e) := by
  have told : emu.withNarration.HasTable := table
  rcases emu.tick_cases with ⟨-, eq⟩ | ⟨line, _, cause, found, done, eq⟩ | ⟨line, _, -, -, eq⟩
  · rw [eq] at failed
    cases failed
  · rw [eq] at failed
    cases failed
    have effect := told.lineEffect done
    have narrated := effect.narrated (narrated_withNarration emu)
    have found' : emu'.next? = some line := by
      rw [next?, lines, effect.program_eq, effect.index_eq]
      exact found
    have again := execute_again told done
    simp only [tick, narrated.withNarration_eq, found', again]
  · rw [eq] at failed
    cases failed

theorem tickTimes_of_tick_eq {answer : Except Error Bool} (h : emu.tick = (emu, answer)) (n : Nat) :
    tickTimes n emu = (emu, List.replicate n answer) := by
  induction n with
  | zero => rfl
  | succ n ih => simp only [tickTimes, h, ih, List.replicate_succ]

/-- A failed tick changes nothing but the words on the stacks, and those only if it is an
expression that fails and not its expansion. -/
theorem tick_error_frame (table : emu.HasTable) (failed : emu.tick = (emu', .error e)) :
    ∃ line cause machine, emu.next? = some line ∧ e = .atLine line.number cause ∧
      emu' = { emu.withNarration with machine } ∧
      machine.clearStacks = emu.withNarration.machine.clearStacks ∧
      (machine = emu.withNarration.machine ∨
        ∃ text expr, line.statement = .expression text ∧ emu.setting.expansion text = .ok expr) := by
  have told : emu.withNarration.HasTable := table
  rcases emu.tick_cases with ⟨-, eq⟩ | ⟨line, _, cause, found, done, eq⟩ | ⟨line, _, -, -, eq⟩
  · rw [eq] at failed
    cases failed
  · rw [eq] at failed
    cases failed
    cases told.lineEffect done with
    | refused _ => exact ⟨line, cause, _, found, rfl, rfl, rfl, Or.inl rfl⟩
    | failed statement expanded ran =>
      exact ⟨line, cause, _, found, rfl, rfl, clearStacks_of_eval ran,
        Or.inr ⟨_, _, statement, expanded⟩⟩
  · rw [eq] at failed
    cases failed

/-- **A failed tick is atomic, and fails again.**  On any emulator in use a tick that fails tells
the line that was next, and leaves registers, equates, predefines, results, place, count and
listing alone; so it does the stacks, unless the line is an expression whose expansion succeeds.
Any number of ticks after it fail alike and change nothing more. -/
theorem tick_error_spec (reachable : Reachable emu) (failed : emu.tick = (emu', .error e)) :
    (∃ cause, e = .atLine emu.lineNumber cause) ∧
    emu'.machine.registers = emu.machine.registers ∧
    emu'.expander.equates = emu.expander.equates ∧
    emu'.expander.predefines = emu.expander.predefines ∧
    emu'.results = emu.results ∧
    emu'.index = emu.index ∧
    emu'.ticks = emu.ticks ∧
    emu'.program = emu.program ∧
    (∀ line, emu.next? = some line →
      ((∃ name arguments, line.statement = .directive name arguments) ∨
        (∃ text cause, line.statement = .expression text ∧
          (emu.expander.expand emu.machine.delimiter text).2 = .error cause)) →
      emu'.machine.values = emu.machine.values ∧ emu'.machine.origins = emu.machine.origins) ∧
    (∀ n, tickTimes n emu' = (emu', List.replicate n (.error e))) := by
  have table := reachable.hasTable
  have again := tickTimes_of_tick_eq (tick_again table failed)
  obtain ⟨line, cause, machine, found, rfl, rfl, same, left⟩ := tick_error_frame table failed
  have number : emu.lineNumber = line.number := by
    rw [lineNumber, found]
    rfl
  have registers : machine.registers = emu.machine.registers :=
    Machine.registers_of_clearStacks_eq (m := emu.withNarration.machine) same
  refine ⟨⟨cause, by rw [number]⟩, registers, rfl, rfl, rfl, rfl, rfl, rfl, ?_, again⟩
  intro line' found' early
  obtain rfl : line = line' := Option.some.inj (found.symm.trans found')
  rcases left with rfl | ⟨text, expr, statement, expanded⟩
  · exact ⟨rfl, rfl⟩
  · rcases early with ⟨name, arguments, directive⟩ | ⟨text', cause', statement', unexpanded⟩
    · rw [statement] at directive
      cases directive
    · rw [statement] at statement'
      cases statement'
      rw [table.expand_eq, expanded] at unexpanded
      cases unexpanded

end Language

attribute [local instance] Constant.interpreter

/-- The quotient `1 / 0` fails at the fourth token, above the 7 that was pushed before, as often as
it is tried. -/
theorem tick_error_spec_of_quotient :
    let emu := new.load [⟨1, .expression (ascii "7,0,1,/")⟩]
    let e := Error.atLine 1 (.atToken 3 (ascii "/") (.under 3 .divideByZero))
    Reachable emu ∧ emu.tick.2 = .error e ∧ emu.tick.1.machine.values.toList = [7] ∧
      ∀ n, tickTimes n emu.tick.1 = (emu.tick.1, List.replicate n (.error e)) := by
  intro emu e
  have read : Listing.parse (ascii "7,0,1,/") = .ok [⟨1, .expression (ascii "7,0,1,/")⟩] := by rfl
  have reachable : Reachable emu := .load .new read
  have answer : emu.tick.2 = .error e := by decide +kernel
  have failed : emu.tick = (emu.tick.1, .error e) := by rw [← answer]
  obtain ⟨-, -, -, -, -, -, -, -, -, again⟩ := tick_error_spec reachable failed
  exact ⟨reachable, answer, by decide +kernel, again⟩

end Rpn.Emulator
