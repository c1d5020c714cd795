import Rpn.Constant.Interpreter
import Rpn.Proofs.Emulator.Effect
import Rpn.Proofs.Machine.Origin

/-!
# The register that a result was read in

* `Emulator.exists_of_tick` — what a tick that carries out an expression line evaluates and records;
* `Emulator.origins_sound` — every value that an expression leaves was read where the machine tells,
  and so was the result of a line.
-/

namespace Rpn.Emulator

open Machine (ReadIn)

section Language

variable [Constant.Language] {emu emu' : Emulator} {line : Line} {text : Bytes}

/-- An expression that is evaluated is expanded, and its value recorded. -/
theorem exists_of_evaluate {number : Int64} (done : emu.evaluate number text = (emu', .ok ())) :
    ∃ expr value, emu.machine.clearStacks.eval expr = (emu'.machine, .ok value) ∧
      emu'.results = emu.results.insert number value := by
  rw [evaluate] at done
  rcases expanded : emu.expander.expand emu.machine.delimiter text with ⟨expander, e | expr⟩ <;>
    rw [expanded] at done
  · cases done
  · rcases ran : emu.machine.clearStacks.eval expr with ⟨machine, e | value⟩ <;>
      simp only [ran] at done
    · cases done
    · obtain ⟨rfl, -⟩ := Prod.mk.inj done
      exact ⟨expr, value, ran, rfl⟩

/-- A tick that carries out an expression line evaluates an expression on empty stacks, and records
its value under the number of the line. -/
theorem exists_of_tick (next : emu.next? = some line) (asked : line.statement = .expression text)
    (done : emu.tick = (emu', .ok false)) :
    ∃ m expr value, m.values.toList = [] ∧ m.origins.toList = [] ∧
      Machine.eval m expr = (emu'.machine, .ok value) ∧
      emu'.results[line.number]? = some value := by
  rcases emu.tick_cases with
    ⟨none, -⟩ | ⟨_, _, _, -, -, failed⟩ | ⟨line', emu₁, found, ran, counted⟩
  · rw [next] at none
    cases none
  · rw [done] at failed
    cases failed
  · obtain rfl : line = line' := Option.some.inj (next.symm.trans found)
    obtain ⟨rfl, -⟩ := Prod.mk.inj (done.symm.trans counted)
    rw [execute, asked] at ran
    obtain ⟨expr, value, evaluated, results⟩ := exists_of_evaluate ran
    refine ⟨_, expr, value, rfl, rfl, evaluated, ?_⟩
    show emu₁.results[line.number]? = some value
    rw [results, Table.getElem?_put, if_pos rfl]

/-- **The register beside a value holds it.**  When an expression is evaluated on empty stacks, whether
it succeeds or fails, there stands beside every value that is left the number of no register, or that
of one which holds the value.  If it succeeds, the value on top was read in a register exactly if the
last token is its mnemonic, and in none otherwise.  So when a line has been evaluated and a register
is told for the value on top, the result of the line is what that register holds. -/
theorem origins_sound :
    (∀ (m : Machine) (expr : Bytes), m.values.toList = [] → m.origins.toList = [] →
      let after := (m.eval expr).1
      let last := (tokens m.delimiter expr).getLast?
      after.origins.toList.length = after.values.toList.length ∧
      after.registers = m.registers ∧
      (∀ (k : Nat) (value word : Int32), after.values.toList[k]? = some value →
        after.origins.toList[k]? = some word → ReadIn after.registers value word.toInt64) ∧
      ∀ value, (m.eval expr).2 = .ok value →
        (∀ r : Register, after.origin = r.code ↔ last = some r.mnemonic) ∧
        ((∀ r : Register, last ≠ some r.mnemonic) → after.origin = Register.noCode)) ∧
    ∀ (emu after : Emulator) (line : Line) (text : Bytes) (r : Register),
      emu.next? = some line → line.statement = .expression text → emu.tick = (after, .ok false) →
      after.machine.origin = r.code →
      after.results[line.number]? = some (after.machine.registers.get r) := by
  constructor
  · intro m expr values origins after last
    have sourced : after.Sourced :=
      Machine.sourced_kept.eval (Machine.sourced_of_empty values origins) expr
    refine ⟨?_, Machine.registers_of_clearStacks_eq (m.clearStacks_eval expr), ?_, ?_⟩
    · rw [Stack.length_toList, Stack.length_toList]
      exact sourced.size_eq
    · intro k value word found beside
      exact sourced.readIn found beside
    · intro value answered
      have done : m.eval expr = (after, .ok value) := by rw [← answered]
      obtain ⟨token, ends, origin⟩ := Machine.origin_of_eval values origins done
      have token_eq (r : Register) : last = some r.mnemonic ↔ token = r.mnemonic := by
        rw [show last = some token from ends, Option.some.injEq]
      constructor
      · intro r
        rw [origin, Register.lookup_eq_code_iff, token_eq]
      · intro other
        rw [origin, Register.lookup]
        cases named : Register.ofMnemonic? token with
        | none => rfl
        | some r =>
          have mnemonic := Register.ofMnemonic?_eq_some_iff.mp named
          exact absurd ((token_eq r).mpr mnemonic) (other r)
  · intro emu after line text r next asked done read
    obtain ⟨m, expr, value, values, origins, evaluated, recorded⟩ := exists_of_tick next asked done
    have sourced := Machine.sourced_kept.eval (Machine.sourced_of_empty values origins) expr
    rw [evaluated] at sourced
    rw [recorded, sourced.eq_get_of_origin (Machine.steps_of_eval evaluated).2 read]

end Language

attribute [local instance] Constant.interpreter

/-- The 7 on top of `1,ebx,ebx,+,ebx` was read in `ebx`, and so was the result of the line `8,ebx`,
whatever the limits of the two stacks. -/
theorem origins_sound_of_ebx :
    let m : Machine := { Machine.ofDepth 4 with
      registers := Registers.set {} .ebx 7, origins := Stack.ofDepth 3 }
    let after := (m.eval (ascii "1,ebx,ebx,+,ebx")).1
    let emu : Emulator := { new with
      machine := m, program := some #[⟨3, .expression (ascii "8,ebx")⟩] }
    after.values.toList = [1, 14, 7] ∧ after.origin = Register.ebx.code ∧
      ReadIn after.registers 7 1 ∧ emu.tick.2 = .ok false ∧ emu.tick.1.results[(3 : Int64)]? = some 7 := by
  intro m after emu
  obtain ⟨machines, ticks⟩ := origins_sound
  obtain ⟨-, -, beside, named⟩ := machines m (ascii "1,ebx,ebx,+,ebx") rfl rfl
  have origin : after.origin = Register.ebx.code := ((named 7 (by decide)).1 .ebx).mpr (by decide)
  have read : ReadIn after.registers 7 1 := beside 2 7 1 (by decide) (by decide)
  have answer : emu.tick.2 = .ok false := by decide +kernel
  have done : emu.tick = (emu.tick.1, .ok false) := by rw [← answer]
  have result := ticks emu emu.tick.1 _ _ .ebx rfl rfl done (by decide +kernel)
  have held : emu.tick.1.machine.registers.get .ebx = 7 := by decide +kernel
  rw [held] at result
  exact ⟨by decide, origin, read, answer, result⟩

end Rpn.Emulator
