import Rpn.Constant.Interpreter
import Rpn.Proofs.Emulator.Iteration
import Rpn.Proofs.Expander.Delimiter
import Rpn.Proofs.Literal
import Rpn.Proofs.Machine.Origin

/-!
# A register set and an expression evaluated

The text behind a register's name is expanded and then read as one literal; an expression is expanded
and then divided into tokens.  Both come to the same where the first succeeds.

* `Machine.eval_literal` — a literal is one token, which is pushed;
* `Expander.exists_of_expandWith_literal` — what expands to a literal is one token after the constant
  expressions are folded;
* `Emulator.exists_of_tick_set` — what a tick that sets a register stores;
* `Emulator.assignment_agrees` — an expression line records what a register would be set to.
-/

namespace Rpn

theorem Stack.capacity_pos (s : Stack) : 0 < s.capacity := by
  rw [capacity]
  split
  · decide
  · next positive =>
    have large : 0 < s.limit.toInt := Int64.lt_iff_toInt_lt.mp (Int64.not_le.mp positive)
    omega

/-- A literal evaluated on empty stacks is pushed, and was read in no register. -/
theorem Machine.eval_literal (m : Machine) (comma : effectiveDelimiter m.delimiter = 44)
    {text : Bytes} {value : Int32} (read : Literal.parse? text = some value) :
    ∃ m', m.clearStacks.eval text = (m', .ok value) ∧ m'.origin = Register.noCode := by
  have token := Literal.isToken_of_parse? read
  have single : tokens m.clearStacks.delimiter text = [text] := by
    show runs (effectiveDelimiter m.delimiter) (beforeNul text) = [text]
    rw [comma, beforeNul_of_not_mem token.no_nul, runs_of_isToken token]
  have pushed : m.clearStacks.push value Register.noCode =
      (m.clearStacks.above value (originWord Register.noCode), .ok ()) :=
    push_of_lt m.values.clear.capacity_pos m.origins.clear.capacity_pos value Register.noCode
  have ran : m.clearStacks.steps 0 (tokens m.clearStacks.delimiter text) =
      (m.clearStacks.above value (originWord Register.noCode), .ok ()) := by
    have stepped : m.clearStacks.step text = m.clearStacks.push value Register.noCode := by
      rw [step, Symbol.classify_of_parse? read]
    simp only [single, steps, stepped, pushed]
  refine ⟨_, eval_of_steps_ok ?_ ran, rfl⟩
  rw [single]
  exact Nat.le_add_left 1 4095

/-- A text that expands to a literal is one token once its constant expressions are folded: joined
tokens would leave a comma, which no literal holds. -/
theorem Expander.exists_of_expandWith_literal [Constant.Language] {equates : Table Bytes Bytes}
    {delimiter : UInt8} (comma : effectiveDelimiter delimiter = 44) {text out : Bytes} {value : Int32}
    (expanded : expandWith equates delimiter text = .ok out)
    (read : Literal.parse? out = some value) :
    ∃ folded token, foldConstants equates (resolveQuotes text) = .ok folded ∧
      tokens delimiter folded = [token] ∧ out = replacement equates token := by
  have small : effectiveDelimiter delimiter < 128 := by
    rw [comma]
    decide
  obtain ⟨folded, folding, joined⟩ := exists_of_expandWith_ok expanded
  rw [substitute_of_lt small, comma] at joined
  have whole := Literal.isToken_of_parse? read
  refine ⟨folded, ?_⟩
  cases split : tokens delimiter folded with
  | nil =>
    rw [split] at joined
    exact absurd joined whole.nonempty
  | cons token rest =>
    rw [split] at joined
    cases rest with
    | nil => exact ⟨token, folding, rfl, by rw [joined]; simp⟩
    | cons second rest =>
      rw [List.map_cons, List.map_cons, List.intercalate_cons_cons] at joined
      refine absurd ?_ whole.no_delimiter
      rw [joined]
      simp

namespace Emulator

section Language

variable [Constant.Language] {emu emu' : Emulator} {n : Int64} {r : Register} {text : Bytes}
  {more : List Bytes}

/-- A tick that sets a register stores the literal that the text expands to. -/
theorem exists_of_tick_set
    (next : emu.next? = some ⟨n, .directive (ascii ".set") (r.mnemonic :: text :: more)⟩)
    (done : emu.tick = (emu', .ok false)) :
    ∃ out, emu.setting.expansion text = .ok out ∧
      Literal.parse? out = some (emu'.machine.registers.get r) := by
  rcases emu.tick_cases with
    ⟨none, -⟩ | ⟨_, _, _, -, -, failed⟩ | ⟨line, emu₁, found, ran, counted⟩
  · rw [next] at none
    cases none
  · rw [done] at failed
    cases failed
  · obtain rfl := Option.some.inj (next.symm.trans found)
    obtain ⟨rfl, -⟩ := Prod.mk.inj (done.symm.trans counted)
    have set : emu.withNarration.setRegister r text = (emu₁, .ok ()) := by
      rw [← ran]
      show _ = emu.withNarration.directive (ascii ".set") (r.mnemonic :: text :: more)
      rw [directive, if_neg (by decide), if_pos rfl]
      simp only [setDirective, Register.ofMnemonic?_mnemonic]
    -- an expansion does not depend on what is narrated
    have expand : emu.withNarration.expander.expand emu.withNarration.machine.delimiter text =
        (emu.withNarration.expander.ready, emu.setting.expansion text) := rfl
    rw [setRegister, expand] at set
    cases expanded : emu.setting.expansion text with
    | error e =>
      rw [expanded] at set
      cases set
    | ok out =>
      simp only [expanded] at set
      cases read : Literal.parse? out with
      | none =>
        simp only [Literal.parse, read] at set
        cases set
      | some word =>
        simp only [Literal.parse, read] at set
        obtain ⟨rfl, -⟩ := Prod.mk.inj set
        refine ⟨out, rfl, ?_⟩
        show Literal.parse? out = some ((emu.machine.registers.set r word).get r)
        rw [read, Registers.get_set, if_pos rfl]

/-- An expression line whose text expands to a literal records it, read in no register. -/
theorem exists_tick_of_literal (comma : effectiveDelimiter emu.machine.delimiter = 44)
    {out : Bytes} {value : Int32} (next : emu.next? = some ⟨n, .expression text⟩)
    (expanded : emu.setting.expansion text = .ok out) (read : Literal.parse? out = some value) :
    ∃ emu', emu.tick = (emu', .ok false) ∧ emu'.results[n]? = some value ∧
      emu'.machine.origin = Register.noCode := by
  have found : emu.withNarration.next? = some ⟨n, .expression text⟩ := next
  have expand : emu.withNarration.expander.expand emu.withNarration.machine.delimiter text =
      (emu.withNarration.expander.ready, .ok out) := by
    rw [← expanded]
    rfl
  obtain ⟨machine, evaluated, origin⟩ := emu.withNarration.machine.eval_literal comma read
  let emu₁ : Emulator :=
    { emu.withNarration with
      expander := emu.withNarration.expander.ready
      machine
      results := emu.results.insert n value }
  have ran : emu.withNarration.execute ⟨n, .expression text⟩ = (emu₁, .ok ()) := by
    simp only [execute, evaluate, expand, evaluated]
    rfl
  refine ⟨emu₁.counted, ?_, ?_, origin⟩
  · simp only [tick, found, ran]
    rfl
  show (emu.results.insert n value)[n]? = some value
  rw [Table.getElem?_put, if_pos rfl]

/-- **The two ways to give a value agree.**  On an emulator whose expressions are divided by commas,
let a directive set a register to a text.  Had the next line been the text as an expression instead,
it would have been carried out too, with the value that is stored as its result, and that value read
in no register.  For the text is one token once its constant expressions are folded, and expands to a
single token again, which is a literal and neither a register nor an operator. -/
theorem assignment_agrees (emu emu' : Emulator) (program : Option (Array Line)) (n n' : Int64)
    (r : Register) (text : Bytes) (more : List Bytes)
    (comma : effectiveDelimiter emu.machine.delimiter = 44)
    (set : emu.next? = some ⟨n, .directive (ascii ".set") (r.mnemonic :: text :: more)⟩)
    (done : emu.tick = (emu', .ok false))
    (asked : (emu.withProgram program).next? = some ⟨n', .expression text⟩) :
    (∃ after, (emu.withProgram program).tick = (after, .ok false) ∧
      after.results[n']? = some (emu'.machine.registers.get r) ∧
      after.machine.origin = Register.noCode) ∧
    ∃ folded token out,
      Expander.foldConstants emu.expander.table (Expander.resolveQuotes text) = .ok folded ∧
      tokens emu.machine.delimiter folded = [token] ∧
      out = Expander.replacement emu.expander.table token ∧
      (emu.expander.expand emu.machine.delimiter text).2 = .ok out ∧
      tokens emu.machine.delimiter out = [out] ∧
      Symbol.classify out = .literal (emu'.machine.registers.get r) := by
  obtain ⟨out, expanded, read⟩ := exists_of_tick_set set done
  obtain ⟨folded, token, folding, single, replaced⟩ :=
    Expander.exists_of_expandWith_literal comma expanded read
  have whole := Literal.isToken_of_parse? read
  have alone : tokens emu.machine.delimiter out = [out] := by
    rw [tokens, comma, beforeNul_of_not_mem whole.no_nul, runs_of_isToken whole]
  have other : effectiveDelimiter (emu.withProgram program).machine.delimiter = 44 := comma
  exact ⟨exists_tick_of_literal other asked expanded read, folded, token, out, folding, single,
    replaced, expanded, alone, Symbol.classify_of_parse? read⟩

end Language

attribute [local instance] Constant.interpreter

/-- A register set to twice an equate, behind an empty token. -/
theorem assignment_agrees_of_equate :
    let emu : Emulator :=
      { new with
        expander := new.expander.equate (ascii "EOL") (ascii "0x0A")
        program := some #[⟨3, .directive (ascii ".set") [ascii "ebx", ascii ",$(EOL*2)"]⟩] }
    let other := emu.withProgram (some #[⟨7, .expression (ascii ",$(EOL*2)")⟩])
    emu.tick.2 = .ok false ∧ emu.tick.1.machine.registers.get .ebx = 20 ∧
      ∃ after, other.tick = (after, .ok false) ∧ after.results[(7 : Int64)]? = some 20 ∧
        after.machine.origin = Register.noCode := by
  intro emu other
  have answer : emu.tick.2 = .ok false := by decide +kernel
  have stored : emu.tick.1.machine.registers.get .ebx = 20 := by decide +kernel
  have done : emu.tick = (emu.tick.1, .ok false) := by rw [← answer]
  obtain ⟨ticked, -⟩ := assignment_agrees emu emu.tick.1 other.program 3 7 .ebx
    (ascii ",$(EOL*2)") [] (by decide) rfl done rfl
  rw [stored] at ticked
  exact ⟨answer, stored, ticked⟩

end Emulator

end Rpn
