import Rpn.Constant.Interpreter
import Rpn.Proofs.Emulator.Reachable
import Rpn.Proofs.Expander.Passes
import Rpn.Proofs.Machine.Fault

/-!
# Why a line can fail

The errors of a listing that was read from a text are few, and each belongs to some kind of line.

* `Emulator.LineFault` — why a line can fail;
* `Emulator.InUse.lineFault` — a line that fails on an emulator in use has such a fault;
* `Emulator.tick_fault` — what a tick can answer that fails.
-/

namespace Rpn.Emulator

open Machine

/-- Why the statement of a line can fail. -/
inductive LineFault : Statement → Error → Prop
  /-- The name of an equate is taken. -/
  | duplicate {arguments : List Bytes} :
      LineFault (.directive (ascii ".equ") arguments) .equateDuplicate
  /-- There is no such register. -/
  | noRegister {arguments : List Bytes} :
      LineFault (.directive (ascii ".set") arguments) .registerInvalid
  /-- The value for a register is no literal. -/
  | notNumber {arguments : List Bytes} {text : Bytes} :
      LineFault (.directive (ascii ".set") arguments) (.notNumber text)
  /-- A constant expression has no value that is a word. -/
  | notExpression {s : Statement} {text : Bytes} : LineFault s (.notExpression text)
  /-- A constant expression has no value. -/
  | constant {s : Statement} {text : Bytes} {failure : Constant.Failure} :
      LineFault s (.both (.notExpression text) (.constant failure))
  | tokenStorage {text : Bytes} : LineFault (.expression text) .tokenStorage
  /-- There is no token. -/
  | stackEmpty {text : Bytes} : LineFault (.expression text) .stackEmpty
  | token {text token : Bytes} {i : Int64} {cause : Error} :
      TokenFault token cause → LineFault (.expression text) (.atToken i token cause)

/-! ## What the faults exclude -/

/-- An error that blames no directive, and never an operator for a full stack. -/
structure Excludes (e : Error) : Prop where
  directiveInvalid : Error.is .directiveInvalid e = false
  directiveForm : Error.is .directiveForm e = false
  stackFull : ∀ n, Error.is (.operator n) e = true → Error.is .stackFull e = false

theorem excludes_of_tokenFault {token : Bytes} {cause : Error} (fault : TokenFault token cause) :
    Excludes cause := by
  cases fault with
  | unknown _ => exact ⟨rfl, rfl, fun _ _ => rfl⟩
  | full _ => exact ⟨rfl, rfl, fun _ found => by cases found⟩
  | operator known =>
    rcases known with rfl | rfl | rfl <;> exact ⟨rfl, rfl, fun _ _ => rfl⟩

theorem Excludes.atToken {cause : Error} (h : Excludes cause) (i : Int64) (token : Bytes) :
    Excludes (.atToken i token cause) := by
  have wrapped : ∀ target, target ≠ .atToken i token cause →
      Error.is target (.atToken i token cause) = Error.is target cause := by
    intro target other
    simp [Error.is, Error.same, other.symm]
  refine ⟨?_, ?_, ?_⟩
  · rw [wrapped _ (by simp), h.directiveInvalid]
  · rw [wrapped _ (by simp), h.directiveForm]
  · intro n
    rw [wrapped _ (by simp), wrapped _ (by simp)]
    exact h.stackFull n

theorem LineFault.excludes {s : Statement} {e : Error} (fault : LineFault s e) : Excludes e := by
  cases fault with
  | token fault => exact (excludes_of_tokenFault fault).atToken _ _
  | _ => exact ⟨rfl, rfl, fun _ _ => rfl⟩

/-! ## Lines that fail -/

variable {emu emu' : Emulator} {line : Line} {e : Error}

theorem mem_lines_of_next? (found : emu.next? = some line) : line ∈ emu.lines :=
  Array.mem_of_getElem? found

section Language

variable [Constant.Language]

theorem lineFault_of_expansion {s : Setting} {text : Bytes} (failed : s.expansion text = .error e)
    (statement : Statement) : LineFault statement e := by
  obtain ⟨_, rfl | ⟨_, rfl⟩⟩ := Expander.expandWith_error failed
  · exact .notExpression
  · exact .constant

/-- A well-formed statement is refused only for a fault of its line. -/
theorem Refusal.lineFault {s : Statement} (refusal : Refusal emu s e) (wellFormed : s.WellFormed) :
    LineFault s e := by
  cases refusal with
  | duplicate _ => exact .duplicate
  | equate _ failed => exact lineFault_of_expansion failed _
  | noRegister _ => exact .noRegister
  | set _ failed => exact lineFault_of_expansion failed _
  | notNumber _ _ _ => exact .notNumber
  | expression failed => exact lineFault_of_expansion failed _
  | form few =>
    -- every directive that is read has two arguments, and is one of the two that there are
    cases wellFormed with
    | directive _ _ _ _ _ _ _ _ _ => exact absurd few (Nat.lt_irrefl 2)
  | unknown notEqu notSet =>
    cases wellFormed with
    | directive known _ _ _ _ _ _ _ _ => exact absurd known (not_or.mpr ⟨notEqu, notSet⟩)

/-- A line that fails on an emulator in use has a fault. -/
theorem InUse.lineFault (used : emu.InUse) (mem : line ∈ emu.lines)
    (effect : LineEffect emu line emu' (.error e)) : LineFault line.statement e := by
  cases effect with
  | refused refusal => exact refusal.lineFault (used.wellFormed line mem)
  | failed statement _ ran =>
    have aligned := aligned_clearStacks used.machine_reset
    rw [statement]
    rcases aligned.eval_fault (congrArg Prod.snd ran) with
      ⟨rfl, -⟩ | ⟨rfl, -, -⟩ | ⟨i, token, cause, rfl, -, fault⟩
    · exact .tokenStorage
    · exact .stackEmpty
    · exact .token fault

/-! ## Ticks that fail -/

theorem not_refusal_stackEmpty {s : Statement} : ¬ Refusal emu s .stackEmpty := by
  have expands : ∀ text, emu.setting.expansion text ≠ .error .stackEmpty := by
    intro text failed
    obtain ⟨_, other | ⟨_, other⟩⟩ := Expander.expandWith_error failed <;> cases other
  intro refusal
  cases refusal with
  | equate _ failed => exact expands _ failed
  | set _ failed => exact expands _ failed
  | expression failed => exact expands _ failed

/-- A line finds the stacks empty, without a token to blame, exactly if it is an expression that
expands to no token. -/
theorem InUse.execute_stackEmpty_iff (used : emu.InUse) (line : Line) :
    (emu.execute line).2 = .error .stackEmpty ↔
      ∃ text expr, line.statement = .expression text ∧ emu.setting.expansion text = .ok expr ∧
        tokens emu.machine.delimiter expr = [] := by
  have aligned := aligned_clearStacks used.machine_reset
  constructor
  · intro failed
    rcases done : emu.execute line with ⟨emu', answer⟩
    rw [done] at failed
    have effect := used.hasTable.lineEffect done
    rw [show answer = .error .stackEmpty from failed] at effect
    cases effect with
    | refused refusal => exact absurd refusal not_refusal_stackEmpty
    | failed statement expanded ran =>
      have none := (aligned.eval_stackEmpty_iff.mp (congrArg Prod.snd ran)).1
      exact ⟨_, _, statement, expanded, none⟩
  · rintro ⟨text, expr, statement, expanded, none⟩
    have empty : (emu.machine.clearStacks.eval expr).2 = .error .stackEmpty :=
      aligned.eval_stackEmpty_iff.mpr ⟨none, rfl⟩
    have ran : emu.machine.clearStacks.eval expr =
        ((emu.machine.clearStacks.eval expr).1, .error .stackEmpty) := by rw [← empty]
    rw [execute, statement]
    simp only [Emulator.evaluate, used.hasTable.expand_of_eq expanded]
    rw [ran]

theorem tick_of_next? (found : emu.next? = some line) :
    emu.tick.2 = .error (.atLine line.number e) ↔ (emu.withNarration.execute line).2 = .error e := by
  rcases emu.tick_cases with
    ⟨none, -⟩ | ⟨line', _, cause, found', done, eq⟩ | ⟨line', _, found', done, eq⟩
  · rw [found] at none
    cases none
  · obtain rfl : line = line' := Option.some.inj (found.symm.trans found')
    rw [eq, done]
    simp
  · obtain rfl : line = line' := Option.some.inj (found.symm.trans found')
    rw [eq, done]
    simp

/-- **The errors of a listing are few.**  On any emulator in use, the next line has two arguments if
it is a directive, and one of two names; a tick that fails tells the line and a fault of it, and
blames neither the form of a directive nor an operator for a full stack.  That the stacks are empty
is told without a token exactly if an expression expands to no token. -/
theorem tick_fault (reachable : Reachable emu) :
    (∀ line name arguments, emu.next? = some line → line.statement = .directive name arguments →
      (name = ascii ".equ" ∨ name = ascii ".set") ∧ arguments.length = 2) ∧
    (∀ emu' e, emu.tick = (emu', .error e) →
      ∃ line cause, emu.next? = some line ∧ e = .atLine line.number cause ∧
        LineFault line.statement cause ∧
        Error.is .directiveInvalid e = false ∧ Error.is .directiveForm e = false ∧
        ∀ n, Error.is (.operator n) e = true → Error.is .stackFull e = false) ∧
    ∀ line, emu.next? = some line →
      (emu.tick.2 = .error (.atLine line.number .stackEmpty) ↔
        ∃ text expr, line.statement = .expression text ∧
          (emu.expander.expand emu.machine.delimiter text).2 = .ok expr ∧
          tokens emu.machine.delimiter expr = []) := by
  have used := reachable.inUse
  have told := used.withNarration
  refine ⟨?_, ?_, ?_⟩
  · intro line name arguments found statement
    have wellFormed := used.wellFormed line (mem_lines_of_next? found)
    rw [statement] at wellFormed
    cases wellFormed with
    | directive known _ _ _ _ _ _ _ _ => exact ⟨known, rfl⟩
  · intro emu' e failed
    rcases emu.tick_cases with ⟨-, eq⟩ | ⟨line, _, cause, found, done, eq⟩ | ⟨_, _, -, -, eq⟩ <;>
      rw [eq] at failed <;> cases failed
    have fault := told.lineFault (mem_lines_of_next? found) (told.hasTable.lineEffect done)
    obtain ⟨invalid, form, full⟩ := fault.excludes
    exact ⟨line, cause, found, rfl, fault, invalid, form, full⟩
  · intro line found
    exact (tick_of_next? found).trans (told.execute_stackEmpty_iff line)

end Language

attribute [local instance] Constant.interpreter

/-- A lone comma is an expression without tokens. -/
theorem tick_fault_of_comma :
    let emu := new.load [⟨1, .expression (ascii ",")⟩]
    Reachable emu ∧ emu.tick.2 = .error (.atLine 1 .stackEmpty) ∧
      LineFault (.expression (ascii ",")) .stackEmpty := by
  intro emu
  have read : Listing.parse (ascii ",") = .ok [⟨1, .expression (ascii ",")⟩] := by rfl
  have reachable : Reachable emu := .load .new read
  obtain ⟨-, faults, bare⟩ := tick_fault reachable
  have answer : emu.tick.2 = .error (.atLine 1 .stackEmpty) :=
    (bare ⟨1, .expression (ascii ",")⟩ rfl).mpr ⟨ascii ",", [], rfl, by decide, by decide⟩
  have failed : emu.tick = (emu.tick.1, .error (.atLine 1 .stackEmpty)) := by rw [← answer]
  obtain ⟨line, cause, found, same, fault, -⟩ := faults _ _ failed
  cases found
  cases same
  exact ⟨reachable, answer, fault⟩

end Rpn.Emulator
