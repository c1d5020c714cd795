import Rpn.Expander
import Rpn.Listing
import Rpn.Machine

/-!
# The emulator

Runs a listing line by line on a machine.  An expression starts on empty stacks, and its value
is recorded under the number of its line; directives name equates and set registers.  A line
that fails leaves the emulator at that line.

* `Emulator.tick` runs one line, `Emulator.run` all lines that are left;
* `Emulator.reset` goes back to the state of a new emulator, with the listing kept.
-/

namespace Rpn

/-- A machine, an expander and a listing that runs on them. -/
structure Emulator where
  /-- Whether the emulator narrates what it does. -/
  verbose : Bool := false
  machine : Machine
  expander : Expander
  /-- The listing, if one is loaded. -/
  program : Option (Array Line) := some #[]
  /-- The value of each expression line that was run, by its number. -/
  results : Table Int64 Int32 := ∅
  /-- The place of the next line in the listing. -/
  index : Nat := 0
  /-- The number of lines that were run since the last reset. -/
  ticks : Nat := 0
  deriving DecidableEq, Repr

namespace Emulator

/-- The depth of the stacks. -/
def stackDepth : Nat := 64

/-- The equates that every listing can use. -/
def defines : List (Bytes × Bytes) :=
  (ascii "STACK_DEPTH", decimal stackDepth) :: Machine.defines

/-- Goes back to the beginning: registers, stacks, equates and results. -/
def reset (emu : Emulator) : Emulator :=
  { emu with
    machine := emu.machine.reset
    expander := emu.expander.reset
    results := ∅
    index := 0
    ticks := 0 }

/-- A new emulator. -/
def new : Emulator :=
  reset
    { machine := Machine.ofDepth (UInt64.ofNat stackDepth)
      expander := defines.foldl (fun ex entry => ex.predefine entry.1 entry.2) {} }

/-- The lines of the listing. -/
def lines (emu : Emulator) : Array Line :=
  emu.program.getD #[]

/-- The next line. -/
def next? (emu : Emulator) : Option Line :=
  emu.lines[emu.index]?

/-- The lines that are left to run. -/
def remaining (emu : Emulator) : List Line :=
  emu.lines.toList.drop emu.index

/-- The number of the next line, and 0 when there is none. -/
def lineNumber (emu : Emulator) : Int64 :=
  (emu.next?.map Line.number).getD 0

/-- The emulator whose parts narrate if it does. -/
def withNarration (emu : Emulator) : Emulator :=
  { emu with
    machine := { emu.machine with verbose := emu.verbose }
    expander := { emu.expander with verbose := emu.verbose } }

/-- Names the expansion of a text. -/
def equate [Constant.Language] (emu : Emulator) (name text : Bytes) :
    Emulator × Except Error Unit :=
  match emu.expander.expand emu.machine.delimiter text with
  | (expander, .error e) => ({ emu with expander }, .error e)
  | (expander, .ok value) => ({ emu with expander := expander.equate name value }, .ok ())

/-- Sets a register to the literal that a text expands to. -/
def setRegister [Constant.Language] (emu : Emulator) (r : Register) (text : Bytes) :
    Emulator × Except Error Unit :=
  match emu.expander.expand emu.machine.delimiter text with
  | (expander, .error e) => ({ emu with expander }, .error e)
  | (expander, .ok value) =>
    match Literal.parse value with
    | .error e => ({ emu with expander }, .error e)
    | .ok word =>
      ({ emu with
          expander
          machine := { emu.machine with registers := emu.machine.registers.set r word } },
        .ok ())

/-- Names the text behind a name, unless the name is taken.  A directive that lacks an argument,
which no listing that was read holds, is answered by the error for a wrong form, where an unchecked
access would panic.  While there is no table of equates the predefined names count as taken, where a
look-up in no table would find none. -/
def equateDirective [Constant.Language] (emu : Emulator) :
    List Bytes → Emulator × Except Error Unit
  | [] => (emu, .error .directiveForm)
  | name :: texts =>
    if emu.expander.table.contains name then (emu, .error .equateDuplicate)
    else
      match texts with
      | [] => (emu, .error .directiveForm)
      | text :: _ => emu.equate name text

/-- Sets a register to the text behind its name.  A directive that lacks an argument is answered by
the error for a wrong form here as well, where an unchecked access would panic. -/
def setDirective [Constant.Language] (emu : Emulator) :
    List Bytes → Emulator × Except Error Unit
  | [] => (emu, .error .directiveForm)
  | name :: texts =>
    match Register.ofMnemonic? name, texts with
    | none, _ => (emu, .error .registerInvalid)
    | some _, [] => (emu, .error .directiveForm)
    | some r, text :: _ => emu.setRegister r text

/-- Carries out a directive.  What its first argument names is looked at before there need be a
second. -/
def directive [Constant.Language] (emu : Emulator) (name : Bytes) (arguments : List Bytes) :
    Emulator × Except Error Unit :=
  if name = ascii ".equ" then emu.equateDirective arguments
  else if name = ascii ".set" then emu.setDirective arguments
  else (emu, .error .directiveInvalid)

/-- Evaluates the expression of a line on empty stacks and records its value.  The stacks are
emptied only when the expansion has succeeded. -/
def evaluate [Constant.Language] (emu : Emulator) (number : Int64) (text : Bytes) :
    Emulator × Except Error Unit :=
  match emu.expander.expand emu.machine.delimiter text with
  | (expander, .error e) => ({ emu with expander }, .error e)
  | (expander, .ok expr) =>
    match emu.machine.clearStacks.eval expr with
    | (machine, .error e) => ({ emu with expander, machine }, .error e)
    | (machine, .ok value) =>
      ({ emu with expander, machine, results := emu.results.insert number value }, .ok ())

/-- Carries out the statement of a line. -/
def execute [Constant.Language] (emu : Emulator) (line : Line) :
    Emulator × Except Error Unit :=
  match line.statement with
  | .expression text => emu.evaluate line.number text
  | .directive name arguments => emu.directive name arguments

/-- Runs the next line, and answers whether there was none left. -/
def tick [Constant.Language] (emu : Emulator) : Emulator × Except Error Bool :=
  let emu := emu.withNarration
  match emu.next? with
  | none => (emu, .ok true)
  | some line =>
    match emu.execute line with
    | (emu, .error e) => (emu, .error (.atLine line.number e))
    | (emu, .ok ()) => ({ emu with index := emu.index + 1, ticks := emu.ticks + 1 }, .ok false)

/-- Runs lines until none is left, one fails, or `n` were tried. -/
def runFor [Constant.Language] : Nat → Emulator → Emulator × Except Error Unit
  | 0, emu => (emu, .ok ())
  | n + 1, emu =>
    match emu.tick with
    | (emu, .error e) => (emu, .error e)
    | (emu, .ok true) => (emu, .ok ())
    | (emu, .ok false) => runFor n emu

/-- Runs all lines that are left, up to the first that fails.  The last of the trials finds
that no line is left. -/
def run [Constant.Language] (emu : Emulator) : Emulator × Except Error Unit :=
  runFor (emu.lines.size - emu.index + 1) emu

theorem head?_remaining (emu : Emulator) : emu.remaining.head? = emu.next? := by
  simp [remaining, next?]

theorem length_remaining (emu : Emulator) :
    emu.remaining.length = emu.lines.size - emu.index := by
  simp [remaining]

theorem remaining_withNarration (emu : Emulator) : emu.withNarration.remaining = emu.remaining :=
  rfl

theorem lineNumber_of_remaining {emu : Emulator} {line : Line} {rest : List Line}
    (h : emu.remaining = line :: rest) : emu.lineNumber = line.number := by
  simp [lineNumber, ← head?_remaining, h]

end Emulator

end Rpn
