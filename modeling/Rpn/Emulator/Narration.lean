import Rpn.Emulator
import Rpn.Machine.Narration

/-!
# Narration of an emulator

What a verbose emulator tells, a line for each action, as a function of the emulator before
the action.
-/

namespace Rpn.Emulator

/-- What is told when an emulator is reset. -/
def resetNotes (emu : Emulator) : List Bytes :=
  emu.machine.resetNotes

/-- What is told when a directive is carried out: how its value was expanded, if it came to
that. -/
def directiveNotes [Constant.Language] (emu : Emulator) (name : Bytes) (arguments : List Bytes) :
    List Bytes :=
  match arguments with
  | first :: second :: _ =>
    if (name = ascii ".equ" && !emu.expander.table.contains first) ||
        (name = ascii ".set" && (Register.ofMnemonic? first).isSome) then
      emu.expander.expandNotes emu.machine.delimiter second
    else []
  | _ => []

/-- What is told when an expression is evaluated: its expansion, its evaluation and its
value. -/
def evaluateNotes [Constant.Language] (emu : Emulator) (number : Int64) (text : Bytes) :
    List Bytes :=
  emu.expander.expandNotes emu.machine.delimiter text ++
    match (emu.expander.expand emu.machine.delimiter text).2 with
    | .error _ => []
    | .ok expr =>
      emu.machine.clearStacks.evalNotes expr ++
        match (emu.machine.clearStacks.eval expr).2 with
        | .error _ => []
        | .ok value =>
          if emu.verbose then
            [decimal number.toInt ++ ascii ": " ++ text ++ ascii " => " ++ decimal value.toInt]
          else []

/-- What is told when a line is run by an emulator whose parts narrate. -/
def lineNotes [Constant.Language] (emu : Emulator) (line : Line) : List Bytes :=
  match line.statement with
  | .expression text => emu.evaluateNotes line.number text
  | .directive name arguments => emu.directiveNotes name arguments

/-- What is told when the next line is run: nothing by a silent emulator, whose parts are silent
while it runs. -/
def tickNotes [Constant.Language] (emu : Emulator) : List Bytes :=
  if emu.verbose then (emu.next?.map emu.withNarration.lineNotes).getD [] else []

/-- What is told while lines are run, `n` trials at most. -/
def runNotesFor [Constant.Language] : Nat → Emulator → List Bytes
  | 0, _ => []
  | n + 1, emu =>
    emu.tickNotes ++
      match emu.tick with
      | (emu, .ok false) => runNotesFor n emu
      | _ => []

/-- What is told while all lines that are left are run: nothing by a silent emulator. -/
def runNotes [Constant.Language] (emu : Emulator) : List Bytes :=
  if emu.verbose then runNotesFor (emu.lines.size - emu.index + 1) emu else []

end Rpn.Emulator
