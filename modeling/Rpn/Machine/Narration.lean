import Rpn.Machine
import Rpn.Text.Quoted

/-!
# Narration of a machine

A verbose machine tells what it does, a line for each action.  The lines are a function of the
machine before the action, so that narrating changes nothing.  Numbers are plain here, not
grouped as in messages.
-/

namespace Rpn.Machine

/-- Lines that are told only by a verbose machine. -/
def told (m : Machine) (lines : List Bytes) : List Bytes :=
  if m.verbose then lines else []

/-- What is told when the registers are zeroed. -/
def zeroRegistersNotes (m : Machine) : List Bytes :=
  m.told [ascii "esil: initialize registers"]

/-- What is told when a machine is reset. -/
def resetNotes (m : Machine) : List Bytes :=
  m.told [ascii "esil: reset"]

/-- What is told when an operator, given by number, is applied. -/
def applyNotes (m : Machine) (code : Int64) : List Bytes :=
  m.told [ascii "esil: apply '" ++ Operator.name code ++ ascii "' depth " ++
    decimal m.values.size]

/-- What is told when a token is evaluated: only operators are worth a line. -/
def stepNotes (m : Machine) (token : Bytes) : List Bytes :=
  match Symbol.classify token with
  | .operator op => m.applyNotes op.code
  | _ => []

/-- What is told when tokens are evaluated, up to the first that fails. -/
def stepsNotes (m : Machine) : List Bytes → List Bytes
  | [] => []
  | token :: rest =>
    match m.step token with
    | (_, .error _) => m.stepNotes token
    | (m', .ok ()) => m.stepNotes token ++ stepsNotes m' rest

/-- What is told when an expression is evaluated; nothing where it has too many tokens. -/
def evalNotes (m : Machine) (expr : Bytes) : List Bytes :=
  if m.verbose then
    match tokenize m.delimiter 0 expr with
    | .error _ => []
    | .ok tokens =>
      (ascii "esil: eval " ++ Text.quoted expr ++ ascii " (" ++ decimal tokens.length ++
        ascii " tokens)") :: m.stepsNotes tokens
  else []

end Rpn.Machine
