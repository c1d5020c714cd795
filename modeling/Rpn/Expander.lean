import Rpn.Constant.Language
import Rpn.Error
import Rpn.Expander.Pattern
import Rpn.Literal
import Rpn.Table
import Rpn.Text.Quoted
import Rpn.Tokens

/-!
# The expander

Prepares an expression for evaluation: a quoted character becomes the number of its
byte, a constant expression `$(...)` becomes its value, and a token that names an equate
becomes the text of the equate, which is not expanded again.  The language of constant
expressions is given from outside (`Constant.Language`).

* `Expander.resolveQuotes`, `Expander.foldConstants` and `Expander.substitute` are the three
  passes, and `Expander.expand` is all of them;
* `Expander.predefine` makes an equate that survives `Expander.reset`.
-/

namespace Rpn

/-- The equates that an expression may use. -/
structure Expander where
  /-- The equates; there is no table before the first use or reset. -/
  equates : Option (Table Bytes Bytes) := none
  /-- The equates that every reset begins with. -/
  predefines : Table Bytes Bytes := ∅
  /-- Whether the expander narrates what it does. -/
  verbose : Bool := false
  deriving DecidableEq, Repr

namespace Expander

/-- Drops all equates but the predefined ones. -/
def reset (ex : Expander) : Expander :=
  { ex with equates := some ex.predefines }

/-- The expander with a table of equates, made by a reset where there is none. -/
def ready (ex : Expander) : Expander :=
  if ex.equates.isSome then ex else ex.reset

/-- The equates in force. -/
def table (ex : Expander) : Table Bytes Bytes :=
  ex.equates.getD ex.predefines

/-- Makes an equate that survives resets. -/
def predefine (ex : Expander) (name value : Bytes) : Expander :=
  { ex with
    predefines := ex.predefines.insert name value
    equates := ex.equates.map (·.insert name value) }

/-- Makes an equate. -/
def equate (ex : Expander) (name value : Bytes) : Expander :=
  { ex with equates := some (ex.table.insert name value) }

/-- Drops an equate. -/
def unequate (ex : Expander) (name : Bytes) : Expander :=
  { ex with equates := ex.equates.map (·.erase name) }

/-! ## Quoted characters -/

/-- The byte that a letter behind a backslash stands for. -/
def escape? (letter : UInt8) : Option UInt8 :=
  [((92 : UInt8), (92 : UInt8)), (110, 10), (114, 13), (116, 9), (48, 0), (101, 27)].lookup letter

/-- The byte that the inside of a quoted character stands for. -/
def quotedByte? : Bytes → Option UInt8
  | [b] => if b = 92 then none else some b
  | [b, letter] => if b = 92 then escape? letter else none
  | _ => none

/-- What becomes of a quoted character: the number of its byte, if it stands for one. -/
def quotedNumber (text : Bytes) : Bytes :=
  match quotedByte? ((text.drop 1).dropLast) with
  | some b => decimal b.toNat
  | none => text

/-- Puts the numbers of their bytes for the quoted characters of a text. -/
def resolveQuotes (text : Bytes) : Bytes :=
  (pieces quoteMatch? text).flatMap fun piece =>
    match piece with
    | .byte b => [b]
    | .hit text => quotedNumber text

/-! ## Constant expressions -/

/-- The value that an equate has in constant expressions, which know those whose text is a
literal. -/
def constant? (equates : Table Bytes Bytes) (name : Bytes) : Option Int :=
  (equates[name]?.bind Literal.parse?).map Int32.toInt

/-- The value of a constant expression, reduced to 32 bits. -/
def evaluate [Constant.Language] (equates : Table Bytes Bytes) (text : Bytes) :
    Except Error Int32 :=
  match Constant.Language.run Constant.stepLimit (constant? equates) (Constant.assignment text) with
  | .error failure => .error (.both (.notExpression text) (.constant failure))
  | .ok globals =>
    match globals Constant.resultName with
    | some (.integer n) =>
      if Literal.inRange n then .ok (Int32.ofInt n) else .error (.notExpression text)
    | _ => .error (.notExpression text)

/-- What becomes of a part of a text. -/
def foldPiece [Constant.Language] (equates : Table Bytes Bytes) : Piece → Except Error Bytes
  | .byte b => .ok [b]
  | .hit text => (evaluate equates ((text.drop 2).dropLast)).map fun v => decimal v.toInt

/-- Replaces the constant expressions of a text by their values; of several that have none the
leftmost tells the error. -/
def foldConstants [Constant.Language] (equates : Table Bytes Bytes) (text : Bytes) :
    Except Error Bytes :=
  ((pieces constantMatch? text).mapM (foldPiece equates)).map List.flatten

/-! ## Equates -/

/-- The text of an equate, and any other token itself. -/
def replacement (equates : Table Bytes Bytes) (token : Bytes) : Bytes :=
  equates[token]?.getD token

/-- Replaces the tokens that name equates, and drops empty tokens.  The delimiter is written as
a code point, which takes two bytes from 128 on. -/
def substitute (equates : Table Bytes Bytes) (delimiter : UInt8) (text : Bytes) : Bytes :=
  (Utf8.encode (effectiveDelimiter delimiter).toNat).intercalate
    ((tokens delimiter text).map (replacement equates))

/-- Expands an expression by given equates. -/
def expandWith [Constant.Language] (equates : Table Bytes Bytes) (delimiter : UInt8)
    (expr : Bytes) : Except Error Bytes :=
  (foldConstants equates (resolveQuotes expr)).map (substitute equates delimiter)

/-- Expands an expression, and has a table of equates from then on. -/
def expand [Constant.Language] (ex : Expander) (delimiter : UInt8) (expr : Bytes) :
    Expander × Except Error Bytes :=
  (ex.ready, expandWith ex.table delimiter expr)

/-- The text that an expansion shows: nothing where it fails. -/
def shown : Except Error Bytes → Bytes
  | .ok out => out
  | .error _ => []

/-- What is told when an expression is expanded; nothing where that fails. -/
def expandNotes [Constant.Language] (ex : Expander) (delimiter : UInt8) (expr : Bytes) :
    List Bytes :=
  if ex.verbose then
    match (ex.expand delimiter expr).2 with
    | .error _ => []
    | .ok out => [ascii "esil: expand " ++ Text.quoted expr ++ ascii " => " ++ Text.quoted out]
  else []

theorem table_equate (ex : Expander) (name value : Bytes) :
    (ex.equate name value).table = ex.table.insert name value := rfl

end Expander

end Rpn
